import AmpLink.Client.FanOut
import AmpLink.Client.Message
import AmpLink.CommandLine.Arguments
import AmpLink.Net.Resolve

/-!
# From arguments to a plan

What a command will do, decided before anything runs: bad volumes, addresses that name nothing, missing
targets and devices that are named twice are refused here.
-/

namespace AmpLink

/-- A command for devices. -/
structure ControlPlan where
  command : Command
  /-- The command is given again and again. -/
  repeats : Bool
  /-- Received datagrams are dumped. -/
  dump : Bool
  /-- The devices that are named, in order. -/
  addresses : List SocketAddress
  /-- One client for each of them. -/
  fixed : FanOut
  /-- Devices are looked for on these interfaces too. -/
  discover : Option (List String)

inductive Plan where
  /-- Watches for devices, for a number of seconds if one is given. -/
  | watch (interfaces : List String) (seconds : Option Nat)
  | control (p : ControlPlan)
  | simulate (address : SocketAddress) (interface : Option String) (device : Device)

/-- One client for each address, in order. Nobody is talked to twice. -/
def FanOut.ofAddresses (addresses : List SocketAddress) : Except ClientError FanOut :=
  addresses.zipIdx.foldlM (fun f (a, i) => f.add [] (.leaf i (clientName a) [])) .start

namespace Plan

variable (resolver : Resolver)

/-- The plan of a command for targets. -/
def control? (t : Targets) (port : UInt16) (command : Command) (repeats dump : Bool) :
    Except CommandError Plan := do
  let addresses ← (Resolve.addresses resolver (t.addresses.map String.toList) port).mapError .argument
  if addresses.isEmpty && !t.discover then throw (.argument .noDevices)
  let fixed ← (FanOut.ofAddresses addresses).mapError fun e => .run (.client e)
  return .control
    { command, repeats, dump, addresses, fixed, discover := if t.discover then some t.interfaces else none }

def ofArguments (a : Arguments) : Except CommandError Plan :=
  match a.invocation with
  | .discover interfaces seconds => .ok (.watch interfaces (seconds.map UInt64.toNat))
  | .ping targets dump => control? resolver targets a.port .ping true dump
  | .recall targets preset again => control? resolver targets a.port (.recall preset) again false
  | .volume targets v again =>
    match MasterVolume.ofVolume v with
    | .error _ => .error (.argument (.volume v))
    | .ok _ => control? resolver targets a.port (.volume v) again false
  | .simulate address interface deviceId => do
    let address ← (Resolve.address resolver address.toList a.port).mapError .argument
    return .simulate address interface { deviceId, component := a.component }

end Plan
end AmpLink
