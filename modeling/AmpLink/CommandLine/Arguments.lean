import AmpLink.CommandLine.Parser
import AmpLink.Device

/-!
# Arguments

The command line as typed values. An option that may stand before and behind the command counts as given
behind it first; the port may also come from the environment, and what is not given has its standard
value.
-/

namespace AmpLink

/-- Which devices a command talks to. -/
structure Targets where
  addresses : List String
  /-- Also every device that discovery finds. -/
  discover : Bool
  interfaces : List String
  deriving DecidableEq, Repr

/-- A command with its arguments. -/
inductive Invocation where
  /-- Watches for devices, for a number of seconds if one is given. -/
  | discover (interfaces : List String) (seconds : Option UInt64)
  | ping (targets : Targets) (dump : Bool)
  | recall (targets : Targets) (preset : UInt8) (again : Bool)
  | volume (targets : Targets) (volume : Binary32) (again : Bool)
  | simulate (address : String) (interface : Option String) (deviceId : DeviceId)
  deriving DecidableEq, Repr

structure Arguments where
  json : Bool
  port : UInt16
  component : UInt8
  verbose : Bool
  invocation : Invocation
  deriving DecidableEq, Repr

namespace CommandLine

namespace Reading

/-- Given at either place. -/
def has (r : Reading) (o : Opt) : Bool := r.behind.has o || r.before.has o

/-- The value given behind the command, or else before it. -/
def value? (r : Reading) (o : Opt) : Option String := (r.behind.value? o).or (r.before.value? o)

def targets (r : Reading) : Targets :=
  { addresses := r.behind.values .addresses, discover := r.behind.has .discover,
    interfaces := r.behind.values .interface }

def invocation? (r : Reading) : Option Invocation :=
  match r.verb with
  | .discover =>
    match r.behind.value? .duration with
    | none => some (.discover (r.behind.values .interface) none)
    | some s => (seconds? s).map fun n => .discover (r.behind.values .interface) (some n)
  | .ping => some (.ping r.targets (r.behind.has .dump))
  | .recall => do
    let preset ← r.behind.value? .preset >>= preset?
    return .recall r.targets preset (r.behind.has .repeat)
  | .volume => do
    let v ← r.behind.value? .volume >>= volume?
    return .volume r.targets v (r.behind.has .repeat)
  | .simulate => do
    let id ← match r.behind.value? .uniqueId with
      | none => some .standard
      | some s => uniqueId? s
    return .simulate ((r.behind.value? .address).getD "0.0.0.0") (r.behind.value? .interface) id

end Reading

/-- Reads a command line; `environment` is the port that the environment gives. -/
def parse (environment : Option String) (words : List String) : Except Fault Arguments := do
  let r ← read environment words
  let arguments? : Option Arguments := do
    let port ← match (r.value? .port).or environment with
      | none => some defaultPort
      | some s => port? s
    let component ← match r.value? .component with
      | none => some standardComponent
      | some s => component? s
    let invocation ← r.invocation?
    return { json := r.has .json, port, component, verbose := r.has .verbose, invocation }
  match arguments? with
  | some a => .ok a
  | none => .error .badValue

end CommandLine
end AmpLink
