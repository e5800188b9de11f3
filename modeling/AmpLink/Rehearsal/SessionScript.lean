import AmpLink.Rehearsal.DiscoveryScript
import AmpLink.Rehearsal.EndpointScript
import AmpLink.Rehearsal.Offline
import AmpLink.Session.Controller
import AmpLink.Session.Plan
import AmpLink.Session.Watch

/-!
# Rehearsing a command

A whole command is played where the network is down: what is written to a device fails at once and
nothing arrives. Discovery runs over the interfaces and stand-ins of a script, and somebody interrupts at
an instant.
-/

namespace AmpLink.SessionScript

/-- What is to be rehearsed besides the arguments. -/
structure Scene where
  interfaces : List NetInterface
  script : List DiscoveryScript.Step
  /-- The script also sends datagrams to the device that the command simulates. -/
  sends : Bool
  /-- The instant of the interrupt. -/
  interruptAt : Nat
  /-- The time that every output shows. -/
  stamp : Timestamp
  /-- The second of the clock at which the command begins. -/
  second : Fin (Limits.maxSecond + 1) := 0
  deriving Repr

/-- Why a scene cannot be played. -/
inductive Fault where
  /-- A client is to hand something on, and there is none. -/
  | noClient
  /-- A datagram is to be sent. -/
  | networkDown
  deriving DecidableEq, Repr

def Fault.message : Fault → String
  | noClient => "no client"
  | networkDown => EndpointScript.down

/-- How a command was played. -/
structure Transcript where
  /-- How the command ended, unless it broke off. -/
  result : Except Breach (Except CommandError Unit)
  /-- The command ended before the interrupt. -/
  early : Bool
  printed : List Line
  /-- The address that a simulated device got. -/
  bound : Option SocketAddress
  deriving Repr

/-- The end of a command that has not begun. -/
def Transcript.refused (e : CommandError) : Transcript :=
  { result := .ok (.error e), early := true, printed := [], bound := none }

/-- The end of a command at a setting that cannot be used. -/
def Transcript.brokenOff (b : Breach) : Transcript :=
  { result := .error b, early := true, printed := [], bound := none }

/-- The end of a command at an instant. -/
def Transcript.ended (r : Outcome) (early : Bool) (printed : List Line) : Transcript :=
  { result := .ok (r.mapError .run), early, printed, bound := none }

/-- The instant of the interrupt: the script comes first. -/
def Scene.interrupt (scene : Scene) : Nat := DiscoveryScript.lastTime scene.script scene.interruptAt

/-- A deed that there has to be a client for. -/
def needsClient (step : DiscoveryScript.Step) : Bool :=
  match step.deed with
  | .exit .. | .inject .. => true
  | _ => false

/-- The end of a command during which no client can be found. -/
def Scene.withoutClients (scene : Scene) (t : Transcript) : Except Fault Transcript :=
  if scene.script.any needsClient then .error .noClient else .ok t

/-- Discovery on some of the interfaces, stopped at an instant. -/
def discovery (scene : Scene) (port : UInt16) (allowed : List String) (cancelAt : Nat) :
    Except Breach DiscoveryScript.State :=
  DiscoveryScript.play {
    config := { DiscoveryConfig.withPort port with allowedInterfaces := allowed }
    eventsCapacity := receivedCapacity, linger := 0, interfaces := scene.interfaces, script := scene.script,
    cancelAt }

/-- How a discovery run has ended and when. -/
def ending (s : DiscoveryScript.State) : Nat × Outcome := s.result?.getD (s.now, .ok ())

/-! ## Watching -/

/-- The steps of a watcher of a discovery run: it takes every event as soon as it is accepted. -/
def watchActions (stamp : Timestamp) (events : List PeerEvent) (r : Outcome) : List Watch.Action :=
  events.flatMap (fun e => [.accept e, .take stamp]) ++ [.endRun r, .notice, .finish]

def watch (scene : Scene) (port : UInt16) (allowed : List String) (seconds : Option Nat) :
    Except Breach (Except Fault Transcript) := do
  let _ ← Limits.deadline scene.second (seconds.getD 0)
  let cancelAt := match seconds with
    | some n => min (n * 1000) scene.interrupt
    | none => scene.interrupt
  let s ← discovery scene port allowed cancelAt
  if !s.missed.isEmpty then return .error .noClient
  let (time, r) := ending s
  let w := (Watch.start seconds.isSome).steps (watchActions scene.stamp (s.consumed.map (·.2)) r)
  return .ok (.ended r (decide (time < scene.interrupt)) ((w.map (·.printed)).getD []))

/-! ## Giving commands -/

/-- How the client of an address ends that is run with one command in its queue. -/
def clientOutcome (a : SocketAddress) (component : UInt8) (c : Command) : Except Breach Outcome := do
  let client ← Endpoint.State.new
    { destination := a, interface := none, component, config := .standard }
  let s : EndpointScript.State := { client := client.callAll [c], job := none }
  let s := s.launch.wait
  match s.job with
  | some (.ended r) => return r
  | _ => return .ok ()

/-- How the clients of the devices that were named end, and the group of them. -/
def fixedOutcome (p : ControlPlan) (component : UInt8) : Except Breach Outcome := do
  let outcomes ← p.addresses.mapM fun a => clientOutcome a component p.command
  let fan := outcomes.zipIdx.foldl (fun f (r, i) => f.finish [i] r) p.fixed.run
  return fan.results.head?.getD (.ok ())

/-- What a controller deals with, by time: the events of a discovery run, and the ticks up to its end. -/
def inputs (stamp : Timestamp) (events : List (Nat × PeerEvent)) (stop : Nat) : List Controller.Input :=
  let ticks : List (Nat × Controller.Input) :=
    (List.range (stop / commandInterval)).map fun k => ((k + 1) * commandInterval, .tick)
  let events : List (Nat × Controller.Input) := events.map fun (t, e) => (t, .event stamp e)
  ((events ++ ticks).mergeSort fun a b => a.1 ≤ b.1).map (·.2)

/-- The tasks of the command: the clients of the named devices, the controller and discovery. -/
def fixedTask : Nat := 0
def controllerTask : Nat := 1
def discoveryTask : Nat := 2

def control (scene : Scene) (port : UInt16) (component : UInt8) (p : ControlPlan) :
    Except Breach (Except Fault Transcript) := do
  let fixed ← fixedOutcome p component
  let cancelAt := if fixed.toBool then scene.interrupt else 0
  let (token, tokens) := TokenForest.empty.root
  match p.discover with
  | none =>
    let r := ((TaskGroup.start token 2).finishAll tokens
      [(fixedTask, fixed), (controllerTask, .ok ())]).1.result?
    return scene.withoutClients (.ended (r.getD (.ok ())) (decide (cancelAt < scene.interrupt)) [])
  | some allowed =>
    let s ← discovery scene port allowed cancelAt
    if !s.missed.isEmpty then return .error .noClient
    let (time, found) := ending s
    let c := (Controller.start p.command p.repeats p.dump p.addresses).handleAll
      (inputs scene.stamp s.consumed time)
    let r := ((TaskGroup.start token 3).finishAll tokens
      [(fixedTask, fixed), (discoveryTask, found), (controllerTask, .ok ())]).1.result?
    return .ok (.ended (r.getD (.ok ())) (decide (time < scene.interrupt)) c.shutDown.printed)

/-! ## Simulating a device -/

/-- A port that the host chooses. -/
def hostPort : UInt16 := 45000

/-- The address that a socket is bound to: an address of version 4 of this host. -/
def bind? (a : SocketAddress) (interface : Option String) : Option SocketAddress :=
  match a, interface with
  | .v4 ip port, none =>
    if ip.isLoopback ∨ ip = .unspecified then some (.v4 ip (if port = 0 then hostPort else port)) else none
  | _, _ => none

def simulate (scene : Scene) (a : SocketAddress) (interface : Option String) (d : Device) :
    Except Fault Transcript :=
  match bind? a interface with
  | none => .ok (.refused (.run (.io "Cannot assign requested address (os error 99)")))
  | some a =>
    if scene.sends then .error .networkDown
    else
      .ok { result := .ok (.ok ()), early := false, bound := some a, printed := [
        .notice ("Simulating device " ++ d.deviceId.hex ++ " on " ++ a.text ++ " (press Ctrl+C to stop)"),
        .device a.text .initial] }

/-! ## Any command -/

/-- How a command is played that uses settings before it prints anything. -/
def Scene.using (scene : Scene) : Except Breach (Except Fault Transcript) → Except Fault Transcript
  | .ok r => r
  | .error b => scene.withoutClients (.brokenOff b)

def play (scene : Scene) (a : Arguments) : Except Fault Transcript :=
  match Plan.ofArguments .offline a with
  | .error e => scene.withoutClients (.refused e)
  | .ok (.watch allowed seconds) => scene.using (watch scene a.port allowed seconds)
  | .ok (.control p) => scene.using (control scene a.port a.component p)
  | .ok (.simulate address interface device) => simulate scene address interface device

/-- The style of the outputs of a command. A rehearsal is not coloured. -/
def style (a : Arguments) : ReportStyle := if a.json then .json else .table false

/-- The texts that were printed. -/
def Transcript.texts (t : Transcript) (style : ReportStyle) : List String := t.printed.map (·.text style)

end AmpLink.SessionScript
