import AmpLink.Discovery.Run
import AmpLink.Rehearsal.ManagerScript

/-!
# Rehearsing a discovery run

A discovery run over interfaces and stand-ins is played from a script in virtual time. Everything that
is possible at an instant is carried out before the clock jumps to the next one; events are taken as soon
as they are there.
-/

namespace AmpLink.DiscoveryScript

open Discovery

inductive Deed where
  /-- From now on these are the interfaces. -/
  | interfaces (l : List NetInterface)
  /-- One more scan will fail. -/
  | failScan (error : String)
  /-- One more making of a client will fail. -/
  | failMaking (interface error : String)
  /-- The newest running client of an interface is told to end. -/
  | exit (interface : String) (r : Outcome)
  /-- The newest running client of an interface hands a datagram on, with the name of the interface or
  without. -/
  | inject (interface : String) (remote : SocketAddress) (data : Bytes) (named : Bool)
  /-- Whoever takes the events goes away. -/
  | closeEvents
  deriving Repr

structure Step where
  time : Nat
  deed : Deed
  deriving Repr

structure State where
  run : Run
  standIns : List StandIn
  workshop : Workshop
  interfaces : List NetInterface
  /-- Scans that will fail, and why. Each fault counts once. -/
  scanFaults : List String
  script : List Step
  /-- The instant at which the run is cancelled, unless it has been. At that instant the script comes
  first. -/
  cancelAt : Option Nat
  /-- The instants at which there was no client for a deed. -/
  missed : List Nat
  deriving Repr

namespace State

def now (s : State) : Nat := s.run.now

/-- The number of the newest running client of an interface. -/
def newest? (s : State) (interface : String) : Option Nat :=
  (List.range s.standIns.length).reverse.find? fun i =>
    (s.standIns[i]?.any (·.isRunning)) && (s.run.manager.clients[i]?.any (·.interface = interface))

def miss (s : State) : State := { s with missed := s.missed ++ [s.now] }

/-- Takes a step of the run, if it is possible. -/
def take (s : State) (a : Run.Action) : Option State := (s.run.step a).map fun run => { s with run }

def perform (s : State) : Deed → State
  | .interfaces l => { s with interfaces := l }
  | .failScan error => { s with scanFaults := s.scanFaults ++ [error] }
  | .failMaking interface error => { s with workshop := s.workshop.sabotage interface error }
  | .exit interface r =>
    match s.newest? interface with
    | none => s.miss
    | some i => { s with standIns := s.standIns.modify i (·.tell r) }
  | .inject interface remote data named =>
    match s.newest? interface with
    | none => s.miss
    | some i =>
      let name := (s.standIns[i]?.map (·.name)).getD ""
      let m := Message.ofDatagram data remote (if named then some interface else none) name
      (s.take (.deliver i m)).getD s.miss
  | .closeEvents => (s.take .closeEvents).getD s

/-- The cancellation, if its instant has come. -/
def cancel? (s : State) : Option State :=
  match s.cancelAt with
  | some t => if t ≤ s.now then { s with cancelAt := none }.take .cancel else none
  | none => none

/-- The next deed whose instant has come, or else the cancellation. -/
def act? (s : State) : Option State :=
  match s.script with
  | step :: rest =>
    if step.time ≤ s.now then some ({ s with script := rest }.perform step.deed) else s.cancel?
  | [] => s.cancel?

/-- A stand-in is run or looks around. Nothing if that changes nothing. -/
def poll? (s : State) (client : Nat) : Option State := do
  let standIn ← s.standIns[client]?
  let c ← s.run.manager.clients[client]?
  match c.stage with
  | .spawned =>
    let s' := { s with standIns := s.standIns.set client standIn.run }
    s'.take (.beginClient client)
  | _ =>
    let (ended, after) := standIn.poll s.now (s.run.tokens.isCancelled c.token)
    let s' := { s with standIns := s.standIns.set client after }
    match ended with
    | some r => s'.take (.exit client r)
    | none => if after.phase = standIn.phase then none else some s'

/-- The event loop takes the name of a new interface. -/
def startNext? (s : State) : Option State :=
  match s.run.added.buffer with
  | [] => none
  | interface :: _ =>
    if (s.run.manager.refusal? interface).isSome then s.take (.startNext (.ok ()))
    else
      let (made, workshop) := s.workshop.make interface
      let standIn := workshop.standIn interface s.run.manager.clients
      let standIns := match made with
        | .ok () => s.standIns ++ [standIn]
        | .error _ => s.standIns
      (s.take (.startNext made)).map fun s => { s with workshop, standIns }

/-- The detector scans. -/
def scan? (s : State) : Option State :=
  match s.scanFaults with
  | [] => s.take (.scan (.ok s.interfaces))
  | error :: rest => (s.take (.scan (.error (.interface error)))).map fun s => { s with scanFaults := rest }

/-- Something that is possible at this instant. Clients come first, then the event loop, the detector
and whoever takes the events. -/
def move? (s : State) : Option State :=
  (List.range s.standIns.length).findSome? s.poll?
    <|> s.take .stopLoop <|> s.take .report <|> s.take .ping <|> s.take .pingsQueued <|> s.take .tick
    <|> s.startNext? <|> s.take .stopNext <|> s.take .observe
    <|> s.take .stopDetector <|> s.take .announce <|> s.scan?
    <|> s.take .consume <|> s.take .close <|> s.take .finish

/-- The next instant at which something can happen. -/
def next? (s : State) : Option Nat :=
  let script := (s.script.head?.map Step.time).toList ++ s.cancelAt.toList
  let scan := if s.run.detector = .resting then [s.run.scans.next] else []
  let tick := if s.run.loop = .resting then [s.run.ticks.next] else []
  ((script ++ scan ++ tick ++ s.standIns.filterMap (·.due?)).filter (s.now < ·)).min?

def isReturned (s : State) : Bool :=
  match s.run.phase with
  | .returned _ => true
  | _ => false

/-- Plays on for at most `fuel` moves. What the script does at an instant comes before what happens
then. -/
def play (s : State) : Nat → State
  | 0 => s
  | fuel + 1 =>
    if s.isReturned && s.script.isEmpty then s
    else
      match s.act? <|> s.move? with
      | some s => s.play fuel
      | none =>
        match s.next?.bind fun t => s.take (.elapse (t - s.now)) with
        | some s => s.play fuel
        | none => s

/-- More moves than a script can lead to: at each instant every interface and every peer can be dealt
with, and every client can end. -/
def fuel (s : State) : Nat :=
  let names := s.interfaces.length + (s.script.map fun step =>
    match step.deed with
    | .interfaces l => l.length
    | _ => 0).foldl (· + ·) 0
  64 * (s.cancelAt.getD 0 + s.workshop.linger + (s.script.map Step.time).foldl (· + ·) 0 + names + 2) *
    (s.script.length + names + 2)

/-- The names of the clients, what they have been told, and whether they have ended. -/
def clients (s : State) : List StandIn :=
  (s.standIns.zip s.run.manager.clients).map fun (c, m) => { c with pings := m.pings }

/-- The events that were taken and the instants of that, in order. -/
def consumed (s : State) : List (Nat × PeerEvent) :=
  (s.run.history.filterMap fun | (t, .consumed e) => some (t, e) | _ => none).reverse

/-- The result of the run and the instant of its end. -/
def result? (s : State) : Option (Nat × Outcome) :=
  s.run.history.findSome? fun | (t, .returned r) => some (t, r) | _ => none

end State

/-- What is to be rehearsed. -/
structure Scene where
  config : DiscoveryConfig
  eventsCapacity : Nat
  /-- Milliseconds that clients take to end. -/
  linger : Nat
  interfaces : List NetInterface
  script : List Step
  cancelAt : Nat
  deriving Repr

/-- The instant of the last step of a script, but not before `t`. -/
def lastTime (script : List Step) (t : Nat) : Nat := (script.map Step.time).foldl max t

/-- Plays a scene to its end. -/
def play (scene : Scene) : Except Breach State := do
  let run ← Run.begin scene.config scene.eventsCapacity
  let s : State :=
    { run, standIns := [], workshop := { linger := scene.linger, faults := [] },
      interfaces := scene.interfaces, scanFaults := [], script := scene.script,
      cancelAt := some scene.cancelAt, missed := [] }
  return s.play s.fuel

end AmpLink.DiscoveryScript
