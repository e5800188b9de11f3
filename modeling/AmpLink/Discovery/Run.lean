import AmpLink.Client.Message
import AmpLink.Config
import AmpLink.Discovery.Manager
import AmpLink.Discovery.Peers
import AmpLink.Limits
import AmpLink.Task.Channel
import AmpLink.Task.Ticker

/-!
# A discovery run

A run has two loops. The detector scans the interfaces and announces what is new and what is gone. The
event loop starts and stops clients accordingly, pings them at every tick, keeps the table of peers and
reports what changes in it. Both loops share the token of the run; when they have ended it is cancelled,
and the run returns once every client has ended.

`Run.step` says which steps are possible in a state and what they lead to. The order in which possible
steps are taken, the instants, the scans, the datagrams and the ends of clients are left open.
-/

namespace AmpLink.Discovery

/-- What the detector is doing. -/
inductive DetectorPhase where
  /-- Waits for the next scan. -/
  | resting
  /-- Has these names still to hand over, the new ones first. -/
  | announcing (added removed : List String)
  | ended
  deriving DecidableEq, Repr

/-- What the event loop is doing. -/
inductive LoopPhase where
  | resting
  /-- Has these events still to hand over, and pings the clients after that if it is at a tick. -/
  | reporting (events : List PeerEvent) (atTick : Bool)
  /-- Waits for the queues of the clients that it pings. -/
  | pinging
  | ended
  deriving DecidableEq, Repr

inductive Phase where
  /-- A loop is running. -/
  | running
  /-- The loops have ended with a result, and clients may still be running. -/
  | closing (r : Outcome)
  | returned (r : Outcome)
  deriving Repr

/-- What is worth remembering of a run. -/
inductive Note where
  /-- A scan: the interfaces tracked at that moment, the usable ones, and their difference. -/
  | scanned (known valid : List String) (diff : InterfaceDiff)
  | scanFailed (e : RunError)
  /-- A name was accepted on the channel of the new or of the lost interfaces. -/
  | announcedAdded (interface : String)
  | announcedRemoved (interface : String)
  /-- A new client was asked for. -/
  | asked (interface : String)
  | startFailed (interface : String) (e : RunError)
  | started (client : Nat)
  /-- The event loop told the client of a lost interface to stop, or found none. -/
  | stopped (interface : String) (client : Option Nat)
  | pinged (client : Nat)
  /-- A tick: its sweep. -/
  | swept
  /-- A tick at which every event of its sweep had been handed over, and the clients tracked then. -/
  | round (clients : List Nat)
  /-- A message with a header was handled. -/
  | heard (address : SocketAddress)
  /-- The table of peers gave an event. -/
  | produced (e : PeerEvent)
  /-- An event was accepted on the channel of the events, was refused, or was taken out of it. -/
  | accepted (e : PeerEvent)
  | refused (e : PeerEvent)
  | consumed (e : PeerEvent)
  | exited (client : Nat) (r : Outcome)
  | returned (r : Outcome)
  deriving Repr

structure Run where
  config : DiscoveryConfig
  now : Nat
  tokens : TokenForest
  /-- The token of whoever called for the run. -/
  outer : Token
  /-- The token of the run, below `outer`. -/
  scope : Token
  group : TaskGroup
  manager : Manager
  scans : Ticker
  ticks : Ticker
  detector : DetectorPhase
  loop : LoopPhase
  added : Channel String
  removed : Channel String
  received : Channel Message
  events : Channel PeerEvent
  peers : PeerTable
  phase : Phase
  /-- What has happened and when, the latest first. -/
  history : List (Nat × Note)
  deriving Repr

/-- The numbers of the two loops in their group. -/
def detectorTask : Nat := 0
def loopTask : Nat := 1

namespace Run

/-- A run that begins at instant zero. The first scan is due at once, the first tick one period later. -/
def start (config : DiscoveryConfig) (eventsCapacity : Nat) : Run :=
  let (outer, tokens) := TokenForest.empty.root
  let (scope, tokens) := tokens.child outer
  { config, now := 0, tokens, outer, scope, group := .start scope 2, manager := .start
    scans := { period := config.scanInterval.toNat, next := 0 }
    ticks := { period := config.pingInterval.toNat, next := config.pingInterval.toNat }
    detector := .resting, loop := .resting
    added := .empty 1, removed := .empty 1, received := .empty receivedCapacity
    events := .empty eventsCapacity
    peers := .empty, phase := .running, history := [] }

/-- A run whose settings can be used. -/
def begin (config : DiscoveryConfig) (eventsCapacity : Nat) : Except Breach Run := do
  let capacity ← Limits.capacity eventsCapacity
  let _ ← Limits.period config.scanInterval.toNat
  let _ ← Limits.period config.pingInterval.toNat
  return start config capacity

def note (r : Run) (n : Note) : Run := { r with history := (r.now, n) :: r.history }

def noteAll (r : Run) (ns : List Note) : Run := ns.foldl note r

/-- The token of the run is cancelled. -/
def isCancelled (r : Run) : Bool := r.tokens.isCancelled r.scope

/-- Hands a value over, if there is a receiver and room. -/
def push? (c : Channel α) (a : α) : Option (Channel α) :=
  if c.isOpen && c.hasRoom 0 then some { c with buffer := c.buffer ++ [a] } else none

/-- The detector ends. -/
def endDetector (r : Run) (result : Outcome) : Run :=
  let (group, tokens) := r.group.finish r.tokens detectorTask result
  { r with detector := .ended, group, tokens }

/-- The event loop ends, and with it the receivers of its channels. -/
def endLoop (r : Run) : Run :=
  let (group, tokens) := r.group.finish r.tokens loopTask (.ok ())
  { r with
    loop := .ended, group, tokens
    added := r.added.close, removed := r.removed.close, received := r.received.close }

/-! ## The detector -/

/-- Announces what is left to announce, or rests. -/
def announcing (added removed : List String) : DetectorPhase :=
  if added.isEmpty && removed.isEmpty then .resting else .announcing added removed

/-- A scan of what the source of interfaces reports. -/
def scan (r : Run) (source : Except RunError (List NetInterface)) : Option Run :=
  match r.detector with
  | .resting =>
    if r.scans.isDue r.now then
      let r := { r with scans := r.scans.take r.now }
      let known := r.manager.interfaces
      match source with
      | .error e => some ((r.note (.scanFailed e)).endDetector (.error e))
      | .ok interfaces =>
        let valid := validNames interfaces
        let diff := InterfaceDiff.of known valid r.config.allowedInterfaces
        some { r.note (.scanned known valid diff) with detector := announcing diff.added diff.removed }
    else none
  | _ => none

/-- Hands the next name over. -/
def announce (r : Run) : Option Run :=
  match r.detector with
  | .announcing (n :: added) removed =>
    (push? r.added n).map fun c =>
      { r.note (.announcedAdded n) with added := c, detector := announcing added removed }
  | .announcing [] (n :: removed) =>
    (push? r.removed n).map fun c =>
      { r.note (.announcedRemoved n) with removed := c, detector := announcing [] removed }
  | _ => none

/-- The detector can see that it is cancelled, or that nobody takes its names any more. -/
def detectorStops (r : Run) : Bool :=
  match r.detector with
  | .resting => r.isCancelled
  | .announcing (_ :: _) _ => r.isCancelled || !r.added.isOpen
  | .announcing [] _ => r.isCancelled || !r.removed.isOpen
  | .ended => false

def stopDetector (r : Run) : Option Run :=
  if r.detectorStops then some (r.endDetector (.ok ())) else none

/-! ## The event loop -/

/-- Reports what is left to report, or rests. -/
def reporting (events : List PeerEvent) (atTick : Bool) : LoopPhase :=
  if events.isEmpty && !atTick then .resting else .reporting events atTick

/-- A tick begins: peers that have been silent for too long are dropped. -/
def tick (r : Run) : Option Run :=
  match r.loop with
  | .resting =>
    if r.ticks.isDue r.now then
      let (events, peers) := r.peers.sweep r.now r.config.peerTimeout.toNat
      let r := { r with ticks := r.ticks.take r.now, peers, loop := .reporting events true }
      some ((r.note .swept).noteAll (events.map .produced))
    else none
  | _ => none

/-- Hands the next event over. -/
def report (r : Run) : Option Run :=
  match r.loop with
  | .reporting (e :: rest) atTick =>
    (push? r.events e).map fun c =>
      { r.note (.accepted e) with events := c, loop := reporting rest atTick }
  | _ => none

/-- The event loop sees that it is cancelled, or that nobody takes its events any more. -/
def stopLoop (r : Run) : Option Run :=
  match r.loop with
  | .resting => if r.isCancelled then some r.endLoop else none
  | .reporting (e :: _) _ =>
    if r.isCancelled || !r.events.isOpen then some (r.note (.refused e)).endLoop else none
  | _ => none

/-- At a tick, when everything has been reported: pings the tracked clients. -/
def ping (r : Run) : Option Run :=
  match r.loop with
  | .reporting [] true =>
    let tracked := r.manager.tracked
    let r := { r with manager := r.manager.ping, loop := .pinging }
    some ((r.note (.round tracked)).noteAll (tracked.map .pinged))
  | _ => none

/-- The queues have taken the pings. -/
def pingsQueued (r : Run) : Option Run :=
  match r.loop with
  | .pinging => some { r with loop := .resting }
  | _ => none

/-- Takes the name of a new interface and starts a client for it. `made` is what comes of making one. -/
def startNext (r : Run) (made : Outcome) : Option Run :=
  match r.loop, r.added.receive with
  | .resting, some (interface, added) =>
    let r := { r with added }
    match r.manager.refusal? interface with
    | some e => some (r.note (.startFailed interface (.client e)))
    | none =>
      let r := r.note (.asked interface)
      match r.manager.startClient r.tokens r.scope interface made with
      | (.error e, _, _) => some (r.note (.startFailed interface e))
      | (.ok client, manager, tokens) =>
        let r := { r with manager := manager.pingClient client, tokens, loop := .pinging }
        some ((r.note (.started client)).note (.pinged client))
  | _, _ => none

/-- Takes the name of a lost interface and tells its client to stop. -/
def stopNext (r : Run) : Option Run :=
  match r.loop, r.removed.receive with
  | .resting, some (interface, removed) =>
    let client := (r.manager.find? interface).map (·.client)
    let tokens := (r.manager.cancelClient r.tokens interface).toOption.getD r.tokens
    some ({ r with removed, tokens }.note (.stopped interface client))
  | _, _ => none

/-- Takes a message. Those without a header are ignored. -/
def observe (r : Run) : Option Run :=
  match r.loop, r.received.receive with
  | .resting, some (m, received) =>
    let r := { r with received }
    match m.header with
    | none => some r
    | some _ =>
      let (event, peers) := r.peers.observe m.remote m.interface r.now
      let r := { r with peers, loop := reporting event.toList false }
      some ((r.note (.heard m.remote)).noteAll (event.toList.map .produced))
  | _, _ => none

/-! ## The surroundings -/

/-- The task of a client calls its run. -/
def beginClient (r : Run) (client : Nat) : Option Run :=
  (r.manager.begin client).map fun manager => { r with manager }

/-- A client whose run has been called hands a message on. -/
def deliver (r : Run) (client : Nat) (m : Message) : Option Run :=
  if r.manager.clients[client]?.any (·.runs ≠ 0) then
    (push? r.received m).map fun c => { r with received := c }
  else none

/-- A client that is running ends. -/
def exit (r : Run) (client : Nat) (result : Outcome) : Option Run :=
  (r.manager.exit client result).map fun manager => { r with manager }.note (.exited client result)

/-- Somebody takes an event. -/
def consume (r : Run) : Option (PeerEvent × Run) :=
  r.events.receive.map fun (e, c) => (e, { r.note (.consumed e) with events := c })

/-- When both loops have ended: everything below the run is cancelled and no client is started any
more. -/
def close (r : Run) : Option Run :=
  match r.phase, r.group.result? with
  | .running, some result =>
    some { r with tokens := r.tokens.cancel r.scope, manager := r.manager.wait, phase := .closing result }
  | _, _ => none

/-- When every client has ended. -/
def finish (r : Run) : Option Run :=
  match r.phase with
  | .closing result =>
    if r.manager.isDone then some { r.note (.returned result) with phase := .returned result } else none
  | _ => none

/-- One step of a loop, of a client or of the surroundings. -/
inductive Action where
  | elapse (ms : Nat)
  | scan (source : Except RunError (List NetInterface))
  | announce
  | stopDetector
  | tick
  | report
  | stopLoop
  | ping
  | pingsQueued
  | startNext (made : Outcome)
  | stopNext
  | observe
  | beginClient (client : Nat)
  | deliver (client : Nat) (m : Message)
  | exit (client : Nat) (r : Outcome)
  | consume
  /-- Whoever takes the events goes away. -/
  | closeEvents
  /-- The token of the caller is cancelled. -/
  | cancel
  | close
  | finish

/-- What a step leads to. Nothing if it is not possible. -/
def step (r : Run) : Action → Option Run
  | .elapse ms => some { r with now := r.now + ms }
  | .scan source => r.scan source
  | .announce => r.announce
  | .stopDetector => r.stopDetector
  | .tick => r.tick
  | .report => r.report
  | .stopLoop => r.stopLoop
  | .ping => r.ping
  | .pingsQueued => r.pingsQueued
  | .startNext made => r.startNext made
  | .stopNext => r.stopNext
  | .observe => r.observe
  | .beginClient client => r.beginClient client
  | .deliver client m => r.deliver client m
  | .exit client result => r.exit client result
  | .consume => r.consume.map (·.2)
  | .closeEvents => some { r with events := r.events.close }
  | .cancel => some { r with tokens := r.tokens.cancel r.outer }
  | .close => r.close
  | .finish => r.finish

/-- Takes steps one after the other. Nothing if one of them is not possible. -/
def steps (r : Run) : List Action → Option Run
  | [] => some r
  | a :: rest => (r.step a).bind (·.steps rest)

/-- What `f` picks out of the history, in order. -/
def trace (r : Run) (f : Note → Option α) : List α := (r.history.filterMap fun n => f n.2).reverse

/-- The events that the table gave, in order. -/
def produced (r : Run) : List PeerEvent := r.trace fun | .produced e => some e | _ => none

/-- The events that were accepted on their channel, in order. -/
def accepted (r : Run) : List PeerEvent := r.trace fun | .accepted e => some e | _ => none

/-- The events that were refused, in order. -/
def refused (r : Run) : List PeerEvent := r.trace fun | .refused e => some e | _ => none

/-- The events that were taken out of their channel, in order. -/
def consumed (r : Run) : List PeerEvent := r.trace fun | .consumed e => some e | _ => none

/-- The interfaces for which a client was asked for, in order. -/
def asked (r : Run) : List String := r.trace fun | .asked n => some n | _ => none

end Run
end AmpLink.Discovery
