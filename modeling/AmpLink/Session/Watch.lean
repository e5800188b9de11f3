import AmpLink.Config
import AmpLink.Session.Line
import AmpLink.Task.Channel

/-!
# Watching for devices

Prints the events of a discovery run as they come, then what is left of them once the run has ended, and
last a summary with one row for each address. The run is told to stop when a deadline passes or when
somebody interrupts.

`Watch.step` says which steps are possible; when events come, and when the run ends, is left open.
-/

namespace AmpLink

structure Watch where
  /-- The channel between the discovery run and the watcher. -/
  events : Channel PeerEvent
  /-- There is a deadline. -/
  timed : Bool
  /-- The run has been told to stop. -/
  cancelled : Bool
  /-- How the run has ended. -/
  discovery : Option Outcome
  /-- The watcher has seen that the run has ended. -/
  draining : Bool
  /-- The rows of the summary, in the order of their addresses. -/
  rows : List PeerRow
  printed : List Line
  result : Option Outcome
  /-- The events that were accepted on the channel. -/
  accepted : List PeerEvent
  deriving Repr

/-- Puts a row into its place among ordered rows. A row with the same address is replaced. -/
def insertRow (row : PeerRow) : List PeerRow → List PeerRow
  | [] => [row]
  | r :: rest =>
    if r.address = row.address then row :: rest
    else if row.address.le r.address then row :: r :: rest
    else r :: insertRow row rest

/-- The row that an event makes. -/
def PeerRow.ofEvent (now : Timestamp) (e : PeerEvent) : PeerRow :=
  { address := e.address, interface := e.interface, online := e.isDiscovered, since := now }

namespace Watch

def start (timed : Bool) : Watch :=
  { events := .empty receivedCapacity, timed, cancelled := false, discovery := none, draining := false
    rows := [], printed := [], result := none, accepted := [] }

/-- Prints an event and takes note of it. -/
def record (w : Watch) (now : Timestamp) (e : PeerEvent) : Watch :=
  { w with printed := w.printed ++ [.event now e], rows := insertRow (.ofEvent now e) w.rows }

inductive Action where
  /-- The run hands an event over. -/
  | accept (e : PeerEvent)
  /-- The watcher takes an event. -/
  | take (now : Timestamp)
  /-- The deadline passes. -/
  | expire
  | interrupt
  /-- The run ends. -/
  | endRun (r : Outcome)
  /-- The watcher sees that the run has ended. -/
  | notice
  /-- The watcher prints the summary, when no event is left. -/
  | finish
  deriving Repr

/-- What a step leads to. Nothing if it is not possible. -/
def step (w : Watch) : Action → Option Watch
  | .accept e =>
    if w.discovery.isNone && w.events.hasRoom 0 then
      some { w with
        events := { w.events with buffer := w.events.buffer ++ [e] }, accepted := w.accepted ++ [e] }
    else none
  | .take now =>
    if w.result.isSome then none
    else w.events.receive.map fun (e, events) => { w with events }.record now e
  | .expire =>
    if w.timed && !w.cancelled && !w.draining then some { w with cancelled := true } else none
  | .interrupt => some { w with cancelled := true }
  | .endRun r => if w.discovery.isNone then some { w with discovery := some r } else none
  | .notice => if w.discovery.isSome && !w.draining then some { w with draining := true } else none
  | .finish =>
    if w.draining && w.result.isNone && w.events.buffer.isEmpty then
      some { w with printed := w.printed ++ [.summary w.rows], result := w.discovery }
    else none

/-- Takes steps one after the other. Nothing if one of them is not possible. -/
def steps (w : Watch) : List Action → Option Watch
  | [] => some w
  | a :: rest => (w.step a).bind (·.steps rest)

end Watch
end AmpLink
