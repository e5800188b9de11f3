import AmpLink.Client.Message
import AmpLink.Command
import AmpLink.Config
import AmpLink.Limits
import AmpLink.Task.Channel
import AmpLink.Task.Group

/-!
# The client of one address

Commands take a number and queue up as frames; a run writes the frames to the socket in the order of the
queue, and hands on what the socket receives. A client can be run once. A failed write ends the run; what
is called for after that is dropped.

`State.step` says which steps are possible and what they lead to; callers, the socket, the receiver of
the messages and the instants are left open.
-/

namespace AmpLink

/-- What a client is made for. -/
structure Endpoint where
  destination : SocketAddress
  interface : Option String
  component : UInt8
  config : ClientConfig
  deriving Repr

namespace Endpoint

def name (e : Endpoint) : String := clientName e.destination

/-- The number of the first command. -/
def firstNumber : UInt16 := 1

/-- The frame of a command. A volume outside of its range has none. -/
def frame? (component : UInt8) (number : UInt16) (c : Command) : Option Bytes :=
  c.request?.map fun r => r.frame number component

/-- The frames of commands that are called for one after the other. Every command takes a number. -/
def frames (component : UInt8) (number : UInt16) : List Command → List Bytes
  | [] => []
  | c :: rest => (frame? component number c).toList ++ frames component (number + 1) rest

/-- The loop that writes. -/
inductive Sender where
  | idle
  | running
  | ended
  deriving DecidableEq, Repr

/-- The loop that reads. -/
inductive Receiver where
  | idle
  | resting
  | handing (m : Message)
  | ended
  deriving DecidableEq, Repr

/-- What comes of writing a frame. -/
inductive Write where
  | sent
  | failed (detail : String)
  | timedOut
  deriving DecidableEq, Repr

structure State where
  endpoint : Endpoint
  /-- The number of the next command. -/
  number : UInt16
  /-- How many calls have been made. They are numbered from zero. -/
  calls : Nat
  queue : Channel Bytes
  tokens : TokenForest
  /-- The token that runs are given. -/
  outer : Token
  /-- The queue has been taken by a run. -/
  taken : Bool
  /-- The two loops, once they run. -/
  group : Option TaskGroup
  sender : Sender
  receiver : Receiver
  received : Channel Message
  /-- The frames of all calls, the newest first. -/
  made : List Bytes
  /-- The frames that the socket has taken. -/
  written : List Bytes
  /-- The datagrams that have been read, and who sent them. -/
  read : List (Bytes × SocketAddress)
  /-- The messages that have been accepted by their receiver. -/
  handed : List Message
  deriving Repr

def senderTask : Nat := 0
def receiverTask : Nat := 1

namespace State

def start (e : Endpoint) (capacity receivedCapacity : Nat) : State :=
  let (outer, tokens) := TokenForest.empty.root
  { endpoint := e, number := firstNumber, calls := 0, queue := .empty capacity, tokens, outer
    taken := false, group := none, sender := .idle, receiver := .idle
    received := .empty receivedCapacity
    made := [], written := [], read := [], handed := [] }

/-- A client whose queue can be made. -/
def new (e : Endpoint) : Except Breach State :=
  (Limits.capacity e.config.sendQueueCapacity.toNat).map fun c => start e c receivedCapacity

/-! ## Commands -/

/-- Somebody calls for a command: it takes a number, and its frame joins the queue or waits for room
there. The answer is nothing if the command has no frame. -/
def call (s : State) (c : Command) : Option Sending × State :=
  let s' := { s with number := s.number + 1, calls := s.calls + 1 }
  match frame? s.endpoint.component s.number c with
  | none => (none, s')
  | some f =>
    let (r, queue) := s.queue.send s.calls f
    (some r, { s' with queue, made := f :: s.made })

/-- Calls for commands one after the other. -/
def callAll (s : State) (cs : List Command) : State := cs.foldl (fun s c => (s.call c).2) s

/-- A call that waits for room is given up. -/
def giveUp (s : State) (call : Nat) : State := { s with queue := s.queue.giveUp call }

/-! ## The run -/

/-- The group of the loops is cancelled. -/
def isCancelled (s : State) : Bool := s.group.any fun g => s.tokens.isCancelled g.token

/-- A loop ends. -/
def finish (s : State) (task : Nat) (r : Outcome) : State :=
  match s.group with
  | none => s
  | some g =>
    let (g, tokens) := g.finish s.tokens task r
    { s with group := some g, tokens }

/-- The result of the run, once both loops have ended. -/
def result? (s : State) : Option Outcome := s.group.bind (·.result?)

/-- Runs the client, which can be done once. `bound` is what comes of binding the socket: if that fails
the run is over. -/
def run (s : State) (bound : Outcome) : Except RunError State :=
  if s.taken then .error (.client (.alreadyRunning s.endpoint.name))
  else
    match bound with
    | .error e =>
      let g := TaskGroup.mk s.outer [] (some e)
      .ok { s with taken := true, group := some g, sender := .ended, receiver := .ended,
                   queue := s.queue.close }
    | .ok () =>
      let (token, tokens) := s.tokens.child s.outer
      .ok { s with taken := true, tokens, group := some (.start token 2), sender := .running,
                   receiver := .resting }

/-- The oldest frame leaves the queue, and the call that has waited longest gets the room. -/
def take (q : Channel Bytes) : Option (Bytes × Channel Bytes) :=
  q.receive.map fun (f, q) =>
    match q.waiting with
    | [] => (f, q)
    | (_, a) :: rest => (f, { q with buffer := q.buffer ++ [a], waiting := rest })

/-- The sender ends and drops the queue. -/
def endSender (s : State) (r : Outcome) : State :=
  { s with sender := .ended, queue := s.queue.close }.finish senderTask r

/-- The sender writes the oldest frame. -/
def write (s : State) (w : Write) : Option State :=
  match s.sender, take s.queue with
  | .running, some (f, queue) =>
    let s := { s with queue }
    match w with
    | .sent => some { s with written := s.written ++ [f] }
    | .failed detail => some (s.endSender (.error (.io detail)))
    | .timedOut => some (s.endSender (.error (.client (.writeTimeout s.endpoint.destination.text))))
  | _, _ => none

/-- The sender sees that it is cancelled. -/
def stopSender (s : State) : Option State :=
  if s.sender = .running && s.isCancelled then some (s.endSender (.ok ())) else none

def endReceiver (s : State) (r : Outcome) : State :=
  { s with receiver := .ended }.finish receiverTask r

/-- A datagram is read. What is longer than the buffer is cut. -/
def receive (s : State) (data : Bytes) (remote : SocketAddress) : Option State :=
  match s.receiver with
  | .resting =>
    let data := data.take maxDatagram
    let m := Message.ofDatagram data remote s.endpoint.interface s.endpoint.name
    some { s with receiver := .handing m, read := s.read ++ [(data, remote)] }
  | _ => none

/-- Reading fails. -/
def failRead (s : State) (detail : String) : Option State :=
  match s.receiver with
  | .resting => some (s.endReceiver (.error (.io detail)))
  | _ => none

/-- The message is handed on. -/
def hand (s : State) : Option State :=
  match s.receiver with
  | .handing m =>
    if s.received.isOpen && s.received.hasRoom 0 then
      some { s with
        receiver := .resting
        received := { s.received with buffer := s.received.buffer ++ [m] }
        handed := s.handed ++ [m] }
    else none
  | _ => none

/-- The receiver sees that it is cancelled, or that nobody takes its messages. -/
def stopReceiver (s : State) : Option State :=
  match s.receiver with
  | .resting => if s.isCancelled then some (s.endReceiver (.ok ())) else none
  | .handing _ => if s.isCancelled || !s.received.isOpen then some (s.endReceiver (.ok ())) else none
  | _ => none

/-- One step of a caller, of a loop or of the surroundings. -/
inductive Action where
  | call (c : Command)
  | run (bound : Outcome)
  | write (w : Write)
  | stopSender
  | receive (data : Bytes) (remote : SocketAddress)
  /-- Nothing has come for a while. -/
  | readTimeout
  | failRead (detail : String)
  | hand
  | stopReceiver
  /-- Somebody takes a message. -/
  | consume
  | closeReceived
  | cancel
  deriving Repr

/-- What a step leads to. Nothing if it is not possible. -/
def step (s : State) : Action → Option State
  | .call c => some (s.call c).2
  | .run bound => (s.run bound).toOption
  | .write w => s.write w
  | .stopSender => s.stopSender
  | .receive data remote => s.receive data remote
  | .readTimeout => if s.receiver = .resting then some s else none
  | .failRead detail => s.failRead detail
  | .hand => s.hand
  | .stopReceiver => s.stopReceiver
  | .consume => s.received.receive.map fun (_, c) => { s with received := c }
  | .closeReceived => some { s with received := s.received.close }
  | .cancel => some { s with tokens := s.tokens.cancel s.outer }

/-- Takes steps one after the other. Nothing if one of them is not possible. -/
def steps (s : State) : List Action → Option State
  | [] => some s
  | a :: rest => (s.step a).bind (·.steps rest)

end State
end Endpoint
end AmpLink
