import AmpLink.Client.Endpoint

/-!
# Rehearsing the client of one address

A client is played from a script where the network is down: every write fails at once, nothing arrives
and no socket can be bound to an interface. The loops of the client get on only while the script waits.
-/

namespace AmpLink.EndpointScript

inductive Step where
  | call (c : Command)
  /-- Pings so often. -/
  | burn (count : Nat)
  /-- Pings so often and takes the datagram of each ping. -/
  | skip (count : Nat)
  /-- Runs the client in the background. -/
  | run
  /-- Runs the client and waits for the end. -/
  | runAgain
  /-- Cancels the run and waits for its end. -/
  | stop
  /-- Waits for the end of the run. -/
  | join
  /-- Waits for so many datagrams. -/
  | receive (count : Nat)
  /-- Answers the client. -/
  | reply
  deriving Repr

inductive Answer where
  | queued
  | blocked
  /-- How many of the calls found no room. -/
  | burnt (blocked : Nat)
  | done
  | ended (r : Outcome)
  | notRunning
  /-- So many datagrams did not come. -/
  | missing (count : Nat)
  deriving Repr

/-- Why a script cannot be played. -/
inductive Fault where
  /-- There is nobody to answer to before a datagram has come. -/
  | replyTooEarly
  /-- A datagram has not come in time. -/
  | elapsed
  /-- A wait has no end. -/
  | endless
  deriving DecidableEq, Repr

def Fault.message : Fault → String
  | replyTooEarly => "reply before recv"
  | elapsed => "deadline has elapsed"
  | endless => "the run does not end"

/-- The failure of everything that needs the network. -/
def down : String := "Network is unreachable (os error 101)"

/-- A run in the background. It begins when the script waits for the first time. -/
inductive Job where
  | due
  | running
  | ended (r : Outcome)
  deriving Repr

structure State where
  client : Endpoint.State
  job : Option Job
  deriving Repr

namespace State

/-- What comes of binding the socket of the client. -/
def bound (s : State) : Outcome :=
  match s.client.endpoint.interface with
  | some _ => .error (.io "No such device (os error 19)")
  | none => .ok ()

def take (s : State) (a : Endpoint.State.Action) : Option State :=
  (s.client.step a).map fun client => { s with client }

/-- Lets the loops get on for at most `fuel` steps. They look at cancellation first. -/
def settle (s : State) : Nat → State
  | 0 => s
  | fuel + 1 =>
    match s.take .stopSender <|> s.take (.write (.failed down)) <|> s.take .stopReceiver with
    | some s => s.settle fuel
    | none => s

/-- Lets the run begin that is due. A refused one ends at once. -/
def begin (s : State) : State :=
  match s.job with
  | some .due =>
    match s.client.run s.bound with
    | .ok client => { client, job := some .running }
    | .error e => { s with job := some (.ended (.error e)) }
  | _ => s

/-- Waits: the first frame ends the sender and cancels the receiver. -/
def wait (s : State) : State :=
  let s := s.begin.settle 2
  match s.job, s.client.result? with
  | some .running, some r => { s with job := some (.ended r) }
  | _, _ => s

/-- Starts a run in the background. An earlier one that is due begins before it. -/
def launch (s : State) : State := { s.begin with job := some .due }

/-- Takes the end of the run. -/
def collect (s : State) : Except Fault (Answer × State) :=
  match s.job with
  | none => .ok (.notRunning, s)
  | some (.ended r) => .ok (.ended r, { s with job := none })
  | some _ => .error .endless

/-- Calls for a command. A call that would have to wait is given up. -/
def call (s : State) (c : Command) : Answer × State :=
  match s.client.call c with
  | (some .waiting, client) => (.blocked, { s with client := client.giveUp s.client.calls })
  | (_, client) => (.queued, { s with client })

/-- The number of pings that are blocked. -/
def burn (s : State) : Nat → Nat × State
  | 0 => (0, s)
  | n + 1 =>
    let (a, s) := s.call .ping
    let (blocked, s) := s.burn n
    match a with
    | .blocked => (blocked + 1, s)
    | _ => (blocked, s)

def perform (s : State) : Step → Except Fault (Answer × State)
  | .call c => .ok (s.call c)
  | .burn n => let (blocked, s) := s.burn n; .ok (.burnt blocked, s)
  | .skip 0 => .ok (.done, s)
  | .skip _ => .error .elapsed
  | .run => .ok (.done, s.launch)
  | .runAgain =>
    match s.client.run s.bound with
    | .error e => .ok (.ended (.error e), s)
    | .ok client =>
      let s := { s with client }.wait
      match s.client.result? with
      | some r => .ok (.ended r, s)
      | none => .error .endless
  | .stop =>
    match s.job with
    | some .due | some .running => ((s.take .cancel).getD s).wait.collect
    | _ => s.collect
  | .join => s.wait.collect
  | .receive n => .ok (.missing n, if n = 0 then s else s.wait)
  | .reply => .error .replyTooEarly

def play (s : State) : List Step → Except Fault (List Answer)
  | [] => .ok []
  | step :: rest => do
    let (a, s) ← s.perform step
    return a :: (← s.play rest)

end State

/-- What the steps of a script come to. -/
def play (e : Endpoint) (steps : List Step) : Except Breach (Except Fault (List Answer)) :=
  (Endpoint.State.new e).map fun client => State.play { client, job := none } steps

end AmpLink.EndpointScript
