import AmpLink.Client.FanOut
import AmpLink.Net.SocketAddress
import AmpLink.Client.Message
import AmpLink.Rehearsal.StandIn

/-!
# Rehearsing a fan-out

A fan-out of stand-ins is played from a script. One millisecond passes after every step.
-/

namespace AmpLink.FanOutScript

inductive Step where
  | add (name : String) (linger : Nat)
  /-- A client that talks to an address. It is never run. -/
  | addDevice (address : SocketAddress)
  /-- A group of stand-ins. -/
  | addGroup (names : List String)
  | send (c : Command)
  | run
  /-- Tells the first stand-in of a name to end. -/
  | exit (name : String) (r : Outcome)
  | cancel
  | sleep (ms : Nat)
  deriving Repr

structure State where
  now : Nat
  fan : FanOut
  /-- The stand-ins with the ids of their leaves. -/
  standIns : List (Nat × StandIn)
  /-- The id of the next leaf. -/
  next : Nat
  /-- The instants at which the runs were started that have not ended. -/
  started : List Nat
  /-- How runs have ended, and how long they took. -/
  finished : List (Outcome × Nat)

/-- What can be seen after a step. -/
structure View where
  result : Except ClientError Unit
  name : String
  len : Nat
  clients : List StandIn
  finished : List (Outcome × Nat)

namespace State

def start : State :=
  { now := 0, fan := .start, standIns := [], next := 0, started := [], finished := [] }

def update (s : State) (id : Nat) (f : StandIn → StandIn) : State :=
  { s with standIns := s.standIns.map fun p => if p.1 = id then (p.1, f p.2) else p }

/-- Takes note of a run of the whole that has ended. The oldest run is the only one that lasts. -/
def note (s : State) (fan : FanOut) : State :=
  match fan.results.drop s.fan.results.length, s.started with
  | r :: _, t :: rest => { s with fan, started := rest, finished := s.finished ++ [(r, s.now - t)] }
  | _, _ => { s with fan }

/-- The stand-in at a place looks around. Nothing if that changes nothing. -/
def poll? (s : State) (place : List Nat × Nat × List LeafRun) : Option State := do
  let run ← place.2.2.getLast?
  let (_, standIn) ← s.standIns.find? (·.1 = place.2.1)
  let (ended, after) := standIn.poll s.now (s.fan.tokens.isCancelled run.token)
  let s' := s.update place.2.1 fun _ => after
  match ended with
  | some r => some (s'.note (s'.fan.finish place.1 r))
  | none => if after.phase = standIn.phase then none else some s'

/-- Lets stand-ins look around until nothing changes any more. -/
def settle (s : State) : Nat → State
  | 0 => s
  | fuel + 1 =>
    match s.fan.tree.places.findSome? s.poll? with
    | some s => s.settle fuel
    | none => s

/-- Every stand-in changes at most twice at one instant: it begins to linger and it ends. -/
def rest (s : State) : State := s.settle (2 * s.standIns.length + 1)

/-- Lets time pass until `target`, from one instant at which a stand-in ends to the next. -/
def elapse (s : State) (target : Nat) : Nat → State
  | 0 => { s with now := target }.rest
  | fuel + 1 =>
    match ((s.standIns.filterMap fun p => p.2.due?).filter (· < target)).min? with
    | some t => ({ s with now := t }.rest).elapse target fuel
    | none => { s with now := target }.rest

def pass (s : State) (ms : Nat) : State := s.rest.elapse (s.now + ms) (s.standIns.length + 1)

/-- A new leaf and its stand-in. -/
def newLeaf (s : State) (name : String) (linger : Nat) : ClientTree × State :=
  (.leaf s.next name [],
    { s with next := s.next + 1, standIns := s.standIns ++ [(s.next, .new name linger)] })

/-- Leaves for a group. A name that is there already is left out. -/
def newGroup (s : State) : List String → List ClientTree → List ClientTree × State
  | [], members => (members, s)
  | name :: names, members =>
    if members.any (·.name = name) then s.newGroup names members
    else
      let (leaf, s) := s.newLeaf name 0
      s.newGroup names (members ++ [leaf])

/-- The stand-ins whose leaves have been run once more start to run. -/
def begin (s : State) : State :=
  s.fan.tree.places.foldl (fun s p =>
    s.update p.2.1 fun c => if c.runs < p.2.2.length then c.run else c) s

/-- Carries out a step. Nothing if the step names a stand-in that there is not. -/
def perform (s : State) : Step → Option (Except ClientError Unit × State)
  | .add name linger =>
    let (leaf, s') := s.newLeaf name linger
    match s.fan.add [] leaf with
    | .ok fan => some (.ok (), { s' with fan })
    | .error e => some (.error e, s)
  | .addDevice address =>
    match s.fan.add [] (.leaf s.next (clientName address) []) with
    | .ok fan => some (.ok (), { s with fan, next := s.next + 1 })
    | .error e => some (.error e, s)
  | .addGroup names =>
    let (members, s') := s.newGroup names []
    match s.fan.add [] (.group members none) with
    | .ok fan => some (.ok (), { s' with fan })
    | .error e => some (.error e, s')
  | .send c =>
    let fan := s.fan.send c
    some (.ok (), s.fan.tree.leaves.foldl (fun s id => s.update id (·.hear c)) { s with fan })
  | .run =>
    let s' := { s with started := if s.fan.tree.isStarted then s.now :: s.started
                                  else s.started ++ [s.now] }
    some (.ok (), (s'.note s.fan.run).begin)
  | .exit name r =>
    (s.standIns.find? (·.2.name = name)).map fun p => (.ok (), s.update p.1 (·.tell r))
  | .cancel => some (.ok (), { s with fan := s.fan.cancel s.fan.outer })
  | .sleep ms => some (.ok (), s.pass ms)

def view (s : State) (result : Except ClientError Unit) : View :=
  { result, name := s.fan.tree.name, len := s.fan.len, clients := s.standIns.map (·.2),
    finished := s.finished }

def play (s : State) : List Step → Option (List View)
  | [] => some []
  | step :: rest => do
    let (r, s) ← s.perform step
    let s := s.pass 1
    return s.view r :: (← s.play rest)

end State

/-- What can be seen after each step of a script. -/
def play (steps : List Step) : Option (List View) := State.start.play steps

end AmpLink.FanOutScript
