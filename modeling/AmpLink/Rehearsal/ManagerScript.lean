import AmpLink.Discovery.Manager
import AmpLink.Rehearsal.StandIn

/-!
# Rehearsing a manager

A manager of stand-ins is played from a script. One millisecond passes after every step. The stand-in
of a client has the number of the client.
-/

namespace AmpLink

/-- The maker of stand-ins. -/
structure Workshop where
  linger : Nat
  /-- The interfaces for which a making will fail, and why. Each fault counts once. -/
  faults : List (String × String)
  deriving Repr

namespace Workshop

/-- Lets one more making for an interface fail. -/
def sabotage (w : Workshop) (interface error : String) : Workshop :=
  { w with faults := w.faults ++ [(interface, error)] }

/-- What comes of making a client. -/
def make (w : Workshop) (interface : String) : Outcome × Workshop :=
  match w.faults.find? (·.1 = interface) with
  | some (_, error) => (.error (.other error), { w with faults := w.faults.eraseP (·.1 = interface) })
  | none => (.ok (), w)

/-- The stand-in of the next client of an interface. They are numbered from zero. -/
def standIn (w : Workshop) (interface : String) (clients : List ManagedClient) : StandIn :=
  let n := (clients.filter (·.interface = interface)).length
  .new (interface ++ "#" ++ toString n) w.linger

end Workshop

namespace ManagerScript

inductive Step where
  | start (interface : String)
  | cancel (interface : String)
  | cancelAll
  | cancelParent
  | ping
  /-- Tells the newest running client of an interface to end. -/
  | exit (interface : String) (r : Outcome)
  | sabotage (interface error : String)
  | sleep (ms : Nat)
  | wait (ms : Nat)
  deriving Repr

/-- What a step comes to. -/
inductive Answer where
  | done
  | started (name : String)
  | failed (e : RunError)
  | notRunning
  | timeout
  deriving Repr

structure State where
  now : Nat
  use : Manager.InUse
  parent : Token
  workshop : Workshop
  standIns : List StandIn

/-- What can be seen after a step: the interfaces right after it and a millisecond later, and the names,
pings and state of the clients. -/
structure View where
  answer : Answer
  interfaces : List String
  settled : List String
  clients : List (String × Nat × Bool)
  deriving Repr

namespace State

def start (linger : Nat) : State :=
  let (parent, tokens) := TokenForest.empty.root
  { now := 0, use := .start tokens, parent, workshop := { linger, faults := [] }, standIns := [] }

def manager (s : State) : Manager := s.use.manager

/-- Takes a step of the manager, if it is possible. -/
def take (s : State) (a : Manager.Action) : State := { s with use := (s.use.step a).getD s.use }

/-- The task of a client calls its run, unless it has done so. -/
def begin (s : State) (client : Nat) : State :=
  match s.use.step (.begin client) with
  | some use => { s with use, standIns := s.standIns.modify client (·.run) }
  | none => s

/-- A stand-in looks around. -/
def look (s : State) (client : Nat) : State :=
  match s.standIns[client]?, s.manager.clients[client]? with
  | some standIn, some c =>
    let (ended, standIn) := standIn.poll s.now (s.use.tokens.isCancelled c.token)
    let s := { s with standIns := s.standIns.set client standIn }
    match ended with
    | some r => s.take (.exit client r)
    | none => s
  | _, _ => s

def poll (s : State) (client : Nat) : State := (s.begin client).look client

def settle (s : State) : State := (List.range s.standIns.length).foldl poll s

/-- The next instant, up to `target`, at which a stand-in ends. -/
def nextDue? (s : State) (target : Nat) : Option Nat :=
  ((s.standIns.filterMap (·.due?)).filter (· ≤ target)).min?

/-- Lets time pass until `target`, from one instant at which a stand-in ends to the next. -/
def elapse (s : State) (target : Nat) : Nat → State
  | 0 => { s with now := target }.settle
  | fuel + 1 =>
    match s.nextDue? target with
    | some t => ({ s with now := t }.settle).elapse target fuel
    | none => { s with now := target }.settle

def pass (s : State) (ms : Nat) : State := s.settle.elapse (s.now + ms) s.standIns.length

/-- Waits until all clients have ended, but not beyond `target`. -/
def await (s : State) (target : Nat) : Nat → Answer × State
  | 0 => (.timeout, s)
  | fuel + 1 =>
    if (s.use.step .waited).isSome then (.done, s)
    else
      match s.nextDue? target with
      | some t => ({ s with now := t }.settle).await target fuel
      | none => (.timeout, { s with now := target })

/-- The number of the newest running client of an interface. -/
def newest? (s : State) (interface : String) : Option Nat :=
  (List.range s.standIns.length).reverse.find? fun i =>
    (s.standIns[i]?.any (·.isRunning)) && (s.manager.clients[i]?.any (·.interface = interface))

def perform (s : State) : Step → Answer × State
  | .start interface =>
    let (made, workshop) : Outcome × Workshop := match s.manager.refusal? interface with
      | some _ => (.ok (), s.workshop)
      | none => s.workshop.make interface
    let standIn := workshop.standIn interface s.manager.clients
    let s' := { s with workshop }.take (.start s.parent interface made)
    match (s.manager.startClient s.use.tokens s.parent interface made).1 with
    | .error e => (.failed e, s')
    | .ok _ => (.started standIn.name, { s' with standIns := s'.standIns ++ [standIn] })
  | .cancel interface =>
    match s.manager.cancelClient s.use.tokens interface with
    | .error e => (.failed (.client e), s)
    | .ok _ => (.done, s.take (.cancel interface))
  | .cancelAll => (.done, s.take .cancelAll)
  | .cancelParent => (.done, s.take (.cancelToken s.parent))
  | .ping => (.done, s.take .ping)
  | .exit interface r =>
    match s.newest? interface with
    | none => (.notRunning, s)
    | some i => (.done, { s with standIns := s.standIns.modify i (·.tell r) })
  | .sabotage interface error => (.done, { s with workshop := s.workshop.sabotage interface error })
  | .sleep ms => (.done, s.pass ms)
  | .wait ms => (s.take .wait).settle.await (s.now + ms) (s.standIns.length + 1)

def play (s : State) : List Step → List View
  | [] => []
  | step :: rest =>
    let (answer, s) := s.perform step
    let interfaces := s.manager.interfaces
    let s := s.pass 1
    let clients := (s.standIns.zip s.manager.clients).map fun (c, m) => (c.name, m.pings, c.isRunning)
    { answer, interfaces, settled := s.manager.interfaces, clients } :: s.play rest

end State

/-- What can be seen after each step of a script. -/
def play (linger : Nat) (steps : List Step) : List View := (State.start linger).play steps

end ManagerScript
end AmpLink
