import AmpLink.Task.Group
import AmpLink.Discovery.Interfaces

/-!
# The clients of the interfaces

At most one client runs for each interface. An entry lives from the start of a client until its run has
ended; the task of the client then takes out the entry of its interface. After `wait` no client is
started any more.

`Manager.InUse.step` says which steps are possible for a manager, its clients and the tokens that they
run under. In which order possible steps are taken is left open.
-/

namespace AmpLink

/-- How far the task of a client has come. -/
inductive TaskStage where
  /-- It has not called the run of the client yet. -/
  | spawned
  | running
  /-- The run has ended. -/
  | ended (r : Outcome)
  deriving Repr

def TaskStage.isEnded : TaskStage → Bool
  | ended _ => true
  | _ => false

/-- A client that has been started, kept after its end. Clients are numbered in the order of their
starts. -/
structure ManagedClient where
  interface : String
  token : Token
  pings : Nat
  /-- How often its run has been called. -/
  runs : Nat
  stage : TaskStage
  deriving Repr

/-- A tracked interface and the number of its client. -/
structure ManagerEntry where
  interface : String
  client : Nat
  token : Token
  deriving DecidableEq, Repr

structure Manager where
  clients : List ManagedClient
  entries : List ManagerEntry
  waiting : Bool
  deriving Repr

namespace Manager

def start : Manager := { clients := [], entries := [], waiting := false }

/-- The tracked interfaces, in order. -/
def interfaces (m : Manager) : List String := nameSet (m.entries.map (·.interface))

def find? (m : Manager) (interface : String) : Option ManagerEntry :=
  m.entries.find? (·.interface = interface)

/-- Why a client cannot be started, before one is made. -/
def refusal? (m : Manager) (interface : String) : Option ClientError :=
  if m.waiting then some (.busy "shutdown")
  else if (m.find? interface).isSome then some (.alreadyExists interface)
  else none

/-- Starts a client below `parent` and answers its number. `made` is what comes of making it. -/
def startClient (m : Manager) (tokens : TokenForest) (parent : Token) (interface : String)
    (made : Outcome) : Except RunError Nat × Manager × TokenForest :=
  match m.refusal? interface, made with
  | some e, _ => (.error (.client e), m, tokens)
  | none, .error e => (.error e, m, tokens)
  | none, .ok () =>
    let (token, tokens) := tokens.child parent
    let client := m.clients.length
    (.ok client,
      { m with
        clients := m.clients ++ [{ interface, token, pings := 0, runs := 0, stage := .spawned }]
        entries := m.entries ++ [{ interface, client, token }] },
      tokens)

/-- Tells the client of an interface to stop. Its entry stays until it has. -/
def cancelClient (m : Manager) (tokens : TokenForest) (interface : String) :
    Except ClientError TokenForest :=
  match m.find? interface with
  | none => .error (.notFound interface)
  | some e => .ok (tokens.cancel e.token)

/-- Tells every tracked client to stop. -/
def cancelAll (m : Manager) (tokens : TokenForest) : TokenForest :=
  m.entries.foldl (fun tokens e => tokens.cancel e.token) tokens

/-- Pings one client. -/
def pingClient (m : Manager) (client : Nat) : Manager :=
  { m with clients := m.clients.modify client fun c => { c with pings := c.pings + 1 } }

/-- The numbers of the tracked clients. -/
def tracked (m : Manager) : List Nat := m.entries.map (·.client)

/-- Pings every tracked client. -/
def ping (m : Manager) : Manager := m.tracked.foldl pingClient m

/-- The task of a client calls its run. Nothing if it has done so. -/
def begin (m : Manager) (client : Nat) : Option Manager :=
  match m.clients[client]? with
  | some c =>
    match c.stage with
    | .spawned => some { m with clients := m.clients.set client { c with runs := c.runs + 1, stage := .running } }
    | _ => none
  | none => none

/-- The run of a client ends, and its task takes out the entry of the interface. Nothing if the client
is not running. -/
def exit (m : Manager) (client : Nat) (r : Outcome) : Option Manager :=
  match m.clients[client]? with
  | some c =>
    match c.stage with
    | .running =>
      some { m with
        clients := m.clients.set client { c with stage := .ended r }
        entries := m.entries.filter (·.interface ≠ c.interface) }
    | _ => none
  | none => none

/-- Refuses starts from now on. -/
def wait (m : Manager) : Manager := { m with waiting := true }

/-- The task of every client that was started has ended. -/
def isDone (m : Manager) : Bool := m.clients.all (·.stage.isEnded)

/-- A manager in use, with the forest of all tokens. -/
structure InUse where
  manager : Manager
  tokens : TokenForest

/-- What can happen to a manager and its clients, each of it at once. -/
inductive Action where
  /-- A client is asked for, to run under a child of `parent`. -/
  | start (parent : Token) (interface : String) (made : Outcome)
  | cancel (interface : String)
  | cancelAll
  /-- Somebody cancels a token. -/
  | cancelToken (t : Token)
  | ping
  /-- Whoever has started a client pings it. -/
  | pingClient (client : Nat)
  /-- The task of a client calls its run. -/
  | begin (client : Nat)
  /-- The run of a client ends. -/
  | exit (client : Nat) (r : Outcome)
  | wait
  /-- A call of `wait` returns. -/
  | waited
  deriving Repr

namespace InUse

/-- A manager that has not been used, among tokens of any kind. -/
def start (tokens : TokenForest) : InUse := { manager := .start, tokens }

/-- What a step leads to. Nothing if it is not possible. A refused start or cancel is possible. -/
def step (u : InUse) : Action → Option InUse
  | .start parent interface made =>
    let r := u.manager.startClient u.tokens parent interface made
    some { manager := r.2.1, tokens := r.2.2 }
  | .cancel interface =>
    some { u with tokens := (u.manager.cancelClient u.tokens interface).toOption.getD u.tokens }
  | .cancelAll => some { u with tokens := u.manager.cancelAll u.tokens }
  | .cancelToken t => some { u with tokens := u.tokens.cancel t }
  | .ping => some { u with manager := u.manager.ping }
  | .pingClient client => some { u with manager := u.manager.pingClient client }
  | .begin client => (u.manager.begin client).map fun manager => { u with manager }
  | .exit client r => (u.manager.exit client r).map fun manager => { u with manager }
  | .wait => some { u with manager := u.manager.wait }
  | .waited => if u.manager.waiting && u.manager.isDone then some u else none

/-- Takes steps one after the other. Nothing if one of them is not possible. -/
def steps (u : InUse) : List Action → Option InUse
  | [] => some u
  | a :: rest => (u.step a).bind (·.steps rest)

end InUse
end Manager
end AmpLink
