import AmpLink.Task.Group

/-!
# Rehearsing a group of sleepers

A group whose tasks only sleep, played in virtual time: the clock jumps from one instant at which
something can happen to the next. At one instant sleep that is over counts before cancellation.
-/

namespace AmpLink

/-- A task that sleeps. -/
structure Sleeper where
  sleep : Nat
  /-- What the task ends with. -/
  result : Outcome
  /-- Cancellation ends the sleep. -/
  heeds : Bool
  /-- Milliseconds that the task takes to end after that. -/
  linger : Nat
  deriving Repr

namespace Sleeper

inductive Phase where
  | asleep
  | lingering (due : Nat)
  | ended
  deriving DecidableEq, Repr

/-- The end of a task, or of the group if there is no task. -/
structure Entry where
  time : Nat
  task : Option Nat
  cancelled : Bool
  deriving DecidableEq, Repr

/-- How a group has been played. -/
structure Report where
  result : Outcome
  /-- The token of the group was cancelled when the group ended. -/
  cancelled : Bool
  entries : List Entry
  deriving Repr

structure State where
  now : Nat
  tokens : TokenForest
  group : TaskGroup
  tasks : List (Sleeper × Phase)
  entries : List Entry
  deriving Repr

def State.start (sleepers : List Sleeper) : State :=
  let (token, tokens) := TokenForest.empty.root
  { now := 0, tokens, group := .start token sleepers.length, tasks := sleepers.map (·, .asleep),
    entries := [] }

namespace State

def isCancelled (s : State) : Bool := s.tokens.isCancelled s.group.token

def setPhase (s : State) (i : Nat) (p : Phase) : State :=
  { s with tasks := s.tasks.modify i fun t => (t.1, p) }

/-- The end of a task. -/
def finish (s : State) (i : Nat) (t : Sleeper) (cancelled : Bool) : State :=
  let (group, tokens) := s.group.finish s.tokens i t.result
  { s.setPhase i .ended with group, tokens, entries := s.entries ++ [⟨s.now, some i, cancelled⟩] }

/-- Ends a task whose time has come. -/
def wake (s : State) (i : Nat) : State :=
  match s.tasks[i]? with
  | some (t, .asleep) => if t.sleep ≤ s.now then s.finish i t false else s
  | some (t, .lingering due) => if due ≤ s.now then s.finish i t true else s
  | _ => s

/-- Lets a task take note of cancellation. -/
def heed (s : State) (i : Nat) : State :=
  match s.tasks[i]? with
  | some (t, .asleep) =>
    if t.heeds && s.isCancelled then
      if t.linger = 0 then s.finish i t true else s.setPhase i (.lingering (s.now + t.linger))
    else s
  | _ => s

/-- All that happens at one instant. -/
def instant (s : State) (cancelAt : Option Nat) : State :=
  let each := List.range s.tasks.length
  let s := each.foldl wake s
  let s := if cancelAt = some s.now then { s with tokens := s.tokens.cancel s.group.token } else s
  each.foldl heed s

/-- The next instant at which something happens. -/
def next? (s : State) (cancelAt : Option Nat) : Option Nat :=
  let due : List Nat := s.tasks.filterMap fun
    | (t, .asleep) => some t.sleep
    | (_, .lingering due) => some due
    | (_, .ended) => none
  ((due ++ cancelAt.toList).filter (s.now < ·)).min?

def report (s : State) (result : Outcome) : Report :=
  { result, cancelled := s.isCancelled, entries := s.entries ++ [⟨s.now, none, false⟩] }

/-- Plays on until the group is over, for at most `fuel` instants. -/
def play (s : State) (cancelAt : Option Nat) : Nat → Option Report
  | 0 => none
  | fuel + 1 =>
    let s := s.instant cancelAt
    match s.group.result? with
    | some r => some (s.report r)
    | none =>
      match s.next? cancelAt with
      | some t => { s with now := t }.play cancelAt fuel
      | none => none

end State

/-- Plays a group whose token is cancelled from outside at `cancelAt`. Every task wakes at most
twice, which bounds the instants. -/
def play (sleepers : List Sleeper) (cancelAt : Option Nat) : Option Report :=
  (State.start sleepers).play cancelAt (2 * sleepers.length + 2)

end Sleeper
end AmpLink
