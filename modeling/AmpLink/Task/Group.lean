import AmpLink.Error
import AmpLink.Task.Token

/-!
# Groups of tasks

A group is over when all of its tasks are. The first failure cancels the token of the group, so that
the other tasks wind down, and is the result of the group; later failures are dropped.
-/

namespace AmpLink

structure TaskGroup where
  token : Token
  /-- The numbers of the tasks that have not ended. -/
  unfinished : List Nat
  firstError : Option RunError
  deriving Repr

namespace TaskGroup

/-- A group of `count` tasks, numbered from zero. -/
def start (token : Token) (count : Nat) : TaskGroup :=
  { token, unfinished := List.range count, firstError := none }

/-- Takes the end of a task. Ends of tasks that are not running are ignored. -/
def finish (g : TaskGroup) (tokens : TokenForest) (task : Nat) (r : Outcome) : TaskGroup × TokenForest :=
  if task ∈ g.unfinished then
    let g' := { g with unfinished := g.unfinished.erase task }
    match r, g.firstError with
    | .error e, none => ({ g' with firstError := some e }, tokens.cancel g.token)
    | _, _ => (g', tokens)
  else (g, tokens)

/-- Takes the end of a task if it has ended. -/
def finish? (g : TaskGroup) (tokens : TokenForest) (task : Nat) :
    Option Outcome → TaskGroup × TokenForest
  | some r => g.finish tokens task r
  | none => (g, tokens)

/-- The result, once all tasks have ended. -/
def result? (g : TaskGroup) : Option Outcome :=
  match g.unfinished, g.firstError with
  | [], none => some (.ok ())
  | [], some e => some (.error e)
  | _, _ => none

/-- Takes the ends of tasks in the order in which they come. -/
def finishAll (g : TaskGroup) (tokens : TokenForest) : List (Nat × Outcome) → TaskGroup × TokenForest
  | [] => (g, tokens)
  | (task, r) :: rest =>
    let (g, tokens) := g.finish tokens task r
    g.finishAll tokens rest

end TaskGroup
end AmpLink
