import AmpLink.Task.Group

/-!
# Trees of clients

A client is a leaf, which talks to something itself, or a group of further clients. A group can take in
members until it is run; then it runs all of its members under a token of its own and ends when they
have ended. The same leaf may stand at several places.

A place in a tree is a list of member numbers, from the root down.
-/

namespace AmpLink

/-- A call that runs a leaf: the token it was given, and how it ended. -/
structure LeafRun where
  token : Token
  result : Option Outcome
  deriving Repr

inductive ClientTree where
  | leaf (id : Nat) (name : String) (runs : List LeafRun)
  /-- `tasks` are the runs of the members, once the group has been run. -/
  | group (members : List ClientTree) (tasks : Option TaskGroup)

namespace ClientTree

/-- A group without members. -/
def empty : ClientTree := .group [] none

mutual

/-- A group is called by the names of its members. -/
def name : ClientTree → String
  | .leaf _ name _ => name
  | .group members _ => "multiclient-" ++ ",".intercalate (names members)

def names : List ClientTree → List String
  | [] => []
  | c :: rest => c.name :: names rest

end

mutual

/-- The ids of the leaves at all places, from left to right. -/
def leaves : ClientTree → List Nat
  | .leaf id _ _ => [id]
  | .group members _ => leavesOfAll members

def leavesOfAll : List ClientTree → List Nat
  | [] => []
  | c :: rest => c.leaves ++ leavesOfAll rest

end

/-- The members of a group. A leaf has none. -/
def members : ClientTree → List ClientTree
  | .leaf .. => []
  | .group ms _ => ms

/-- A group that has been run. -/
def isStarted : ClientTree → Bool
  | .leaf .. => false
  | .group _ tasks => tasks.isSome

/-- Takes a new member into the group at a place. There may be no group there. -/
def add (new : ClientTree) : List Nat → ClientTree → Option (Except ClientError ClientTree)
  | _, .leaf .. => none
  | [], .group members tasks =>
    some <|
      if tasks.isSome then .error (.busy new.name)
      else if new.name ∈ names members then .error (.alreadyExists new.name)
      else .ok (.group (members ++ [new]) tasks)
  | i :: place, .group members tasks =>
    match members[i]? with
    | none => none
    | some m => (add new place m).map fun r => r.map fun m => .group (members.set i m) tasks

mutual

/-- Runs a client under a token. A run that ends at once is reported: an empty group has nothing to do,
and a group that has been run before refuses. -/
def start (tokens : TokenForest) (token : Token) : ClientTree → Option Outcome × ClientTree × TokenForest
  | .leaf id name runs => (none, .leaf id name (runs ++ [{ token, result := none }]), tokens)
  | .group members (some tasks) =>
    (some (.error (.client (.alreadyRunning (name (.group members (some tasks)))))),
      .group members (some tasks), tokens)
  | .group members none =>
    let (own, tokens) := tokens.child token
    let (tasks, members, tokens) := startAll tokens (.start own members.length) 0 members
    (tasks.result?, .group members (some tasks), tokens)

/-- Runs the members of a group one after the other, the first of them being number `i`. -/
def startAll (tokens : TokenForest) (tasks : TaskGroup) (i : Nat) :
    List ClientTree → TaskGroup × List ClientTree × TokenForest
  | [] => (tasks, [], tokens)
  | c :: rest =>
    let (r, c, tokens) := start tokens tasks.token c
    let (tasks, tokens) := tasks.finish? tokens i r
    let (tasks, rest, tokens) := startAll tokens tasks (i + 1) rest
    (tasks, c :: rest, tokens)

end

/-- Notes the end of the latest run. -/
def endLast (r : Outcome) : List LeafRun → Option (List LeafRun)
  | [] => none
  | [run] => if run.result.isNone then some [{ run with result := some r }] else none
  | run :: rest => (endLast r rest).map (run :: ·)

/-- A member of a group has gone on, and its run may have ended. The group takes that end if it waits for
the member, and not if the member was run by somebody else. -/
def settle (tokens : TokenForest) (i : Nat) :
    Option Outcome → Option TaskGroup → Option Outcome × Option TaskGroup × TokenForest
  | some r, some tasks =>
    if i ∈ tasks.unfinished then
      let (tasks, tokens) := tasks.finish tokens i r
      (tasks.result?, some tasks, tokens)
    else (none, some tasks, tokens)
  | _, tasks => (none, tasks, tokens)

/-- The leaf at a place ends. What ends with it is carried upwards: the result is that of the whole
tree, if the tree has ended. There may be no running leaf at the place. -/
def finish (tokens : TokenForest) (r : Outcome) :
    List Nat → ClientTree → Option (Option Outcome × ClientTree × TokenForest)
  | [], .leaf id name runs =>
    (endLast r runs).map fun runs => (some r, .leaf id name runs, tokens)
  | i :: place, .group members tasks =>
    match members[i]? with
    | none => none
    | some m =>
      match finish tokens r place m with
      | none => none
      | some (ended, m, tokens) =>
        let (ended, tasks, tokens) := settle tokens i ended tasks
        some (ended, .group (members.set i m) tasks, tokens)
  | _, _ => none

mutual

/-- All places of leaves, with the id and the runs of the leaf. -/
def places : ClientTree → List (List Nat × Nat × List LeafRun)
  | .leaf id _ runs => [([], id, runs)]
  | .group members _ => placesOfAll 0 members

def placesOfAll (i : Nat) : List ClientTree → List (List Nat × Nat × List LeafRun)
  | [] => []
  | c :: rest => (places c).map (fun p => (i :: p.1, p.2)) ++ placesOfAll (i + 1) rest

end

end ClientTree
end AmpLink
