import AmpLink.Client.Tree
import AmpLink.Command

/-!
# Fan-out

A group of clients as it is used: members come in, commands go to all of them, the group is run and its
members end. Commands reach every leaf, whatever has become of the others.
-/

namespace AmpLink

structure FanOut where
  tree : ClientTree
  tokens : TokenForest
  /-- The token that every run of the whole is given. -/
  outer : Token
  /-- What the leaves have been told, in order. -/
  delivered : List (Nat × Command)
  /-- How the runs of the whole have ended, in the order of their ends. -/
  results : List Outcome

namespace FanOut

def start : FanOut :=
  let (outer, tokens) := TokenForest.empty.root
  { tree := .empty, tokens, outer, delivered := [], results := [] }

def len (f : FanOut) : Nat := f.tree.members.length

/-- Takes a member into the group at a place. -/
def add (f : FanOut) (place : List Nat) (new : ClientTree) : Except ClientError FanOut :=
  match ClientTree.add new place f.tree with
  | none => .error (.notFound new.name)
  | some r => r.map fun tree => { f with tree }

/-- Gives a command to every leaf, once for each of its places. -/
def send (f : FanOut) (c : Command) : FanOut :=
  { f with delivered := f.delivered ++ f.tree.leaves.map (·, c) }

def run (f : FanOut) : FanOut :=
  let (r, tree, tokens) := f.tree.start f.tokens f.outer
  { f with tree, tokens, results := f.results ++ r.toList }

/-- The leaf at a place ends. -/
def finish (f : FanOut) (place : List Nat) (r : Outcome) : FanOut :=
  match f.tree.finish f.tokens r place with
  | none => f
  | some (r, tree, tokens) => { f with tree, tokens, results := f.results ++ r.toList }

/-- Cancels a token, such as that of all runs. -/
def cancel (f : FanOut) (t : Token) : FanOut := { f with tokens := f.tokens.cancel t }

/-- The commands that a leaf has been told, once for each place. -/
def heard (f : FanOut) (id : Nat) : List Command :=
  (f.delivered.filter (·.1 = id)).map (·.2)

inductive Action where
  | add (place : List Nat) (new : ClientTree)
  | send (c : Command)
  | run
  | finish (place : List Nat) (r : Outcome)
  | cancel (t : Token)

/-- One action. A refused member changes nothing. -/
def step (f : FanOut) : Action → FanOut
  | .add place new => (f.add place new).toOption.getD f
  | .send c => f.send c
  | .run => f.run
  | .finish place r => f.finish place r
  | .cancel t => f.cancel t

/-- Actions one after the other. -/
def steps (f : FanOut) (actions : List Action) : FanOut := actions.foldl step f

end FanOut
end AmpLink
