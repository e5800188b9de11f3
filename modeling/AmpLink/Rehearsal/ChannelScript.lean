import AmpLink.Limits
import AmpLink.Task.Channel

/-!
# Rehearsing a channel

One caller and one receiver use a channel in turns. A call that would have to wait is given up, unless
the script says what happens while it waits. Whoever can look at the token first does.
-/

namespace AmpLink.ChannelScript

/-- What can happen while a call waits. -/
inductive Turn where
  | receive
  | cancel
  | close
  deriving DecidableEq, Repr

inductive Step (α : Type) where
  | send (a : α)
  | sendThen (a : α) (t : Turn)
  | turn (t : Turn)
  deriving Repr

/-- What a step comes to. -/
inductive Answer (α : Type) where
  | sent (ok : Bool)
  | pending
  | received (a : Option α)
  | done
  /-- How a call ended, and what was received while it waited. -/
  | waited (ok : Bool) (received : Option α)
  deriving Repr

def Turn.action : Turn → Exchange.Action α
  | receive => .receive
  | cancel => .cancel
  | close => .close

/-- The call was told yes. -/
def isAccepted : Exchange.Response α → Bool
  | .call _ .accepted => true
  | _ => false

/-- The number of a call that waits. -/
def waiting? : Exchange.Response α → Option Nat
  | .call n .waiting => some n
  | _ => none

def value? : Exchange.Response α → Option α
  | .value a => a
  | _ => none

def play (x : Exchange α) : Step α → Answer α × Exchange α
  | .send a =>
    let (r, x) := x.step (.send a true)
    match waiting? r with
    | some call => (.pending, (x.step (.giveUp call)).2)
    | none => (.sent (isAccepted r), x)
  | .sendThen a t =>
    let (r, x) := x.step (.send a true)
    let (seen, x) := x.step t.action
    match waiting? r with
    | some call =>
      let (r, x) := x.step (.resume call true)
      match waiting? r with
      | some call => (.waited false (value? seen), (x.step (.giveUp call)).2)
      | none => (.waited (isAccepted r) (value? seen), x)
    | none => (.waited (isAccepted r) (value? seen), x)
  | .turn t =>
    let (r, x) := x.step t.action
    match t with
    | .receive => (.received (value? r), x)
    | _ => (.done, x)

def playAll (x : Exchange α) : List (Step α) → List (Answer α)
  | [] => []
  | s :: rest =>
    let (a, x) := play x s
    a :: playAll x rest

/-- Plays a script with a new channel. -/
def run (capacity : Nat) (steps : List (Step α)) : Except Breach (List (Answer α)) :=
  (Limits.capacity capacity).map fun c => playAll (.start c) steps

end AmpLink.ChannelScript
