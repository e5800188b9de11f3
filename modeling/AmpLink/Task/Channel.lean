/-!
# Bounded channels

A channel holds back at most `capacity` values. A call that finds no room waits, and calls that came
earlier have a claim on the room that arises; a call that gives up leaves nothing behind. When the
receiver goes, what is held back is lost and every call is refused.

`Exchange` is a channel together with a token that calls stop waiting for. It keeps what was accepted
and what was received.
-/

namespace AmpLink

/-- What a call has come to. -/
inductive Sending where
  | accepted
  | refused
  | waiting
  deriving DecidableEq, Repr

structure Channel (α : Type) where
  capacity : Nat
  buffer : List α
  /-- The calls that wait for room, with their values, in the order in which they came. -/
  waiting : List (Nat × α)
  /-- There is a receiver. -/
  isOpen : Bool
  deriving Repr

namespace Channel

def empty (capacity : Nat) : Channel α := { capacity, buffer := [], waiting := [], isOpen := true }

/-- There is room for a call that has `ahead` others before it. -/
def hasRoom (c : Channel α) (ahead : Nat) : Bool := c.buffer.length + ahead < c.capacity

/-- A new call. -/
def send (c : Channel α) (call : Nat) (a : α) : Sending × Channel α :=
  if !c.isOpen then (.refused, c)
  else if c.hasRoom c.waiting.length then (.accepted, { c with buffer := c.buffer ++ [a] })
  else (.waiting, { c with waiting := c.waiting ++ [(call, a)] })

/-- Takes a call out of the waiting ones. -/
def giveUp (c : Channel α) (call : Nat) : Channel α :=
  { c with waiting := c.waiting.filter (·.1 ≠ call) }

/-- The value of a call, if the call is waiting. -/
def value? (c : Channel α) (call : Nat) : Option α := (c.waiting.find? (·.1 = call)).map (·.2)

/-- A waiting call tries again to hand over its value. -/
def resume (c : Channel α) (call : Nat) (a : α) : Sending × Channel α :=
  if !c.isOpen then (.refused, c.giveUp call)
  else if c.hasRoom (c.waiting.findIdx (·.1 = call)) then
    (.accepted, { c.giveUp call with buffer := c.buffer ++ [a] })
  else (.waiting, c)

/-- The oldest value that is held back. -/
def receive (c : Channel α) : Option (α × Channel α) :=
  match c.buffer with
  | [] => none
  | a :: rest => some (a, { c with buffer := rest })

/-- The receiver goes. -/
def close (c : Channel α) : Channel α := { c with buffer := [], isOpen := false }

end Channel

structure Exchange (α : Type) where
  channel : Channel α
  cancelled : Bool
  /-- How many calls have been made. They are numbered from zero. -/
  calls : Nat
  /-- The values of the calls that were told yes, in the order in which that happened. -/
  accepted : List α
  received : List α
  deriving Repr

namespace Exchange

/-- One step of a caller, of the receiver or of whoever holds the token. A call that finds both the
token cancelled and room for its value may go either way: `yields` says that it looks at the token
first. -/
inductive Action (α : Type) where
  | send (value : α) (yields : Bool)
  | resume (call : Nat) (yields : Bool)
  | giveUp (call : Nat)
  | receive
  | cancel
  | close
  deriving Repr

/-- What a step answers: how a call stands, or the value received. -/
inductive Response (α : Type) where
  | call (number : Nat) (s : Sending)
  | value (a : Option α)
  | done
  deriving Repr

def start (capacity : Nat) : Exchange α :=
  { channel := .empty capacity, cancelled := false, calls := 0, accepted := [], received := [] }

/-- Takes over how a call stands. Under a cancelled token no call goes on waiting. -/
def settle (x : Exchange α) (call : Nat) (value : α) : Sending × Channel α → Response α × Exchange α
  | (.accepted, c) => (.call call .accepted, { x with channel := c, accepted := x.accepted ++ [value] })
  | (.refused, c) => (.call call .refused, { x with channel := c })
  | (.waiting, c) =>
    if x.cancelled then (.call call .refused, { x with channel := c.giveUp call })
    else (.call call .waiting, { x with channel := c })

def step (x : Exchange α) : Action α → Response α × Exchange α
  | .send value yields =>
    let x' := { x with calls := x.calls + 1 }
    if x.cancelled && yields then (.call x.calls .refused, x')
    else x'.settle x.calls value (x.channel.send x.calls value)
  | .resume call yields =>
    match x.channel.value? call with
    | none => (.done, x)
    | some value =>
      if x.cancelled && yields then
        (.call call .refused, { x with channel := x.channel.giveUp call })
      else x.settle call value (x.channel.resume call value)
  | .giveUp call => (.done, { x with channel := x.channel.giveUp call })
  | .receive =>
    match x.channel.receive with
    | none => (.value none, x)
    | some (a, c) => (.value (some a), { x with channel := c, received := x.received ++ [a] })
  | .cancel => (.done, { x with cancelled := true })
  | .close => (.done, { x with channel := x.channel.close })

/-- The answers to steps, in order, and what they lead to. -/
def run (x : Exchange α) : List (Action α) → List (Response α) × Exchange α
  | [] => ([], x)
  | a :: rest =>
    let (r, x) := x.step a
    let (rs, x) := x.run rest
    (r :: rs, x)

end Exchange
end AmpLink
