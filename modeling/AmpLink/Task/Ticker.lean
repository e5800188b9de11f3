/-!
# Tickers

A ticker is due every `period` milliseconds. A tick that is taken late by more than a little moves the
ones after it.
-/

namespace AmpLink

structure Ticker where
  period : Nat
  /-- The instant from which the next tick can be taken. -/
  next : Nat
  deriving DecidableEq, Repr

namespace Ticker

/-- Milliseconds by which a tick may be late without moving the following ones. -/
def tolerance : Nat := 5

def isDue (t : Ticker) (now : Nat) : Bool := t.next ≤ now

/-- Takes the tick that is due. -/
def take (t : Ticker) (now : Nat) : Ticker :=
  { t with next := (if t.next + tolerance < now then now else t.next) + t.period }

end Ticker
end AmpLink
