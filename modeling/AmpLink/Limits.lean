/-!
# Limits of channels and clocks

Channels and clocks work inside of limits that nothing checks when settings are read. A setting beyond
them stops the program where it is used.
-/

namespace AmpLink

/-- A setting that cannot be used. -/
inductive Breach where
  | channelCapacity (n : Nat)
  | period
  | deadline (seconds : Nat)
  deriving DecidableEq, Repr

namespace Limits

/-- The most values that a channel can hold back. -/
def maxCapacity : Nat := 0x1fffffffffffffff

/-- The last whole second that a clock can name. -/
def maxSecond : Nat := 0x7fffffffffffffff

/-- A channel holds back at least one value. -/
def capacity (n : Nat) : Except Breach Nat :=
  if 0 < n ∧ n ≤ maxCapacity then .ok n else .error (.channelCapacity n)

/-- A clock cannot tick all the time. -/
def period (ms : Nat) : Except Breach Nat := if 0 < ms then .ok ms else .error .period

/-- A deadline some seconds after the second `now`. -/
def deadline (now seconds : Nat) : Except Breach Nat :=
  if now + seconds ≤ maxSecond then .ok (now + seconds) else .error (.deadline seconds)

end Limits
end AmpLink
