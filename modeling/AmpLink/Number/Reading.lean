import AmpLink.Number.Decimal

/-!
# Reading numbers

Whole numbers are read digit by digit and refused at the first character that is no digit or at the
digit with which the value leaves the range, whichever comes first. Numbers with a point or an
exponent are read exactly and rounded once to single precision.
-/

namespace AmpLink

/-- The value of a digit in a base up to sixteen, either case. -/
def digitValue? (base : Nat) (c : Char) : Option Nat :=
  let v :=
    if '0' ≤ c ∧ c ≤ '9' then c.toNat - '0'.toNat
    else if 'a' ≤ c ∧ c ≤ 'f' then c.toNat - 'a'.toNat + 10
    else if 'A' ≤ c ∧ c ≤ 'F' then c.toNat - 'A'.toNat + 10
    else base
  if v < base then some v else none

/-- Why a text is no number of its range. -/
inductive IntegerFault where
  | empty
  | invalidDigit
  | tooLarge
  deriving DecidableEq, Repr

def IntegerFault.message : IntegerFault → String
  | empty => "cannot parse integer from empty string"
  | invalidDigit => "invalid digit found in string"
  | tooLarge => "number too large to fit in target type"

/-- Continues reading digits after the value `acc`. -/
def readDigits (base limit : Nat) : Nat → List Char → Except IntegerFault Nat
  | acc, [] => .ok acc
  | acc, c :: cs =>
    match digitValue? base c with
    | none => .error .invalidDigit
    | some d =>
      if acc * base + d ≤ limit then readDigits base limit (acc * base + d) cs
      else .error .tooLarge

/-- A whole number of at most `limit`, with an optional plus sign. -/
def readNat (base limit : Nat) (cs : List Char) : Except IntegerFault Nat :=
  match cs with
  | [] => .error .empty
  | ['+'] | ['-'] => .error .invalidDigit
  | '+' :: ds => readDigits base limit 0 ds
  | ds => readDigits base limit 0 ds

namespace Binary32

/-- The number nearest to `coefficient · 10^exponent`. Exponents far outside the range are settled
by the count of digits. -/
def ofDecimal (negative : Bool) (coefficient : Nat) (exponent : Int) : Binary32 :=
  let top := (Decimal.digits coefficient).length + exponent
  if coefficient = 0 ∨ top < -50 then ofMagnitude negative 0
  else if 45 < top then infinity negative
  else if 0 ≤ exponent then
    ofUnits negative (coefficient * Nat.pow 10 exponent.toNat * unitsPerOne) 1
  else ofUnits negative (coefficient * unitsPerOne) (Nat.pow 10 (-exponent).toNat)

private def decimalDigits (cs : List Char) : List Char × List Char :=
  (cs.takeWhile Char.isDigit, cs.dropWhile Char.isDigit)

private def natOfDigits (ds : List Char) : Nat :=
  ds.foldl (fun n c => 10 * n + (c.toNat - '0'.toNat)) 0

/-- A signed exponent behind its mark, which must have digits. -/
private def readExponent? : List Char → Option Int
  | [] => some 0
  | c :: cs =>
    if c = 'e' ∨ c = 'E' then
      let (negative, ds) := match cs with
        | '-' :: ds => (true, ds)
        | '+' :: ds => (false, ds)
        | ds => (false, ds)
      if ds.isEmpty ∨ !ds.all Char.isDigit then none
      else some (if negative then -natOfDigits ds else natOfDigits ds)
    else none

/-- Reads a number: digits with an optional point and exponent, or the word for infinity or for what
is no number in any case of letters. -/
def read? (cs : List Char) : Option Binary32 :=
  let (negative, body) := match cs with
    | '-' :: ds => (true, ds)
    | '+' :: ds => (false, ds)
    | ds => (false, ds)
  let word := String.ofList (body.map Char.toLower)
  if word = "inf" ∨ word = "infinity" then some (infinity negative)
  else if word = "nan" then some (ofMagnitude negative nan.magnitude)
  else
    let (whole, rest) := decimalDigits body
    let (part, rest) := match rest with
      | '.' :: rest => decimalDigits rest
      | rest => ([], rest)
    if whole.isEmpty ∧ part.isEmpty then none
    else (readExponent? rest).map fun e =>
      ofDecimal negative (natOfDigits (whole ++ part)) (e - part.length)

end Binary32
end AmpLink
