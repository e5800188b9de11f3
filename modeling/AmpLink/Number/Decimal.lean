import AmpLink.Number.Binary32

/-!
# Decimal text of binary numbers

A finite binary number is written with the fewest digits that read back as the same number of its
format, and among those with the digits nearest to it. `shortest` searches the decimal grids from
one digit upwards; on each grid only the two neighbours of the number can lie in the interval of
reals that round to it. All arithmetic is exact.
-/

namespace AmpLink

/-- The number `coefficient · 10^exponent`. -/
structure Decimal where
  coefficient : Nat
  exponent : Int
  deriving DecidableEq, Repr

/-- A binary format: bits of the significand, and `2^-unitExponent` is the smallest positive number. -/
structure BinaryFormat where
  precision : Nat
  unitExponent : Nat

def BinaryFormat.single : BinaryFormat := ⟨24, 149⟩
def BinaryFormat.double : BinaryFormat := ⟨53, 1074⟩

namespace Decimal

/-- Decimal digits of a natural number. -/
def digits (n : Nat) : List Char := Nat.toDigits 10 n

/-- Removes the zeros at the end of the coefficient. -/
def trim (d : Decimal) : Decimal :=
  go d.coefficient d
where
  go : Nat → Decimal → Decimal
    | 0, d => d
    | fuel + 1, d =>
      if d.coefficient ≠ 0 ∧ d.coefficient % 10 = 0 then
        go fuel ⟨d.coefficient / 10, d.exponent + 1⟩
      else d

/-- The count of decimal places before the first digit of `num / den`: the least `e` with
`num / den < 10^e`. -/
def pointPosition (num den : Nat) : Int :=
  if den ≤ num then (digits (num / den)).length
  else -(leadingZeros (den / num).log2 1 : Nat)
where
  /-- The zeros right behind the point of a number below one. -/
  leadingZeros : Nat → Nat → Nat
    | 0, _ => 0
    | fuel + 1, power => if den ≤ num * (power * 10) then 0 else leadingZeros fuel (power * 10) + 1

/-- The multiple of `10^k` at or below `num / den`, by its factor. -/
def floorOn (num den : Nat) (k : Int) : Nat :=
  if 0 ≤ k then num / (den * Nat.pow 10 k.toNat) else num * Nat.pow 10 (-k).toNat / den

/-- The order of `c · 10^k` and `num / den`. -/
def compareTo (c : Nat) (k : Int) (num den : Nat) : Ordering :=
  if 0 ≤ k then compare (c * Nat.pow 10 k.toNat * den) num
  else compare (c * den) (num * Nat.pow 10 (-k).toNat)

/-- The reals that round to the number of `units` units, in quarters of a unit. -/
def BinaryFormat.interval (f : BinaryFormat) (units : Nat) : Nat × Nat × Bool :=
  let step := Nat.pow 2 (units.log2 + 1 - f.precision)
  let narrow := units = Nat.pow 2 units.log2 ∧ 1 < step
  (4 * units - (if narrow then step else 2 * step), 4 * units + 2 * step, units / step % 2 = 0)

/-- The shortest decimal that reads back as `units` units of the format, for `units` not zero. -/
def shortest (f : BinaryFormat) (units : Nat) : Decimal :=
  let (low, high, closed) := BinaryFormat.interval f units
  let den := 4 * Nat.pow 2 f.unitExponent
  let inside (c : Nat) (k : Int) : Bool :=
    let l := compareTo c k low den
    let h := compareTo c k high den
    (l == .gt || closed && l == .eq) && (h == .lt || closed && h == .eq)
  let point := pointPosition (4 * units) den
  let rec search : Nat → Nat → Decimal
    | 0, _ => ⟨units, 0⟩
    | fuel + 1, n =>
      let k := point - n
      let c := floorOn (4 * units) den k
      match inside c k, inside (c + 1) k with
      | true, true =>
        -- twice the number against the sum of both neighbours
        match compareTo (2 * c + 1) k (8 * units) den with
        | .gt => ⟨c, k⟩
        | .lt => ⟨c + 1, k⟩
        | .eq => ⟨if c % 2 = 0 then c else c + 1, k⟩
      | true, false => ⟨c, k⟩
      | false, true => ⟨c + 1, k⟩
      | false, false => search fuel (n + 1)
  (search (f.precision + 2) 1).trim

/-- Written out without an exponent, with `point` where digits follow it. -/
def positional (d : Decimal) : List Char :=
  let ds := digits d.coefficient
  if 0 ≤ d.exponent then ds ++ List.replicate d.exponent.toNat '0'
  else
    let places := (-d.exponent).toNat
    if places < ds.length then
      ds.take (ds.length - places) ++ '.' :: ds.drop (ds.length - places)
    else '0' :: '.' :: (List.replicate (places - ds.length) '0' ++ ds)

/-- The exponent of the first digit. -/
def leadingExponent (d : Decimal) : Int := d.exponent + ((digits d.coefficient).length - 1 : Nat)

/-- One digit before the point, and the exponent with its sign. -/
def scientific (d : Decimal) : List Char :=
  let ds := digits d.coefficient
  let e := d.leadingExponent
  let tail := match ds with
    | c :: [] => [c]
    | c :: cs => c :: '.' :: cs
    | [] => []
  tail ++ 'e' :: (if e < 0 then '-' else '+') :: digits e.natAbs

end Decimal

namespace Binary32

/-- The texts of a number: sign, then the text of what remains. -/
def render (x : Binary32) (finite : Nat → List Char) : List Char :=
  match x.value with
  | .nan => ['N', 'a', 'N']
  | .infinite negative => (if negative then ['-'] else []) ++ ['i', 'n', 'f']
  | .finite negative units => (if negative then ['-'] else []) ++ finite units

/-- The fewest digits that read back as the same number, without an exponent. -/
def text (x : Binary32) : String :=
  .ofList <| x.render fun units =>
    if units = 0 then ['0'] else (Decimal.shortest .single units).positional

/-- The exact value with `places` digits after the point; a half goes to the even neighbour. -/
def fixed (x : Binary32) (places : Nat) : String :=
  .ofList <| x.render fun units =>
    let n := roundHalfEven (units * Nat.pow 10 places) unitsPerOne
    let ds := Decimal.digits n
    let ds := List.replicate (places + 1 - ds.length) '0' ++ ds
    ds.take (ds.length - places) ++ '.' :: ds.drop (ds.length - places)

/-- The text of a finite number as one of double precision: positional between `1e-5` and `1e16`,
with a point also in an integer. -/
def doubleText (x : Binary32) : Option String :=
  match x.value with
  | .finite negative units => some <| .ofList <|
    (if negative then ['-'] else []) ++
      if units = 0 then ['0', '.', '0']
      else
        let d := Decimal.shortest .double (units * Nat.pow 2 (1074 - 149))
        if -5 ≤ d.leadingExponent ∧ d.leadingExponent ≤ 15 then
          d.positional ++ if 0 ≤ d.exponent then ['.', '0'] else []
        else d.scientific
  | _ => none

end Binary32
end AmpLink
