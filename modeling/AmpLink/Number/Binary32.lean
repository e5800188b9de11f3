import AmpLink.Number.Rounding

/-!
# Single precision numbers

A number is its 32-bit pattern. Every finite number is an integer multiple of the smallest positive
one, `2^-149`, and the arithmetic is done on these multiples: products, sums and quotients are
formed exactly and rounded once, to nearest with halves to the even pattern.
-/

namespace AmpLink

/-- An IEEE single precision number, by its bit pattern. -/
structure Binary32 where
  bits : UInt32
  deriving DecidableEq, Repr, Inhabited

/-- What a bit pattern denotes. -/
inductive Binary32.Value where
  | nan
  | infinite (negative : Bool)
  /-- The number `units · 2^-149`, or its negation. -/
  | finite (negative : Bool) (units : Nat)
  deriving DecidableEq, Repr

namespace Binary32

/-- The number one, in units of `2^-149`. -/
def unitsPerOne : Nat := Nat.pow 2 149

/-- The patterns from one power of two to the next. -/
def binadeSize : Nat := 0x800000

/-- The patterns of one sign. -/
def signSize : Nat := 0x80000000

/-- The pattern of positive infinity, the first one past the finite magnitudes. -/
def infinityBits : Nat := 255 * binadeSize

def isNegative (x : Binary32) : Bool := signSize ≤ x.bits.toNat

/-- The pattern without its sign. -/
def magnitude (x : Binary32) : Nat := x.bits.toNat % signSize

/-- The multiple of `2^-149` that a finite magnitude stands for. -/
def unitsOfMagnitude (mag : Nat) : Nat :=
  let field := mag / binadeSize
  let fraction := mag % binadeSize
  if field = 0 then fraction else (binadeSize + fraction) * Nat.pow 2 (field - 1)

def value (x : Binary32) : Value :=
  if infinityBits < x.magnitude then .nan
  else if x.magnitude = infinityBits then .infinite x.isNegative
  else .finite x.isNegative (unitsOfMagnitude x.magnitude)

def ofMagnitude (negative : Bool) (mag : Nat) : Binary32 :=
  ⟨.ofNat (if negative then signSize + mag else mag)⟩

/-- The magnitude nearest to `num / den` units. What is too large becomes infinity. -/
def roundUnits (num den : Nat) : Nat :=
  let scale := (num / den).log2 - 23
  min (scale * binadeSize + roundHalfEven num (den * Nat.pow 2 scale)) infinityBits

def ofUnits (negative : Bool) (num den : Nat) : Binary32 :=
  ofMagnitude negative (roundUnits num den)

def nan : Binary32 := ⟨0x7fc00000⟩
def zero : Binary32 := ⟨0⟩
def infinity (negative : Bool) : Binary32 := ofMagnitude negative infinityBits

/-- The number nearest to a natural number. -/
def ofNat (n : Nat) : Binary32 := ofUnits false (n * unitsPerOne) 1

def mul (x y : Binary32) : Binary32 :=
  match x.value, y.value with
  | .nan, _ | _, .nan => nan
  | .infinite s, .infinite t => infinity (s != t)
  | .infinite s, .finite t u | .finite t u, .infinite s =>
    if u = 0 then nan else infinity (s != t)
  | .finite s u, .finite t v => ofUnits (s != t) (u * v) unitsPerOne

def div (x y : Binary32) : Binary32 :=
  match x.value, y.value with
  | .nan, _ | _, .nan | .infinite _, .infinite _ => nan
  | .infinite s, .finite t _ => infinity (s != t)
  | .finite s _, .infinite t => ofMagnitude (s != t) 0
  | .finite s u, .finite t v =>
    if v = 0 then if u = 0 then nan else infinity (s != t)
    else ofUnits (s != t) (u * unitsPerOne) v

def add (x y : Binary32) : Binary32 :=
  match x.value, y.value with
  | .nan, _ | _, .nan => nan
  | .infinite s, .infinite t => if s = t then infinity s else nan
  | .infinite s, .finite .. | .finite .., .infinite s => infinity s
  | .finite s u, .finite t v =>
    if s = t then ofUnits s (u + v) 1
    else if v < u then ofUnits s (u - v) 1
    else if u < v then ofUnits t (v - u) 1
    else zero

instance : Mul Binary32 := ⟨mul⟩
instance : Div Binary32 := ⟨div⟩
instance : Add Binary32 := ⟨add⟩

/-- The integer part, kept inside the 32-bit range; what is no number becomes zero. -/
def toUInt32 (x : Binary32) : UInt32 :=
  match x.value with
  | .nan | .infinite true | .finite true _ => 0
  | .infinite false => .ofNat (UInt32.size - 1)
  | .finite false u => .ofNat (min (u / unitsPerOne) (UInt32.size - 1))

/-- Between zero and one, both included. Both zeros are, and nothing that is not a number is. -/
def isFraction (x : Binary32) : Bool :=
  match x.value with
  | .finite negative u => if negative then u = 0 else u ≤ unitsPerOne
  | _ => false

end Binary32
end AmpLink
