import AmpLink.Number.Binary32
import Mathlib.Algebra.Order.Field.Basic
import Mathlib.Data.Rat.Cast.Order

/-!
# The number that a pattern denotes

The finite patterns denote rational numbers (`Binary32.Denotes`). A pattern is a fraction exactly if it denotes
a number from zero to one (`Binary32.isFraction_iff`): both zeros do, infinities and what is no number do not.
-/

namespace AmpLink.Binary32

/-- The number that a sign and a multiple of the smallest number stand for. -/
def rational (negative : Bool) (units : Nat) : ℚ :=
  if negative then -(units / unitsPerOne) else units / unitsPerOne

/-- The pattern stands for a number. -/
def Denotes (x : Binary32) (q : ℚ) : Prop :=
  ∃ negative units, x.value = .finite negative units ∧ q = rational negative units

/-- The pattern stands for a number from zero to one. -/
def InUnit (x : Binary32) : Prop := ∃ q, x.Denotes q ∧ 0 ≤ q ∧ q ≤ 1

theorem unitsPerOne_pos : (0 : ℚ) < unitsPerOne :=
  Nat.cast_pos.mpr (Nat.pow_pos (by decide))

theorem rational_mem_unit {negative : Bool} : 0 ≤ rational negative units ∧ rational negative units ≤ 1 ↔
    if negative then units = 0 else units ≤ unitsPerOne := by
  have hnonneg : (0 : ℚ) ≤ units / unitsPerOne :=
    div_nonneg (Nat.cast_nonneg units) unitsPerOne_pos.le
  cases negative with
  | false => exact (and_iff_right hnonneg).trans ((div_le_one unitsPerOne_pos).trans Nat.cast_le)
  | true =>
    change 0 ≤ -(units / unitsPerOne : ℚ) ∧ -(units / unitsPerOne : ℚ) ≤ 1 ↔ units = 0
    constructor
    · rintro ⟨hle, -⟩
      have hzero := le_antisymm (neg_nonneg.mp hle) hnonneg
      rw [div_eq_zero_iff, or_iff_left unitsPerOne_pos.ne'] at hzero
      exact Nat.cast_eq_zero.mp hzero
    · rintro rfl
      simp

variable {x : Binary32}

theorem isFraction_iff : x.isFraction ↔ x.InUnit := by
  rw [isFraction]
  cases h : x.value with
  | finite negative units =>
    have hunit : x.InUnit ↔ if negative then units = 0 else units ≤ unitsPerOne := by
      rw [← rational_mem_unit]
      constructor
      · rintro ⟨_, ⟨_, _, hx, rfl⟩, hq⟩
        rw [h] at hx
        cases hx
        exact hq
      · exact fun hq => ⟨_, ⟨negative, units, h, rfl⟩, hq⟩
    rw [hunit]
    cases negative with
    | false | true => exact decide_eq_true_iff
  | nan | infinite _ =>
    refine iff_of_false Bool.false_ne_true ?_
    rintro ⟨_, ⟨_, _, hx, -⟩, -⟩
    rw [h] at hx
    contradiction

instance (x : Binary32) : Decidable x.InUnit := decidable_of_iff _ isFraction_iff

end AmpLink.Binary32
