import AmpLink.Number.Binary32
import Mathlib.Algebra.Order.Group.Nat
import Mathlib.Tactic.Ring

/-!
# What is left of a number by rounding

Around `num / den` units the single precision numbers are `spacing num den` units apart, and rounding leads to
the multiple of that distance that is nearest, `nearestUnits num den` (`Binary32.value_ofUnits`). It is at
most half of the distance away, it never gets past a number that is a multiple of the distance at its own
place (`Binary32.IsExact`), and it is the multiple that lies closer than half of the distance
(`Binary32.nearestUnits_eq_of_close`).
-/

namespace AmpLink

/-! ## Quotients -/

section

variable {num den k : Nat}

theorem roundHalfEven_error (num : Nat) (h : 0 < den) :
    2 * num ≤ 2 * (roundHalfEven num den * den) + den ∧
      2 * (roundHalfEven num den * den) ≤ 2 * num + den := by
  have hdiv := Nat.div_add_mod' num den
  have hmod := Nat.mod_lt num h
  have hsucc := Nat.add_one_mul (num / den) den
  rw [roundHalfEven]
  (repeat' split) <;> omega

/-- Rounding does not get past a whole number. -/
theorem roundHalfEven_le_of_le (h : num ≤ den * k) : roundHalfEven num den ≤ k := by
  have hdiv := Nat.div_add_mod num den
  rcases Nat.lt_or_ge (num / den) k with hlt | hge
  · exact (roundHalfEven_le num den).trans hlt
  · -- the quotient is `k` itself, and nothing is left over
    have hmul := Nat.mul_le_mul_left den hge
    have hrest : num % den = 0 := by omega
    rcases Nat.eq_zero_or_pos den with rfl | hden
    · rw [Nat.mod_zero] at hrest
      simp [hrest, roundHalfEven]
    · rw [hrest, Nat.add_zero] at hdiv
      rw [← hdiv, roundHalfEven_mul_left _ hden]
      exact Nat.le_of_mul_le_mul_left (hdiv.symm ▸ h) hden

theorem roundHalfEven_eq_of_close (hlow : 2 * (k * den) < 2 * num + den)
    (hhigh : 2 * num < 2 * (k * den) + den) : roundHalfEven num den = k := by
  have hden : 0 < den := by omega
  obtain ⟨herror, herror'⟩ := roundHalfEven_error num hden
  have hle : roundHalfEven num den < k + 1 := by
    refine Nat.lt_of_mul_lt_mul_right (a := den) ?_
    rw [Nat.succ_mul]
    omega
  have hge : k < roundHalfEven num den + 1 := by
    refine Nat.lt_of_mul_lt_mul_right (a := den) ?_
    rw [Nat.succ_mul]
    omega
  omega

end

namespace Binary32

/-! ## Magnitudes -/

theorem value_ofMagnitude (negative : Bool) {mag : Nat} (h : mag < infinityBits) :
    (ofMagnitude negative mag).value = .finite negative (unitsOfMagnitude mag) := by
  have hmag : mag < signSize := Nat.lt_of_lt_of_le h (by decide)
  have hbits : (ofMagnitude negative mag).bits.toNat = if negative then signSize + mag else mag := by
    rw [ofMagnitude, UInt32.toNat_ofNat']
    refine Nat.mod_eq_of_lt ?_
    rw [signSize] at hmag ⊢
    split <;> omega
  have hmagnitude : (ofMagnitude negative mag).magnitude = mag := by
    rw [magnitude, hbits]
    cases negative with
    | false => exact Nat.mod_eq_of_lt hmag
    | true => exact (Nat.add_mod_left ..).trans (Nat.mod_eq_of_lt hmag)
  have hnegative : (ofMagnitude negative mag).isNegative = negative := by
    rw [isNegative, hbits]
    cases negative with
    | false => exact decide_eq_false (Nat.not_le.mpr hmag)
    | true => exact decide_eq_true (Nat.le_add_right ..)
  rw [value, hmagnitude, hnegative, if_neg (Nat.lt_asymm h), if_neg (Nat.ne_of_lt h)]

/-- A magnitude is a power of two and how many of it the number has, at most twice a binade of them. -/
theorem unitsOfMagnitude_scaled {scale q : Nat} (hq : q ≤ 2 * binadeSize)
    (h : scale = 0 ∨ binadeSize ≤ q) :
    unitsOfMagnitude (scale * binadeSize + q) = q * Nat.pow 2 scale := by
  have hdiv : (scale * binadeSize + q) / binadeSize = scale + q / binadeSize := by
    rw [Nat.mul_comm scale, Nat.mul_add_div (by decide)]
  have hmod : (scale * binadeSize + q) % binadeSize = q % binadeSize := Nat.mul_add_mod_self_right ..
  rw [unitsOfMagnitude, hdiv, hmod]
  rcases Nat.lt_or_ge q binadeSize with hlt | hge
  · -- below the first binade the number of units is the magnitude
    obtain rfl := h.resolve_right (Nat.not_le.mpr hlt)
    rw [Nat.div_eq_of_lt hlt, if_pos rfl, Nat.mod_eq_of_lt hlt]
    exact (Nat.mul_one q).symm
  · rcases Nat.lt_or_eq_of_le hq with hlt | rfl
    · have hone : q / binadeSize = 1 := Nat.div_eq_of_lt_le (by omega) (by omega)
      have hrest : binadeSize + q % binadeSize = q := by
        have hsplit := Nat.div_add_mod q binadeSize
        rw [hone] at hsplit
        omega
      rw [hone, if_neg (Nat.succ_ne_zero scale), hrest]
      rfl
    · rw [Nat.mul_div_cancel _ (by decide), Nat.mul_mod_left, if_neg (Nat.succ_ne_zero (scale + 1))]
      change binadeSize * 2 ^ (scale + 1) = 2 * binadeSize * 2 ^ scale
      rw [Nat.pow_succ]
      ring

/-! ## Rounding to the nearest number -/

/-- How many units the numbers around `num / den` units are apart. -/
def spacing (num den : Nat) : Nat := Nat.pow 2 ((num / den).log2 - 23)

/-- The number nearest to `num / den` units, in units. -/
def nearestUnits (num den : Nat) : Nat :=
  roundHalfEven num (den * spacing num den) * spacing num den

variable {num den : Nat}

theorem two_pow_add (j k : Nat) : Nat.pow 2 (j + k) = Nat.pow 2 j * Nat.pow 2 k := Nat.pow_add 2 j k

theorem spacing_pos (num den : Nat) : 0 < spacing num den := Nat.pow_pos (by decide)

/-- Counted in steps of the spacing, a quotient stays below the end of its binade. -/
theorem lt_spacing_mul (num den : Nat) : num / den < 2 * binadeSize * spacing num den := by
  have hlt : num / den < 2 ^ ((num / den).log2 + 1) := Nat.lt_log2_self
  refine Nat.lt_of_lt_of_le hlt ?_
  change _ ≤ 2 ^ 24 * 2 ^ ((num / den).log2 - 23)
  rw [← Nat.pow_add]
  exact Nat.pow_le_pow_right (by decide) (by omega)

/-- Where the spacing is more than one unit, a quotient has reached the start of its binade. -/
theorem spacing_mul_le (h : (num / den).log2 - 23 ≠ 0) : binadeSize * spacing num den ≤ num / den := by
  have hne : num / den ≠ 0 := by
    intro hzero
    rw [hzero, Nat.log2_zero] at h
    exact h rfl
  refine Nat.le_trans ?_ (Nat.log2_self_le hne)
  change 2 ^ 23 * 2 ^ ((num / den).log2 - 23) ≤ _
  rw [← Nat.pow_add]
  exact Nat.pow_le_pow_right (by decide) (by omega)

theorem value_ofUnits (negative : Bool) (hden : 0 < den) (h : num / den < Nat.pow 2 256) :
    (ofUnits negative num den).value = .finite negative (nearestUnits num den) := by
  have hq : roundHalfEven num (den * spacing num den) ≤ 2 * binadeSize := by
    refine roundHalfEven_le_of_le ?_
    have hlt := (Nat.div_lt_iff_lt_mul hden).mp (lt_spacing_mul num den)
    refine Nat.le_of_lt (Nat.lt_of_lt_of_eq hlt ?_)
    ring
  have hscale : (num / den).log2 - 23 ≤ 252 := by
    by_cases hzero : num / den = 0
    · rw [hzero, Nat.log2_zero]
      decide
    · have hlog : (num / den).log2 < 256 := (Nat.log2_lt hzero).mpr h
      omega
  have hfinite : ((num / den).log2 - 23) * binadeSize + roundHalfEven num (den * spacing num den) <
      infinityBits := by
    rw [infinityBits, binadeSize] at *
    omega
  have hunits : roundUnits num den =
      ((num / den).log2 - 23) * binadeSize + roundHalfEven num (den * spacing num den) :=
    Nat.min_eq_left (Nat.le_of_lt hfinite)
  rw [ofUnits, hunits, value_ofMagnitude _ hfinite, unitsOfMagnitude_scaled hq, nearestUnits]
  · rfl
  · by_cases hzero : (num / den).log2 - 23 = 0
    · exact .inl hzero
    · refine .inr (Nat.le_trans ?_ (div_le_roundHalfEven ..))
      rw [← Nat.div_div_eq_div_mul]
      exact (Nat.le_div_iff_mul_le (spacing_pos num den)).mpr (spacing_mul_le hzero)

/-- The units of a single precision number. -/
def IsExact (units : Nat) : Prop := spacing units 1 ∣ units

/-- Rounding does not get past a single precision number. -/
theorem nearestUnits_le {units : Nat} (hu : IsExact units)
    (h : num ≤ den * units) : nearestUnits num den ≤ units := by
  have hdiv : num / den ≤ units := Nat.div_le_of_le_mul h
  -- the numbers below `units` are at most as far apart as those at `units`
  have hspacing : spacing num den ∣ spacing units 1 := by
    refine Nat.pow_dvd_pow 2 (Nat.sub_le_sub_right ?_ 23)
    rw [Nat.div_one]
    by_cases hzero : num / den = 0
    · rw [hzero, Nat.log2_zero]
      exact Nat.zero_le _
    · have hpos := Nat.lt_of_lt_of_le (Nat.pos_of_ne_zero hzero) hdiv
      exact (Nat.le_log2 hpos.ne').mpr ((Nat.log2_self_le hzero).trans hdiv)
  obtain ⟨k, hk⟩ := hspacing.trans hu
  have hround : roundHalfEven num (den * spacing num den) ≤ k := by
    refine roundHalfEven_le_of_le ?_
    rw [Nat.mul_assoc, ← hk]
    exact h
  rw [nearestUnits, Nat.mul_comm]
  refine (Nat.mul_le_mul_left _ hround).trans ?_
  rw [← hk]

theorem nearestUnits_error (num : Nat) (hden : 0 < den) :
    2 * num ≤ 2 * (nearestUnits num den * den) + den * spacing num den ∧
      2 * (nearestUnits num den * den) ≤ 2 * num + den * spacing num den := by
  have herror := roundHalfEven_error num (Nat.mul_pos hden (spacing_pos num den))
  have heq : nearestUnits num den * den =
      roundHalfEven num (den * spacing num den) * (den * spacing num den) := by
    rw [nearestUnits]
    ring
  rw [heq]
  exact herror

/-- A multiple of the spacing that is closer than half of it is the nearest one. -/
theorem nearestUnits_eq_of_close {units : Nat} (hu : spacing num den ∣ units)
    (hlow : 2 * (units * den) < 2 * num + den * spacing num den)
    (hhigh : 2 * num < 2 * (units * den) + den * spacing num den) : nearestUnits num den = units := by
  obtain ⟨k, rfl⟩ := hu
  have heq : spacing num den * k * den = k * (den * spacing num den) := by ring
  rw [heq] at hlow hhigh
  rw [nearestUnits, roundHalfEven_eq_of_close hlow hhigh, Nat.mul_comm]

/-- The spacing of a binade. -/
theorem spacing_eq {k : Nat} (hden : 0 < den) (hlow : binadeSize * Nat.pow 2 k * den ≤ num)
    (hhigh : num < 2 * binadeSize * Nat.pow 2 k * den) : spacing num den = Nat.pow 2 k := by
  have hle : 2 ^ (23 + k) ≤ num / den := by
    rw [Nat.pow_add]
    exact (Nat.le_div_iff_mul_le hden).mpr hlow
  have hlt : num / den < 2 ^ (23 + k + 1) := by
    rw [Nat.add_right_comm, Nat.pow_add]
    exact (Nat.div_lt_iff_lt_mul hden).mpr hhigh
  have hne : num / den ≠ 0 := by
    have hpos : 0 < 2 ^ (23 + k) := Nat.pow_pos (by decide)
    omega
  have hlog : (num / den).log2 = 23 + k := by
    have hle' := (Nat.le_log2 hne).mpr hle
    have hlt' := (Nat.log2_lt hne).mpr hlt
    omega
  rw [spacing, hlog, Nat.add_sub_cancel_left]

/-! ## Arithmetic -/

variable {x y : Binary32} {s t : Bool} {u w : Nat}

theorem unitsPerOne_ne_zero : unitsPerOne ≠ 0 := Nat.ne_of_gt (Nat.pow_pos (by decide))

theorem mul_eq_ofUnits (hx : x.value = .finite s u) (hy : y.value = .finite t w) :
    x * y = ofUnits (s != t) (u * w) unitsPerOne := by
  change mul x y = _
  rw [mul, hx, hy]

theorem value_mul (hx : x.value = .finite s u) (hy : y.value = .finite t w)
    (h : u * w / unitsPerOne < Nat.pow 2 256) :
    (x * y).value = .finite (s != t) (nearestUnits (u * w) unitsPerOne) := by
  rw [mul_eq_ofUnits hx hy]
  exact value_ofUnits _ (Nat.pos_of_ne_zero unitsPerOne_ne_zero) h

theorem value_div (hx : x.value = .finite s u) (hy : y.value = .finite t w) (hw : w ≠ 0)
    (h : u * unitsPerOne / w < Nat.pow 2 256) :
    (x / y).value = .finite (s != t) (nearestUnits (u * unitsPerOne) w) := by
  have hdiv : x / y = ofUnits (s != t) (u * unitsPerOne) w := by
    change div x y = _
    rw [div, hx, hy]
    exact if_neg hw
  rw [hdiv]
  exact value_ofUnits _ (Nat.pos_of_ne_zero hw) h

/-- Whole numbers of up to 24 bits are single precision numbers. -/
theorem value_ofNat {n : Nat} (h : n < 2 * binadeSize) :
    (ofNat n).value = .finite false (n * unitsPerOne) := by
  have hlt : n * unitsPerOne < 2 ^ 173 := (Nat.mul_lt_mul_right (by decide)).mpr h
  have hexact : spacing (n * unitsPerOne) 1 ∣ n * unitsPerOne := by
    refine Nat.dvd_mul_left_of_dvd (Nat.pow_dvd_pow 2 ?_) n
    rw [Nat.div_one]
    by_cases hzero : n * unitsPerOne = 0
    · rw [hzero, Nat.log2_zero]
      decide
    · have hlog := (Nat.log2_lt hzero).mpr hlt
      omega
  have hnearest : nearestUnits (n * unitsPerOne) 1 = n * unitsPerOne := by
    have hpos := spacing_pos (n * unitsPerOne) 1
    exact nearestUnits_eq_of_close hexact (by omega) (by omega)
  rw [ofNat, value_ofUnits _ Nat.one_pos, hnearest]
  rw [Nat.div_one]
  exact Nat.lt_trans hlt (by decide)

theorem spacing_div {n c k : Nat} (hc : 0 < c) (hlow : binadeSize * Nat.pow 2 k * c ≤ n)
    (hhigh : n < 2 * binadeSize * Nat.pow 2 k * c) :
    spacing (n * unitsPerOne) (c * unitsPerOne) = Nat.pow 2 k := by
  have hone : 0 < unitsPerOne := Nat.pos_of_ne_zero unitsPerOne_ne_zero
  apply spacing_eq (Nat.mul_pos hc hone)
  · rw [← Nat.mul_assoc]
    exact Nat.mul_le_mul_right _ hlow
  · rw [← Nat.mul_assoc]
    exact (Nat.mul_lt_mul_right hone).mpr hhigh

theorem spacing_mul {n c k : Nat} (hlow : binadeSize * Nat.pow 2 k ≤ n * c)
    (hhigh : n * c < 2 * binadeSize * Nat.pow 2 k) :
    spacing (n * (c * unitsPerOne)) unitsPerOne = Nat.pow 2 k := by
  have hone : 0 < unitsPerOne := Nat.pos_of_ne_zero unitsPerOne_ne_zero
  rw [← Nat.mul_assoc]
  apply spacing_eq hone
  · exact Nat.mul_le_mul_right _ hlow
  · exact (Nat.mul_lt_mul_right hone).mpr hhigh

/-- A quotient by a whole number is off by at most half of the spacing. -/
theorem nearestUnits_div_error (n : Nat) {c : Nat} (hc : 0 < c) :
    2 * n ≤ 2 * (c * nearestUnits (n * unitsPerOne) (c * unitsPerOne)) +
        c * spacing (n * unitsPerOne) (c * unitsPerOne) ∧
      2 * (c * nearestUnits (n * unitsPerOne) (c * unitsPerOne)) ≤
        2 * n + c * spacing (n * unitsPerOne) (c * unitsPerOne) := by
  have hone : 0 < unitsPerOne := Nat.pos_of_ne_zero unitsPerOne_ne_zero
  obtain ⟨herror, herror'⟩ := nearestUnits_error (n * unitsPerOne) (Nat.mul_pos hc hone)
  generalize nearestUnits (n * unitsPerOne) (c * unitsPerOne) = q at *
  generalize spacing (n * unitsPerOne) (c * unitsPerOne) = p at *
  constructor
  · refine Nat.le_of_mul_le_mul_right ?_ hone
    calc 2 * n * unitsPerOne = 2 * (n * unitsPerOne) := by ring
      _ ≤ 2 * (q * (c * unitsPerOne)) + c * unitsPerOne * p := herror
      _ = (2 * (c * q) + c * p) * unitsPerOne := by ring
  · refine Nat.le_of_mul_le_mul_right ?_ hone
    calc 2 * (c * q) * unitsPerOne = 2 * (q * (c * unitsPerOne)) := by ring
      _ ≤ 2 * (n * unitsPerOne) + c * unitsPerOne * p := herror'
      _ = (2 * n + c * p) * unitsPerOne := by ring

/-- A number comes back from a division by a whole number and a multiplication with it if the products are
farther apart than so many quotients. -/
theorem nearestUnits_mul_div {n c q : Nat} (hc : 0 < c)
    (hq : nearestUnits (n * unitsPerOne) (c * unitsPerOne) = q)
    (hdvd : spacing (q * (c * unitsPerOne)) unitsPerOne ∣ n)
    (hlt : c * spacing (n * unitsPerOne) (c * unitsPerOne) < spacing (q * (c * unitsPerOne)) unitsPerOne) :
    nearestUnits (q * (c * unitsPerOne)) unitsPerOne = n := by
  have hone : 0 < unitsPerOne := Nat.pos_of_ne_zero unitsPerOne_ne_zero
  obtain ⟨herror, herror'⟩ := nearestUnits_div_error n hc
  rw [hq] at herror herror'
  have hclose : 2 * n < 2 * (c * q) + spacing (q * (c * unitsPerOne)) unitsPerOne := by omega
  have hclose' : 2 * (c * q) < 2 * n + spacing (q * (c * unitsPerOne)) unitsPerOne := by omega
  apply nearestUnits_eq_of_close hdvd
  · calc 2 * (n * unitsPerOne) = 2 * n * unitsPerOne := by ring
      _ < (2 * (c * q) + spacing (q * (c * unitsPerOne)) unitsPerOne) * unitsPerOne :=
        (Nat.mul_lt_mul_right hone).mpr hclose
      _ = 2 * (q * (c * unitsPerOne)) + unitsPerOne * spacing (q * (c * unitsPerOne)) unitsPerOne := by ring
  · calc 2 * (q * (c * unitsPerOne)) = 2 * (c * q) * unitsPerOne := by ring
      _ < (2 * n + spacing (q * (c * unitsPerOne)) unitsPerOne) * unitsPerOne :=
        (Nat.mul_lt_mul_right hone).mpr hclose'
      _ = 2 * (n * unitsPerOne) + unitsPerOne * spacing (q * (c * unitsPerOne)) unitsPerOne := by ring

theorem isFraction_of_value (h : x.value = .finite false u) (hu : u ≤ unitsPerOne) : x.isFraction := by
  rw [isFraction, h]
  exact decide_eq_true hu

theorem toUInt32_of_negative (h : x.value = .finite true u) : x.toUInt32 = 0 := by
  rw [toUInt32, h]

theorem toUInt32_of_value (h : x.value = .finite false u) :
    x.toUInt32 = .ofNat (min (u / unitsPerOne) (UInt32.size - 1)) := by
  rw [toUInt32, h]

end Binary32
end AmpLink
