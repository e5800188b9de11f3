import AmpLink.Proofs.Number.Fraction
import AmpLink.Proofs.Number.Rounding

/-!
# The nearest number

A pattern that a quotient is rounded to denotes the number nearest to it, and where two are equally near it is
the even pattern (`Binary32.IsNearest`, `Binary32.isNearest_ofUnits`, `Binary32.isNearest_mul`). So rounding does
not get past any number, and it keeps the order of quotients (`Binary32.nearestUnits_mono`). Magnitudes are in the
order of the numbers that they stand for (`Binary32.strictMono_unitsOfMagnitude`), which tells the patterns of
fractions (`Binary32.inUnit_iff_bits`).
-/

namespace AmpLink

/-! ## Quotients -/

section

variable {num den k : Nat}

/-- Different multiples are at least one step apart. -/
theorem add_le_mul_of_ne {n : Nat} (den : Nat) (h : k ≠ n) :
    k * den + den ≤ n * den ∨ n * den + den ≤ k * den := by
  rw [← Nat.succ_mul, ← Nat.succ_mul]
  rcases Nat.lt_or_gt_of_ne h with hlt | hgt
  · exact .inl (Nat.mul_le_mul_right den hlt)
  · exact .inr (Nat.mul_le_mul_right den hgt)

/-- No whole number is nearer. -/
theorem roundHalfEven_nearest (num : Nat) (h : 0 < den) (k : Nat) :
    ((roundHalfEven num den * den : Nat) - num : Int).natAbs ≤ ((k * den : Nat) - num : Int).natAbs := by
  obtain ⟨hless, hmore⟩ := roundHalfEven_error num h
  by_cases hk : k = roundHalfEven num den
  · rw [hk]
  · have hstep := add_le_mul_of_ne den hk
    omega

/-- Half way between two whole numbers rounding leads to the even one. -/
theorem roundHalfEven_cases (num den : Nat) :
    (2 * (num % den) < den ∧ roundHalfEven num den = num / den) ∨
    (den < 2 * (num % den) ∧ roundHalfEven num den = num / den + 1) ∨
    (2 * (num % den) = den ∧ 2 ∣ roundHalfEven num den) := by
  rw [roundHalfEven]
  (repeat' split) <;> omega

/-- Only an odd whole number is as near. -/
theorem even_roundHalfEven (h : 0 < den) (hk : k ≠ roundHalfEven num den)
    (htie : ((k * den : Nat) - num : Int).natAbs = ((roundHalfEven num den * den : Nat) - num : Int).natAbs) :
    2 ∣ roundHalfEven num den := by
  have hstep := add_le_mul_of_ne den hk
  have hdiv := Nat.div_add_mod' num den
  have hmod := Nat.mod_lt num h
  have hsucc := Nat.add_one_mul (num / den) den
  rcases roundHalfEven_cases num den with ⟨hlt, heq⟩ | ⟨hgt, heq⟩ | ⟨-, heven⟩
  · rw [heq] at hstep htie
    omega
  · rw [heq] at hstep htie
    omega
  · exact heven

end

namespace Binary32

/-! ## Magnitudes in order -/

/-- A magnitude counts the steps of a binade and the binades before it. -/
theorem exists_binade_of_magnitude (mag : Nat) : ∃ scale q, mag = scale * binadeSize + q ∧
    q < 2 * binadeSize ∧ (scale = 0 ∨ binadeSize ≤ q) := by
  have hdiv := Nat.div_add_mod' mag binadeSize
  have hmod := Nat.mod_lt mag (by decide : 0 < binadeSize)
  cases hfield : mag / binadeSize with
  | zero =>
    rw [hfield] at hdiv
    exact ⟨0, mag % binadeSize, hdiv.symm, by omega, .inl rfl⟩
  | succ scale =>
    rw [hfield, Nat.succ_mul, Nat.add_assoc] at hdiv
    exact ⟨scale, _, hdiv.symm, by omega, .inr (Nat.le_add_right ..)⟩

theorem strictMono_unitsOfMagnitude : StrictMono unitsOfMagnitude := by
  apply strictMono_nat_of_lt_succ
  intro mag
  obtain ⟨scale, q, rfl, hq, hscale⟩ := exists_binade_of_magnitude mag
  have hnext : scale = 0 ∨ binadeSize ≤ q + 1 := hscale.imp_right Nat.le_succ_of_le
  rw [Nat.add_assoc, unitsOfMagnitude_scaled hq.le hscale, unitsOfMagnitude_scaled hq hnext]
  exact (Nat.mul_lt_mul_right (Nat.pow_pos (by decide))).mpr (Nat.lt_succ_self q)

/-- Every pattern stands for a multiple of the spacing around it. -/
theorem isExact_unitsOfMagnitude (mag : Nat) : IsExact (unitsOfMagnitude mag) := by
  obtain ⟨scale, q, rfl, hq, hscale⟩ := exists_binade_of_magnitude mag
  rw [unitsOfMagnitude_scaled hq.le hscale]
  have hpos : 0 < Nat.pow 2 scale := Nat.pow_pos (by decide)
  rcases Nat.lt_or_ge q binadeSize with hlt | hge
  · obtain rfl := hscale.resolve_right (Nat.not_le.mpr hlt)
    -- below the first binade the spacing is one unit
    have hlog : (q * Nat.pow 2 0 / 1).log2 - 23 = 0 := by
      by_contra hne
      have hle := spacing_mul_le hne
      have hone := Nat.mul_le_mul_left binadeSize (spacing_pos (q * Nat.pow 2 0) 1)
      have hunits : q * Nat.pow 2 0 / 1 = q := (Nat.div_one _).trans (Nat.mul_one q)
      rw [hunits] at hle
      omega
    rw [IsExact, spacing, hlog]
    exact Nat.dvd_mul_left _ q
  · have hspacing : spacing (q * Nat.pow 2 scale) 1 = Nat.pow 2 scale := by
      apply spacing_eq Nat.one_pos
      · rw [Nat.mul_one]
        exact Nat.mul_le_mul_right _ hge
      · rw [Nat.mul_one]
        exact (Nat.mul_lt_mul_right hpos).mpr hq
    rw [IsExact, hspacing]
    exact Nat.dvd_mul_left _ q

variable {x : Binary32} {s : Bool} {u units : Nat}

theorem isExact_of_value (h : x.value = .finite s u) : IsExact u := by
  rw [value] at h
  split at h
  · contradiction
  · split at h
    · contradiction
    · cases h
      exact isExact_unitsOfMagnitude x.magnitude

/-! ## Rounding to the nearest number -/

variable {num den : Nat}

theorem isExact_nearestUnits (hden : 0 < den) (h : num / den < Nat.pow 2 256) :
    IsExact (nearestUnits num den) := isExact_of_value (value_ofUnits false hden h)

/-- A number is a multiple of the spacing around a quotient, or it lies below the binade of the quotient. -/
theorem IsExact.spacing_dvd_or_lt (hu : IsExact units) (num den : Nat) : spacing num den ∣ units ∨
    units < binadeSize * spacing num den ∧ binadeSize * spacing num den ≤ num / den := by
  by_cases hlog : (num / den).log2 - 23 = 0
  · left
    rw [spacing, hlog]
    exact Nat.one_dvd units
  · rcases Nat.lt_or_ge units (binadeSize * spacing num den) with hlt | hge
    · exact .inr ⟨hlt, spacing_mul_le hlog⟩
    · left
      refine Nat.dvd_trans (Nat.pow_dvd_pow 2 (Nat.sub_le_sub_right ?_ 23)) hu
      have hpow : 2 ^ (num / den).log2 = binadeSize * spacing num den := by
        change _ = 2 ^ 23 * 2 ^ ((num / den).log2 - 23)
        rw [← Nat.pow_add]
        congr 1
        omega
      have hpos : 0 < units := Nat.lt_of_lt_of_le (Nat.mul_pos (by decide) (spacing_pos num den)) hge
      rw [Nat.div_one, Nat.le_log2 hpos.ne', hpow]
      exact hge

theorem nearestUnits_mul (num den : Nat) : nearestUnits num den * den =
    roundHalfEven num (den * spacing num den) * (den * spacing num den) := by
  rw [nearestUnits]
  ring

/-- A number that is no multiple of the spacing is farther away than one that is. -/
theorem IsExact.exists_multiple (hu : IsExact units) (hden : 0 < den) (num : Nat) :
    ∃ k, units = k * spacing num den ∨
      ((k * (den * spacing num den) : Nat) - num : Int).natAbs < ((units * den : Nat) - num : Int).natAbs := by
  rcases hu.spacing_dvd_or_lt num den with ⟨k, hk⟩ | ⟨hlt, hle⟩
  · exact ⟨k, .inl (hk.trans (Nat.mul_comm ..))⟩
  · refine ⟨binadeSize, .inr ?_⟩
    have hlt' := (Nat.mul_lt_mul_right hden).mpr hlt
    have hle' := (Nat.le_div_iff_mul_le hden).mp hle
    have heq : binadeSize * spacing num den * den = binadeSize * (den * spacing num den) := by ring
    omega

/-- No number is nearer to a quotient than the one that it is rounded to. -/
theorem nearestUnits_nearest (num : Nat) (hden : 0 < den) (hu : IsExact units) :
    ((nearestUnits num den * den : Nat) - num : Int).natAbs ≤ ((units * den : Nat) - num : Int).natAbs := by
  obtain ⟨k, hk⟩ := hu.exists_multiple hden num
  have hnearest := roundHalfEven_nearest num (Nat.mul_pos hden (spacing_pos num den)) k
  rw [nearestUnits_mul]
  rcases hk with rfl | hlt
  · rw [Nat.mul_right_comm, Nat.mul_assoc]
    exact hnearest
  · exact hnearest.trans hlt.le

/-- Another number is as near only if an even number of steps was rounded to. -/
theorem even_of_tie (hden : 0 < den) (hu : IsExact units) (hne : units ≠ nearestUnits num den)
    (htie : ((units * den : Nat) - num : Int).natAbs = ((nearestUnits num den * den : Nat) - num : Int).natAbs) :
    2 ∣ roundHalfEven num (den * spacing num den) := by
  have hpos := Nat.mul_pos hden (spacing_pos num den)
  obtain ⟨k, hk⟩ := hu.exists_multiple hden num
  have hnearest := roundHalfEven_nearest num hpos k
  rw [nearestUnits_mul] at htie
  rcases hk with rfl | hlt
  · rw [Nat.mul_right_comm, Nat.mul_assoc] at htie
    apply even_roundHalfEven hpos _ htie
    rintro rfl
    exact hne rfl
  · omega

/-- Rounding keeps the order of quotients. -/
theorem nearestUnits_mono {num' : Nat} (hden : 0 < den) (hle : num ≤ num') (h : num' / den < Nat.pow 2 256) :
    nearestUnits num den ≤ nearestUnits num' den := by
  by_contra hlt
  have hlt' := (Nat.mul_lt_mul_right hden).mpr (Nat.lt_of_not_le hlt)
  have hexact := isExact_nearestUnits hden (Nat.lt_of_le_of_lt (Nat.div_le_div_right hle) h)
  have hexact' := isExact_nearestUnits hden h
  -- each of the two is nearest to its own quotient, so the quotients are the same
  have hnear := nearestUnits_nearest num hden hexact'
  have hnear' := nearestUnits_nearest num' hden hexact
  have heq : num = num' := by omega
  subst heq
  exact hlt (Nat.le_refl _)

theorem two_dvd_bits_ofUnits (negative : Bool) (h : 2 ∣ roundHalfEven num (den * spacing num den)) :
    2 ∣ (ofUnits negative num den).bits.toNat := by
  have hmag : 2 ∣ roundUnits num den := by
    have hsum : 2 ∣ ((num / den).log2 - 23) * binadeSize + roundHalfEven num (den * spacing num den) :=
      Nat.dvd_add (Nat.dvd_mul_left_of_dvd (by decide) _) h
    change 2 ∣ min (((num / den).log2 - 23) * binadeSize + roundHalfEven num (den * spacing num den)) infinityBits
    rcases min_choice (((num / den).log2 - 23) * binadeSize + roundHalfEven num (den * spacing num den))
      infinityBits with heq | heq
    · rw [heq]
      exact hsum
    · rw [heq]
      decide
  rw [ofUnits, ofMagnitude, UInt32.toNat_ofNat']
  split
  · rw [signSize]
    omega
  · omega

/-! ## Rational numbers -/

/-- The pattern denotes `p`, the number nearest to `q`. Of two numbers that are equally near it is the one whose
pattern is even. -/
structure IsNearest (x : Binary32) (p q : ℚ) : Prop where
  denotes : x.Denotes p
  abs_sub_le : ∀ y r, Denotes y r → |p - q| ≤ |r - q|
  two_dvd_of_tie : ∀ y r, Denotes y r → |r - q| = |p - q| → r = p ∨ 2 ∣ x.bits.toNat

/-- The number of a sign and an amount. -/
def signed (negative : Bool) (amount : ℚ) : ℚ := if negative then -amount else amount

theorem abs_signed_sub (negative : Bool) (a b : ℚ) : |signed negative a - signed negative b| = |a - b| := by
  cases negative with
  | false => rfl
  | true => 
    change |-a - -b| = |a - b|
    rw [neg_sub_neg, abs_sub_comm]

/-- Numbers of different signs are as far apart as both amounts together. -/
theorem abs_signed_sub_of_ne {s t : Bool} (h : s ≠ t) {a b : ℚ} (ha : 0 ≤ a) (hb : 0 ≤ b) :
    |signed s a - signed t b| = a + b := by
  cases s with
  | false =>
    cases t with
    | false => exact absurd rfl h
    | true =>
      change |a - -b| = a + b
      rw [sub_neg_eq_add, abs_of_nonneg (add_nonneg ha hb)]
  | true =>
    cases t with
    | true => exact absurd rfl h
    | false =>
      change |-a - b| = a + b
      rw [← neg_add', abs_neg, abs_of_nonneg (add_nonneg ha hb)]

/-- Distances of numbers to a quotient, counted in parts of a unit. -/
theorem abs_units_sub (hden : 0 < den) (units num : Nat) : |(units / unitsPerOne - num / den / unitsPerOne : ℚ)| =
    ((units * den : Nat) - num : Int).natAbs / (den * unitsPerOne) := by
  have hden' : (0 : ℚ) < den := Nat.cast_pos.mpr hden
  have hone := unitsPerOne_pos
  have heq : (units / unitsPerOne - num / den / unitsPerOne : ℚ) =
      (((units * den : Nat) - num : Int) : ℚ) / (den * unitsPerOne) := by
    rw [div_div, ← mul_div_mul_right _ _ hden'.ne', mul_comm (unitsPerOne : ℚ), ← sub_div]
    push_cast
    rfl
  rw [heq, abs_div, abs_of_pos (mul_pos hden' hone), Nat.cast_natAbs, Int.cast_abs]

/-- Numbers of one sign are compared by their units. -/
theorem abs_rational_sub_le_iff (negative : Bool) (hden : 0 < den) {w : Nat} :
    |rational negative u - signed negative (num / den / unitsPerOne)| ≤
        |rational negative w - signed negative (num / den / unitsPerOne)| ↔
      ((u * den : Nat) - num : Int).natAbs ≤ ((w * den : Nat) - num : Int).natAbs := by
  have hpos : (0 : ℚ) < den * unitsPerOne := mul_pos (Nat.cast_pos.mpr hden) unitsPerOne_pos
  change |signed negative _ - _| ≤ |signed negative _ - _| ↔ _
  rw [abs_signed_sub, abs_signed_sub, abs_units_sub hden, abs_units_sub hden,
    div_le_div_iff_of_pos_right hpos, Nat.cast_le]

/-- On the other side of zero no number is nearer than zero. -/
theorem exists_of_same_sign (negative : Bool) {q : ℚ} (hq : 0 ≤ q) (h : IsExact w) (t : Bool) :
    ∃ u, IsExact u ∧ |rational negative u - signed negative q| ≤ |rational t w - signed negative q| ∧
      (|rational t w - signed negative q| ≤ |rational negative u - signed negative q| →
        rational t w = rational negative u) := by
  by_cases ht : t = negative
  · rw [ht]
    exact ⟨w, h, le_refl _, fun _ => rfl⟩
  · have hw : (0 : ℚ) ≤ w / unitsPerOne := div_nonneg (Nat.cast_nonneg w) unitsPerOne_pos.le
    have hother : |rational t w - signed negative q| = w / unitsPerOne + q := abs_signed_sub_of_ne ht hw hq
    have hzero : |rational negative 0 - signed negative q| = q := by
      refine (abs_signed_sub negative _ q).trans ?_
      rw [Nat.cast_zero, zero_div, zero_sub, abs_neg, abs_of_nonneg hq]
    refine ⟨0, Nat.dvd_zero _, ?_, ?_⟩
    · rw [hother, hzero]
      exact le_add_of_nonneg_left hw
    · intro hle
      rw [hother, hzero, add_le_iff_nonpos_left] at hle
      have hnone : (w / unitsPerOne : ℚ) = 0 := le_antisymm hle hw
      rw [rational, rational, hnone]
      simp

/-- A rounded quotient is the nearest number, and another one is as near to it only if the pattern is even. -/
theorem isNearest_ofUnits (negative : Bool) (hden : 0 < den) (h : num / den < Nat.pow 2 256) :
    (ofUnits negative num den).IsNearest (rational negative (nearestUnits num den))
      (signed negative (num / den / unitsPerOne)) := by
  have hquot : (0 : ℚ) ≤ num / den / unitsPerOne :=
    div_nonneg (div_nonneg (Nat.cast_nonneg num) (Nat.cast_nonneg den)) unitsPerOne_pos.le
  refine ⟨⟨negative, _, value_ofUnits negative hden h, rfl⟩, ?_, ?_⟩
  · rintro y r ⟨t, w, hy, rfl⟩
    obtain ⟨u, hu, hle, -⟩ := exists_of_same_sign negative hquot (isExact_of_value hy) t
    exact ((abs_rational_sub_le_iff negative hden).mpr (nearestUnits_nearest num hden hu)).trans hle
  · rintro y r ⟨t, w, hy, rfl⟩ htie
    obtain ⟨u, hu, hle, heq⟩ := exists_of_same_sign negative hquot (isExact_of_value hy) t
    have hnearest := (abs_rational_sub_le_iff negative hden).mpr (nearestUnits_nearest num hden hu)
    have hr := heq (htie.le.trans hnearest)
    rw [hr] at htie ⊢
    by_cases hne : u = nearestUnits num den
    · exact .inl (hne ▸ rfl)
    · have hge := (abs_rational_sub_le_iff negative hden).mp htie.le
      have hle := (abs_rational_sub_le_iff negative hden).mp htie.ge
      exact .inr (two_dvd_bits_ofUnits negative (even_of_tie hden hu hne (Nat.le_antisymm hge hle)))

/-- A product is the number nearest to the product of the numbers. -/
theorem isNearest_mul {y : Binary32} {t : Bool} {w : Nat} (hx : x.value = .finite s u) (hy : y.value = .finite t w)
    (h : u * w / unitsPerOne < Nat.pow 2 256) :
    (x * y).IsNearest (rational (s != t) (nearestUnits (u * w) unitsPerOne)) (rational s u * rational t w) := by
  have hproduct : rational s u * rational t w =
      signed (s != t) ((u * w : Nat) / unitsPerOne / unitsPerOne) := by
    rw [Nat.cast_mul, div_div, ← div_mul_div_comm]
    cases s with
    | false =>
      cases t with
      | false => rfl
      | true => exact mul_neg ..
    | true =>
      cases t with
      | false => exact neg_mul ..
      | true => exact neg_mul_neg ..
  rw [mul_eq_ofUnits hx hy, hproduct]
  exact isNearest_ofUnits _ (Nat.pos_of_ne_zero unitsPerOne_ne_zero) h

namespace IsNearest

variable {x y : Binary32} {p q n : ℚ}

/-- Rounding does not get past a number that is below. -/
theorem le_of_le (h : x.IsNearest p q) (hy : y.Denotes n) (hn : n ≤ q) : n ≤ p := by
  by_contra hlt
  have hlow : p ≤ q := (lt_of_not_ge hlt).le.trans hn
  have hle := h.abs_sub_le y n hy
  rw [abs_sub_comm, abs_sub_comm n, abs_of_nonneg (sub_nonneg.mpr hlow), abs_of_nonneg (sub_nonneg.mpr hn),
    sub_le_sub_iff_left] at hle
  exact hlt hle

/-- Rounding does not get past a number that is above. -/
theorem ge_of_ge (h : x.IsNearest p q) (hy : y.Denotes n) (hn : q ≤ n) : p ≤ n := by
  by_contra hlt
  have hhigh : q ≤ p := hn.trans (lt_of_not_ge hlt).le
  have hle := h.abs_sub_le y n hy
  rw [abs_of_nonneg (sub_nonneg.mpr hhigh), abs_of_nonneg (sub_nonneg.mpr hn), sub_le_sub_iff_right] at hle
  exact hlt hle

end IsNearest

theorem denotes_ofNat {n : Nat} (h : n < 2 * binadeSize) : (ofNat n).Denotes n := by
  refine ⟨false, _, value_ofNat h, ?_⟩
  change (n : ℚ) = ((n * unitsPerOne : Nat) : ℚ) / unitsPerOne
  rw [Nat.cast_mul, mul_div_cancel_right₀ _ unitsPerOne_pos.ne']

/-! ## Patterns of fractions -/

theorem unitsOfMagnitude_one : unitsOfMagnitude 0x3f800000 = unitsPerOne := by
  have hscaled : unitsOfMagnitude (126 * binadeSize + binadeSize) = binadeSize * Nat.pow 2 126 :=
    unitsOfMagnitude_scaled (by decide) (.inr (Nat.le_refl _))
  have hpow : binadeSize * Nat.pow 2 126 = unitsPerOne := (two_pow_add 23 126).symm
  rw [← hpow, ← hscaled]
  rfl

theorem isFraction_iff_magnitude :
    x.isFraction ↔ if x.isNegative then x.magnitude = 0 else x.magnitude ≤ 0x3f800000 := by
  have hzero : unitsOfMagnitude x.magnitude = 0 ↔ x.magnitude = 0 :=
    strictMono_unitsOfMagnitude.injective.eq_iff' rfl
  have hone : unitsOfMagnitude x.magnitude ≤ unitsPerOne ↔ x.magnitude ≤ 0x3f800000 := by
    rw [← unitsOfMagnitude_one]
    exact strictMono_unitsOfMagnitude.le_iff_le
  rw [isFraction, value]
  by_cases hlarge : infinityBits ≤ x.magnitude
  · -- neither infinities nor what is no number
    have hfalse : ¬ if x.isNegative then x.magnitude = 0 else x.magnitude ≤ 0x3f800000 := by
      rw [infinityBits, binadeSize] at hlarge
      split <;> omega
    refine iff_of_false ?_ hfalse
    rcases Nat.lt_or_eq_of_le hlarge with hlt | heq
    · rw [if_pos hlt]
      exact Bool.false_ne_true
    · rw [if_neg (Nat.not_lt.mpr heq.ge), if_pos heq.symm]
      exact Bool.false_ne_true
  · have hlt := Nat.lt_of_not_le hlarge
    rw [if_neg (Nat.lt_asymm hlt), if_neg hlt.ne]
    cases x.isNegative with
    | false => exact decide_eq_true_iff.trans hone
    | true => exact decide_eq_true_iff.trans hzero

/-- The fractions are the patterns from that of zero to that of one, and that of negative zero. -/
theorem inUnit_iff_bits : x.InUnit ↔ x.bits ≤ 0x3f800000 ∨ x.bits = 0x80000000 := by
  have hbits := x.bits.toNat_lt
  rw [← isFraction_iff, isFraction_iff_magnitude, UInt32.le_iff_toNat_le, ← UInt32.toNat_inj, magnitude]
  cases hnegative : x.isNegative with
  | false =>
    have hlt : x.bits.toNat < signSize := Nat.lt_of_not_le (of_decide_eq_false hnegative)
    rw [if_neg Bool.false_ne_true, Nat.mod_eq_of_lt hlt]
    rw [signSize] at hlt
    exact (or_iff_left hlt.ne).symm
  | true =>
    have hle : signSize ≤ x.bits.toNat := of_decide_eq_true hnegative
    rw [if_pos rfl]
    rw [signSize] at hle ⊢
    change _ ↔ x.bits.toNat ≤ 0x3f800000 ∨ x.bits.toNat = 0x80000000
    omega

end Binary32

end AmpLink
