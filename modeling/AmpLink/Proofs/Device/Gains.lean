import AmpLink.Proofs.Device.Volume
import AmpLink.Proofs.Number.Nearest
import Mathlib.Algebra.Order.Floor.Ring
import Mathlib.Data.Rat.Floor

/-!
# From volumes to gains

The gain of a volume is a thousand times the volume, rounded to the nearest single precision number and then cut
off behind the point (`MasterVolume.exists_isNearest`). Whole numbers up to a thousand are single precision
numbers, so the rounding gets past none of them, and it keeps the order of the volumes
(`MasterVolume.gain_mono`). The main statement is `MasterVolume.quantised`.
-/

namespace AmpLink.MasterVolume

open Binary32

variable {v w : Binary32} {m m' : MasterVolume} {p q r : ℚ} {units : Nat}

/-! ## Fractions -/

theorem ofVolume_eq_ok_iff : ofVolume v = .ok m ↔ v.InUnit ∧ m = ⟨(v * fullScale).toUInt32⟩ := by
  rw [ofVolume, ← isFraction_iff]
  split
  · next h => rw [Except.ok.injEq, and_iff_right h, eq_comm]
  · next h => exact iff_of_false (by simp) fun hv => h hv.1

/-- The pattern is that of a fraction. Its sign changes nothing, because only zero has one. -/
structure HasUnits (v : Binary32) (units : Nat) : Prop where
  le : units ≤ unitsPerOne
  value : v.value = .finite false units ∨ units = 0 ∧ v.value = .finite true 0

theorem exists_hasUnits (h : v.InUnit) : ∃ units, HasUnits v units := by
  obtain ⟨_, ⟨s, units, hv, rfl⟩, hq⟩ := h
  have hunits := rational_mem_unit.mp hq
  cases s with
  | false => exact ⟨units, hunits, .inl hv⟩
  | true =>
    obtain rfl : units = 0 := hunits
    exact ⟨0, Nat.zero_le _, .inr ⟨rfl, hv⟩⟩

theorem HasUnits.eq_of_denotes (h : HasUnits v units) (hq : v.Denotes q) : q = units / unitsPerOne := by
  obtain ⟨s, units', hv, rfl⟩ := hq
  rcases h.value with hv' | ⟨rfl, hv'⟩
  · rw [hv] at hv'
    cases hv'
    rfl
  · rw [hv] at hv'
    cases hv'
    change -((0 : Nat) / unitsPerOne : ℚ) = (0 : Nat) / unitsPerOne
    rw [Nat.cast_zero, zero_div, neg_zero]

/-! ## Products -/

/-- The product of so many units and a thousand, in units. -/
def scaled (units : Nat) : Nat := nearestUnits (units * (1000 * unitsPerOne)) unitsPerOne

theorem scaled_zero : scaled 0 = 0 :=
  Nat.le_zero.mp (nearestUnits_le (Nat.dvd_zero _) (by rw [Nat.zero_mul]; exact Nat.zero_le _))

theorem scaled_bound (h : units ≤ unitsPerOne) :
    units * (1000 * unitsPerOne) / unitsPerOne < Nat.pow 2 256 := by
  refine Nat.lt_of_le_of_lt (Nat.div_le_of_le_mul (Nat.mul_le_mul_right _ h)) ?_
  decide +kernel

theorem scaled_mono {units' : Nat} (h : units ≤ units') (h' : units' ≤ unitsPerOne) :
    scaled units ≤ scaled units' :=
  nearestUnits_mono (Nat.pos_of_ne_zero unitsPerOne_ne_zero) (Nat.mul_le_mul_right _ h) (scaled_bound h')

theorem HasUnits.gain_eq (hv : HasUnits v units) (h : ofVolume v = .ok m) :
    m.gain.toNat = scaled units / unitsPerOne := by
  obtain ⟨-, rfl⟩ := ofVolume_eq_ok_iff.mp h
  rcases hv.value with hvalue | ⟨rfl, hvalue⟩
  · have hle := product_le hv.le
    rw [toUInt32_of_value (value_product hvalue hv.le), UInt32.toNat_ofNat', ← scaled]
    rw [← scaled] at hle
    rw [Nat.min_eq_left (hle.trans (by decide))]
    exact Nat.mod_eq_of_lt (Nat.lt_of_le_of_lt hle (by decide))
  · rw [toUInt32_of_negative (value_product hvalue hv.le), scaled_zero, Nat.zero_div]
    rfl

theorem HasUnits.isNearest (h : HasUnits v units) :
    (v * fullScale).IsNearest (scaled units / unitsPerOne) (1000 * (units / unitsPerOne)) := by
  have hone : rational false (1000 * unitsPerOne) = 1000 := by
    change ((1000 * unitsPerOne : Nat) : ℚ) / unitsPerOne = 1000
    rw [Nat.cast_mul, mul_div_cancel_right₀ _ unitsPerOne_pos.ne']
    rfl
  rcases h.value with hv | ⟨rfl, hv⟩
  · have hmul := isNearest_mul hv value_fullScale (scaled_bound h.le)
    rw [hone, mul_comm _ (1000 : ℚ)] at hmul
    exact hmul
  · have hmul := isNearest_mul hv value_fullScale (scaled_bound h.le)
    have hzero : rational true (scaled 0) = scaled 0 / unitsPerOne := by
      rw [scaled_zero]
      simp [rational]
    have hzero' : rational true 0 = (0 : Nat) / unitsPerOne := by simp [rational]
    rw [hone, mul_comm _ (1000 : ℚ), hzero'] at hmul
    rw [← hzero]
    exact hmul

/-- The gain is what the nearest number has before the point. -/
theorem exists_isNearest (h : ofVolume v = .ok m) (hq : v.Denotes q) :
    ∃ p, (v * fullScale).IsNearest p (1000 * q) ∧ (m.gain.toNat : ℤ) = ⌊p⌋ := by
  obtain ⟨units, hunits⟩ := exists_hasUnits (ofVolume_eq_ok_iff.mp h).1
  refine ⟨scaled units / unitsPerOne, ?_, ?_⟩
  · rw [hunits.eq_of_denotes hq]
    exact hunits.isNearest
  · rw [hunits.gain_eq h, Rat.floor_natCast_div_natCast]
    exact Int.natCast_div ..

/-! ## Bounds and order -/

/-- Rounding gets past no whole number that is below. -/
theorem le_gain {n : Nat} (h : ofVolume v = .ok m) (hq : v.Denotes q) (hn : n ≤ 1000 * q)
    (hle : n ≤ 1000) : n ≤ m.gain.toNat := by
  obtain ⟨p, hp, hgain⟩ := exists_isNearest h hq
  have hnp := hp.le_of_le (denotes_ofNat (Nat.lt_of_le_of_lt hle (by decide))) hn
  rw [← Int.ofNat_le, hgain, Int.le_floor]
  exact hnp

/-- Rounding gets past no whole number that is above. -/
theorem gain_le {n : Nat} (h : ofVolume v = .ok m) (hq : v.Denotes q) (hn : 1000 * q ≤ n)
    (hle : n ≤ 1000) : m.gain.toNat ≤ n := by
  obtain ⟨p, hp, hgain⟩ := exists_isNearest h hq
  have hpn := hp.ge_of_ge (denotes_ofNat (Nat.lt_of_le_of_lt hle (by decide))) hn
  rw [← Int.ofNat_le, hgain, ← Int.floor_natCast (R := ℚ) n]
  exact Int.floor_le_floor hpn

theorem gain_mono (h : ofVolume v = .ok m) (h' : ofVolume w = .ok m') (hq : v.Denotes q) (hr : w.Denotes r)
    (hle : q ≤ r) : m.gain ≤ m'.gain := by
  obtain ⟨units, hunits⟩ := exists_hasUnits (ofVolume_eq_ok_iff.mp h).1
  obtain ⟨units', hunits'⟩ := exists_hasUnits (ofVolume_eq_ok_iff.mp h').1
  rw [hunits.eq_of_denotes hq, hunits'.eq_of_denotes hr, div_le_div_iff_of_pos_right unitsPerOne_pos,
    Nat.cast_le] at hle
  rw [UInt32.le_iff_toNat_le, hunits.gain_eq h, hunits'.gain_eq h']
  exact Nat.div_le_div_right (scaled_mono hle hunits'.le)

theorem denotes_mem_unit (h : ofVolume v = .ok m) (hq : v.Denotes q) : 0 ≤ q ∧ q ≤ 1 := by
  obtain ⟨units, hunits⟩ := exists_hasUnits (ofVolume_eq_ok_iff.mp h).1
  rw [hunits.eq_of_denotes hq]
  exact ⟨div_nonneg (Nat.cast_nonneg units) unitsPerOne_pos.le,
    (div_le_one unitsPerOne_pos).mpr (Nat.cast_le.mpr hunits.le)⟩

theorem mul_le_thousand (h : q ≤ 1) : 1000 * q ≤ (1000 : Nat) := by
  calc 1000 * q ≤ 1000 * 1 := mul_le_mul_of_nonneg_left h (by norm_num)
    _ = (1000 : Nat) := by norm_num

theorem floor_le_gain (h : ofVolume v = .ok m) (hq : v.Denotes q) : ⌊1000 * q⌋ ≤ m.gain.toNat := by
  obtain ⟨hnonneg, hone⟩ := denotes_mem_unit h hq
  have hnonneg' : 0 ≤ 1000 * q := by positivity
  rw [← Int.natCast_floor_eq_floor hnonneg', Int.ofNat_le]
  apply le_gain h hq (Nat.floor_le hnonneg')
  exact Nat.floor_le_of_le (mul_le_thousand hone)

theorem gain_le_ceil (h : ofVolume v = .ok m) (hq : v.Denotes q) : m.gain.toNat ≤ ⌈1000 * q⌉ := by
  obtain ⟨hnonneg, hone⟩ := denotes_mem_unit h hq
  have hnonneg' : 0 ≤ 1000 * q := by positivity
  rw [← Int.natCast_ceil_eq_ceil hnonneg', Int.ofNat_le]
  apply gain_le h hq (Nat.le_ceil _)
  exact Nat.ceil_le.mpr (mul_le_thousand hone)

/-! ## The main statement -/

/-- How a pattern comes out as a gain. -/
structure Quantised (v : Binary32) : Prop where
  /-- Just the numbers from zero to one have a gain. -/
  ok_iff : (∃ m, ofVolume v = .ok m) ↔ v.InUnit
  /-- Everything else is refused by name. -/
  error_iff : ∀ e, ofVolume v = .error e ↔ ¬ v.InUnit ∧ e = .invalidVolume v
  /-- Those are the patterns from zero up to one, and negative zero. -/
  inUnit_iff : v.InUnit ↔ v.bits ≤ 0x3f800000 ∨ v.bits = 0x80000000
  /-- The product is rounded to nearest, to the even pattern if two numbers are equally near, and the gain is what it
  has before the point. -/
  nearest : ∀ m q, ofVolume v = .ok m → v.Denotes q →
    ∃ p, (v * fullScale).IsNearest p (1000 * q) ∧ (m.gain.toNat : ℤ) = ⌊p⌋
  between : ∀ m q, ofVolume v = .ok m → v.Denotes q →
    ⌊1000 * q⌋ ≤ m.gain.toNat ∧ m.gain.toNat ≤ ⌈1000 * q⌉
  gain_le : ∀ m, ofVolume v = .ok m → m.gain ≤ 1000
  /-- A larger volume has no smaller gain. -/
  mono : ∀ m q w n r, ofVolume v = .ok m → v.Denotes q → ofVolume w = .ok n → w.Denotes r → q ≤ r → m.gain ≤ n.gain

theorem quantised (v : Binary32) : Quantised v where
  ok_iff := by
    constructor
    · rintro ⟨m, h⟩
      exact (ofVolume_eq_ok_iff.mp h).1
    · intro h
      exact ⟨_, ofVolume_eq_ok_iff.mpr ⟨h, rfl⟩⟩
  error_iff _ := ofVolume_eq_error_iff
  inUnit_iff := inUnit_iff_bits
  nearest _ _ h hq := exists_isNearest h hq
  between _ _ h hq := ⟨floor_le_gain h hq, gain_le_ceil h hq⟩
  gain_le m h := by
    rw [UInt32.le_iff_toNat_le]
    exact toNat_gain_le h
  mono _ _ _ _ _ h hq h' hr hle := gain_mono h h' hq hr hle

end AmpLink.MasterVolume
