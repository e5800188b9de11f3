import AmpLink.Proofs.Device.Handling
import AmpLink.Proofs.Number.Rounding
import AmpLink.Proofs.Wire.Demands

/-!
# Volumes that are reported and set again

A gain is reported as its thousandth, and a volume is set as a thousand times itself. Both are rounded once, and
what the product has behind the point is dropped. Between a power of two and `1000 / 512` of it the product is
rounded to a coarser grid than the thousandth was, and comes back to the gain (`MasterVolume.echo_of_between`).
Few gains are left, and five of them end up just below themselves. So a volume that is set again can fall by
one, once, and it stays where it is then: the main statement is `MasterVolume.echoes_of_ofVolume`.
-/

namespace AmpLink.MasterVolume

open Binary32

variable {v : Binary32} {m : MasterVolume} {g e : Nat}

/-! ## Reported gains -/

/-- The units of the volume that is reported for a gain. -/
def thousandth (gain : Nat) : Nat :=
  nearestUnits (gain * unitsPerOne * unitsPerOne) (1000 * unitsPerOne)

/-- The gain of the volume that is reported for a gain. -/
def echo (gain : Nat) : Nat :=
  nearestUnits (thousandth gain * (1000 * unitsPerOne)) unitsPerOne / unitsPerOne

theorem value_fullScale : fullScale.value = .finite false (1000 * unitsPerOne) :=
  value_ofNat (by decide)

/-- A thousand times what is at most one is at most a thousand. -/
theorem product_le {units : Nat} (h : units ≤ unitsPerOne) :
    nearestUnits (units * (1000 * unitsPerOne)) unitsPerOne / unitsPerOne ≤ 1000 := by
  have hexact : IsExact (1000 * unitsPerOne) := Nat.dvd_of_mod_eq_zero (by decide +kernel)
  have hle := nearestUnits_le hexact (Nat.mul_le_mul_right (1000 * unitsPerOne) h)
  refine Nat.div_le_of_le_mul ?_
  rw [Nat.mul_comm unitsPerOne 1000]
  exact hle

theorem value_product {x : Binary32} {units : Nat} (hx : x.value = .finite s units)
    (h : units ≤ unitsPerOne) : (x * fullScale).value =
      .finite s (nearestUnits (units * (1000 * unitsPerOne)) unitsPerOne) := by
  have hbound : units * (1000 * unitsPerOne) / unitsPerOne < Nat.pow 2 256 := by
    refine Nat.lt_of_le_of_lt (Nat.div_le_of_le_mul (Nat.mul_le_mul_right _ h)) ?_
    decide +kernel
  rw [value_mul hx value_fullScale hbound]
  cases s with
  | false | true => rfl

theorem toNat_gain_le (h : ofVolume v = .ok m) : m.gain.toNat ≤ 1000 := by
  rw [ofVolume] at h
  split at h
  · next hv =>
    cases h
    rw [isFraction] at hv
    split at hv
    · next negative units hvalue =>
      cases negative with
      | true =>
        -- only zero has a sign here, and it keeps it
        have hzero : units = 0 := of_decide_eq_true hv
        have hproduct := value_product hvalue (hzero ▸ Nat.zero_le _)
        rw [toUInt32_of_negative hproduct]
        exact Nat.zero_le _
      | false =>
        have hle : units ≤ unitsPerOne := of_decide_eq_true hv
        rw [toUInt32_of_value (value_product hvalue hle), UInt32.toNat_ofNat']
        exact (Nat.mod_le ..).trans ((Nat.min_le_left ..).trans (product_le hle))
    · contradiction
  · contradiction

theorem thousandth_le (h : g ≤ 1000) : thousandth g ≤ unitsPerOne := by
  have hexact : IsExact unitsPerOne := Nat.dvd_of_mod_eq_zero (by decide +kernel)
  have hle : g * unitsPerOne * unitsPerOne ≤ 1000 * unitsPerOne * unitsPerOne :=
    Nat.mul_le_mul_right _ (Nat.mul_le_mul_right _ h)
  rw [thousandth]
  exact nearestUnits_le hexact hle

theorem echo_le (h : g ≤ 1000) : echo g ≤ 1000 := product_le (thousandth_le h)

theorem value_volume (h : m.gain.toNat ≤ 1000) :
    m.volume.value = .finite false (thousandth m.gain.toNat) := by
  have hgain : (ofNat m.gain.toNat).value = .finite false (m.gain.toNat * unitsPerOne) :=
    value_ofNat (Nat.lt_of_le_of_lt h (by decide))
  have hbound : m.gain.toNat * unitsPerOne * unitsPerOne / (1000 * unitsPerOne) < Nat.pow 2 256 := by
    refine Nat.lt_of_le_of_lt
      (Nat.div_le_of_le_mul (Nat.mul_le_mul_right _ (Nat.mul_le_mul_right _ h))) ?_
    decide +kernel
  rw [volume, thousandth]
  exact value_div hgain value_fullScale (Nat.mul_ne_zero (by decide) unitsPerOne_ne_zero) hbound

theorem ofVolume_volume (h : m.gain.toNat ≤ 1000) :
    ofVolume m.volume = .ok ⟨.ofNat (echo m.gain.toNat)⟩ := by
  have hvalue := value_volume h
  have hle := thousandth_le h
  have hgain : min (echo m.gain.toNat) (UInt32.size - 1) = echo m.gain.toNat :=
    Nat.min_eq_left ((echo_le h).trans (by decide))
  rw [echo] at hgain ⊢
  rw [ofVolume, if_pos (isFraction_of_value hvalue hle), toUInt32_of_value (value_product hvalue hle), hgain]

/-! ## Where the roundings cancel -/

/-- A gain above a power of two and below `1000 / 512` of it, counted in steps of its thousandth. -/
theorem units_of_between {k : Nat} (hk : k = e + 116) (he : e ≤ 9) (hlow : Nat.pow 2 e < g)
    (hhigh : 512 * g < 1000 * Nat.pow 2 e) :
    0x200000000 * Nat.pow 2 k + 0x1000000 * Nat.pow 2 k ≤ g * unitsPerOne ∧
      512 * (g * unitsPerOne) < 1000 * (0x200000000 * Nat.pow 2 k) ∧
        Nat.pow 2 (10 + k) ∣ g * unitsPerOne := by
  have hone : 0 < unitsPerOne := Nat.pos_of_ne_zero unitsPerOne_ne_zero
  have hscale : Nat.pow 2 e * unitsPerOne = 0x200000000 * Nat.pow 2 k := by
    rw [unitsPerOne, ← two_pow_add, (by omega : e + 149 = 33 + k), two_pow_add]
  have hfine : 0x1000000 * Nat.pow 2 k ≤ unitsPerOne := by
    have hle : Nat.pow 2 (24 + k) ≤ Nat.pow 2 149 := Nat.pow_le_pow_right (by decide) (by omega)
    rw [two_pow_add] at hle
    exact hle
  have hnext : Nat.pow 2 e * unitsPerOne + unitsPerOne ≤ g * unitsPerOne := by
    rw [← Nat.succ_mul]
    exact Nat.mul_le_mul_right _ hlow
  rw [← hscale]
  refine ⟨(Nat.add_le_add_left hfine _).trans hnext, ?_, ?_⟩
  · rw [← Nat.mul_assoc, ← Nat.mul_assoc]
    exact (Nat.mul_lt_mul_right hone).mpr hhigh
  · exact Nat.dvd_mul_left_of_dvd (Nat.pow_dvd_pow 2 (by omega)) g

/-- Such a gain comes back: its products are 1024 times as far apart as its thousandths. -/
theorem echo_of_between (he : e ≤ 9) (hlow : Nat.pow 2 e < g) (hhigh : 512 * g < 1000 * Nat.pow 2 e) :
    echo g = g := by
  obtain ⟨k, hk⟩ : ∃ k, k = e + 116 := ⟨_, rfl⟩
  obtain ⟨hlow', hhigh', hdvd⟩ := units_of_between hk he hlow hhigh
  have hwide : Nat.pow 2 (10 + k) = 1024 * Nat.pow 2 k := two_pow_add 10 k
  have hpos : 0 < Nat.pow 2 k := Nat.pow_pos (by decide)
  rw [echo, thousandth]
  generalize hG : g * unitsPerOne = G at *
  have hspacing : spacing (G * unitsPerOne) (1000 * unitsPerOne) = Nat.pow 2 k := by
    apply spacing_div (by decide)
    · rw [binadeSize]
      omega
    · rw [binadeSize]
      omega
  obtain ⟨hless, hmore⟩ := nearestUnits_div_error G (by decide : 0 < 1000)
  rw [hspacing] at hless hmore
  generalize hU : nearestUnits (G * unitsPerOne) (1000 * unitsPerOne) = U at *
  have hspacing' : spacing (U * (1000 * unitsPerOne)) unitsPerOne = Nat.pow 2 (10 + k) := by
    apply spacing_mul
    · rw [binadeSize]
      omega
    · rw [binadeSize]
      omega
  have hback : nearestUnits (U * (1000 * unitsPerOne)) unitsPerOne = G := by
    apply nearestUnits_mul_div (by decide) hU
    · rw [hspacing']
      exact hdvd
    · rw [hspacing, hspacing', hwide]
      omega
  rw [hback, ← hG]
  exact Nat.mul_div_cancel g (Nat.pos_of_ne_zero unitsPerOne_ne_zero)

/-! ## Gains that slip -/

/-- The gains whose volume has the gain below. -/
def slipping : List Nat := [251, 253, 502, 506, 511]

theorem not_between_of_slipping :
    ∀ g ∈ slipping, ∀ e < 10, Nat.pow 2 e < g → ¬ 512 * g < 1000 * Nat.pow 2 e := by
  decide +kernel

theorem echo_of_near : ∀ e < 10, ∀ d < 25, 64 * d ≤ 3 * Nat.pow 2 e → Nat.pow 2 (e + 1) - d ≤ 1000 →
    echo (Nat.pow 2 (e + 1) - d) =
      if Nat.pow 2 (e + 1) - d ∈ slipping then Nat.pow 2 (e + 1) - d - 1 else Nat.pow 2 (e + 1) - d := by
  decide +kernel

theorem exists_binade (hone : 1 < g) (h : g ≤ 1000) :
    ∃ e < 10, Nat.pow 2 e < g ∧ g ≤ Nat.pow 2 (e + 1) := by
  have hne : g - 1 ≠ 0 := by omega
  have hlow : Nat.pow 2 (g - 1).log2 ≤ g - 1 := Nat.log2_self_le hne
  have hhigh : g - 1 < Nat.pow 2 ((g - 1).log2 + 1) := Nat.lt_log2_self
  exact ⟨(g - 1).log2, (Nat.log2_lt hne).mpr (by omega), by omega, by omega⟩

theorem echo_eq (h : g ≤ 1000) : echo g = if g ∈ slipping then g - 1 else g := by
  rcases Nat.lt_or_ge 1 g with hone | hone
  · obtain ⟨e, he, hlow, hhigh⟩ := exists_binade hone h
    rcases Nat.lt_or_ge (512 * g) (1000 * Nat.pow 2 e) with hbetween | hnear
    · have hslip : g ∉ slipping := fun hg => not_between_of_slipping g hg e he hlow hbetween
      rw [if_neg hslip]
      exact echo_of_between (Nat.le_of_lt_succ he) hlow hbetween
    · -- fewer than 25 gains are left below the next power of two
      have hdouble : Nat.pow 2 (e + 1) = Nat.pow 2 e * 2 := Nat.pow_succ ..
      have hle : Nat.pow 2 e ≤ 512 := Nat.pow_le_pow_right (by decide) (Nat.le_of_lt_succ he)
      obtain ⟨d, hd⟩ : ∃ d, g = Nat.pow 2 (e + 1) - d := ⟨Nat.pow 2 (e + 1) - g, by omega⟩
      rw [hd] at h ⊢
      exact echo_of_near e he d (by omega) (by omega) h
  · have hsmall : ∀ g < 2, echo g = if g ∈ slipping then g - 1 else g := by decide +kernel
    exact hsmall g (Nat.lt_succ_of_le hone)

/-- The volume is set to the gain below when it is set to what is reported for it. -/
def Slips (m : MasterVolume) : Prop := m.gain.toNat ∈ slipping

instance (m : MasterVolume) : Decidable m.Slips := inferInstanceAs (Decidable (_ ∈ slipping))

/-- Where a volume stays when it is set to what is reported for it. -/
def settled (m : MasterVolume) : MasterVolume := if m.Slips then ⟨m.gain - 1⟩ else m

/-- What is left of a volume that is set to what is reported for it, so many times. -/
def echoed (m : MasterVolume) : Nat → Except ProtocolError MasterVolume
  | 0 => .ok m
  | n + 1 => (m.echoed n).bind fun m => ofVolume m.volume

theorem settled_of_slips (h : m.Slips) : m.settled = ⟨m.gain - 1⟩ := if_pos h

theorem settled_of_not_slips (h : ¬ m.Slips) : m.settled = m := if_neg h

theorem ofVolume_volume_eq (h : m.gain.toNat ≤ 1000) : ofVolume m.volume = .ok m.settled := by
  rw [ofVolume_volume h]
  by_cases hslips : m.Slips
  · have hecho : echo m.gain.toNat = m.gain.toNat - 1 := (echo_eq h).trans (if_pos hslips)
    have hone : ∀ g ∈ slipping, 1 ≤ g := by decide
    rw [settled_of_slips hslips, hecho, UInt32.ofNat_sub (hone _ hslips), UInt32.ofNat_toNat]
    rfl
  · have hecho : echo m.gain.toNat = m.gain.toNat := (echo_eq h).trans (if_neg hslips)
    rw [settled_of_not_slips hslips, hecho, UInt32.ofNat_toNat]

/-- What holds of the five gains. -/
theorem of_slips {p : MasterVolume → Prop} (h : ∀ g ∈ slipping, p ⟨.ofNat g⟩) (hm : m.Slips) : p m := by
  have hp := h m.gain.toNat hm
  rw [UInt32.ofNat_toNat] at hp
  exact hp

theorem volume_settled_ne (h : m.Slips) : m.settled.volume ≠ m.volume := by
  refine of_slips (p := fun m => m.settled.volume ≠ m.volume) ?_ h
  decide +kernel

theorem not_slips_settled (m : MasterVolume) : ¬ m.settled.Slips := by
  by_cases h : m.Slips
  · refine of_slips (p := fun m => ¬ m.settled.Slips) ?_ h
    decide
  · rw [settled_of_not_slips h]
    exact h

theorem settled_le (h : m.gain.toNat ≤ 1000) : m.settled.gain.toNat ≤ 1000 := by
  by_cases hslips : m.Slips
  · refine of_slips (p := fun m => m.settled.gain.toNat ≤ 1000) ?_ hslips
    decide
  · rw [settled_of_not_slips hslips]
    exact h

theorem echoed_eq (h : m.gain.toNat ≤ 1000) (n : Nat) : m.echoed (n + 1) = .ok m.settled := by
  induction n with
  | zero =>
    rw [echoed, echoed, Except.bind]
    exact ofVolume_volume_eq h
  | succ n ih =>
    -- a settled volume is one that does not slip
    have hstays := ofVolume_volume_eq (settled_le h)
    rw [settled_of_not_slips m.not_slips_settled] at hstays
    rw [echoed, ih, Except.bind]
    exact hstays

/-! ## Devices -/

theorem frame_of_ofVolume (h : ofVolume v = .ok m) (sequence : UInt16) (component : UInt8) :
    (Demand.masterVolume v).frame sequence component =
      .ok ((Request.masterVolume m).frame sequence component) := by
  rw [Demand.frame, Demand.request, h]
  rfl

/-- The device holds the volume of what it was told. -/
theorem volume_handle_frame (d : Device) (s : DeviceState) (m : MasterVolume) (sequence : UInt16)
    (component : UInt8) :
    (d.handle s ((Request.masterVolume m).frame sequence component)).2.volume = m.volume := by
  have happly := (s.apply_masterVolume m).2
  rw [Device.handle_frame]
  exact happly

/-! ## The main statement -/

/-- What becomes of a volume when what is reported for it is set. -/
structure Echoes (m : MasterVolume) : Prop where
  /-- The reported volume is never refused, and it has the same gain unless the gain is one of five. -/
  ofVolume_volume_iff : ofVolume m.volume = .ok m ↔ ¬ m.Slips
  /-- However often that is repeated, the volume is the one it was after the first time. -/
  echoed_eq : ∀ n, m.echoed (n + 1) = .ok m.settled
  /-- A device that is told the volume it holds goes on holding it, again with the exception of the five. -/
  held_iff : ∀ (d : Device) s sequence component sequence' component',
    ∀ t, (d.handle s ((Request.masterVolume m).frame sequence component)).2 = t →
      ∃ f, (Demand.masterVolume t.volume).frame sequence' component' = .ok f ∧
        ((d.handle t f).2.volume = t.volume ↔ ¬ m.Slips)

theorem echoes_of_ofVolume (h : ofVolume v = .ok m) : m.Echoes where
  ofVolume_volume_iff := by
    rw [ofVolume_volume_eq (toNat_gain_le h), Except.ok.injEq]
    constructor
    · intro hm hslips
      exact m.not_slips_settled (hm.symm ▸ hslips)
    · exact settled_of_not_slips
  echoed_eq := echoed_eq (toNat_gain_le h)
  held_iff d s sequence component sequence' component' t ht := by
    have hheld : t.volume = m.volume := by
      rw [← ht]
      exact volume_handle_frame d s m sequence component
    refine ⟨(Request.masterVolume m.settled).frame sequence' component', ?_, ?_⟩
    · rw [hheld]
      exact frame_of_ofVolume (ofVolume_volume_eq (toNat_gain_le h)) sequence' component'
    · rw [volume_handle_frame, hheld]
      constructor
      · intro hm hslips
        exact volume_settled_ne hslips hm
      · intro hslips
        rw [settled_of_not_slips hslips]

/-- A volume just above a quarter falls by one when what is reported for it is set, and stays there. -/
theorem echoes_quarter : ofVolume ⟨0x3e80c49c⟩ = .ok ⟨251⟩ ∧ echoed ⟨251⟩ 1 = .ok ⟨250⟩ ∧
    echoed ⟨251⟩ 2 = .ok ⟨250⟩ ∧ ofVolume (volume ⟨250⟩) = .ok ⟨250⟩ := by
  have hset : ofVolume ⟨0x3e80c49c⟩ = .ok ⟨251⟩ := by decide +kernel
  have hset' : ofVolume ⟨0x3e808312⟩ = .ok ⟨250⟩ := by decide +kernel
  have hechoes := echoes_of_ofVolume hset
  have hechoes' := echoes_of_ofVolume hset'
  exact ⟨hset, hechoes.echoed_eq 0, hechoes.echoed_eq 1, hechoes'.ofVolume_volume_iff.mpr (by decide)⟩

/-- What is reported for the gain 251 has the gain 250. -/
theorem not_ofVolume_volume : ¬ ∀ v m, ofVolume v = .ok m → ofVolume m.volume = .ok m := by
  intro h
  have hset : ofVolume ⟨0x3e80c49c⟩ = .ok ⟨251⟩ := by decide +kernel
  have hfalls : ofVolume (volume ⟨251⟩) = .ok ⟨250⟩ := by decide +kernel
  have hsame := h _ _ hset
  rw [hfalls] at hsame
  contradiction

end AmpLink.MasterVolume
