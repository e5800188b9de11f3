import AmpLink.Proofs.Number.Digits
import Mathlib.Data.List.Basic

/-!
# Numerals

A whole number is read from digits that may have a plus sign before them, and from nothing else
(`readNat_eq_ok_iff`). How many digits there are does not matter, only their value has to be in the range.
-/

namespace AmpLink

variable {base limit : Nat} {c : Char} {cs : List Char}

/-! ## Digits of either case -/

/-- What holds of every character of one byte. -/
theorem of_ascii {P : Char → Prop} (h : ∀ n < 128, P (.ofNat n)) (hc : c.toNat < 128) : P c := by
  have hP := h c.toNat hc
  rwa [Char.ofNat_toNat] at hP

/-- Digits of any base have one byte. -/
theorem digitValue?_of_le (base : Nat) (h : 128 ≤ c.toNat) : digitValue? base c = none := by
  have hout (a b : Char) (hb : b.toNat < 128) : ¬(a ≤ c ∧ c ≤ b) :=
    fun hc => Nat.not_lt.mpr h (Nat.lt_of_le_of_lt (UInt32.le_iff_toNat_le.mp hc.2) hb)
  rw [digitValue?, if_neg (hout '0' '9' (by decide)), if_neg (hout 'a' 'f' (by decide)),
    if_neg (hout 'A' 'F' (by decide))]
  exact if_neg (Nat.lt_irrefl base)

theorem toNat_lt_of_isHexDigit (h : c.isHexDigit) : c.toNat < 128 := by
  have hle : c.val ≤ 'f'.val := by
    simp only [Char.isHexDigit, Char.isDigit, Bool.or_eq_true, Bool.and_eq_true, decide_eq_true_eq] at h
    rcases h with (⟨-, h⟩ | ⟨-, h⟩) | ⟨-, h⟩
    · exact UInt32.le_trans h (by decide)
    · exact h
    · exact UInt32.le_trans h (by decide)
  exact Nat.lt_of_le_of_lt (UInt32.le_iff_toNat_le.mp hle) (by decide)

theorem isSome_digitValue?_sixteen (c : Char) : (digitValue? 16 c).isSome = c.isHexDigit := by
  rcases Nat.lt_or_ge c.toNat 128 with hlt | hge
  · exact of_ascii (P := fun c => (digitValue? 16 c).isSome = c.isHexDigit) (by decide) hlt
  · rw [digitValue?_of_le 16 hge]
    exact (Bool.eq_false_iff.mpr fun h => Nat.not_lt.mpr hge (toNat_lt_of_isHexDigit h)).symm

theorem isSome_digitValue?_ten (c : Char) : (digitValue? 10 c).isSome = c.isDigit := by
  rcases Nat.lt_or_ge c.toNat 128 with hlt | hge
  · exact of_ascii (P := fun c => (digitValue? 10 c).isSome = c.isDigit) (by decide) hlt
  · rw [digitValue?_of_le 10 hge]
    refine (Bool.eq_false_iff.mpr fun h => Nat.not_lt.mpr hge (toNat_lt_of_isHexDigit ?_)).symm
    rw [Char.isHexDigit, h]
    rfl

/-- A digit in lower case is the digit of its value. -/
theorem toLower_of_digitValue? (h : digitValue? 16 c = some d) : d < 16 ∧ c.toLower = d.digitChar := by
  have hlt : c.toNat < 128 := by
    by_contra hge
    rw [digitValue?_of_le 16 (Nat.not_lt.mp hge)] at h
    contradiction
  have hall := of_ascii (P := fun c => (digitValue? 16 c).all fun d => d < 16 ∧ c.toLower = d.digitChar)
    (by decide) hlt
  rw [h] at hall
  exact of_decide_eq_true hall

/-! ## Reading digits -/

/-- The value of digits that follow others of value `acc`. -/
def digitsFrom (base acc : Nat) (cs : List Char) : Nat :=
  cs.foldl (fun n c => n * base + (digitValue? base c).getD 0) acc

theorem le_digitsFrom (hbase : 0 < base) (acc : Nat) (cs : List Char) : acc ≤ digitsFrom base acc cs := by
  induction cs generalizing acc with
  | nil => exact Nat.le_refl acc
  | cons c cs ih =>
    calc
      acc ≤ acc * base := Nat.le_mul_of_pos_right acc hbase
      _ ≤ acc * base + (digitValue? base c).getD 0 := Nat.le_add_right ..
      _ ≤ digitsFrom base acc (c :: cs) := ih _

/-- Digits are read up to the limit. -/
theorem readDigits_eq_ok_iff (hbase : 0 < base) {acc : Nat} (hacc : acc ≤ limit) :
    readDigits base limit acc cs = .ok n ↔
      (∀ c ∈ cs, (digitValue? base c).isSome) ∧ digitsFrom base acc cs = n ∧ n ≤ limit := by
  induction cs generalizing acc with
  | nil =>
    rw [readDigits, Except.ok.injEq]
    refine ⟨?_, fun h => h.2.1⟩
    rintro rfl
    exact ⟨nofun, rfl, hacc⟩
  | cons c cs ih =>
    rw [readDigits, List.forall_mem_cons]
    have hfrom : digitsFrom base acc (c :: cs) =
        digitsFrom base (acc * base + (digitValue? base c).getD 0) cs := rfl
    cases hc : digitValue? base c with
    | none => exact iff_of_false (by simp) fun h => absurd h.1.1 (by simp)
    | some d =>
      rw [hc] at hfrom
      dsimp only
      split
      · next hle =>
        rw [ih hle, hfrom]
        simp
      · next hgt =>
        have hle := le_digitsFrom hbase (acc * base + d) cs
        refine iff_of_false (by simp) fun h => hgt ?_
        rw [hfrom] at h
        exact Nat.le_trans hle (h.2.1 ▸ h.2.2)

/-- Digits with a plus sign before them or none. -/
structure IsNumeral (base : Nat) (sign ds : List Char) : Prop where
  sign : sign = [] ∨ sign = ['+']
  ne_nil : ds ≠ []
  digits : ∀ c ∈ ds, (digitValue? base c).isSome

/-- Signs are no digits. -/
theorem not_isSome_sign (base : Nat) : ¬(digitValue? base '+').isSome ∧ ¬(digitValue? base '-').isSome := by
  have hplus : digitValue? base '+' = none := if_neg (Nat.lt_irrefl base)
  have hminus : digitValue? base '-' = none := if_neg (Nat.lt_irrefl base)
  rw [hplus, hminus]
  exact ⟨Bool.false_ne_true, Bool.false_ne_true⟩

theorem IsNumeral.readNat {sign ds : List Char} (h : IsNumeral base sign ds) :
    readNat base limit (sign ++ ds) = readDigits base limit 0 ds := by
  obtain ⟨hsign, hne, hdigits⟩ := h
  obtain ⟨d, ds, rfl⟩ := List.exists_cons_of_ne_nil hne
  have hplus : d ≠ '+' := by
    rintro rfl
    exact (not_isSome_sign base).1 (hdigits _ List.mem_cons_self)
  have hminus : d ≠ '-' := by
    rintro rfl
    exact (not_isSome_sign base).2 (hdigits _ List.mem_cons_self)
  rcases hsign with rfl | rfl
  · simp [AmpLink.readNat, hplus, hminus]
  · simp [AmpLink.readNat]

/-- Numerals are read whose value is in the range, and nothing else. -/
theorem readNat_eq_ok_iff (hbase : 0 < base) : readNat base limit cs = .ok n ↔
    ∃ sign ds, cs = sign ++ ds ∧ IsNumeral base sign ds ∧ digitsValue base ds = n ∧ n ≤ limit := by
  constructor
  · intro h
    rw [readNat.eq_def] at h
    split at h
    · contradiction
    · contradiction
    · contradiction
    · next ds hds =>
      obtain ⟨hdigits, hvalue⟩ := (readDigits_eq_ok_iff hbase (Nat.zero_le limit)).mp h
      refine ⟨['+'], ds, rfl, ⟨.inr rfl, ?_, hdigits⟩, hvalue⟩
      rintro rfl
      exact hds rfl
    · next hne _ _ _ =>
      obtain ⟨hdigits, hvalue⟩ := (readDigits_eq_ok_iff hbase (Nat.zero_le limit)).mp h
      exact ⟨[], cs, rfl, ⟨.inl rfl, hne, hdigits⟩, hvalue⟩
  · rintro ⟨sign, ds, rfl, hnumeral, hvalue⟩
    rw [hnumeral.readNat]
    exact (readDigits_eq_ok_iff hbase (Nat.zero_le limit)).mpr ⟨hnumeral.digits, hvalue⟩

end AmpLink
