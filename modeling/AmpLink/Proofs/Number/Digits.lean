import AmpLink.Number.Reading

/-!
# Digits

The digits of a number, in a base whose digits can be read (`IsBase`), are read as that number
(`digitsValue_toDigits`). They are no more than the power of the base that is above the number, and only the
number zero begins with a zero.
-/

namespace AmpLink

/-- A base whose digits are read as they are written. -/
structure IsBase (base : Nat) : Prop where
  one_lt : 1 < base
  digitValue?_digitChar : ∀ d < base, digitValue? base d.digitChar = some d

theorem isBase_ten : IsBase 10 := ⟨by decide, by decide⟩

theorem isBase_sixteen : IsBase 16 := ⟨by decide, by decide⟩

/-- A lowercase digit of a base up to sixteen. -/
def IsDigit (c : Char) : Prop := c ∈ "0123456789abcdef".toList

instance : DecidablePred IsDigit := fun _ => inferInstanceAs (Decidable (_ ∈ _))

theorem isDigit_digitChar : ∀ d < 16, IsDigit d.digitChar := by decide

/-- The value of digits that follow each other. -/
def digitsValue (base : Nat) (cs : List Char) : Nat :=
  cs.foldl (fun n c => n * base + (digitValue? base c).getD 0) 0

theorem digitsValue_append_singleton (base : Nat) (cs : List Char) (c : Char) :
    digitsValue base (cs ++ [c]) = digitsValue base cs * base + (digitValue? base c).getD 0 :=
  List.foldl_append

/-- Zeros at the front change nothing. -/
theorem digitsValue_replicate_append (h : IsBase base) (n : Nat) (cs : List Char) :
    digitsValue base (List.replicate n '0' ++ cs) = digitsValue base cs := by
  have hzero : digitValue? base '0' = some 0 := h.digitValue?_digitChar 0 (Nat.zero_lt_of_lt h.one_lt)
  induction n with
  | zero => rfl
  | succ n ih =>
    rw [List.replicate_succ, List.cons_append, digitsValue, List.foldl_cons, hzero, Nat.zero_mul]
    exact ih

variable {base : Nat}

namespace IsBase

/-- A property of numbers and their digits that the last digit hands on. -/
theorem toDigits_induction (h : IsBase base) {P : Nat → List Char → Prop}
    (one : ∀ d < base, P d [d.digitChar])
    (more : ∀ n, base ≤ n → P (n / base) (Nat.toDigits base (n / base)) →
      P n (Nat.toDigits base (n / base) ++ [(n % base).digitChar]))
    (n : Nat) : P n (Nat.toDigits base n) := by
  induction n using Nat.strongRecOn with
  | ind n ih =>
    rcases Nat.lt_or_ge n base with hlt | hge
    · rw [Nat.toDigits_of_lt_base hlt]
      exact one n hlt
    · rw [Nat.toDigits_of_base_le h.one_lt hge]
      have hpos : 0 < n := Nat.lt_of_lt_of_le (Nat.zero_lt_of_lt h.one_lt) hge
      exact more n hge (ih (n / base) (Nat.div_lt_self hpos h.one_lt))

theorem mod_lt (h : IsBase base) (n : Nat) : n % base < base := Nat.mod_lt n (Nat.zero_lt_of_lt h.one_lt)

theorem exists_of_mem_toDigits (h : IsBase base) {c : Char} (hc : c ∈ Nat.toDigits base n) :
    ∃ d < base, c = d.digitChar := by
  revert hc
  apply h.toDigits_induction (P := fun _ ds => c ∈ ds → ∃ d < base, c = d.digitChar)
  · intro d hd hc
    exact ⟨d, hd, List.mem_singleton.mp hc⟩
  · intro n _ ih hc
    rcases List.mem_append.mp hc with hc | hc
    · exact ih hc
    · exact ⟨n % base, h.mod_lt n, List.mem_singleton.mp hc⟩

theorem isDigit_of_mem_toDigits (h : IsBase base) (hbase : base ≤ 16) {c : Char}
    (hc : c ∈ Nat.toDigits base n) : IsDigit c := by
  obtain ⟨d, hd, rfl⟩ := h.exists_of_mem_toDigits hc
  exact isDigit_digitChar d (Nat.lt_of_lt_of_le hd hbase)

theorem isSome_digitValue? (h : IsBase base) {c : Char} (hc : c ∈ Nat.toDigits base n) :
    (digitValue? base c).isSome := by
  obtain ⟨d, hd, rfl⟩ := h.exists_of_mem_toDigits hc
  rw [h.digitValue?_digitChar d hd]
  rfl

theorem digitsValue_toDigits (h : IsBase base) (n : Nat) : digitsValue base (Nat.toDigits base n) = n := by
  apply h.toDigits_induction (P := fun n ds => digitsValue base ds = n)
  · intro d hd
    rw [digitsValue, List.foldl_cons, List.foldl_nil, h.digitValue?_digitChar d hd, Nat.zero_mul, Nat.zero_add]
    rfl
  · intro n _ ih
    rw [digitsValue_append_singleton, ih, h.digitValue?_digitChar _ (h.mod_lt n)]
    exact Nat.div_add_mod' n base

/-- Only zero begins with a zero. -/
theorem head?_toDigits (h : IsBase base) (hn : n ≠ 0) : (Nat.toDigits base n).head? ≠ some '0' := by
  revert hn
  apply h.toDigits_induction (P := fun n ds => n ≠ 0 → ds.head? ≠ some '0')
  · intro d hd hne hzero
    have hdigit := h.digitValue?_digitChar d hd
    have hdigit' := h.digitValue?_digitChar 0 (Nat.zero_lt_of_lt h.one_lt)
    rw [Option.some.inj hzero] at hdigit
    exact hne (Option.some.inj (hdigit.symm.trans hdigit'))
  · intro n hge ih _
    have hpos : n / base ≠ 0 := Nat.div_ne_zero_iff.mpr ⟨Nat.ne_zero_of_lt h.one_lt, hge⟩
    obtain ⟨c, cs, hc⟩ := List.exists_cons_of_ne_nil (l := Nat.toDigits base (n / base)) Nat.toDigits_ne_nil
    rw [hc] at ih ⊢
    exact ih hpos

end IsBase

end AmpLink
