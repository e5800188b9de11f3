import AmpLink.Net.Ip
import AmpLink.Proofs.Number.Digits

/-!
# Reading numbers in addresses

The digits of a number are read up to the first character that is no digit (`Ip.readNumber_toDigits`), and
where there is no digit nothing is read (`Ip.readNumber_of_ends`). Digits of either base are ended by the
characters between the parts of an address (`Ip.marks`).
-/

namespace AmpLink.Ip

variable {base limit n : Nat} {width : Option Nat} {zeros : Bool} {cs rest : List Char} {c : Char}

/-- No digit comes next. -/
def Ends (base : Nat) (rest : List Char) : Prop := ∀ c ∈ rest.head?, digitValue? base c = none

/-- The characters between the parts of an address. -/
def marks : List Char := ['.', ':', '%', '[', ']']

/-- A mark comes next, or nothing. -/
def AtMark (rest : List Char) : Prop := ∀ c ∈ rest.head?, c ∈ marks

theorem atMark_nil : AtMark [] := nofun

theorem atMark_cons (h : c ∈ marks) (rest : List Char) : AtMark (c :: rest) := by
  rintro _ ⟨⟩
  exact h

theorem AtMark.ends (h : AtMark rest) (hbase : marks.all fun c => (digitValue? base c).isNone) : Ends base rest :=
  fun c hc => Option.isNone_iff_eq_none.mp (List.all_eq_true.mp hbase c (h c hc))

theorem AtMark.ends_ten (h : AtMark rest) : Ends 10 rest := h.ends (by decide)

theorem AtMark.ends_sixteen (h : AtMark rest) : Ends 16 rest := h.ends (by decide)

theorem takeWhile_of_ends (h : Ends base rest) : rest.takeWhile (fun c => (digitValue? base c).isSome) = [] := by
  cases rest with
  | nil => rfl
  | cons c rest =>
    apply List.takeWhile_cons_of_neg
    rw [h c rfl]
    exact Bool.false_ne_true

theorem dropWhile_of_ends (h : Ends base rest) : rest.dropWhile (fun c => (digitValue? base c).isSome) = rest := by
  have hsplit := List.takeWhile_append_dropWhile (p := fun c => (digitValue? base c).isSome) (l := rest)
  rwa [takeWhile_of_ends h] at hsplit

theorem readNumber_of_ends (h : Ends base rest) : readNumber base limit width zeros rest = none := by
  rw [readNumber, takeWhile_of_ends h]
  rfl

/-- What is behind a number begins with no digit. -/
theorem eq_dropWhile_of_readNumber (h : readNumber base limit width zeros cs = some (n, rest)) :
    rest = cs.dropWhile fun c => (digitValue? base c).isSome := by
  have hsplit := congrArg (List.drop (cs.takeWhile fun c => (digitValue? base c).isSome).length)
    (List.takeWhile_append_dropWhile (p := fun c => (digitValue? base c).isSome) (l := cs))
  rw [List.drop_left] at hsplit
  rw [readNumber] at h
  split at h
  · contradiction
  · cases h
    exact hsplit.symm

/-- A number is read from its digits. -/
theorem readNumber_toDigits (zeros : Bool) (hbase : IsBase base) (hn : n ≤ limit)
    (hwidth : ∀ w ∈ width, (Nat.toDigits base n).length ≤ w) (hrest : Ends base rest) :
    readNumber base limit width zeros (Nat.toDigits base n ++ rest) = some (n, rest) := by
  have htake : (Nat.toDigits base n ++ rest).takeWhile (fun c => (digitValue? base c).isSome) =
      Nat.toDigits base n := by
    rw [List.takeWhile_append_of_pos fun c => hbase.isSome_digitValue?, takeWhile_of_ends hrest, List.append_nil]
  have hvalue := hbase.digitsValue_toDigits n
  rw [digitsValue] at hvalue
  have hempty : ¬(Nat.toDigits base n).isEmpty := by
    rw [List.isEmpty_iff]
    exact Nat.toDigits_ne_nil
  have hzero : ¬(1 < (Nat.toDigits base n).length ∧ (Nat.toDigits base n).head? = some '0') := by
    rintro ⟨hlen, hhead⟩
    rcases Nat.eq_zero_or_pos n with rfl | hpos
    · rw [Nat.toDigits_of_lt_base (Nat.zero_lt_of_lt hbase.one_lt)] at hlen
      exact absurd hlen (by decide)
    · exact hbase.head?_toDigits (Nat.ne_of_gt hpos) hhead
  have hfits : ¬width.any (· < (Nat.toDigits base n).length) := by
    cases width with
    | none => exact Bool.false_ne_true
    | some w => simpa using hwidth w rfl
  rw [readNumber, htake, hvalue, List.drop_left, if_neg]
  rintro (h | h | h | h)
  · exact hempty h
  · exact Nat.not_lt.mpr hn h
  · exact hfits h
  · exact hzero h.2

end AmpLink.Ip
