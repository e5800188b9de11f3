import AmpLink.Proofs.Number.Numerals
import AmpLink.Text.Hex

/-!
# Reading and writing hexadecimal text

Pairs of digits are read as the bytes that they were written for (`Hex.bytes?_chars`), and digits that are read
are what is written for their bytes, but for their case (`Hex.bytes?_eq_some`).
-/

namespace AmpLink.Hex

variable {b : Bytes} {cs : List Char}

theorem isDigit_of_mem_byte {b : UInt8} (h : c ∈ byte b) : IsDigit c := by
  have hb := b.toNat_lt
  rcases List.mem_cons.mp h with rfl | h
  · exact isDigit_digitChar _ (by omega)
  · rw [List.mem_singleton.mp h]
    exact isDigit_digitChar _ (by omega)

theorem isDigit_of_mem_padded {width n : Nat} (h : c ∈ padded width n) : IsDigit c := by
  rcases List.mem_append.mp h with h | h
  · rw [List.eq_of_mem_replicate h]
    decide
  · exact isBase_sixteen.isDigit_of_mem_toDigits (Nat.le_refl 16) h

theorem digitsValue_padded (width n : Nat) : digitsValue 16 (padded width n) = n :=
  (digitsValue_replicate_append isBase_sixteen ..).trans (isBase_sixteen.digitsValue_toDigits n)

theorem length_padded {width n : Nat} (hw : 0 < width) (h : n < Nat.pow 16 width) :
    (padded width n).length = width := by
  have hle := (Nat.length_toDigits_le_iff (by decide : 1 < 16) hw).mpr h
  rw [padded, List.length_append, List.length_replicate]
  exact Nat.sub_add_cancel hle

/-- Pairs of digits are read as the bytes that they were written for. -/
theorem bytes?_chars (b : Bytes) : bytes? (chars b) = some b := by
  induction b with
  | nil => rfl
  | cons b rest ih =>
    have hb := b.toNat_lt
    have hhigh := isBase_sixteen.digitValue?_digitChar (b.toNat / 16) (by omega)
    have hlow := isBase_sixteen.digitValue?_digitChar (b.toNat % 16) (by omega)
    change bytes? (digit (b.toNat / 16) :: digit (b.toNat % 16) :: chars rest) = _
    rw [bytes?, digit, digit, hhigh, hlow, ih]
    have hbyte : UInt8.ofNat (16 * (b.toNat / 16) + b.toNat % 16) = b := by
      rw [Nat.div_add_mod, UInt8.ofNat_toNat]
    exact congrArg (fun b => some (b :: rest)) hbyte

theorem chars_cons (b : UInt8) (rest : Bytes) : chars (b :: rest) = byte b ++ chars rest := rfl

theorem length_chars (b : Bytes) : (chars b).length = 2 * b.length := by
  induction b with
  | nil => rfl
  | cons b rest ih =>
    change (chars rest).length + 2 = 2 * (rest.length + 1)
    rw [ih]
    rfl

/-- A pair of digits is read as one byte. -/
theorem bytes?_cons {c d : Char} (hc : digitValue? 16 c = some h) (hd : digitValue? 16 d = some l) :
    bytes? (c :: d :: cs) = (bytes? cs).map (.ofNat (16 * h + l) :: ·) := by
  rw [bytes?, hc, hd]
  cases bytes? cs with
  | none | some => rfl

theorem byte_ofNat (hh : h < 16) (hl : l < 16) : byte (.ofNat (16 * h + l)) = [h.digitChar, l.digitChar] := by
  have hlt : 16 * h + l < 256 := by omega
  have htoNat : (UInt8.ofNat (16 * h + l)).toNat = 16 * h + l := UInt8.toNat_ofNat_of_lt' hlt
  have hdiv : (16 * h + l) / 16 = h := by omega
  have hmod : (16 * h + l) % 16 = l := by omega
  rw [byte, digit, digit, htoNat, hdiv, hmod]

/-- Pairs of digits of either case are read. -/
theorem exists_bytes? (cs : List Char) (hcs : ∀ c ∈ cs, c.isHexDigit) (n : Nat) (hn : cs.length = 2 * n) :
    ∃ b, bytes? cs = some b := by
  induction cs using bytes?.induct generalizing n with
  | case1 => exact ⟨[], rfl⟩
  | case2 c =>
    rw [List.length_singleton] at hn
    omega
  | case3 c d rest ih =>
    rw [List.forall_mem_cons, List.forall_mem_cons] at hcs
    obtain ⟨h, hc⟩ := Option.isSome_iff_exists.mp ((isSome_digitValue?_sixteen c).trans hcs.1)
    obtain ⟨l, hd⟩ := Option.isSome_iff_exists.mp ((isSome_digitValue?_sixteen d).trans hcs.2.1)
    obtain ⟨b, hb⟩ := ih hcs.2.2 (n - 1) (by simp at hn; omega)
    exact ⟨_, by rw [bytes?_cons hc hd, hb]; rfl⟩

/-- Digits are read as the bytes for which the same digits are written in lower case. -/
theorem bytes?_eq_some (h : bytes? cs = some b) : cs.map Char.toLower = chars b := by
  induction cs using bytes?.induct generalizing b with
  | case1 =>
    cases h
    rfl
  | case2 c => contradiction
  | case3 c d rest ih =>
    simp only [bytes?, Option.bind_eq_bind, Option.bind_eq_some_iff, Option.pure_def, Option.some.injEq] at h
    obtain ⟨high, hhigh, low, hlow, tail, htail, rfl⟩ := h
    obtain ⟨hh, hc⟩ := toLower_of_digitValue? hhigh
    obtain ⟨hl, hd⟩ := toLower_of_digitValue? hlow
    rw [List.map_cons, List.map_cons, hc, hd, ih htail, chars_cons, byte_ofNat hh hl]
    rfl

theorem forall_isHexDigit (h : bytes? cs = some b) : ∀ c ∈ cs, c.isHexDigit := by
  induction cs using bytes?.induct generalizing b with
  | case1 => exact nofun
  | case2 c => contradiction
  | case3 c d rest ih =>
    simp only [bytes?, Option.bind_eq_bind, Option.bind_eq_some_iff] at h
    obtain ⟨high, hhigh, low, hlow, tail, htail, -⟩ := h
    rw [List.forall_mem_cons, List.forall_mem_cons, ← isSome_digitValue?_sixteen, ← isSome_digitValue?_sixteen]
    exact ⟨Option.isSome_of_eq_some hhigh, Option.isSome_of_eq_some hlow, ih htail⟩

/-- The two digits of a byte. -/
def pair (cs : List Char) (i : Nat) : List Char := (cs.drop (2 * i)).take 2

theorem digitsValue_pair_zero {c d : Char} (hc : digitValue? 16 c = some h) (hd : digitValue? 16 d = some l) :
    digitsValue 16 (pair (c :: d :: cs) 0) = 16 * h + l := by
  change (0 * 16 + (digitValue? 16 c).getD 0) * 16 + (digitValue? 16 d).getD 0 = _
  rw [hc, hd, Option.getD_some, Option.getD_some]
  omega

/-- Each byte is read from its two digits. -/
theorem toNat_getElem_bytes? (h : bytes? cs = some b) (i : Nat) (hi : i < b.length) :
    b[i].toNat = digitsValue 16 (pair cs i) := by
  induction cs using bytes?.induct generalizing b i with
  | case1 =>
    cases h
    contradiction
  | case2 c => contradiction
  | case3 c d rest ih =>
    simp only [bytes?, Option.bind_eq_bind, Option.bind_eq_some_iff, Option.pure_def, Option.some.injEq] at h
    obtain ⟨high, hhigh, low, hlow, tail, htail, rfl⟩ := h
    have hh := (toLower_of_digitValue? hhigh).1
    have hl := (toLower_of_digitValue? hlow).1
    cases i with
    | zero =>
      rw [digitsValue_pair_zero hhigh hlow]
      exact UInt8.toNat_ofNat_of_lt' (show 16 * high + low < 256 by omega)
    | succ i => exact ih htail i (Nat.lt_of_succ_lt_succ hi)

end AmpLink.Hex
