import AmpLink.CommandLine.Value
import AmpLink.Proofs.Text.Hex
import AmpLink.Proofs.Text.Utf8

/-!
# How bytes and device ids are written

An id is any number of marks and eight hexadecimal digits of either case, and it is read from nothing else. That
the digits have one byte each is what makes it safe to cut them out by their places (`DeviceId.readSlices?_eq`). A
byte is a decimal numeral, or a hexadecimal one behind a mark. The main statement is `valueSyntax`.
-/

namespace AmpLink

open Utf8

variable {c : Char} {cs ds : List Char}

/-! ## Cutting by bytes -/

namespace Utf8

/-- Cuts a text behind its first `n` bytes, which has no result within a character or behind the end. -/
def cut? : Nat → List Char → Option (List Char × List Char)
  | 0, cs => some ([], cs)
  | _ + 1, [] => none
  | n + 1, c :: cs =>
    if c.utf8Size ≤ n + 1 then (cut? (n + 1 - c.utf8Size) cs).map fun (front, rest) => (c :: front, rest) else none

/-- The `n` bytes of a text from its byte `i` on. -/
def slice? (i n : Nat) (cs : List Char) : Option (List Char) := do
  let (_, rest) ← cut? i cs
  let (front, _) ← cut? n rest
  return front

theorem cut?_of_ascii (hcs : ∀ c ∈ cs, c.utf8Size = 1) (hn : n ≤ cs.length) :
    cut? n cs = some (cs.take n, cs.drop n) := by
  induction cs generalizing n with
  | nil =>
    obtain rfl := Nat.le_zero.mp hn
    rfl
  | cons c cs ih =>
    rw [List.forall_mem_cons] at hcs
    cases n with
    | zero => rfl
    | succ n =>
      rw [cut?, hcs.1, if_pos (Nat.le_add_left 1 n), Nat.add_sub_cancel, ih hcs.2 (Nat.le_of_succ_le_succ hn)]
      rfl

/-- Among characters of one byte places of bytes are those of characters. -/
theorem slice?_of_ascii (hcs : ∀ c ∈ cs, c.utf8Size = 1) (hn : i + n ≤ cs.length) :
    slice? i n cs = some ((cs.drop i).take n) := by
  have hrest : ∀ c ∈ cs.drop i, c.utf8Size = 1 := fun c hc => hcs c (List.mem_of_mem_drop hc)
  have hlength : n ≤ (cs.drop i).length := by
    rw [List.length_drop]
    omega
  rw [slice?, cut?_of_ascii hcs (by omega)]
  change (cut? n (cs.drop i)).bind _ = _
  rw [cut?_of_ascii hrest hlength]
  rfl

theorem length_encode_of_ascii (hcs : ∀ c ∈ cs, c.utf8Size = 1) : (encode cs).length = cs.length := by
  induction cs with
  | nil => rfl
  | cons c cs ih =>
    rw [List.forall_mem_cons] at hcs
    have hcons : encode (c :: cs) = String.utf8EncodeChar c ++ encode cs := List.flatMap_cons
    rw [hcons, List.length_append, String.length_utf8EncodeChar, hcs.1, ih hcs.2, List.length_cons, Nat.add_comm]

end Utf8

/-! ## Device ids -/

namespace DeviceId

/-- `0x` any number of times. -/
def marks (n : Nat) : List Char := (List.replicate n ['0', 'x']).flatten

theorem marks_succ_append (n : Nat) (cs : List Char) : marks (n + 1) ++ cs = '0' :: 'x' :: (marks n ++ cs) := rfl

/-- The digits of an id. -/
structure IsDigits (ds : List Char) : Prop where
  length : ds.length = 8
  isHexDigit : ∀ c ∈ ds, c.isHexDigit

theorem exists_marks (cs : List Char) : ∃ n, cs = marks n ++ dropMarks cs := by
  induction cs using dropMarks.induct with
  | case1 rest ih =>
    obtain ⟨n, hn⟩ := ih
    refine ⟨n + 1, ?_⟩
    rw [marks_succ_append, dropMarks, ← hn]
  | case2 cs hne => exact ⟨0, (dropMarks.eq_2 cs hne).symm⟩

/-- Digits are no mark. -/
theorem dropMarks_append (hds : ∀ c ∈ ds, c.isHexDigit) (n : Nat) : dropMarks (marks n ++ ds) = ds := by
  induction n with
  | zero =>
    refine dropMarks.eq_2 ds fun rest hrest => ?_
    have hx := hds 'x' (by rw [hrest]; simp)
    exact absurd hx (by decide)
  | succ n ih => rw [marks_succ_append, dropMarks, ih]

theorem ofBytes?_eq_some_iff {id : DeviceId} : ofBytes? b = some id ↔ b = id.toList := by
  rw [ofBytes?]
  constructor
  · intro h
    split at h
    · cases h
      rfl
    · contradiction
  · rintro rfl
    rw [dif_pos (by simp)]
    rfl

theorem read?_eq_some_iff {id : DeviceId} : read? cs = some id ↔ Hex.bytes? (dropMarks cs) = some id.toList := by
  rw [read?, Option.bind_eq_some_iff]
  simp only [ofBytes?_eq_some_iff, exists_eq_right]

theorem isDigits_of_bytes? {id : DeviceId} (h : Hex.bytes? ds = some id.toList) : IsDigits ds where
  length := by
    have hlength := congrArg List.length (Hex.bytes?_eq_some h)
    rwa [List.length_map, Hex.length_chars, Vector.length_toList] at hlength
  isHexDigit := Hex.forall_isHexDigit h

theorem IsDigits.exists_bytes? (h : IsDigits ds) : ∃ id : DeviceId, Hex.bytes? ds = some id.toList := by
  obtain ⟨b, hb⟩ := Hex.exists_bytes? ds h.isHexDigit 4 h.length
  have hlength := congrArg List.length (Hex.bytes?_eq_some hb)
  rw [List.length_map, Hex.length_chars, h.length] at hlength
  have hsize : b.toArray.size = 4 := by
    rw [List.size_toArray]
    omega
  exact ⟨⟨b.toArray, hsize⟩, hb⟩

/-- An id is read from its digits behind any number of marks. -/
theorem IsDigits.read? (h : IsDigits ds) (n : Nat) :
    ∃ id, read? (marks n ++ ds) = some id ∧ Hex.bytes? ds = some id.toList := by
  obtain ⟨id, hid⟩ := h.exists_bytes?
  refine ⟨id, ?_, hid⟩
  rwa [read?_eq_some_iff, dropMarks_append h.isHexDigit]

theorem exists_isDigits {id : DeviceId} (h : DeviceId.read? cs = some id) :
    ∃ n ds, cs = marks n ++ ds ∧ IsDigits ds ∧ Hex.bytes? ds = some id.toList := by
  rw [read?_eq_some_iff] at h
  obtain ⟨n, hn⟩ := exists_marks cs
  exact ⟨n, _, hn, isDigits_of_bytes? h, h⟩

/-- The digits that are written for an id are read as this id. -/
theorem read?_hex (id : DeviceId) : DeviceId.read? id.hex.toList = some id := by
  have hbytes := Hex.bytes?_chars id.toList
  have hdrop : dropMarks (Hex.chars id.toList) = Hex.chars id.toList :=
    dropMarks_append (isDigits_of_bytes? hbytes).isHexDigit 0
  rwa [hex, Hex.text, String.toList_ofList, read?_eq_some_iff, hdrop]

/-! ## Reading an id by places -/

/-- Reads the bytes with the given numbers, each from the slice of its two digits. -/
def bytesAt? (ds : List Char) : List Nat → Option (Option Bytes)
  | [] => some (some [])
  | i :: is => do
    let digits ← slice? (2 * i) 2 ds
    match readNat 16 255 digits with
    | .error _ => some none
    | .ok n => (bytesAt? ds is).map (·.map (.ofNat n :: ·))

/-- Reads an id from eight bytes of digits, cut at fixed places. -/
def readSlices? (cs : List Char) : Option (Option DeviceId) :=
  let ds := dropMarks cs
  if (encode ds).length ≠ 8 ∨ !ds.all Char.isHexDigit then some none
  else (bytesAt? ds (List.range 4)).map (·.bind ofBytes?)

theorem utf8Size_of_isHexDigit (h : c.isHexDigit) : c.utf8Size = 1 := by
  rw [Char.utf8Size_eq_one_iff, UInt32.le_iff_toNat_le]
  exact Nat.le_of_lt_succ (toNat_lt_of_isHexDigit h)

theorem readNat_pair {b : Bytes} (h : Hex.bytes? ds = some b) (hi : i < b.length) :
    readNat 16 255 (Hex.pair ds i) = .ok b[i].toNat := by
  have hpair : ∀ c ∈ Hex.pair ds i, c.isHexDigit :=
    fun c hc => Hex.forall_isHexDigit h c (List.mem_of_mem_drop (List.mem_of_mem_take hc))
  have hne : Hex.pair ds i ≠ [] := by
    have hlength := congrArg List.length (Hex.bytes?_eq_some h)
    rw [List.length_map, Hex.length_chars] at hlength
    rw [← List.length_pos_iff, Hex.pair, List.length_take, List.length_drop]
    omega
  refine (readNat_eq_ok_iff (by decide)).mpr ⟨[], _, rfl, ⟨.inl rfl, hne, ?_⟩, ?_, ?_⟩
  · intro c hc
    rw [isSome_digitValue?_sixteen]
    exact hpair c hc
  · exact (Hex.toNat_getElem_bytes? h i hi).symm
  · exact Nat.le_of_lt_succ b[i].toNat_lt

theorem bytesAt?_eq {b : Bytes} (h : Hex.bytes? ds = some b) (is : List Nat) (his : ∀ i ∈ is, i < b.length) :
    bytesAt? ds is = some (some (is.map fun i => b.getD i 0)) := by
  have hlength := congrArg List.length (Hex.bytes?_eq_some h)
  rw [List.length_map, Hex.length_chars] at hlength
  have hsize : ∀ c ∈ ds, c.utf8Size = 1 := fun c hc => utf8Size_of_isHexDigit (Hex.forall_isHexDigit h c hc)
  induction is with
  | nil => rfl
  | cons i is ih =>
    rw [List.forall_mem_cons] at his
    have hslice := slice?_of_ascii hsize (show 2 * i + 2 ≤ ds.length by omega)
    have hnat := readNat_pair h his.1
    rw [Hex.pair] at hnat
    rw [bytesAt?, hslice]
    dsimp only [Option.bind_eq_bind, Option.bind_some]
    rw [hnat, ih his.2]
    simp [his.1]

/-- No id is read but by places, and no character is ever cut. -/
theorem readSlices?_eq (cs : List Char) : readSlices? cs = some (DeviceId.read? cs) := by
  unfold readSlices?
  dsimp only
  split
  · next hnot =>
    refine congrArg some (Option.eq_none_iff_forall_ne_some.mpr fun id hid => ?_).symm
    have hdigits := isDigits_of_bytes? (read?_eq_some_iff.mp hid)
    have hsize : ∀ c ∈ dropMarks cs, c.utf8Size = 1 := fun c hc => utf8Size_of_isHexDigit (hdigits.isHexDigit c hc)
    rcases hnot with hnot | hnot
    · rw [length_encode_of_ascii hsize] at hnot
      exact hnot hdigits.length
    · rw [List.all_eq_true.mpr hdigits.isHexDigit] at hnot
      contradiction
  · next hdigits =>
    rw [not_or, not_not, Bool.not_eq_true, Bool.not_eq_false', List.all_eq_true] at hdigits
    have hsize : ∀ c ∈ dropMarks cs, c.utf8Size = 1 := fun c hc => utf8Size_of_isHexDigit (hdigits.2 c hc)
    rw [length_encode_of_ascii hsize] at hdigits
    obtain ⟨id, hid⟩ := IsDigits.exists_bytes? ⟨hdigits.1, hdigits.2⟩
    have hrange : (List.range 4).map (fun i => id.toList.getD i 0) = id.toList :=
      List.ext_getElem (by simp) fun i _ hi => by
        rw [Vector.length_toList] at hi
        simp [hi]
    rw [bytesAt?_eq hid (List.range 4) (by simp), hrange, read?_eq_some_iff.mpr hid, Option.map_some,
      Option.bind_some, ofBytes?_eq_some_iff.mpr rfl]

end DeviceId

/-! ## Bytes -/

/-- The texts of a byte and its value. -/
inductive ByteText : List Char → Nat → Prop where
  | decimal {sign ds : List Char} (hsign : sign = [] ∨ sign = ['+']) (hne : ds ≠ []) (hds : ∀ c ∈ ds, c.isDigit) :
    ByteText (sign ++ ds) (digitsValue 10 ds)
  | hexadecimal {mark : Char} {sign ds : List Char} (hmark : mark = 'x' ∨ mark = 'X')
    (hsign : sign = [] ∨ sign = ['+']) (hne : ds ≠ []) (hds : ∀ c ∈ ds, c.isHexDigit) :
    ByteText ('0' :: mark :: (sign ++ ds)) (digitsValue 16 ds)

/-- Numerals by a class of characters that has the digits of the base. -/
theorem isNumeral_iff {isDigit : Char → Bool}
    (hdigit : ∀ c, (digitValue? base c).isSome = isDigit c) :
    IsNumeral base sign ds ↔ (sign = [] ∨ sign = ['+']) ∧ ds ≠ [] ∧ ∀ c ∈ ds, isDigit c := by
  simp only [← hdigit]
  exact ⟨fun h => ⟨h.sign, h.ne_nil, h.digits⟩, fun h => ⟨h.1, h.2.1, h.2.2⟩⟩

theorem map_ofNat_readNat_eq_ok_iff (hbase : 0 < base) {b : UInt8} :
    (readNat base 255 cs).map UInt8.ofNat = .ok b ↔
      ∃ sign ds, cs = sign ++ ds ∧ IsNumeral base sign ds ∧ digitsValue base ds = b.toNat := by
  constructor
  · intro h
    cases hn : readNat base 255 cs with
    | error e =>
      rw [hn] at h
      contradiction
    | ok n =>
      rw [hn] at h
      cases h
      obtain ⟨sign, ds, hcs, hnumeral, hvalue, hle⟩ := (readNat_eq_ok_iff hbase).mp hn
      have htoNat : (UInt8.ofNat n).toNat = n := UInt8.toNat_ofNat_of_lt' (Nat.lt_succ_of_le hle)
      exact ⟨sign, ds, hcs, hnumeral, hvalue.trans htoNat.symm⟩
  · rintro ⟨sign, ds, hcs, hnumeral, hvalue⟩
    have hn := (readNat_eq_ok_iff hbase).mpr ⟨sign, ds, hcs, hnumeral, hvalue, Nat.le_of_lt_succ b.toNat_lt⟩
    rw [hn]
    exact congrArg Except.ok UInt8.ofNat_toNat

theorem readByte_marked (hmark : mark = 'x' ∨ mark = 'X') (cs : List Char) :
    readByte ('0' :: mark :: cs) = (readNat 16 255 cs).map UInt8.ofNat := by
  rcases hmark with rfl | rfl
  · rfl
  · rfl

theorem readByte_of_not_marked (h : ∀ mark ds, mark = 'x' ∨ mark = 'X' → cs ≠ '0' :: mark :: ds) :
    readByte cs = (readNat 10 255 cs).map UInt8.ofNat := by
  rw [readByte]
  · exact fun ds => h 'x' ds (.inl rfl)
  · exact fun ds => h 'X' ds (.inr rfl)

/-- A decimal numeral has no mark. -/
theorem IsNumeral.ne_marked {sign : List Char} (h : IsNumeral 10 sign ds)
    (hmark : mark = 'x' ∨ mark = 'X') (rest : List Char) :
    sign ++ ds ≠ '0' :: mark :: rest := by
  obtain ⟨hsign, -, hds⟩ := (isNumeral_iff isSome_digitValue?_ten).mp h
  intro heq
  rcases hsign with rfl | rfl
  · rw [List.nil_append] at heq
    have hdigit := hds mark (by rw [heq]; simp)
    rcases hmark with rfl | rfl
    · contradiction
    · contradiction
  · cases heq

theorem readByte_eq_ok_iff {b : UInt8} : readByte cs = .ok b ↔ ByteText cs b.toNat := by
  constructor
  · intro h
    by_cases hmarked : ∃ mark ds, (mark = 'x' ∨ mark = 'X') ∧ cs = '0' :: mark :: ds
    · obtain ⟨mark, rest, hmark, rfl⟩ := hmarked
      rw [readByte_marked hmark, map_ofNat_readNat_eq_ok_iff (by decide)] at h
      obtain ⟨sign, ds, rfl, hnumeral, hvalue⟩ := h
      obtain ⟨hsign, hne, hds⟩ := (isNumeral_iff isSome_digitValue?_sixteen).mp hnumeral
      exact hvalue ▸ .hexadecimal hmark hsign hne hds
    · rw [readByte_of_not_marked fun mark ds hmark hcs => hmarked ⟨mark, ds, hmark, hcs⟩,
        map_ofNat_readNat_eq_ok_iff (by decide)] at h
      obtain ⟨sign, ds, rfl, hnumeral, hvalue⟩ := h
      obtain ⟨hsign, hne, hds⟩ := (isNumeral_iff isSome_digitValue?_ten).mp hnumeral
      exact hvalue ▸ .decimal hsign hne hds
  · intro h
    generalize hn : b.toNat = n at h
    cases h with
    | decimal hsign hne hds =>
      have hnumeral := (isNumeral_iff isSome_digitValue?_ten).mpr ⟨hsign, hne, hds⟩
      rw [readByte_of_not_marked fun mark rest hmark => hnumeral.ne_marked hmark rest,
        map_ofNat_readNat_eq_ok_iff (by decide)]
      exact ⟨_, _, rfl, hnumeral, hn.symm⟩
    | hexadecimal hmark hsign hne hds =>
      rw [readByte_marked hmark, map_ofNat_readNat_eq_ok_iff (by decide)]
      exact ⟨_, _, rfl, (isNumeral_iff isSome_digitValue?_sixteen).mpr ⟨hsign, hne, hds⟩, hn.symm⟩

/-- The digits of a number behind zeros. -/
theorem IsBase.isNumeral {sign : List Char} (h : IsBase base) (hsign : sign = [] ∨ sign = ['+']) (zeros n : Nat) :
    IsNumeral base sign (List.replicate zeros '0' ++ Nat.toDigits base n) where
  sign := hsign
  ne_nil := List.append_ne_nil_of_right_ne_nil _ Nat.toDigits_ne_nil
  digits c hc := by
    rcases List.mem_append.mp hc with hc | hc
    · rw [List.eq_of_mem_replicate hc]
      have hzero := h.digitValue?_digitChar 0 (Nat.zero_lt_of_lt h.one_lt)
      exact Option.isSome_of_eq_some hzero
    · exact h.isSome_digitValue? hc

/-- How ids and bytes are read and written. -/
structure ValueSyntax : Prop where
  /-- An id is read from marks and its digits, whose bytes it has in their order. -/
  reads {ds : List Char} (n : Nat) : DeviceId.IsDigits ds →
    ∃ id, DeviceId.read? (DeviceId.marks n ++ ds) = some id ∧
      (∀ (i : Nat) (hi : i < 4), id[i].toNat = digitsValue 16 (Hex.pair ds i)) ∧
        id.hex = .ofList (ds.map Char.toLower)
  /-- From other texts none is read. -/
  refuses {cs : List Char} {id : DeviceId} : DeviceId.read? cs = some id →
    ∃ n ds, cs = DeviceId.marks n ++ ds ∧ DeviceId.IsDigits ds
  /-- Reading by places never cuts a character. -/
  places (cs : List Char) : DeviceId.readSlices? cs = some (DeviceId.read? cs)
  written (id : DeviceId) : DeviceId.read? id.hex.toList = some id
  byte {cs : List Char} {b : UInt8} : readByte cs = .ok b ↔ ByteText cs b.toNat
  /-- A byte is read from its digits in either base behind any number of zeros. -/
  decimal {sign : List Char} (zeros : Nat) (b : UInt8) : sign = [] ∨ sign = ['+'] →
    readByte (sign ++ (List.replicate zeros '0' ++ Nat.toDigits 10 b.toNat)) = .ok b
  hexadecimal {mark : Char} {sign : List Char} (zeros : Nat) (b : UInt8) : mark = 'x' ∨ mark = 'X' →
    sign = [] ∨ sign = ['+'] →
      readByte ('0' :: mark :: (sign ++ (List.replicate zeros '0' ++ Nat.toDigits 16 b.toNat))) = .ok b

theorem valueSyntax : ValueSyntax where
  reads n hds := by
    obtain ⟨id, hread, hbytes⟩ := hds.read? n
    refine ⟨id, hread, fun i hi => ?_, ?_⟩
    · have hlength : i < id.toList.length := by rwa [Vector.length_toList]
      rw [← Hex.toNat_getElem_bytes? hbytes i hlength, Vector.getElem_toList]
    · rw [DeviceId.hex, Hex.text, Hex.bytes?_eq_some hbytes]
  refuses h := by
    obtain ⟨n, ds, hcs, hds, -⟩ := DeviceId.exists_isDigits h
    exact ⟨n, ds, hcs, hds⟩
  places := DeviceId.readSlices?_eq
  written := DeviceId.read?_hex
  byte := readByte_eq_ok_iff
  decimal zeros b hsign := by
    have hnumeral := isBase_ten.isNumeral hsign zeros b.toNat
    rw [readByte_of_not_marked fun mark rest hmark => hnumeral.ne_marked hmark rest,
      map_ofNat_readNat_eq_ok_iff (by decide)]
    refine ⟨_, _, rfl, hnumeral, ?_⟩
    rw [digitsValue_replicate_append isBase_ten, isBase_ten.digitsValue_toDigits]
  hexadecimal zeros b hmark hsign := by
    rw [readByte_marked hmark, map_ofNat_readNat_eq_ok_iff (by decide)]
    refine ⟨_, _, rfl, isBase_sixteen.isNumeral hsign zeros b.toNat, ?_⟩
    rw [digitsValue_replicate_append isBase_sixteen, isBase_sixteen.digitsValue_toDigits]

end AmpLink
