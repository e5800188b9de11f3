import AmpLink.Text.Utf8
import Mathlib.Data.List.Basic
import Mathlib.Data.List.TakeWhile

/-!
# What is read with replacement

The bytes of a character are a lead byte and as many bytes as it asks for (`Utf8.exists_lead`), and any such bytes
are those of a character (`Utf8.utf8EncodeChar_value`); fewer of them begin one (`Utf8.begins_cons_iff`). So the
longest run behind a lead byte that fits either ends a character or is a fault, the longest run from its place on
that begins one (`Utf8.IsFault`). Reading takes one after the other (`Utf8.replaces_iff`): characters give
themselves, faults the replacement.
-/

namespace AmpLink.Utf8

variable {lead : UInt8} {tail rest run b : Bytes} {c : Char} {cs : List Char}

/-! ## The bytes of a character -/

theorem width_eq (lead : UInt8) : width lead =
    if lead.toNat < 0x80 then 1 else if lead.toNat < 0xc2 then 0 else if lead.toNat < 0xe0 then 2
    else if lead.toNat < 0xf0 then 3 else if lead.toNat < 0xf5 then 4 else 0 := by
  simp only [width, UInt8.lt_iff_toNat_lt]
  rfl

theorem isContinuation_iff (b : UInt8) : isContinuation b ↔ 0x80 ≤ b.toNat ∧ b.toNat ≤ 0xbf := by
  simp only [isContinuation, Bool.and_eq_true, decide_eq_true_eq, UInt8.le_iff_toNat_le]
  rfl

theorem allowsSecond_iff (lead second : UInt8) : allowsSecond lead second ↔
    (0x80 ≤ second.toNat ∧ second.toNat ≤ 0xbf) ∧ (lead.toNat = 0xe0 → 0xa0 ≤ second.toNat) ∧
      (lead.toNat = 0xf0 → 0x90 ≤ second.toNat) ∧ (lead.toNat = 0xed → second.toNat ≤ 0x9f) ∧
      (lead.toNat = 0xf4 → second.toNat ≤ 0x8f) := by
  have hiff : allowsSecond lead second ↔
      (if lead.toNat = 0xe0 then 0xa0 else if lead.toNat = 0xf0 then 0x90 else 0x80) ≤ second.toNat ∧
        second.toNat ≤ if lead.toNat = 0xed then 0x9f else if lead.toNat = 0xf4 then 0x8f else 0xbf := by
    simp only [allowsSecond, Bool.and_eq_true, decide_eq_true_eq, UInt8.le_iff_toNat_le, ← UInt8.toNat_inj,
      apply_ite UInt8.toNat]
    rfl
  rw [hiff]
  split_ifs
  all_goals omega

/-- The bytes go on with the character that a lead byte starts. -/
structure Continues (lead : UInt8) (tail : Bytes) : Prop where
  length_lt : tail.length < width lead
  second : ∀ b ∈ tail.head?, allowsSecond lead b
  further : ∀ b ∈ tail.tail, isContinuation b

/-- The number of the character. -/
def value (lead : UInt8) (tail : Bytes) : Nat := tail.foldl (fun n b => n * 64 + b.toNat % 64) (leadBits lead)

theorem utf8EncodeChar_ofNat {n : Nat} (h : n.isValidChar) : String.utf8EncodeChar (.ofNat n) =
    if n ≤ 0x7f then [.ofNat n]
    else if n ≤ 0x7ff then [.ofNat (n / 0x40 % 0x20 + 0xc0), .ofNat (n % 0x40 + 0x80)]
    else if n ≤ 0xffff then
      [.ofNat (n / 0x1000 % 0x10 + 0xe0), .ofNat (n / 0x40 % 0x40 + 0x80), .ofNat (n % 0x40 + 0x80)]
    else
      [.ofNat (n / 0x40000 % 8 + 0xf0), .ofNat (n / 0x1000 % 0x40 + 0x80), .ofNat (n / 0x40 % 0x40 + 0x80),
        .ofNat (n % 0x40 + 0x80)] := by
  have htoNat : (Char.ofNat n).val.toNat = n := by
    rw [Char.ofNat, dif_pos h]
    rfl
  rw [String.utf8EncodeChar, htoNat]

theorem ofNat_eq_iff {b : UInt8} {n : Nat} : UInt8.ofNat n = b ↔ n % 256 = b.toNat := by
  rw [← UInt8.toNat_inj, UInt8.toNat_ofNat']

theorem utf8EncodeChar_two {a : UInt8} (hl : 0xc2 ≤ lead.toNat ∧ lead.toNat < 0xe0) (ha : allowsSecond lead a) :
    String.utf8EncodeChar (.ofNat (lead.toNat % 32 * 64 + a.toNat % 64)) = [lead, a] := by
  rw [allowsSecond_iff] at ha
  have hvalid : (lead.toNat % 32 * 64 + a.toNat % 64).isValidChar := .inl (by omega)
  rw [utf8EncodeChar_ofNat hvalid, if_neg (by omega), if_pos (by omega)]
  simp only [List.cons.injEq, ofNat_eq_iff, and_true]
  omega

theorem utf8EncodeChar_three {a b : UInt8} (hl : 0xe0 ≤ lead.toNat ∧ lead.toNat < 0xf0)
    (ha : allowsSecond lead a) (hb : isContinuation b) :
    String.utf8EncodeChar (.ofNat ((lead.toNat % 16 * 64 + a.toNat % 64) * 64 + b.toNat % 64)) = [lead, a, b] := by
  rw [allowsSecond_iff] at ha
  rw [isContinuation_iff] at hb
  have hvalid : ((lead.toNat % 16 * 64 + a.toNat % 64) * 64 + b.toNat % 64).isValidChar := by
    rw [Nat.isValidChar]
    omega
  rw [utf8EncodeChar_ofNat hvalid, if_neg (by omega), if_neg (by omega), if_pos (by omega)]
  simp only [List.cons.injEq, ofNat_eq_iff, and_true]
  omega

theorem utf8EncodeChar_four {a b c : UInt8} (hl : 0xf0 ≤ lead.toNat ∧ lead.toNat < 0xf5)
    (ha : allowsSecond lead a) (hb : isContinuation b) (hc : isContinuation c) :
    String.utf8EncodeChar
      (.ofNat (((lead.toNat % 8 * 64 + a.toNat % 64) * 64 + b.toNat % 64) * 64 + c.toNat % 64)) = [lead, a, b, c] := by
  rw [allowsSecond_iff] at ha
  rw [isContinuation_iff] at hb hc
  have hvalid : (((lead.toNat % 8 * 64 + a.toNat % 64) * 64 + b.toNat % 64) * 64 + c.toNat % 64).isValidChar := by
    rw [Nat.isValidChar]
    omega
  rw [utf8EncodeChar_ofNat hvalid, if_neg (by omega), if_neg (by omega), if_neg (by omega)]
  simp only [List.cons.injEq, ofNat_eq_iff, and_true]
  omega

theorem width_cases (h : 0 < width lead) : (lead.toNat < 0x80 ∧ width lead = 1) ∨
    ((0xc2 ≤ lead.toNat ∧ lead.toNat < 0xe0) ∧ width lead = 2) ∨
    ((0xe0 ≤ lead.toNat ∧ lead.toNat < 0xf0) ∧ width lead = 3) ∨
    ((0xf0 ≤ lead.toNat ∧ lead.toNat < 0xf5) ∧ width lead = 4) := by
  rw [width_eq] at h ⊢
  split_ifs at h ⊢
  all_goals omega

/-- As many bytes as a lead byte asks for are those of a character. -/
theorem utf8EncodeChar_value (h : Continues lead tail) (hfull : tail.length + 1 = width lead) :
    String.utf8EncodeChar (.ofNat (value lead tail)) = lead :: tail := by
  obtain ⟨hlt, hsecond, hfurther⟩ := h
  rcases width_cases (Nat.zero_lt_of_lt hlt) with ⟨hl, hw⟩ | ⟨hl, hw⟩ | ⟨hl, hw⟩ | ⟨hl, hw⟩
  · obtain rfl : tail = [] := List.eq_nil_of_length_eq_zero (by omega)
    have hvalid : lead.toNat.isValidChar := .inl (by omega)
    rw [value, List.foldl_nil, leadBits, hw]
    change String.utf8EncodeChar (.ofNat lead.toNat) = [lead]
    rw [utf8EncodeChar_ofNat hvalid, if_pos (by omega), UInt8.ofNat_toNat]
  · obtain ⟨a, rfl⟩ := List.length_eq_one_iff.mp (show tail.length = 1 by omega)
    rw [value, leadBits, hw]
    exact utf8EncodeChar_two hl (hsecond a rfl)
  · obtain ⟨a, b, rfl⟩ := List.length_eq_two.mp (show tail.length = 2 by omega)
    rw [value, leadBits, hw]
    exact utf8EncodeChar_three hl (hsecond a rfl) (hfurther b (by simp))
  · obtain ⟨a, b, c, rfl⟩ := List.length_eq_three.mp (show tail.length = 3 by omega)
    rw [value, leadBits, hw]
    exact utf8EncodeChar_four hl (hsecond a rfl) (hfurther b (by simp)) (hfurther c (by simp))

theorem utf8EncodeChar_injective : Function.Injective String.utf8EncodeChar := by
  intro c d h
  have hc := ByteArray.utf8DecodeChar?_utf8EncodeChar_append (b := .empty) (c := c)
  rw [h, ByteArray.utf8DecodeChar?_utf8EncodeChar_append] at hc
  exact (Option.some.inj hc).symm

/-- A lead byte of a range, and the bytes that it asks for. -/
theorem continues_of (hlead : lead.toNat < 0x80 ∧ tail.length = 0 ∨
      0xc2 ≤ lead.toNat ∧ lead.toNat < 0xe0 ∧ tail.length = 1 ∨
      0xe0 ≤ lead.toNat ∧ lead.toNat < 0xf0 ∧ tail.length = 2 ∨
      0xf0 ≤ lead.toNat ∧ lead.toNat < 0xf5 ∧ tail.length = 3)
    (hsecond : ∀ b ∈ tail.head?, allowsSecond lead b) (hfurther : ∀ b ∈ tail.tail, isContinuation b) :
    Continues lead tail ∧ tail.length + 1 = width lead := by
  have hw : tail.length + 1 = width lead := by
    rw [width_eq]
    split_ifs
    all_goals omega
  exact ⟨⟨Nat.lt_of_succ_le (Nat.le_of_eq hw), hsecond, hfurther⟩, hw⟩

/-- The bytes of a character are a lead byte and as many as it asks for. -/
theorem exists_lead (c : Char) : ∃ lead tail, String.utf8EncodeChar c = lead :: tail ∧ Continues lead tail ∧
    tail.length + 1 = width lead := by
  have hvalid : c.toNat < 0xd800 ∨ 0xdfff < c.toNat ∧ c.toNat < 0x110000 := c.valid
  have hbytes := utf8EncodeChar_ofNat (n := c.toNat) hvalid
  rw [Char.ofNat_toNat] at hbytes
  generalize c.toNat = n at hvalid hbytes
  rw [hbytes]
  have htoNat (k : Nat) : (UInt8.ofNat k).toNat = k % 256 := UInt8.toNat_ofNat'
  have hfurther (k : Nat) : isContinuation (.ofNat (k % 0x40 + 0x80)) := by
    rw [isContinuation_iff, htoNat]
    omega
  split_ifs
  · exact ⟨_, [], rfl, continues_of (.inl ⟨by rw [htoNat]; omega, rfl⟩) nofun nofun⟩
  · refine ⟨_, [_], rfl, continues_of (.inr (.inl ?_)) ?_ nofun⟩
    · rw [htoNat]
      exact ⟨by omega, by omega, rfl⟩
    · rintro _ ⟨⟩
      rw [allowsSecond_iff, htoNat, htoNat]
      omega
  · refine ⟨_, [_, _], rfl, continues_of (.inr (.inr (.inl ?_))) ?_ ?_⟩
    · rw [htoNat]
      exact ⟨by omega, by omega, rfl⟩
    · rintro _ ⟨⟩
      rw [allowsSecond_iff, htoNat, htoNat]
      omega
    · exact List.forall_mem_singleton.mpr (hfurther n)
  · refine ⟨_, [_, _, _], rfl, continues_of (.inr (.inr (.inr ?_))) ?_ ?_⟩
    · rw [htoNat]
      exact ⟨by omega, by omega, rfl⟩
    · rintro _ ⟨⟩
      rw [allowsSecond_iff, htoNat, htoNat]
      omega
    · exact List.forall_mem_cons.mpr ⟨hfurther (n / 0x40), List.forall_mem_singleton.mpr (hfurther n)⟩

/-! ## Beginnings of characters -/

/-- Some character begins with the bytes. -/
def Begins (b : Bytes) : Prop := ∃ c, b <+: String.utf8EncodeChar c

theorem Continues.of_isPrefix (h : Continues lead tail) (ht : t <+: tail) : Continues lead t := by
  obtain ⟨more, rfl⟩ := ht
  refine ⟨?_, fun b hb => h.second b ?_, fun b hb => h.further b ?_⟩
  · have hlt := h.length_lt
    rw [List.length_append] at hlt
    omega
  · cases t with
    | nil => contradiction
    | cons a t => exact hb
  · cases t with
    | nil => contradiction
    | cons a t => exact List.mem_append_left more hb

/-- There is always another byte that goes on. -/
theorem Continues.exists_concat (h : Continues lead tail) (hlt : tail.length + 1 < width lead) :
    ∃ b, Continues lead (tail ++ [b]) := by
  obtain ⟨-, hsecond, hfurther⟩ := h
  cases tail with
  | nil =>
    obtain ⟨b, hb⟩ : ∃ b, allowsSecond lead b := by
      by_cases hlow : lead.toNat = 0xed ∨ lead.toNat = 0xf4
      · exact ⟨0x80, (allowsSecond_iff ..).mpr (by simp; omega)⟩
      · exact ⟨0xbf, (allowsSecond_iff ..).mpr (by simp; omega)⟩
    refine ⟨b, hlt, ?_, nofun⟩
    rintro _ ⟨⟩
    exact hb
  | cons a tail =>
    refine ⟨0x80, ?_, hsecond, ?_⟩
    · rwa [List.length_append]
    · intro b hb
      rcases List.mem_append.mp hb with hb | hb
      · exact hfurther b hb
      · rw [List.mem_singleton.mp hb]
        decide

/-- Bytes that go on with a character can be completed. -/
theorem Continues.exists_full (h : Continues lead tail) :
    ∃ full, tail <+: full ∧ Continues lead full ∧ full.length + 1 = width lead := by
  obtain ⟨k, hk⟩ := Nat.exists_eq_add_of_lt h.length_lt
  induction k generalizing tail with
  | zero => exact ⟨tail, List.prefix_rfl, h, hk.symm⟩
  | succ k ih =>
    obtain ⟨b, hb⟩ := h.exists_concat (by omega)
    obtain ⟨full, hfull, hrest⟩ := ih hb (by rw [List.length_append, List.length_singleton]; omega)
    exact ⟨full, (List.prefix_append tail [b]).trans hfull, hrest⟩

theorem begins_cons_iff : Begins (lead :: tail) ↔ Continues lead tail := by
  constructor
  · rintro ⟨c, hc⟩
    obtain ⟨lead', tail', hbytes, hcontinues, -⟩ := exists_lead c
    rw [hbytes, List.cons_prefix_cons] at hc
    obtain ⟨rfl, ht⟩ := hc
    exact hcontinues.of_isPrefix ht
  · intro h
    obtain ⟨full, htail, hfull, hlength⟩ := h.exists_full
    refine ⟨.ofNat (value lead full), ?_⟩
    rw [utf8EncodeChar_value hfull hlength]
    exact List.cons_prefix_cons.mpr ⟨rfl, htail⟩

/-! ## The run behind a lead byte -/

/-- The longest run behind a lead byte. -/
def runOf (lead : UInt8) (rest : Bytes) : Bytes := continuation lead (width lead - 1) rest

theorem runOf_isPrefix (lead : UInt8) (rest : Bytes) : runOf lead rest <+: rest := by
  cases rest with
  | nil => exact List.prefix_rfl
  | cons b rest =>
    rw [runOf, continuation]
    split
    · exact List.cons_prefix_cons.mpr ⟨rfl, (List.takeWhile_prefix _).trans (List.take_prefix ..)⟩
    · exact List.nil_prefix

theorem runOf_append_drop (lead : UInt8) (rest : Bytes) :
    runOf lead rest ++ rest.drop (runOf lead rest).length = rest :=
  List.prefix_iff_eq_append.mp (runOf_isPrefix lead rest)

theorem continues_runOf (h : 0 < width lead) (rest : Bytes) : Continues lead (runOf lead rest) := by
  have hnil : Continues lead [] := ⟨h, nofun, nofun⟩
  cases rest with
  | nil => exact hnil
  | cons b rest =>
    rw [runOf, continuation]
    split
    · next hb =>
      have hlength := (List.takeWhile_prefix isContinuation (l := rest.take (width lead - 1 - 1))).length_le
      rw [List.length_take] at hlength
      refine ⟨by rw [List.length_cons]; omega, ?_, fun _ => List.mem_takeWhile_imp⟩
      rintro _ ⟨⟩
      exact hb.2
    · exact hnil

/-- No longer run goes on with the character. -/
theorem length_le_runOf (h : Continues lead t) (ht : t <+: rest) : t.length ≤ (runOf lead rest).length := by
  obtain ⟨more, rfl⟩ := ht
  cases t with
  | nil => exact Nat.zero_le _
  | cons b t =>
    have hlt := h.length_lt
    rw [List.length_cons] at hlt
    have htake : (t ++ more).take (width lead - 1 - 1) = t ++ more.take (width lead - 1 - 1 - t.length) := by
      rw [List.take_append, List.take_of_length_le (by omega)]
    have hfurther : ∀ b ∈ t, isContinuation b := h.further
    rw [runOf, List.cons_append, continuation, if_pos ⟨by omega, h.second b rfl⟩, htake,
      List.takeWhile_append_of_pos hfurther, List.length_cons, List.length_cons, List.length_append]
    omega

theorem step_eq (lead : UInt8) (rest : Bytes) : step lead rest =
    if 0 < width lead ∧ (runOf lead rest).length = width lead - 1 then
      (.ofNat (value lead (runOf lead rest)), (runOf lead rest).length)
    else (replacement, (runOf lead rest).length) := rfl

/-- A character is read from its bytes. -/
theorem decodeChars_append (c : Char) (rest : Bytes) :
    decodeChars (String.utf8EncodeChar c ++ rest) = c :: decodeChars rest := by
  obtain ⟨lead, tail, hbytes, hcontinues, hfull⟩ := exists_lead c
  have hrun : runOf lead (tail ++ rest) = tail := by
    have hle := length_le_runOf hcontinues (List.prefix_append tail rest)
    have hlt := (continues_runOf (Nat.zero_lt_of_lt hcontinues.length_lt) (tail ++ rest)).length_lt
    refine List.IsPrefix.eq_of_length ?_ (by omega)
    exact List.prefix_of_prefix_length_le (runOf_isPrefix ..) (List.prefix_append ..) (by omega)
  have hchar : Char.ofNat (value lead tail) = c :=
    utf8EncodeChar_injective ((utf8EncodeChar_value hcontinues hfull).trans hbytes.symm)
  have hstep : step lead (tail ++ rest) = (c, tail.length) := by
    rw [step_eq, hrun, if_pos (by omega), hchar]
  rw [hbytes, List.cons_append, decodeChars, hstep]
  dsimp only
  rw [List.drop_left]

/-! ## Characters and faults -/

/-- The longest run from its place on that begins a character, where none is complete; a single byte where none
begins. -/
structure IsFault (run rest : Bytes) : Prop where
  ne_nil : run ≠ []
  incomplete : ∀ c, ¬String.utf8EncodeChar c <+: run ++ rest
  begins : run.length = 1 ∨ Begins run
  longest : ∀ t, t <+: run ++ rest → Begins t → t.length ≤ run.length

/-- The bytes of characters, and faults each of which has been replaced. -/
inductive Replaces : Bytes → List Char → Prop where
  | nil : Replaces [] []
  | char (c : Char) {rest : Bytes} {cs : List Char} (h : Replaces rest cs) :
    Replaces (String.utf8EncodeChar c ++ rest) (c :: cs)
  | fault {run rest : Bytes} {cs : List Char} (hrun : IsFault run rest) (h : Replaces rest cs) :
    Replaces (run ++ rest) (replacement :: cs)

/-- A fault ends at one place only. -/
theorem IsFault.length_le {run' rest' : Bytes} (h : IsFault run rest) (h' : IsFault run' rest')
    (heq : run ++ rest = run' ++ rest') : run.length ≤ run'.length := by
  rcases h.begins with hone | hbegins
  · have hpos := List.length_pos_iff.mpr h'.ne_nil
    omega
  · exact h'.longest run (heq ▸ List.prefix_append run rest) hbegins

/-- A run that ends no character is a fault. -/
theorem isFault_runOf (h : ¬(0 < width lead ∧ (runOf lead rest).length = width lead - 1)) :
    IsFault (lead :: runOf lead rest) (rest.drop (runOf lead rest).length) := by
  have hrest : lead :: runOf lead rest ++ rest.drop (runOf lead rest).length = lead :: rest := by
    rw [List.cons_append, runOf_append_drop]
  constructor
  case ne_nil => exact List.cons_ne_nil _ _
  case incomplete =>
    intro c hc
    obtain ⟨lead', tail, hbytes, hcontinues, hfull⟩ := exists_lead c
    rw [hrest, hbytes, List.cons_prefix_cons] at hc
    obtain ⟨rfl, ht⟩ := hc
    have hpos := Nat.zero_lt_of_lt hcontinues.length_lt
    have hle := length_le_runOf hcontinues ht
    have hlt := (continues_runOf hpos rest).length_lt
    exact h ⟨hpos, by omega⟩
  case begins =>
    rcases Nat.eq_zero_or_pos (width lead) with hzero | hpos
    · have hrun : runOf lead rest = [] := by
        cases rest with
        | nil => rfl
        | cons b rest =>
          rw [runOf, hzero, continuation, if_neg]
          exact fun hb => Nat.lt_irrefl 0 hb.1
      rw [hrun]
      exact .inl rfl
    · exact .inr (begins_cons_iff.mpr (continues_runOf hpos rest))
  case longest =>
    intro t ht hbegins
    rw [hrest] at ht
    cases t with
    | nil => exact Nat.zero_le _
    | cons b t =>
      obtain ⟨rfl, htail⟩ := List.cons_prefix_cons.mp ht
      exact Nat.succ_le_succ (length_le_runOf (begins_cons_iff.mp hbegins) htail)

/-- A fault is read as the replacement. -/
theorem IsFault.decodeChars_append (h : IsFault run rest) :
    decodeChars (run ++ rest) = replacement :: decodeChars rest := by
  obtain ⟨lead, tail, rfl⟩ := List.exists_cons_of_ne_nil h.ne_nil
  have hincomplete : ¬(0 < width lead ∧ (runOf lead (tail ++ rest)).length = width lead - 1) := by
    rintro ⟨hpos, hfull⟩
    refine h.incomplete (.ofNat (value lead (runOf lead (tail ++ rest)))) ?_
    rw [utf8EncodeChar_value (continues_runOf hpos _) (by omega)]
    exact List.cons_prefix_cons.mpr ⟨rfl, runOf_isPrefix ..⟩
  have hfault := isFault_runOf hincomplete
  have heq : lead :: runOf lead (tail ++ rest) ++ (tail ++ rest).drop (runOf lead (tail ++ rest)).length =
      lead :: tail ++ rest := by
    rw [List.cons_append, runOf_append_drop, List.cons_append]
  have hlength : (runOf lead (tail ++ rest)).length = tail.length := by
    have hle := hfault.length_le h heq
    have hge := h.length_le hfault heq.symm
    simp only [List.length_cons] at hle hge
    omega
  rw [List.cons_append, decodeChars, step_eq, if_neg hincomplete]
  dsimp only
  rw [hlength, List.drop_left]

theorem replaces_decodeChars (b : Bytes) : Replaces b (decodeChars b) := by
  induction b using decodeChars.induct with
  | case1 =>
    rw [decodeChars]
    exact .nil
  | case2 lead rest c n hstep ih =>
    have hsplit := runOf_append_drop lead rest
    rw [decodeChars, hstep]
    rw [step_eq] at hstep
    split at hstep
    · next hfull =>
      cases hstep
      have h := Replaces.char (.ofNat (value lead (runOf lead rest))) ih
      rw [utf8EncodeChar_value (continues_runOf hfull.1 rest) (by omega), List.cons_append, hsplit] at h
      exact h
    · next hnot =>
      cases hstep
      have h := Replaces.fault (isFault_runOf hnot) ih
      rwa [List.cons_append, hsplit] at h

/-- What is read is what characters and faults give. -/
theorem replaces_iff : Replaces b cs ↔ decodeChars b = cs := by
  constructor
  · intro h
    induction h with
    | nil => rw [decodeChars]
    | char c _ ih => rw [decodeChars_append, ih]
    | fault hrun _ ih => rw [hrun.decodeChars_append, ih]
  · rintro rfl
    exact replaces_decodeChars b

/-! ## Whole texts -/

/-- The bytes of a text. -/
def encode (cs : List Char) : Bytes := cs.flatMap String.utf8EncodeChar

theorem Replaces.append_encode (h : Replaces b ds) (cs : List Char) : Replaces (encode cs ++ b) (cs ++ ds) := by
  induction cs with
  | nil => exact h
  | cons c cs ih =>
    have hcons : encode (c :: cs) = String.utf8EncodeChar c ++ encode cs := List.flatMap_cons
    rw [hcons, List.append_assoc]
    exact .char c ih

theorem toUTF8_eq (s : String) : s.toUTF8.data.toList = encode s.toList := by
  rw [String.toUTF8, ← String.utf8Encode_toList, List.utf8Encode, List.toList_data_toByteArray, encode]

theorem length_encode (s : String) : (encode s.toList).length = s.utf8ByteSize := by
  rw [← toUTF8_eq]
  rfl

/-- Bytes of characters are read as these characters. -/
theorem decodeChars_encode (cs : List Char) : decodeChars (encode cs) = cs := by
  have h := Replaces.nil.append_encode cs
  rw [List.append_nil, List.append_nil] at h
  exact replaces_iff.mp h

/-- No character begins with all the bytes of another one. -/
theorem eq_of_isPrefix {c d : Char} (h : String.utf8EncodeChar c <+: String.utf8EncodeChar d) : c = d := by
  obtain ⟨lead, tail, hc, -, hfull⟩ := exists_lead c
  obtain ⟨lead', tail', hd, -, hfull'⟩ := exists_lead d
  refine utf8EncodeChar_injective (h.eq_of_length ?_)
  rw [hc, hd] at h ⊢
  obtain ⟨rfl, -⟩ := List.cons_prefix_cons.mp h
  exact hfull.trans hfull'.symm

/-- What is left of a character that is cut off is a fault. -/
theorem isFault_of_cut (hne : run ≠ []) (hrun : run <+: String.utf8EncodeChar c)
    (hlt : run.length < (String.utf8EncodeChar c).length) : IsFault run [] where
  ne_nil := hne
  incomplete d hd := by
    rw [List.append_nil] at hd
    obtain rfl := eq_of_isPrefix (hd.trans hrun)
    exact Nat.not_lt.mpr hd.length_le hlt
  begins := .inr ⟨c, hrun⟩
  longest t ht _ := by
    rw [List.append_nil] at ht
    exact ht.length_le

/-! ## Zero -/

theorem zero_mem_utf8EncodeChar_iff : 0 ∈ String.utf8EncodeChar c ↔ c = '\x00' := by
  constructor
  · intro h
    obtain ⟨lead, tail, hbytes, hcontinues, hfull⟩ := exists_lead c
    have htail : 0 ∉ tail := by
      intro hzero
      have hfurther : ¬isContinuation 0 := by decide
      cases tail with
      | nil => contradiction
      | cons b tail =>
        rcases List.mem_cons.mp hzero with rfl | hzero
        · exact absurd ((allowsSecond_iff lead 0).mp (hcontinues.second 0 rfl)).1.1 (by decide)
        · exact hfurther (hcontinues.further 0 hzero)
    rw [hbytes] at h
    obtain rfl := (List.mem_cons.mp h).resolve_right htail
    obtain rfl : tail = [] := List.eq_nil_of_length_eq_zero (Nat.succ.inj hfull)
    exact utf8EncodeChar_injective hbytes
  · rintro rfl
    decide

theorem zero_mem_encode_iff : 0 ∈ encode cs ↔ '\x00' ∈ cs := by
  simp only [encode, List.mem_flatMap, zero_mem_utf8EncodeChar_iff, exists_eq_right]

/-- Zero stands for nothing but itself. -/
theorem Replaces.zero_mem (h : Replaces b cs) (hzero : '\x00' ∈ cs) : 0 ∈ b := by
  induction h with
  | nil => contradiction
  | char c _ ih =>
    rcases List.mem_cons.mp hzero with hc | hrest
    · exact List.mem_append_left _ (zero_mem_utf8EncodeChar_iff.mpr hc.symm)
    · exact List.mem_append_right _ (ih hrest)
  | fault _ _ ih =>
    rcases List.mem_cons.mp hzero with hc | hrest
    · exact absurd hc (by decide)
    · exact List.mem_append_right _ (ih hrest)

end AmpLink.Utf8
