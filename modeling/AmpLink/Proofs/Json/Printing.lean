import AmpLink.Json.Parser
import AmpLink.Proofs.Number.Digits

/-!
# Reading what was printed

The compact text of a value is read as that value, whatever blanks stand around it (`Json.parse?_print`).
A number does not show where it ends, so the statement for a value inside of a text,
`Json.readValue_print`, is about texts behind it that do not go on with the number (`Json.EndsNumber`).
-/

namespace AmpLink.Json

/-! ## Blanks -/

theorem skipBlanks_append (h : ∀ c ∈ blanks, isBlank c) (cs : List Char) :
    skipBlanks (blanks ++ cs) = skipBlanks cs := List.dropWhile_append_of_pos h

theorem skipBlanks_cons (h : isBlank c = false) (cs : List Char) : skipBlanks (c :: cs) = c :: cs :=
  List.dropWhile_cons_of_neg (by rw [h]; exact Bool.false_ne_true)

/-! ## Strings -/

theorem stringUnits_plain (hq : c ≠ '"') (hb : c ≠ '\\') (hc : ¬ c.toNat < 0x20) (cs : List Char) :
    stringUnits (c :: cs) = (stringUnits cs).map fun p => (.char c :: p.1, p.2) := by
  rw [stringUnits.eq_def]
  split
  · next heq => exact absurd (List.cons.inj heq).1 hq
  · next heq => exact absurd (List.cons.inj heq).1 hb
  · next heq => exact absurd (List.cons.inj heq).1 hb
  · next heq =>
    obtain ⟨rfl, rfl⟩ := List.cons.inj heq
    rw [if_neg hc]
    cases stringUnits _ <;> rfl
  · contradiction

theorem stringUnits_simple (he : simpleEscape? e = some c) (cs : List Char) :
    stringUnits ('\\' :: e :: cs) = (stringUnits cs).map fun p => (.char c :: p.1, p.2) := by
  have hu : e ≠ 'u' := by
    rintro rfl
    contradiction
  rw [stringUnits]
  · rw [he]
    cases stringUnits cs <;> rfl
  · exact fun _ _ _ _ _ h => absurd h hu

theorem stringUnits_code (h : n < 0x20) (cs : List Char) :
    stringUnits ('\\' :: 'u' :: '0' :: '0' :: Nat.digitChar (n / 16) :: Nat.digitChar (n % 16) :: cs) =
      (stringUnits cs).map fun p => (.code n :: p.1, p.2) := by
  have hzero : digitValue? 16 '0' = some 0 := rfl
  have hn : ((0 * 16 + 0) * 16 + n / 16) * 16 + n % 16 = n := by omega
  rw [stringUnits, hzero, isBase_sixteen.digitValue?_digitChar _ (by omega),
    isBase_sixteen.digitValue?_digitChar _ (by omega)]
  cases stringUnits cs with
  | none => rfl
  | some p => exact congrArg (fun k => some (Unit16.code k :: p.1, p.2)) hn

/-- A character is written with an escape of one letter, with its code, or as it is. -/
theorem escape_cases (c : Char) :
    (∃ e, escape c = ['\\', e] ∧ simpleEscape? e = some c) ∨
    (c.toNat < 0x20 ∧ escape c =
      ['\\', 'u', '0', '0', Nat.digitChar (c.toNat / 16), Nat.digitChar (c.toNat % 16)]) ∨
    (c ≠ '"' ∧ c ≠ '\\' ∧ ¬ c.toNat < 0x20 ∧ escape c = [c]) := by
  unfold escape
  split
  · next h => exact .inl ⟨_, rfl, by rw [h]; rfl⟩
  · next hq =>
    split
    · next h => exact .inl ⟨_, rfl, by rw [h]; rfl⟩
    · next hb =>
      split
      · next h => exact .inl ⟨_, rfl, by rw [h]; rfl⟩
      split
      · next h => exact .inl ⟨_, rfl, by rw [h]; rfl⟩
      split
      · next h => exact .inl ⟨_, rfl, by rw [h]; rfl⟩
      split
      · next h => exact .inl ⟨_, rfl, by rw [h]; rfl⟩
      split
      · next h => exact .inl ⟨_, rfl, by rw [h]; rfl⟩
      split
      · next h => exact .inr (.inl ⟨h, rfl⟩)
      · next h => exact .inr (.inr ⟨hq, hb, h, rfl⟩)

theorem joinUnits_code (h : c.toNat < 0x20) (us : List Unit16) :
    joinUnits (.code c.toNat :: us) = (joinUnits us).map (c :: ·) := by
  rw [joinUnits.eq_def (.code c.toNat :: us)]
  simp only
  rw [if_neg (by omega), if_neg (by omega), Char.ofNat_toNat]

/-- The escape of a character is read as one element, which stands for the character. -/
theorem exists_unit (c : Char) : ∃ u,
    (∀ cs, stringUnits (escape c ++ cs) = (stringUnits cs).map fun p => (u :: p.1, p.2)) ∧
      ∀ us, joinUnits (u :: us) = (joinUnits us).map (c :: ·) := by
  rcases escape_cases c with ⟨e, hc, he⟩ | ⟨hlt, hc⟩ | ⟨hq, hb, hlt, hc⟩ <;> rw [hc]
  · exact ⟨.char c, stringUnits_simple he, fun _ => rfl⟩
  · exact ⟨.code c.toNat, stringUnits_code hlt, joinUnits_code hlt⟩
  · exact ⟨.char c, stringUnits_plain hq hb hlt, fun _ => rfl⟩

theorem exists_units (cs : List Char) : ∃ us,
    (∀ rest, stringUnits (cs.flatMap escape ++ '"' :: rest) = some (us, rest)) ∧
      joinUnits us = some cs := by
  induction cs with
  | nil => exact ⟨[], fun _ => rfl, rfl⟩
  | cons c cs ih =>
    obtain ⟨us, hus, hjoin⟩ := ih
    obtain ⟨u, hu, hjoin'⟩ := exists_unit c
    refine ⟨u :: us, fun rest => ?_, ?_⟩
    · rw [List.flatMap_cons, List.append_assoc, hu, hus]
      rfl
    · rw [hjoin', hjoin]
      rfl

theorem readString_print (s : String) (rest : List Char) :
    readString (s.toList.flatMap escape ++ '"' :: rest) = some (some s, rest) := by
  obtain ⟨us, hus, hjoin⟩ := exists_units s.toList
  simp only [readString, hus, Option.map_some, hjoin, String.ofList_toList]

/-! ## Numbers -/

/-- The text does not go on with a number. -/
def EndsNumber (cs : List Char) : Prop :=
  ∀ c rest, cs = c :: rest → c.isDigit = false ∧ c ≠ '.' ∧ c ≠ 'e' ∧ c ≠ 'E'

theorem EndsNumber.cons (h : c.isDigit = false ∧ c ≠ '.' ∧ c ≠ 'e' ∧ c ≠ 'E') (cs : List Char) :
    EndsNumber (c :: cs) := by
  rintro _ _ ⟨⟩
  exact h

theorem natOfDigits_digits (n : Nat) : natOfDigits (Decimal.digits n) = n := Nat.ofDigitChars_ten_toDigits

theorem isDigit_digits (n : Nat) : ∀ c ∈ Decimal.digits n, c.isDigit := fun _ =>
  Nat.isDigit_of_mem_toDigits (by decide) (by decide)

theorem exists_cons_digits (n : Nat) : ∃ c cs, Decimal.digits n = c :: cs ∧ c.isDigit := by
  obtain ⟨c, cs, hc⟩ := List.exists_cons_of_ne_nil (l := Decimal.digits n) Nat.toDigits_ne_nil
  exact ⟨c, cs, hc, isDigit_digits n c (hc ▸ List.mem_cons_self ..)⟩

/-- The digits of a number other than zero do not begin with a zero. -/
theorem exists_head_digits (h : n ≠ 0) :
    ∃ c cs, Decimal.digits n = c :: cs ∧ c.isDigit ∧ c ≠ '0' := by
  obtain ⟨c, cs, hc, hdigit⟩ := exists_cons_digits n
  have hhead := isBase_ten.head?_toDigits h
  rw [Decimal.digits] at hc
  rw [hc] at hhead
  exact ⟨c, cs, hc, hdigit, fun hzero => hhead (congrArg some hzero)⟩

theorem readDigits1_append (hd : ∀ c ∈ ds, c.isDigit) (hne : ds ≠ []) (h : EndsNumber rest) :
    readDigits1 (ds ++ rest) = some (ds, rest) := by
  have htake : rest.takeWhile Char.isDigit = [] := by
    cases rest with
    | nil => rfl
    | cons c rest => exact List.takeWhile_cons_of_neg (by rw [(h c rest rfl).1]; exact Bool.false_ne_true)
  have hdrop : rest.dropWhile Char.isDigit = rest := by
    cases rest with
    | nil => rfl
    | cons c rest => exact List.dropWhile_cons_of_neg (by rw [(h c rest rfl).1]; exact Bool.false_ne_true)
  rw [readDigits1, List.takeWhile_append_of_pos hd, List.dropWhile_append_of_pos hd, htake, hdrop,
    List.append_nil]
  cases ds with
  | nil => exact absurd rfl hne
  | cons d ds => rfl

theorem readWhole_digits (n : Nat) (h : EndsNumber rest) :
    readWhole (Decimal.digits n ++ rest) = some (Decimal.digits n, rest) := by
  by_cases hn : n = 0
  · subst hn
    rfl
  · obtain ⟨c, cs, hc, -, hzero⟩ := exists_head_digits hn
    have hread := readDigits1_append (isDigit_digits n) Nat.toDigits_ne_nil h
    rw [hc] at hread ⊢
    rw [List.cons_append, readWhole]
    · exact hread
    · exact fun _ heq => hzero (List.cons.inj heq).1

theorem readFraction_of_ends (h : EndsNumber rest) : readFraction rest = some ([], rest) := by
  rw [readFraction]
  rintro rest' rfl
  exact (h _ _ rfl).2.1 rfl

theorem readExponent_of_ends (h : EndsNumber rest) : readExponent rest = some ([], rest) := by
  cases rest with
  | nil => rfl
  | cons c rest =>
    obtain ⟨-, -, he, hE⟩ := h c rest rfl
    simp [readExponent.eq_def, he, hE]

/-- A number begins with a digit or a sign. -/
theorem exists_head_printInt (n : Int) : ∃ c cs, printInt n = c :: cs ∧ (c.isDigit ∨ c = '-') := by
  rw [printInt]
  split
  · exact ⟨'-', _, rfl, .inr rfl⟩
  · obtain ⟨c, cs, hc, hdigit⟩ := exists_cons_digits n.natAbs
    exact ⟨c, cs, hc, .inl hdigit⟩

theorem readNumber_printInt (n : Int) (h : EndsNumber rest) :
    readNumber (printInt n ++ rest) = some (.int n, rest) := by
  rw [printInt]
  split
  · next hn =>
    have hpos : n.natAbs ≠ 0 := by omega
    have hneg : n = -(n.natAbs : Int) := by omega
    generalize n.natAbs = k at hpos hneg ⊢
    subst n
    simp [readNumber, readWhole_digits _ h, readFraction_of_ends h, readExponent_of_ends h,
      natOfDigits_digits, hpos]
  · next hn =>
    have hnat : (n.natAbs : Int) = n := by omega
    rw [readNumber]
    · simp [readWhole_digits _ h, readFraction_of_ends h, readExponent_of_ends h, natOfDigits_digits, hnat]
    · intro cs heq
      obtain ⟨c, ds, hds, hdigit⟩ := exists_cons_digits n.natAbs
      rw [hds, List.cons_append] at heq
      rw [(List.cons.inj heq).1] at hdigit
      contradiction

/-! ## Values -/

theorem isBlank_of_number (h : c.isDigit ∨ c = '-') : isBlank c = false := by
  refine Bool.eq_false_iff.mpr fun hb => ?_
  simp only [isBlank, Bool.or_eq_true, decide_eq_true_eq] at hb
  rcases hb with ((rfl | rfl) | rfl) | rfl <;> simp at h

theorem readValue_int (n : Int) (h : EndsNumber rest) (fuel : Nat) :
    readValue (fuel + 1) (printInt n ++ rest) = some (.int n, rest) := by
  obtain ⟨c, cs, hc, hhead⟩ := exists_head_printInt n
  have hread := readNumber_printInt n h
  rw [hc, List.cons_append] at hread ⊢
  rw [readValue, skipBlanks_cons (isBlank_of_number hhead)]
  split
  all_goals first | exact hread | skip
  all_goals
    next heq =>
      rw [(List.cons.inj heq).1] at hhead
      simp at hhead

theorem readValue_str (s : String) (rest : List Char) (fuel : Nat) :
    readValue (fuel + 1) (printString s ++ rest) = some (.str s, rest) := by
  have hread := readString_print s rest
  rw [printString, List.cons_append, List.append_assoc, readValue, skipBlanks_cons rfl]
  exact congrArg (Option.map _) hread

/-- A value begins with a character that is neither a blank nor closes anything. -/
theorem exists_head_print : ∀ {j : Json}, j.isPlain →
    ∃ c cs, j.print = c :: cs ∧ isBlank c = false ∧ c ≠ ']'
  | .null, _ | .bool true, _ | .bool false, _ | .str _, _ | .arr _, _ | .obj _, _ => by
    refine ⟨_, _, rfl, rfl, by decide⟩
  | .int n, _ => by
    obtain ⟨c, cs, hc, hhead⟩ := exists_head_printInt n
    refine ⟨c, cs, hc, isBlank_of_number hhead, ?_⟩
    rintro rfl
    simp at hhead

theorem length_print_pos {j : Json} (h : j.isPlain) : 0 < j.print.length := by
  obtain ⟨c, cs, hc, -⟩ := exists_head_print h
  rw [hc]
  exact Nat.zero_lt_succ _

/-! ### The parts of a list or an object -/

section

variable {fuel : Nat} {cs cs' rest : List Char} {j : Json}

theorem readItems_last (h : readValue fuel cs = some (j, ']' :: rest)) :
    readItems (fuel + 1) cs = some ([j], rest) := by
  simp [readItems, h, skipBlanks_cons (show isBlank ']' = false by decide)]

theorem readItems_next (h : readValue fuel cs = some (j, ',' :: cs'))
    (hmore : readItems fuel cs' = some (js, rest)) : readItems (fuel + 1) cs = some (j :: js, rest) := by
  simp [readItems, h, hmore, skipBlanks_cons (show isBlank ',' = false by decide)]

theorem readFields_last (name : String) (h : readValue fuel cs = some (j, '}' :: rest)) :
    readFields (fuel + 1) (printString name ++ ':' :: cs) = some (some [(name, j)], rest) := by
  simp [readFields, printString, readString_print, h,
    skipBlanks_cons (show isBlank '"' = false by decide),
    skipBlanks_cons (show isBlank ':' = false by decide),
    skipBlanks_cons (show isBlank '}' = false by decide)]

theorem readFields_next (name : String) (h : readValue fuel cs = some (j, ',' :: cs'))
    (hmore : readFields fuel cs' = some (some fs, rest)) :
    readFields (fuel + 1) (printString name ++ ':' :: cs) = some (some ((name, j) :: fs), rest) := by
  simp [readFields, printString, readString_print, h, hmore,
    skipBlanks_cons (show isBlank '"' = false by decide),
    skipBlanks_cons (show isBlank ':' = false by decide),
    skipBlanks_cons (show isBlank ',' = false by decide)]

theorem readValue_arr (hc : isBlank c = false) (hclose : c ≠ ']')
    (h : readItems fuel (c :: cs) = some (js, rest)) :
    readValue (fuel + 1) ('[' :: c :: cs) = some (.arr js, rest) := by
  rw [readValue, skipBlanks_cons rfl]
  simp only [skipBlanks_cons hc]
  split
  · next heq => exact absurd (List.cons.inj heq).1 hclose
  · rw [h]
    rfl

theorem readValue_obj (h : readFields fuel ('"' :: cs) = some (some fs, rest)) :
    readValue (fuel + 1) ('{' :: '"' :: cs) = some (.obj fs, rest) := by
  simp [readValue, skipBlanks_cons (show isBlank '{' = false by decide),
    skipBlanks_cons (show isBlank '"' = false by decide), h]

end

theorem exists_head_printItems (h : j.isPlain) (js : List Json) :
    ∃ c cs, printItems (j :: js) = c :: cs ∧ isBlank c = false ∧ c ≠ ']' := by
  obtain ⟨c, cs, hc, hhead⟩ := exists_head_print h
  cases js with
  | nil => exact ⟨c, cs, hc, hhead⟩
  | cons k js => exact ⟨c, _, by rw [printItems, hc]; rfl, hhead⟩

theorem exists_head_printFields (f : String × Json) (fs : List (String × Json)) :
    ∃ cs, printFields (f :: fs) = '"' :: cs := by
  cases fs with
  | nil => exact ⟨_, rfl⟩
  | cons g fs => exact ⟨_, rfl⟩

mutual

/-- A value is read from its text, if there is enough fuel for it. -/
theorem readValue_print : ∀ (j : Json), j.isPlain → ∀ fuel : Nat, 2 * j.print.length ≤ fuel →
    ∀ {rest : List Char}, EndsNumber rest → readValue fuel (j.print ++ rest) = some (j, rest)
  | j, hj, 0, hf, _, _ => absurd (length_print_pos hj) (by omega)
  | .null, _, _ + 1, _, _, _ => rfl
  | .bool true, _, _ + 1, _, _, _ => rfl
  | .bool false, _, _ + 1, _, _, _ => rfl
  | .int n, _, _ + 1, _, _, h => readValue_int n h _
  | .str s, _, _ + 1, _, _, _ => readValue_str s _ _
  | .arr [], _, _ + 1, _, _, _ => rfl
  | .arr (j :: js), hj, fuel + 1, hf, rest, _ => by
    have hread := readItems_print (j :: js) hj (by simp) fuel
      (by simp only [print, List.length_cons, List.length_append] at hf; omega) rest
    obtain ⟨c, cs, hc, hblank, hclose⟩ := exists_head_printItems (Bool.and_eq_true_iff.mp hj).1 js
    rw [hc] at hread
    rw [print, hc, List.cons_append, List.append_assoc]
    exact readValue_arr hblank hclose hread
  | .obj [], _, _ + 1, _, _, _ => rfl
  | .obj (f :: fs), hj, fuel + 1, hf, rest, _ => by
    have hread := readFields_print (f :: fs) hj (by simp) fuel
      (by simp only [print, List.length_cons, List.length_append] at hf; omega) rest
    obtain ⟨cs, hc⟩ := exists_head_printFields f fs
    rw [hc] at hread
    rw [print, hc, List.cons_append, List.append_assoc]
    exact readValue_obj hread

theorem readItems_print : ∀ (js : List Json), arePlain js → js ≠ [] →
    ∀ fuel : Nat, 2 * (printItems js).length < fuel → ∀ rest : List Char,
    readItems fuel (printItems js ++ ']' :: rest) = some (js, rest)
  | [], _, hne, _, _, _ => absurd rfl hne
  | [j], hj, _, fuel + 1, hf, rest => by
    rw [arePlain, arePlain, Bool.and_true] at hj
    have hread := readValue_print j hj fuel (by rw [printItems] at hf; omega)
      (EndsNumber.cons (c := ']') (by decide) rest)
    exact readItems_last hread
  | j :: k :: js, hj, _, fuel + 1, hf, rest => by
    rw [arePlain, Bool.and_eq_true] at hj
    simp only [printItems, List.length_cons, List.length_append] at hf
    have hread := readValue_print j hj.1 fuel (by omega)
      (EndsNumber.cons (c := ',') (by decide) (printItems (k :: js) ++ ']' :: rest))
    have hmore := readItems_print (k :: js) hj.2 (by simp) fuel (by omega) rest
    rw [printItems, List.append_assoc, List.cons_append]
    exact readItems_next hread hmore

theorem readFields_print : ∀ (fs : List (String × Json)), havePlain fs → fs ≠ [] →
    ∀ fuel : Nat, 2 * (printFields fs).length < fuel → ∀ rest : List Char,
    readFields fuel (printFields fs ++ '}' :: rest) = some (some fs, rest)
  | [], _, hne, _, _, _ => absurd rfl hne
  | [(name, j)], hj, _, fuel + 1, hf, rest => by
    rw [havePlain, havePlain, Bool.and_true] at hj
    have hread := readValue_print j hj fuel
      (by simp only [printFields, List.length_cons, List.length_append] at hf; omega)
      (EndsNumber.cons (c := '}') (by decide) rest)
    rw [printFields, List.append_assoc, List.cons_append]
    exact readFields_last name hread
  | (name, j) :: f :: fs, hj, _, fuel + 1, hf, rest => by
    rw [havePlain, Bool.and_eq_true] at hj
    simp only [printFields, List.length_cons, List.length_append] at hf
    have hread := readValue_print j hj.1 fuel (by omega)
      (EndsNumber.cons (c := ',') (by decide) (printFields (f :: fs) ++ '}' :: rest))
    have hmore := readFields_print (f :: fs) hj.2 (by simp) fuel (by omega) rest
    rw [printFields, List.append_assoc, List.cons_append, List.append_assoc, List.cons_append]
    exact readFields_next name hread hmore

end

/-! ## Whole texts -/

/-- A value is read back from its text, whatever blanks stand around it. -/
theorem parse?_print {j : Json} (before after : List Char) (hj : j.isPlain)
    (hb : ∀ c ∈ before, isBlank c) (ha : ∀ c ∈ after, isBlank c) :
    parse? (before ++ j.print ++ after) = some j := by
  have hends : EndsNumber after := by
    rintro c rest rfl
    have hc := ha c (List.mem_cons_self ..)
    simp only [isBlank, Bool.or_eq_true, decide_eq_true_eq] at hc
    rcases hc with ((rfl | rfl) | rfl) | rfl <;> decide
  have hskip : skipBlanks after = [] := by
    rw [← List.append_nil after, skipBlanks_append ha]
    rfl
  have hread (fuel : Nat) (hf : 2 * j.print.length ≤ fuel + 1) :
      readValue (fuel + 1) (before ++ j.print ++ after) = some (j, after) := by
    rw [List.append_assoc, readValue, skipBlanks_append hb, ← readValue]
    exact readValue_print j hj _ hf hends
  rw [parse?, hread _ (by simp; omega)]
  simp [hskip]

end AmpLink.Json
