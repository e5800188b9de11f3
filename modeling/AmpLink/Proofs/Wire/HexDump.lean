import AmpLink.Proofs.Steps
import AmpLink.Proofs.Text.Blank
import AmpLink.Proofs.Text.Hex
import AmpLink.Report.Basic
import Mathlib.Data.List.Basic

/-!
# What a hex dump shows

A dump is a text of rows (`HexDump.rows`), one for every sixteen bytes. A row has the offset in its first eight
columns, the bytes in the columns behind it, wherever the bytes end, and the characters from the column
`HexDump.textColumn` on (`HexDump.Shows`). So the bytes can be read again out of the columns (`HexDump.read?`),
and the last character of a dump that is not blank is a bar. The main statement is `HexDump.legible`.
-/

namespace AmpLink.HexDump

variable {b chunk : Bytes} {offset : Nat}

/-! ## Printable characters -/

def IsPrintable (c : Char) : Prop := 0x20 ≤ c.toNat ∧ c.toNat ≤ 0x7e

instance : DecidablePred IsPrintable := fun _ => inferInstanceAs (Decidable (_ ∧ _))

theorem isPrintable_of_isDigit (h : IsDigit c) : IsPrintable c ∧ c ≠ ' ' := by
  have hall : "0123456789abcdef".toList.all fun c => IsPrintable c ∧ c ≠ ' ' := by decide
  exact of_decide_eq_true (List.all_eq_true.mp hall c h)

theorem isPrintable_shown (b : UInt8) : IsPrintable (shown b) := by
  rw [shown]
  split
  · next h =>
    obtain ⟨hlow, hhigh⟩ := h
    have hlow' : 0x20 ≤ b.toNat := UInt8.le_iff_toNat_le.mp hlow
    have hhigh' : b.toNat ≤ 0x7e := UInt8.le_iff_toNat_le.mp hhigh
    have hvalid : b.toNat.isValidChar := .inl (by omega)
    have htoNat : (Char.ofNat b.toNat).toNat = b.toNat := by
      rw [Char.ofNat, dif_pos hvalid]
      rfl
    rw [IsPrintable, htoNat]
    exact ⟨hlow', hhigh'⟩
  · decide

/-! ## The hexadecimal columns -/

/-- The three columns of a byte. -/
def cell (b : Option UInt8) : List Char := b.elim [' ', ' ', ' '] fun b => Hex.byte b ++ [' ']

/-- The gap behind the eighth byte. -/
def gap (i : Nat) : List Char := if i = 7 then [' '] else []

theorem column_eq (chunk : Bytes) :
    column chunk = (List.range lineBytes).flatMap fun i => cell chunk[i]? ++ gap i := by
  rw [column]
  congr 1
  funext i
  cases chunk[i]? with
  | none | some => rfl

theorem length_column (chunk : Bytes) : (column chunk).length = 49 := by
  have hcell (i : Nat) : (cell chunk[i]? ++ gap i).length = if i = 7 then 4 else 3 := by
    rw [List.length_append, gap]
    cases chunk[i]? with
    | none | some =>
      split
      · rfl
      · rfl
  rw [column_eq, List.length_flatMap]
  simp only [hcell]
  rfl

theorem mem_column (h : c ∈ column chunk) : c = ' ' ∨ IsDigit c := by
  rw [column_eq] at h
  obtain ⟨i, -, hi⟩ := List.mem_flatMap.mp h
  rcases List.mem_append.mp hi with hi | hi
  · cases hb : chunk[i]? with
    | none =>
      rw [hb] at hi
      exact .inl (List.eq_of_mem_replicate (n := 3) hi)
    | some b =>
      rw [hb] at hi
      rcases List.mem_append.mp hi with hi | hi
      · exact .inr (Hex.isDigit_of_mem_byte hi)
      · exact .inl (List.mem_singleton.mp hi)
  · rw [gap] at hi
    split at hi
    · exact .inl (List.mem_singleton.mp hi)
    · contradiction

/-- The blanks of the columns are no digits of bytes. -/
theorem filter_cell (b : Option UInt8) (i : Nat) :
    (cell b ++ gap i).filter (· ≠ ' ') = b.toList.flatMap Hex.byte := by
  have hgap : (gap i).filter (· ≠ ' ') = [] := by
    rw [gap]
    split
    · rfl
    · rfl
  rw [List.filter_append, hgap, List.append_nil]
  cases b with
  | none => rfl
  | some b =>
    have hbyte : (Hex.byte b).filter (· ≠ ' ') = Hex.byte b := by
      refine List.filter_eq_self.mpr fun c hc => decide_eq_true ?_
      exact (isPrintable_of_isDigit (Hex.isDigit_of_mem_byte hc)).2
    change (Hex.byte b ++ [' ']).filter (· ≠ ' ') = [b].flatMap Hex.byte
    rw [List.filter_append, hbyte, List.flatMap_singleton]
    exact List.append_nil _

theorem flatMap_range_getElem? (l : List α) (n : Nat) :
    (List.range n).flatMap (fun i => l[i]?.toList) = l.take n := by
  induction n with
  | zero => rfl
  | succ n ih => rw [List.range_succ, List.flatMap_append, ih, List.flatMap_singleton, List.take_add_one]

theorem filter_column (h : chunk.length ≤ lineBytes) : (column chunk).filter (· ≠ ' ') = Hex.chars chunk := by
  have htake := flatMap_range_getElem? chunk lineBytes
  rw [List.take_of_length_le h] at htake
  rw [column_eq, List.filter_flatMap]
  simp only [filter_cell]
  rw [← List.flatMap_assoc, htake]
  rfl

/-! ## Rows -/

/-- A line without its newline. -/
def row (offset : Nat) (chunk : Bytes) : List Char :=
  Hex.padded 8 offset ++ [' ', ' '] ++ column chunk ++ [' ', '|'] ++ chunk.map shown ++ ['|']

theorem isPrintable_of_mem_row (h : c ∈ row offset chunk) : IsPrintable c := by
  simp only [row, List.mem_append] at h
  rcases h with ((((h | h) | h) | h) | h) | h
  · exact (isPrintable_of_isDigit (Hex.isDigit_of_mem_padded h)).1
  · rw [List.eq_of_mem_replicate (n := 2) h]
    decide
  · rcases mem_column h with rfl | h
    · decide
    · exact (isPrintable_of_isDigit h).1
  · have hall : [' ', '|'].all IsPrintable := by decide
    exact of_decide_eq_true (List.all_eq_true.mp hall c h)
  · obtain ⟨b, -, rfl⟩ := List.mem_map.mp h
    exact isPrintable_shown b
  · rw [List.mem_singleton.mp h]
    decide

theorem line_eq (offset : Nat) (chunk : Bytes) : line offset chunk = row offset chunk ++ ['\n'] := by
  rw [line, row]
  simp

/-- The column in which the characters begin. -/
def textColumn : Nat := 61

/-- Reads the bytes in the columns of a row. -/
def readRow (row : List Char) : Option Bytes := Hex.bytes? (((row.drop 10).take 49).filter (· ≠ ' '))

/-- The row shows the bytes of a chunk behind their offset. -/
structure Shows (offset : Nat) (chunk : Bytes) (row : List Char) : Prop where
  length : row.length = textColumn + chunk.length + 1
  isDigit_offset : ∀ c ∈ row.take 8, IsDigit c
  digitsValue_offset : digitsValue 16 (row.take 8) = offset
  readRow : readRow row = some chunk
  /-- There is a bar before the characters and one behind them. -/
  bar : row[textColumn - 1]? = some '|'
  text : row.drop textColumn = chunk.map shown ++ ['|']
  isPrintable : ∀ c ∈ row, IsPrintable c

theorem length_offset (ho : offset < 0x100000000) : (Hex.padded 8 offset).length = 8 :=
  Hex.length_padded (by decide) ho

theorem take_row (ho : offset < 0x100000000) (chunk : Bytes) :
    (row offset chunk).take 8 = Hex.padded 8 offset := by
  simp only [row, List.append_assoc]
  exact List.take_left' (length_offset ho)

theorem columns_row (ho : offset < 0x100000000) (chunk : Bytes) :
    ((row offset chunk).drop 10).take 49 = column chunk := by
  have hfront : (Hex.padded 8 offset ++ [' ', ' ']).length = 10 := by
    rw [List.length_append, length_offset ho]
    rfl
  rw [row, List.append_assoc, List.append_assoc, List.append_assoc, List.drop_left' hfront]
  exact List.take_left' (length_column chunk)

theorem length_columns (ho : offset < 0x100000000) (chunk : Bytes) :
    (Hex.padded 8 offset ++ [' ', ' '] ++ column chunk).length = 59 := by
  rw [List.length_append, List.length_append, length_offset ho, length_column]
  rfl

theorem drop_row (ho : offset < 0x100000000) (chunk : Bytes) :
    (row offset chunk).drop 59 = [' ', '|'] ++ (chunk.map shown ++ ['|']) := by
  rw [row, List.append_assoc, List.append_assoc, List.drop_left' (length_columns ho chunk)]

theorem shows_row (ho : offset < 0x100000000) (hc : chunk.length ≤ lineBytes) :
    Shows offset chunk (row offset chunk) where
  length := by
    rw [row, List.length_append, List.length_append, List.length_append, length_columns ho, List.length_map]
    rfl
  isDigit_offset := by
    rw [take_row ho]
    exact fun c => Hex.isDigit_of_mem_padded
  digitsValue_offset := by
    rw [take_row ho]
    exact Hex.digitsValue_padded 8 offset
  readRow := by
    rw [HexDump.readRow, columns_row ho, filter_column hc]
    exact Hex.bytes?_chars chunk
  bar := by
    have h := congrArg (·[1]?) (drop_row ho chunk)
    rwa [List.getElem?_drop] at h
  text := by
    have h := congrArg (List.drop 2) (drop_row ho chunk)
    rwa [List.drop_drop] at h
  isPrintable _ := isPrintable_of_mem_row

/-! ## Dumps -/

/-- The rows of a text each of which is ended by a newline. -/
def rows (cs : List Char) : List (List Char) := (cs.splitOn '\n').dropLast

/-- Reads the bytes in the columns of all rows. -/
def read? (cs : List Char) : Option Bytes := ((rows cs).mapM readRow).map List.flatten

theorem splitOn_flatMap {ls : List (List Char)} (h : ∀ l ∈ ls, '\n' ∉ l) :
    (ls.flatMap (· ++ ['\n'])).splitOn '\n' = ls ++ [[]] := by
  induction ls with
  | nil => rfl
  | cons l ls ih =>
    have hl : ∀ c ∈ l, (c == '\n') = false := by
      intro c hc
      refine beq_eq_false_iff_ne.mpr ?_
      rintro rfl
      exact h l List.mem_cons_self hc
    rw [List.flatMap_cons, List.append_assoc, List.singleton_append, List.splitOn,
      List.splitOnP_append_cons_of_forall_mem hl '\n' (beq_self_eq_true '\n')]
    exact congrArg (l :: ·) (ih fun l hl => h l (List.mem_cons_of_mem _ hl))

theorem rows_flatMap {ls : List (List Char)} (h : ∀ l ∈ ls, '\n' ∉ l) :
    rows (ls.flatMap (· ++ ['\n'])) = ls := by
  rw [rows, splitOn_flatMap h, List.dropLast_concat]

/-- The bytes of row `k`. -/
def rowBytes (b : Bytes) (k : Nat) : Bytes := (b.drop (lineBytes * k)).take lineBytes

/-- A row for every sixteen bytes that are begun. -/
def rowCount (b : Bytes) : Nat := (b.length + 15) / lineBytes

theorem lines_eq (offset : Nat) (b : Bytes) :
    lines offset b = (List.range (rowCount b)).map fun k => line (offset + lineBytes * k) (rowBytes b k) := by
  induction offset, b using lines.induct with
  | case1 =>
    rw [lines]
    rfl
  | case2 offset b rest ih =>
    have hcount : rowCount (b :: rest) = rowCount ((b :: rest).drop lineBytes) + 1 := by
      simp only [rowCount, lineBytes, List.length_drop, List.length_cons]
      omega
    rw [lines, ih, hcount, List.range_succ_eq_map, List.map_cons, List.map_map]
    refine congrArg (line offset ((b :: rest).take lineBytes) :: ·) (List.map_congr_left fun k _ => ?_)
    have hnext : lineBytes * (k + 1) = lineBytes + lineBytes * k := by rw [Nat.mul_succ, Nat.add_comm]
    simp only [rowBytes, Function.comp, Nat.succ_eq_add_one, hnext, List.drop_drop, Nat.add_assoc]

/-- The rows of a run of bytes. -/
def rowsOf (b : Bytes) : List (List Char) :=
  (List.range (rowCount b)).map fun k => row (lineBytes * k) (rowBytes b k)

theorem chars_eq (b : Bytes) : chars b = (rowsOf b).flatMap (· ++ ['\n']) := by
  rw [chars, lines_eq, rowsOf, List.flatMap_map, List.flatMap_def]
  simp only [line_eq, Nat.zero_add]

theorem rows_chars (b : Bytes) : rows (chars b) = rowsOf b := by
  rw [chars_eq]
  apply rows_flatMap
  intro l hl hnewline
  obtain ⟨k, -, rfl⟩ := List.mem_map.mp hl
  exact absurd (isPrintable_of_mem_row hnewline) (by decide)

theorem flatMap_rowBytes (b : Bytes) (n : Nat) : (List.range n).flatMap (rowBytes b) = b.take (lineBytes * n) := by
  induction n with
  | zero => rfl
  | succ n ih =>
    rw [List.range_succ, List.flatMap_append, ih, List.flatMap_singleton, Nat.mul_succ, List.take_add]
    rfl

theorem length_rowBytes_le (b : Bytes) (k : Nat) : (rowBytes b k).length ≤ lineBytes := List.length_take_le ..

/-- The offsets of no more than `2 ^ 32` bytes have eight digits. -/
theorem offset_lt (h : b.length ≤ 0x100000000) (hk : k < rowCount b) : lineBytes * k < 0x100000000 := by
  simp only [rowCount, lineBytes] at hk ⊢
  omega

theorem shows_of_getElem? {k : Nat} {row : List Char} (h : b.length ≤ 0x100000000) (hk : (rowsOf b)[k]? = some row) :
    Shows (lineBytes * k) (rowBytes b k) row := by
  rw [rowsOf, List.getElem?_map] at hk
  obtain ⟨i, hi, rfl⟩ := Option.map_eq_some_iff.mp hk
  obtain ⟨hlt, hget⟩ := List.getElem?_eq_some_iff.mp hi
  rw [List.getElem_range] at hget
  rw [List.length_range] at hlt
  subst hget
  exact shows_row (offset_lt h hlt) (length_rowBytes_le b k)

theorem read?_chars (h : b.length ≤ 0x100000000) : read? (chars b) = some b := by
  have hrows : (rowsOf b).mapM readRow = some ((List.range (rowCount b)).map (rowBytes b)) := by
    apply mapM_of_forall₂ (m := Option)
    rw [rowsOf, List.forall₂_map_left_iff, List.forall₂_map_right_iff, List.forall₂_same]
    intro k hk
    exact (shows_row (offset_lt h (List.mem_range.mp hk)) (length_rowBytes_le b k)).readRow
  have hlen : b.length ≤ lineBytes * rowCount b := by
    simp only [rowCount, lineBytes]
    omega
  rw [read?, rows_chars, hrows, Option.map_some, ← List.flatMap_def, flatMap_rowBytes,
    List.take_of_length_le hlen]

/-- The dump of some bytes ends with a bar and a newline. -/
theorem exists_chars_eq (hb : b ≠ []) : ∃ cs, chars b = cs ++ ['|'] ++ ['\n'] := by
  obtain ⟨n, hn⟩ : ∃ n, rowCount b = n + 1 := by
    have hpos := List.length_pos_iff.mpr hb
    refine Nat.exists_eq_succ_of_ne_zero ?_
    simp only [rowCount, lineBytes]
    omega
  have hlast : chars b = ((List.range n).flatMap fun k => row (lineBytes * k) (rowBytes b k) ++ ['\n']) ++
      (row (lineBytes * n) (rowBytes b n) ++ ['\n']) := by
    rw [chars_eq, rowsOf, hn, List.range_succ, List.flatMap_map, List.flatMap_append, List.flatMap_singleton]
  obtain ⟨front, hfront⟩ : ∃ front, row (lineBytes * n) (rowBytes b n) = front ++ ['|'] := ⟨_, rfl⟩
  rw [hlast, hfront, ← List.append_assoc, ← List.append_assoc]
  exact ⟨_, rfl⟩

theorem trimEnd_chars (b : Bytes) : trimEnd (chars b) = (chars b).dropLast := by
  rcases eq_or_ne b [] with rfl | hb
  · rw [chars, lines]
    rfl
  · obtain ⟨cs, hcs⟩ := exists_chars_eq hb
    rw [hcs, List.dropLast_concat, trimEnd_append (by decide), trimEnd_concat (by decide)]

/-- The dump below a message is without its last newline. -/
theorem message_dump (colored : Bool) (now : Timestamp) (m : Message) :
    Report.message now m true (.table colored) =
      Report.message now m false (.table colored) ++ "\n" ++ .ofList (chars m.data).dropLast := by
  have hdump : Report.message now m true (.table colored) =
      Report.message now m false (.table colored) ++ Report.dumpText m.data := rfl
  have htext : Report.dumpText m.data = "\n" ++ .ofList (chars m.data).dropLast := by
    rw [Report.dumpText, trimEnd_chars, ← List.singleton_append, String.ofList_append]
  rw [hdump, htext, String.append_assoc]

/-! ## Legible dumps -/

/-- A dump can be read, by its columns and by what is printed of it. -/
structure Legible (b : Bytes) : Prop where
  /-- Every row is ended by a newline, and nothing stands behind the last one. -/
  newline : text b = .ofList ((rows (chars b)).flatMap (· ++ ['\n']))
  /-- As many rows as the bytes need at sixteen to a row. -/
  length : (rows (chars b)).length = (b.length + 15) / 16
  shows : ∀ k row, (rows (chars b))[k]? = some row → Shows (16 * k) ((b.drop (16 * k)).take 16) row
  read : read? (chars b) = some b
  unique : ∀ b' : Bytes, b'.length ≤ 0x100000000 → text b' = text b → b' = b
  /-- What is printed behind a message is the dump without the newline at its end, whatever bytes end it. -/
  printed : ∀ colored now m, m.data = b → Report.message now m true (.table colored) =
    Report.message now m false (.table colored) ++ "\n" ++ .ofList (chars b).dropLast
  ended : b ≠ [] → chars b = (chars b).dropLast ++ ['\n']

theorem legible (h : b.length ≤ 0x100000000) : Legible b where
  newline := by rw [rows_chars, ← chars_eq, text]
  length := by rw [rows_chars, rowsOf, List.length_map, List.length_range, rowCount, lineBytes]
  shows := by
    intro k row hk
    rw [rows_chars] at hk
    exact shows_of_getElem? h hk
  read := read?_chars h
  unique := by
    intro b' h' htext
    have hchars : chars b' = chars b := String.ofList_injective htext
    have hread := read?_chars h'
    rw [hchars, read?_chars h] at hread
    exact (Option.some.inj hread).symm
  printed := by
    rintro colored now m rfl
    exact message_dump colored now m
  ended := by
    intro hb
    obtain ⟨cs, hcs⟩ := exists_chars_eq hb
    rw [hcs, List.dropLast_concat]

/-- Blanks that fill one row and one column of the next. -/
def blankData : Bytes := List.replicate 17 0x20

/-- A dump ends with a bar though its data end with blanks. -/
theorem legible_blankData : Legible blankData ∧ rowCount blankData = 2 :=
  ⟨legible (by decide), by decide⟩

end AmpLink.HexDump
