import AmpLink.Text.Hex

/-!
# Hex dumps

Sixteen bytes to a line: the offset, the bytes in two groups of eight, and the printable characters.
A short last line is filled up with blanks, so the character column starts at the same place on every
line.
-/

namespace AmpLink.HexDump

/-- Bytes shown on one line. -/
def lineBytes : Nat := 16

/-- The character shown for a byte: itself if it is printable, a dot otherwise. -/
def shown (b : UInt8) : Char := if 0x20 ≤ b ∧ b ≤ 0x7e then .ofNat b.toNat else '.'

/-- The hexadecimal column of a line, a wider gap behind the eighth byte. -/
def column (chunk : Bytes) : List Char :=
  (List.range lineBytes).flatMap fun i =>
    (match chunk[i]? with
      | some b => Hex.byte b ++ [' ']
      | none => [' ', ' ', ' ']) ++ if i = 7 then [' '] else []

def line (offset : Nat) (chunk : Bytes) : List Char :=
  Hex.padded 8 offset ++ [' ', ' '] ++ column chunk ++ [' ', '|'] ++ chunk.map shown ++ ['|', '\n']

/-- The lines from `offset` on. -/
def lines (offset : Nat) : Bytes → List (List Char)
  | [] => []
  | b :: rest =>
    line offset ((b :: rest).take lineBytes) ::
      lines (offset + lineBytes) ((b :: rest).drop lineBytes)
termination_by b => b.length
decreasing_by simp only [List.length_drop, List.length_cons, lineBytes]; omega

def chars (b : Bytes) : List Char := (lines 0 b).flatten

/-- The dump of a run of bytes, each line ended by a newline. -/
def text (b : Bytes) : String := .ofList (chars b)

end AmpLink.HexDump
