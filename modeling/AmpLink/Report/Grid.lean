import AmpLink.Text.Width

/-!
# Grids of text

Rows of cells drawn with lines between them. A column is as wide as the widest line of its cells and has
a blank on either side; a cell of several lines makes its row that many lines high.
-/

namespace AmpLink.Grid

/-- A text by its lines. -/
def cellLines (s : String) : List (List Char) := s.toList.splitOnP (· = '\n')

/-- Pads a line to a display width. -/
def fill (width : Nat) (line : List Char) : List Char :=
  line ++ List.replicate (width - displayWidth line) ' '

def columnWidth (cells : List (List (List Char))) : Nat :=
  (cells.flatten.map displayWidth).foldl max 0

/-- A horizontal line with given characters at the left, for the line, between columns, at the right. -/
def rule (left line mid right : Char) (widths : List Nat) : List Char :=
  left :: ([mid].intercalate (widths.map fun w => List.replicate (w + 2) line) ++ [right])

/-- One line of a row. -/
def rowLine (widths : List Nat) (cells : List (List (List Char))) (i : Nat) : List Char :=
  '|' :: (List.zipWith (fun w cell => ' ' :: fill w (cell.getD i []) ++ [' ', '|']) widths cells).flatten

def rowLines (widths : List Nat) (cells : List (List (List Char))) : List (List Char) :=
  (List.range ((cells.map List.length).foldl max 1)).map (rowLine widths cells)

/-- The lines of a grid with a header. -/
def lines (header : List String) (rows : List (List String)) : List (List Char) :=
  let header := header.map cellLines
  let rows := rows.map (·.map cellLines)
  let widths := (List.range header.length).map fun i =>
    columnWidth ((header :: rows).map fun r => r.getD i [])
  [rule '+' '-' '+' '+' widths] ++ rowLines widths header ++ [rule '+' '=' '=' '+' widths] ++
    [rule '|' '-' '+' '|' widths].intercalate (rows.map (rowLines widths)) ++
    [rule '+' '-' '+' '+' widths]

def text (header : List String) (rows : List (List String)) : String :=
  .ofList (['\n'].intercalate (lines header rows))

end AmpLink.Grid
