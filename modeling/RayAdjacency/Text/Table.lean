import RayAdjacency.Text.Columns

/-!
# Tables

A table in a frame: a header, then the rows with a thin rule between them. Each column is as wide
as its widest cell, with a blank on both sides, and cells stand to the left. A cell of several
lines makes its row as high.
-/

namespace RayAdjacency.Table

/-- Fills a cell with blanks up to a width in columns. -/
def pad (width : Nat) (cell : String) : String :=
  cell ++ String.ofList (List.replicate (width - Columns.ofText cell) ' ')

/-- The lines of a cell. -/
def cellLines (cell : String) : List String := cell.splitOn "\n"

/-- The width of a cell in columns. -/
def cellWidth (cell : String) : Nat := ((cellLines cell).map Columns.ofText).foldl max 0

/-- The widths of the columns. -/
def widths (header : List String) (rows : List (List String)) : List Nat :=
  rows.foldl (List.zipWith fun width cell ↦ max width (cellWidth cell)) (header.map cellWidth)

/-- A line of a row. -/
def rowLine (widths : List Nat) (cells : List String) : String :=
  "│ " ++ " ┆ ".intercalate (List.zipWith pad widths cells) ++ " │"

/-- The lines of a row of cells. -/
def row (widths : List Nat) (cells : List String) : List String :=
  let lines := cells.map cellLines
  (List.range ((lines.map List.length).foldl max 0)).map fun k ↦
    rowLine widths (lines.map (·.getD k ""))

/-- A horizontal rule of the given strokes. -/
def rule (left stroke crossing right : String) (widths : List Nat) : String :=
  let span (width : Nat) : String := String.join (List.replicate (width + 2) stroke)
  left ++ crossing.intercalate (widths.map span) ++ right

/-- The lines of a table. -/
def lines (header : List String) (rows : List (List String)) : List String :=
  let w := widths header rows
  let body := (rows.map (row w)).intersperse [rule "├" "╌" "┼" "┤" w]
  rule "╭" "─" "┬" "╮" w :: row w header ++ rule "╞" "═" "╪" "╡" w :: body.flatten
    ++ [rule "╰" "─" "┴" "╯" w]

end RayAdjacency.Table
