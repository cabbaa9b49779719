/-
# Grids

A grid shows rows of cells between ruled lines.  A cell may have several lines;
it stands at the left of its column with a blank on either side.  A column is
as wide as its widest line, counted in terminal columns, and a row as high as
its highest cell, so every line of a grid has the same width.
-/

import InterfaceProbe.Text.Lines
import InterfaceProbe.Text.Pieces
import InterfaceProbe.Text.Separated
import InterfaceProbe.Text.Width

namespace InterfaceProbe

namespace Grid

/-- A row of cells, from left to right. -/
abbrev Row := List String

/-- The lines of a cell. -/
def cellLines (cell : String) : List String := pieces '\n' cell

/-- The terminal columns that the widest line of a cell takes. -/
def cellWidth (cell : String) : Nat :=
  ((cellLines cell).map fun line => textWidth line.toList).foldr max 0

/-- The widths that make room for the cells of a row, given those for the other rows. -/
def widen : Row → List Nat → List Nat
  | [], widths => widths
  | cells, [] => cells.map cellWidth
  | cell :: cells, width :: widths => max (cellWidth cell) width :: widen cells widths

/-- The width of each column. -/
def columnWidths (rows : List Row) : List Nat := rows.foldr widen []

/-- A ruled line across the columns. -/
def rule (widths : List Nat) : String :=
  "+" ++ String.join (widths.map fun width =>
    String.ofList (List.replicate (width + 2) '-') ++ "+")

/-- A text filled up with blanks to a width. -/
def padded (width : Nat) (text : String) : String :=
  text ++ String.ofList (List.replicate (width - textWidth text.toList) ' ')

/-- One line of a row. -/
def contentLine (widths : List Nat) (texts : List String) : String :=
  "|" ++ String.join ((widths.zip texts).map fun (width, text) => " " ++ padded width text ++ " |")

/-- The number of lines that the highest cell of a row has. -/
def height (row : Row) : Nat := (row.map fun cell => (cellLines cell).length).foldr max 0

/-- The lines of a row; short cells have empty lines below. -/
def rowLines (widths : List Nat) (row : Row) : List String :=
  (List.range (height row)).map fun k =>
    contentLine widths (row.map fun cell => (cellLines cell).getD k "")

/-- The lines of a grid: a rule above, and one below each row. -/
def lines (rows : List Row) : List String :=
  let widths := columnWidths rows
  rule widths :: rows.flatMap fun row => rowLines widths row ++ [rule widths]

end Grid

end InterfaceProbe
