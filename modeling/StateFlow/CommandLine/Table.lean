import StateFlow.Text.Width

/-! # Framed tables

A table has a header and rows of cells, all in one frame. A column is as wide as its widest cell; a
cell with several lines makes its row higher. -/

namespace StateFlow.CommandLine

/-- A header and the rows below it. -/
structure Table where
  header : List String
  rows : List (List String)

namespace Table

/-- The lines of a cell. -/
def lines (cell : String) : List String :=
  cell.splitOn "\n"

/-- The columns that a cell takes. -/
def cellWidth (cell : String) : Nat :=
  ((lines cell).map Text.width).foldl max 0

/-- The widths of the columns, each the greatest so far and in the row. -/
def widen : (widths : List Nat) → (row : List String) → List Nat
  | width :: widths, cell :: row => max width (cellWidth cell) :: widen widths row
  | widths, _ => widths

def widths (table : Table) : List Nat :=
  table.rows.foldl widen (table.header.map cellWidth)

/-- A line of the frame. -/
def rule (left fill crossing right : String) (widths : List Nat) : String :=
  let segments := widths.map fun width => String.join (List.replicate (width + 2) fill)
  left ++ crossing.intercalate segments ++ right

/-- A text filled up with blanks. -/
def padded (width : Nat) (text : String) : String :=
  text ++ String.ofList (List.replicate (width - Text.width text) ' ')

/-- One line of a row: the line of that number of each cell. -/
def rowLine (widths : List Nat) (row : List String) (number : Nat) : String :=
  let parts := (widths.zip row).map fun (width, cell) =>
    " " ++ padded width ((lines cell).getD number "") ++ " "
  "│" ++ "┆".intercalate parts ++ "│"

/-- The lines of a row. -/
def rowLines (widths : List Nat) (row : List String) : List String :=
  let height := (row.map fun cell => (lines cell).length).foldl max 1
  (List.range height).map (rowLine widths row)

/-- The lines of a table. -/
def render (table : Table) : List String :=
  let widths := table.widths
  [rule "┌" "─" "┬" "┐" widths] ++ rowLines widths table.header ++ [rule "╞" "═" "╪" "╡" widths]
    ++ table.rows.flatMap (rowLines widths) ++ [rule "└" "─" "┴" "┘" widths]

end Table

end StateFlow.CommandLine
