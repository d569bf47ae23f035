import LineScript.Text.Lines
import LineScript.Text.Width

/-!
# Tables

Cells between drawn lines, every column as wide as the widest line of its cells. A row is as high
as the cell with the most lines.
-/
namespace LineScript.CommandLine

structure Table where
  header : List String
  rows : List (List String)
deriving DecidableEq, Repr

namespace Table

def cellWidth (text : String) : Nat :=
  (Text.splitLines text).foldl (fun width line => max width (Text.width line)) 0

def columnWidths (t : Table) : List Nat :=
  t.rows.foldl (fun widths row => List.zipWith max widths (row.map cellWidth))
    (t.header.map cellWidth)

def rule (left fill cross right : String) (widths : List Nat) : String :=
  let runs := widths.map fun width => String.join (List.replicate (width + 2) fill)
  left ++ Text.joinWith cross runs ++ right

def cell (width : Nat) (text : String) : String :=
  " " ++ text ++ Text.repeated (width - Text.width text) ' ' ++ " "

def rowLine (widths : List Nat) (cells : List String) : String :=
  "│" ++ Text.joinWith "┆" (List.zipWith cell widths cells) ++ "│"

/-- The lines of a row; cells with fewer lines are empty below. -/
def row (widths : List Nat) (cells : List String) : String :=
  let columns := cells.map Text.splitLines
  let height := columns.foldl (fun height lines => max height lines.length) 0
  Text.joinWith "\n" ((List.range height).map fun n =>
    rowLine widths (columns.map fun lines => lines.getD n ""))

def text (t : Table) : String :=
  let widths := t.columnWidths
  let between := "\n" ++ rule "├" "╌" "┼" "┤" widths ++ "\n"
  Text.joinWith "\n" [
    rule "┌" "─" "┬" "┐" widths,
    row widths t.header,
    rule "╞" "═" "╪" "╡" widths,
    Text.joinWith between (t.rows.map (row widths)),
    rule "└" "─" "┴" "┘" widths]

end Table

end LineScript.CommandLine
