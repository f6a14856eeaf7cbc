import Conformance.Layout.Markup
import Conformance.Layout.Wrap

/-!
# Tables

A table with a title and a heavy frame around its head.  Columns are as wide as their widest cell, with
one space on each side.
-/

namespace Conformance.Layout

/-- The side of a column that its cells stand at. -/
inductive Side where
  | left
  | right
  deriving DecidableEq, Repr, Inhabited

/-- A column. -/
structure Column where
  head : String
  side : Side := .left
  deriving DecidableEq, Repr, Inhabited

/-- A table: cells are plain text. -/
structure Grid where
  title : String
  columns : List Column
  rows : List (List String)
  deriving DecidableEq, Repr, Inhabited

namespace Grid

/-- Spaces. -/
def blanks (n : Nat) : String := String.ofList (List.replicate n ' ')

/-- A line filled up to a width, on the side away from where it stands. -/
def pad (side : Side) (columns : Nat) (line : String) : String :=
  match side with
  | .left => line ++ blanks (columns - width line.toList)
  | .right =>
    let bare := trimEnd line.toList
    blanks (columns - width bare) ++ String.ofList bare

/-- A line in the middle of a width: the odd space goes to the right. -/
def centre (columns : Nat) (line : String) : String :=
  let bare := trimEnd line.toList
  let spare := columns - width bare
  blanks (spare / 2) ++ String.ofList bare ++ blanks (spare - spare / 2)

def isLineEnd (c : Char) : Bool :=
  let n := c.toNat
  n == 10 || (28 ≤ n && n ≤ 30) || n == 0x85 || n == 0x2028 || n == 0x2029

/-- The columns that the widest line of a cell takes. -/
def cellWidth (cell : String) : Nat :=
  let lines := cell.toList.foldr (fun c acc =>
    if isLineEnd c then [] :: acc else
    match acc with
    | line :: rest => (c :: line) :: rest
    | [] => [[c]]) [[]]
  (lines.map width).foldl max 0

def widths (g : Grid) : List Nat :=
  g.columns.zipIdx.map fun (c, i) =>
    (g.rows.map fun row => cellWidth (row.getD i "")).foldl max (cellWidth c.head)

def border (left line crossing right : String) (widths : List Nat) : String :=
  left ++ crossing.intercalate (widths.map fun w => String.join (List.replicate (w + 2) line)) ++ right

def rowLines (bar : String) (columns : List Column) (widths : List Nat) (cells : List String) :
    List String :=
  let wrapped := (cells.zip widths).map fun (cell, w) => wrap w .ellipsis cell
  let height := (wrapped.map List.length).foldl max 1
  (List.range height).map fun i =>
    let parts := (columns.zip (widths.zip wrapped)).map fun (c, w, lines) =>
      " " ++ pad c.side w (lines.getD i "") ++ " "
    bar ++ bar.intercalate parts ++ bar

def lines (g : Grid) : List String :=
  let ws := g.widths
  let total := ws.foldl (· + 3 + ·) 1
  (wrap total .fold g.title).map (centre total)
    ++ [border "┏" "━" "┳" "┓" ws]
    ++ rowLines "┃" g.columns ws (g.columns.map (·.head))
    ++ [border "┡" "━" "╇" "┩" ws]
    ++ g.rows.flatMap (rowLines "│" g.columns ws)
    ++ [border "└" "─" "┴" "┘" ws]

/-- A table as text. -/
def render (g : Grid) : String := String.join (g.lines.map (· ++ "\n"))

end Grid

end Conformance.Layout
