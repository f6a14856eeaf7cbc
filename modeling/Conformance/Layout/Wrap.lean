import Conformance.Layout.Width
import Conformance.Text.Space

/-!
# Lines of a given width

A text is printed line by line.  Lines that are too long are broken before words; a word that is
longer than a whole line is broken inside, or where that is not wanted cut short with an ellipsis.
-/

namespace Conformance.Layout

/-- What happens to a word that is longer than a line. -/
inductive Overflow where
  | fold
  | ellipsis
  deriving DecidableEq, Repr, Inhabited

/-- Controls that are never printed. -/
def isDropped (c : Char) : Bool := [7, 8, 11, 12, 13].contains c.toNat

/-- A text without the controls that are never printed. -/
def withoutControls (s : String) : String := String.ofList (s.toList.filter fun c => !isDropped c)

/-- A line with tabs filled up to multiples of eight columns; `column` is where it starts. -/
def expandTabs : (column : Nat) → List Char → List Char
  | _, [] => []
  | column, c :: cs =>
    if c == '\t' then
      let next := (column / 8 + 1) * 8
      List.replicate (next - column) ' ' ++ expandTabs next cs
    else c :: expandTabs (column + charWidth c) cs

/-- The words of a line, each with the spaces after it; the first also has those before it. -/
def words : (fuel : Nat) → List Char → List (List Char)
  | 0, _ => []
  | fuel + 1, cs =>
    let before := cs.takeWhile Text.isSpace
    let rest := cs.drop before.length
    let word := rest.takeWhile fun c => !Text.isSpace c
    let after := (rest.drop word.length).takeWhile Text.isSpace
    if word.isEmpty then [] else
    (before ++ word ++ after) :: words fuel (rest.drop (word.length + after.length))

/-- A word without the spaces at its end. -/
def trimEnd (cs : List Char) : List Char := (cs.reverse.dropWhile Text.isSpace).reverse

/-- Cuts a text into pieces of at most `limit` columns; `used` columns of the first are taken. -/
def chop (limit : Nat) : (used : Nat) → List Char → List (List Char)
  | _, [] => [[]]
  | used, c :: cs =>
    let w := charWidth c
    if limit < used + w then
      match chop limit w cs with
      | piece :: pieces => [] :: (c :: piece) :: pieces
      | [] => [[], [c]]
    else
      match chop limit (used + w) cs with
      | piece :: pieces => (c :: piece) :: pieces
      | [] => [[c]]

/-- The places before the pieces of a word that starts at `start`; there is none at the line's start. -/
def pieceStarts : (start : Nat) → List (List Char) → List Nat
  | _, [] => []
  | start, piece :: rest =>
    (if start == 0 then [] else [start]) ++ pieceStarts (start + piece.length) rest

/-- The places where a line is broken.  `start` is where the next word starts, `used` how many columns
of the current line are taken. -/
def breaks (limit : Nat) (overflow : Overflow) : (start used : Nat) → List (List Char) → List Nat
  | _, _, [] => []
  | start, used, word :: rest =>
    let next := start + word.length
    let needed := width (trimEnd word)
    if used + needed ≤ limit then breaks limit overflow next (used + width word) rest
    else if limit < needed then
      match overflow with
      | .fold =>
        let pieces := chop limit 0 word
        pieceStarts start pieces ++ breaks limit overflow next (width (pieces.getLast?.getD [])) rest
      | .ellipsis =>
        if start == 0 then breaks limit overflow next used rest
        else start :: breaks limit overflow next (width word) rest
    else if used == 0 || start == 0 then breaks limit overflow next used rest
    else start :: breaks limit overflow next (width word) rest

/-- A line cut at places; `done` characters are before it. -/
def divide (done : Nat) : List Nat → List Char → List (List Char)
  | [], cs => [cs]
  | place :: places, cs => cs.take (place - done) :: divide place places (cs.drop (place - done))

/-- The start of a line that takes `limit` columns; a space stands for half a character. -/
def crop (limit : Nat) : List Char → List Char
  | [] => []
  | c :: cs =>
    if limit < charWidth c then List.replicate limit ' ' else c :: crop (limit - charWidth c) cs

/-- A line fitted into its width: spaces past the end are dropped, then all else that is too much. -/
def fit (limit : Nat) (overflow : Overflow) (line : List Char) : List Char :=
  let spaces := (line.reverse.takeWhile Text.isSpace).length
  let line := line.take (line.length - min spaces (line.length - limit))
  if width line ≤ limit then line else
  match overflow with
  | .fold => crop limit line
  | .ellipsis => crop (limit - 1) line ++ ['…']

/-- The lines of a text at a width. -/
def wrap (limit : Nat) (overflow : Overflow) (text : String) : List String :=
  (text.splitOn "\n").flatMap fun line =>
    let cs := expandTabs 0 line.toList
    let places := breaks limit overflow 0 0 (words (cs.length + 1) cs)
    (divide 0 places cs).map fun piece => String.ofList (fit limit overflow piece)

/-- A text printed at a width: every line ends with a line break. -/
def print (limit : Nat) (text : String) : String :=
  String.join ((wrap limit .fold (withoutControls text)).map (· ++ "\n"))

end Conformance.Layout
