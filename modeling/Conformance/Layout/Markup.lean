import Conformance.Text.Space

/-!
# Markup

Texts may hold tags in square brackets, which style what follows and are not shown, and names of
pictures between colons.  A backslash before a tag makes it plain text.
-/

namespace Conformance.Layout

/-! ## Pictures -/

def pictures : List (String × Char) := [("heart", '❤'), ("x", '❌'), ("smile", '😄'), ("bug", '🐛')]

/-- The ways a picture can be asked for: in colour, or as text. -/
def variants : List (String × Char) := [("-emoji", '\ufe0f'), ("-text", '\ufe0e')]

/-- The picture with this name, which may end in the way it is asked for. -/
def picture? (name : List Char) : Option (List Char) :=
  let text := String.ofList name
  let variant := variants.find? fun v => text.endsWith v.1
  let bare := (text.dropEnd ((variant.map (·.1.length)).getD 0)).toString
  (pictures.lookup bare.toLower).map fun c => c :: (variant.map (·.2)).toList

/-- The name between two colons at the start of a text, and what comes after. -/
def betweenColons? : List Char → Option (List Char × List Char)
  | ':' :: rest =>
    let name := rest.takeWhile fun c => c != ':' && !Text.isSpace c
    match rest.drop name.length with
    | ':' :: after => some (name, after)
    | _ => none
  | _ => none

/-- A text with the names of pictures replaced, from the left; what stands between two colons is not
looked at again. -/
def replacePictures : (fuel : Nat) → List Char → List Char
  | 0, cs => cs
  | fuel + 1, cs =>
    match betweenColons? cs with
    | some (name, after) =>
      (picture? name).getD (':' :: name ++ [':']) ++ replacePictures fuel after
    | none =>
      match cs with
      | [] => []
      | c :: rest => c :: replacePictures fuel rest

/-- A text with the names of pictures replaced. -/
def withPictures (s : String) : String := String.ofList (replacePictures (s.length + 1) s.toList)

/-! ## Tags -/

def isTagStart (c : Char) : Bool := ('a' ≤ c && c ≤ 'z') || c == '#' || c == '/' || c == '@'

/-- A tag at the start of a text with its brackets, and what comes after. -/
def tag? : List Char → Option (List Char × List Char)
  | '[' :: c :: rest =>
    if !isTagStart c then none else
    let inside := rest.takeWhile fun d => d != '[' && d != ']'
    match rest.drop inside.length with
    | ']' :: after => some ('[' :: c :: inside ++ [']'], after)
    | _ => none
  | _ => none

/-- Part of a text with markup. -/
inductive Piece where
  | plain (cs : List Char)
  /-- A tag after some backslashes. -/
  | tag (backslashes : Nat) (cs : List Char)
  deriving DecidableEq, Repr, Inhabited

def cons (c : Char) : List Piece → List Piece
  | .plain cs :: rest => .plain (c :: cs) :: rest
  | pieces => .plain [c] :: pieces

def pieces : (fuel : Nat) → List Char → List Piece
  | 0, cs => [.plain cs]
  | fuel + 1, cs =>
    let slashes := (cs.takeWhile (· == '\\')).length
    match tag? (cs.drop slashes) with
    | some (t, after) => .tag slashes t :: pieces fuel after
    | none =>
      match cs with
      | [] => []
      | _ =>
        let step := max slashes 1
        (cs.take step).foldr cons (pieces fuel (cs.drop step))

/-- The pieces of a whole text. -/
def piecesOf (s : String) : List Piece := pieces (s.length + 1) s.toList

/-- A text with every tag made plain, and a lone backslash at its end doubled. -/
def escape (s : String) : String :=
  let escaped := (piecesOf s).flatMap fun
    | .plain cs => cs
    | .tag n cs => List.replicate (2 * n + 1) '\\' ++ cs
  let last := (escaped.reverse.takeWhile (· == '\\')).length
  String.ofList (if last == 1 then escaped ++ ['\\'] else escaped)

def shownPlain (cs : List Char) : String := withPictures ((String.ofList cs).replace "\\[" "[")

/-! ## Closing tags -/

/-- A closing tag without an open one. -/
structure UnopenedTag where
  /-- The tag as it stands, without its brackets. -/
  tag : String
  /-- Where it stands in its text. -/
  position : Nat
  /-- Does it name what it closes? -/
  named : Bool
  deriving DecidableEq, Repr, Inhabited

namespace UnopenedTag

/-- The complaint. -/
def message (e : UnopenedTag) : String :=
  if e.named then s!"closing tag '[{e.tag}]' at position {e.position} doesn't match any open tag"
  else s!"closing tag '[/]' at position {e.position} has nothing to close"

end UnopenedTag

def shortStyles : List (String × String) :=
  [("b", "bold"), ("d", "dim"), ("i", "italic"), ("u", "underline"), ("r", "reverse"), ("c", "conceal"),
    ("s", "strike"), ("uu", "underline2"), ("o", "overline")]

/-- The name of a style by which its tags are matched: case, blanks and short names make no difference. -/
def styleName (cs : List Char) : String :=
  let words := ((String.ofList cs).toLower.splitOn " ").filter (!·.isEmpty)
  " ".intercalate (words.map fun w => (shortStyles.lookup w).getD w)

/-- The first closing tag without an open one, among pieces that start at a position, where `opened` are
the names of the open tags, the last one first. -/
def unopenedFrom (opened : List String) (position : Nat) : List Piece → Option UnopenedTag
  | [] => none
  | .plain cs :: rest => unopenedFrom opened (position + cs.length) rest
  | .tag n cs :: rest =>
    let next := position + n + cs.length
    let inside := (cs.drop 1).dropLast
    let name := inside.takeWhile (· != '=')
    if n % 2 == 1 then unopenedFrom opened next rest else
    match name with
    | '/' :: closed =>
      let closes := styleName closed
      match opened with
      | [] => some ⟨String.ofList inside, position + n, closes != ""⟩
      | last :: before =>
        if closes == "" then unopenedFrom before next rest
        else if (last :: before).contains closes then unopenedFrom ((last :: before).erase closes) next rest
        else some ⟨String.ofList inside, position + n, true⟩
    | name => unopenedFrom (styleName name :: opened) next rest

/-- The first closing tag of a text without an open one. -/
def unopened? (s : String) : Option UnopenedTag := unopenedFrom [] 0 (piecesOf s)

/-! ## Showing -/

/-- A text with markup as shown: tags are left out, unless a backslash makes them plain. -/
def shown (s : String) : String :=
  String.join ((piecesOf s).map fun
    | .plain cs => shownPlain cs
    | .tag n cs =>
      String.ofList (List.replicate (n / 2) '\\') ++ if n % 2 == 1 then shownPlain cs else "")

end Conformance.Layout
