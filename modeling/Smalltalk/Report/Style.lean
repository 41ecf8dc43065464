/-
**Styled text.**

Text for a terminal is a sequence of pieces, each in one style. It can be shown with the escape
sequences that switch the styles on and off, or without them.

* `Style` — the styles;
* `Style.wrap` — a text between the escape sequences of a style;
* `StyledText` — **text in styles**;
* `StyledText.pieces` — the order in which it is written;
* `StyledText.coloured`, `StyledText.plain` — **the text with and without
  escape sequences**.
-/

namespace Smalltalk

inductive Style where
  | normal
  | bold
  | dimmed
  | boldRed
  | boldYellow
  | green
  | blue
  | magenta
  | cyan
deriving DecidableEq, Repr, Inhabited

namespace Style

def escape (number : Nat) : String := "\x1b[" ++ toString number ++ "m"

/-- The numbers of the escape sequences that switch a style on and off. -/
def codes : Style → List Nat × List Nat
  | normal => ([], [])
  | bold => ([1], [0])
  | dimmed => ([2], [0])
  | boldRed => ([31, 1], [0, 39])
  | boldYellow => ([33, 1], [0, 39])
  | green => ([32], [0])
  | blue => ([34], [0])
  | magenta => ([35], [0])
  | cyan => ([36], [0])

def pieces (s : Style) (text : String) : List String :=
  s.codes.1.map escape ++ text :: s.codes.2.map escape

def wrap (s : Style) (text : String) : String := String.join (s.pieces text)

end Style

/-- **Text in styles.** -/
abbrev StyledText := List (Style × String)

namespace StyledText

def ofString (text : String) : StyledText := [(.normal, text)]

def ofPieces (pieces : List String) : StyledText := pieces.map fun text => (.normal, text)

def pieces (t : StyledText) : List String := t.flatMap fun piece => piece.1.pieces piece.2

/-- **The text with escape sequences.** -/
def coloured (t : StyledText) : String :=
  t.foldl (fun text piece => text ++ piece.1.wrap piece.2) ""

/-- **The text without escape sequences.** -/
def plain (t : StyledText) : String := t.foldl (fun text piece => text ++ piece.2) ""

end StyledText

end Smalltalk
