/-
**What of a text can be printed.**

A terminal acts on control functions instead of showing them: on single control characters, and on
the sequences and strings that an escape character begins. Where no terminal is watching, they are
taken out of what is written.

A text is written in pieces, and a control function may begin in one piece and end in another.
The characters of layout (tabs and line ends) are shown even where they interrupt an escape or
control sequence. So is what follows them in the same piece; the sequence goes on with the next
control character or the next piece.

* `Control` — how far a control function has been read;
* `Control.next`, `Control.shows` — what a character does to a control
  function, and whether it is shown;
* `printable` — **what of a text can be printed**;
* `StyledText.printed` — the same of a text in styles.
-/

import Smalltalk.Report.Style

namespace Smalltalk

/-! ### Characters -/

def isLayout (c : Char) : Bool := c = '\t' || c = '\n' || c = '\x0c' || c = '\r'

/-- The characters that are printed where they are not part of a control function. -/
def isPrintable (c : Char) : Bool := isLayout c || ('\x20' ≤ c && c ≠ '\x7f')

/-- The characters that may stand before the last one of an escape or control sequence. -/
def isIntermediate (c : Char) : Bool := '\x20' ≤ c && c ≤ '\x2f'

def isParameter (c : Char) : Bool := '\x30' ≤ c && c ≤ '\x3f'

def isFinal (c : Char) : Bool := '\x40' ≤ c && c ≤ '\x7e'

/-- Whether one of the bytes of a character is the one that terminates a control string. -/
def hasTerminator (c : Char) : Bool := (String.utf8EncodeChar c).contains 0x9c

/-! ### Control functions -/

/-- **How far a control function has been read.** -/
inductive Control where
  | idle
  | escape
  | designation
  | sequence
  | device
  | deviceParameters
  | deviceIntermediates
  | content
  | command
deriving DecidableEq, Repr, Inhabited

namespace Control

def opened (c : Char) : Control :=
  if c = '[' then sequence
  else if c = ']' then command
  else if c = 'P' then device
  else if c = 'X' || c = '^' || c = '_' then content
  else if isIntermediate c then designation
  else if isParameter c || isFinal c then idle
  else escape

/-- How far a control function has been read after one more character. An escape character begins
a new one at any time, and two characters cancel any. -/
def next (s : Control) (c : Char) : Control :=
  if c = '\x1b' then escape
  else if c = '\x18' || c = '\x1a' then idle
  else
    match s with
    | idle => idle
    | escape => opened c
    | designation => if isParameter c || isFinal c then idle else s
    | sequence => if isFinal c then idle else s
    | device =>
      if isIntermediate c then deviceIntermediates
      else if isParameter c then deviceParameters
      else if isFinal c then content
      else s
    | deviceParameters =>
      if isIntermediate c then deviceIntermediates
      else if c.isDigit || c = ':' || c = ';' then s
      else if isParameter c || isFinal c then content
      else s
    | deviceIntermediates => if isParameter c || isFinal c then content else s
    | content => if hasTerminator c then idle else s
    | command => if c = '\x07' then idle else s

/-- Whether a character is shown at this point: all that can be printed if there is no control
function, and layout in sequences, but nothing in strings. -/
def shows : Control → Char → Bool
  | idle, c => isPrintable c
  | escape, c | designation, c | sequence, c => isLayout c
  | _, _ => false

/-- Append to a text what is shown of some characters; `flowing` is whether the character before
them was shown. A character that is not in the basic set ends a sequence that layout has
interrupted. -/
def print (s : Control) (flowing : Bool) (text : String) : List Char → Control × String
  | [] => (s, text)
  | c :: cs =>
    if flowing && isPrintable c then
      print (if c ≤ '\x7f' then s else idle) true (text.push c) cs
    else if s.shows c then print (s.next c) true (text.push c) cs
    else print (s.next c) false text cs

end Control

/-- **What of a text can be printed**, given the pieces it is written in. -/
def printable (pieces : List String) : String :=
  (pieces.foldl (fun written piece => written.1.print false written.2 piece.toList)
    (Control.idle, "")).2

def StyledText.printed (t : StyledText) : String := printable t.pieces

end Smalltalk
