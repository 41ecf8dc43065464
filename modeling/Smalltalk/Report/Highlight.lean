/-
**Source code in colours.**

A line is taken apart into tokens and put together again with each token in the style of its kind.
What stands between the tokens becomes blanks, one for each byte.

* `Token.Kind.style` — the style of a kind of tokens;
* `highlight` — **a line in colours**.
-/

import Smalltalk.Report.Style
import Smalltalk.Token.Scan

namespace Smalltalk

def Token.Kind.style : Token.Kind → Style
  | number | character | trueWord | falseWord | nilWord => .blue
  | string | symbol | unterminatedString => .green
  | classWord | selfWord | superWord | caret => .cyan
  | keyword => .magenta
  | comment | unterminatedComment => .dimmed
  | _ => .normal

def blanks (n : Nat) : String := "".pushn ' ' n

/-- The pieces of a line that some tokens cover, after those found before; `position` is where the
last one ended. -/
def highlightFrom (line : String) (position : Nat) (found : List (Style × String)) :
    List Token → StyledText
  | [] => found.reverse
  | t :: ts =>
    highlightFrom line t.stop
      ((t.kind.style, t.span.text line) :: (.normal, blanks (t.start - position)) :: found) ts

/-- **A line in colours.** -/
def highlight (line : String) : StyledText := highlightFrom line 0 [] (Token.scan line)

end Smalltalk
