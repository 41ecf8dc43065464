/-
**Code points.**

* `Text.charOf?` — **the character with a code point**.
-/

namespace Smalltalk.Text

/-- **The character with a code point**, if there is one. -/
def charOf? (code : Nat) : Option Char :=
  if h : code.isValidChar then some (Char.ofNatAux code h) else none

end Smalltalk.Text
