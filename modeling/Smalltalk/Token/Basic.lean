/-
**Tokens: the words of the language.**

A token is a kind together with the text it was read from and the byte offset at which that text
starts. Keeping the text in the token makes trees independent of the source they came from.

* `Token.Kind` — the kinds of token, among them four for text that is no proper word;
* `Token.Kind.label` — how a kind is called in messages and listings;
* `Token.Kind.isFixed` — does the kind have only one possible text?
* `Token` — **a kind, a place and a text**, with the span it covers;
* `Token.name` — the name a token introduces, a closing colon not counted.
-/

import Smalltalk.Source.Span

namespace Smalltalk

namespace Token

inductive Kind where
  | leftParen
  | rightParen
  | leftSquare
  | rightSquare
  | leftCurly
  | rightCurly
  | assign
  | colon
  | dot
  | semicolon
  | caret
  | pipe
  | identifier
  /-- An identifier directly followed by a colon, such as `at:`. -/
  | keyword
  /-- A run of operator characters, such as `+` or `<=`. -/
  | operator
  | number
  | character
  | string
  | symbol
  | classWord
  | falseWord
  | nilWord
  | selfWord
  | superWord
  | trueWord
  | comment
  | endOfFile
  | unknown
  | unterminatedString
  | unterminatedComment
deriving DecidableEq, Repr, Inhabited

/-- How a kind is called in messages and listings: by its text if it has only one. -/
def Kind.label : Kind → String
  | leftParen => "("
  | rightParen => ")"
  | leftSquare => "["
  | rightSquare => "]"
  | leftCurly => "\x7b"
  | rightCurly => "\x7d"
  | assign => ":="
  | colon => ":"
  | dot => "."
  | semicolon => ";"
  | caret => "^"
  | pipe => "|"
  | identifier => "Identifier"
  | keyword => "Keyword"
  | operator => "Operator"
  | number => "Number"
  | character => "Character"
  | string => "String"
  | symbol => "Symbol"
  | classWord => "class"
  | falseWord => "false"
  | nilWord => "nil"
  | selfWord => "self"
  | superWord => "super"
  | trueWord => "true"
  | comment => "Comment"
  | endOfFile => "End of File"
  | unknown => "Unknown Character"
  | unterminatedString => "Unterminated String"
  | unterminatedComment => "Unterminated Comment"

def Kind.isFixed : Kind → Bool
  | identifier | keyword | operator | number | character | string | symbol | comment | unknown
  | unterminatedString | unterminatedComment => false
  | _ => true

end Token

/-- **A token**: its kind, the offset of its first byte, and its text. -/
structure Token where
  kind : Token.Kind
  start : Nat
  text : String
deriving DecidableEq, Repr, Inhabited

namespace Token

def length (t : Token) : Nat := t.text.utf8ByteSize

def stop (t : Token) : Nat := t.start + t.length

def span (t : Token) : Span := ⟨t.start, t.stop⟩

/-- The token that stands at the end of a source of the given length. -/
def atEnd (length : Nat) : Token := ⟨.endOfFile, length, ""⟩

/-- The name a token introduces. A class header may be written `A: B`, which gives the name as a
keyword, so closing colons are left off. -/
def name (t : Token) : String :=
  String.ofList (t.text.toList.reverse.dropWhile (· = ':')).reverse

def symbolText (t : Token) : String :=
  String.ofList (t.text.toList.dropWhile (· = '#'))

end Token

end Smalltalk
