/-
**Reading the tokens of a source.**

The bytes of a text are read from left to right. Blanks separate tokens and are dropped; whatever
else stands at the reading position starts a token, whose kind and length are settled by the bytes
that follow. Comments are tokens too. A byte is looked at as the character with its number, which
is the character itself within ASCII; outside of ASCII only the length of a character matters, which
its first byte tells.

* `Token.isBlank`, `Token.isOperator`, `Token.isLetter`,
  `Token.isDigit` — the classes of characters, all of them within ASCII;
* `Token.utf8Length` — the length of a character, by its first byte;
* `Token.lexemeBy` — **the kind and the length** of the token at the front of a text;
* `Token.spans` — **the kinds and spans of the tokens of a source**, in order;
* `Token.scan` — **the tokens of a source**, with the text that each span covers;
* `Token.withoutComments` — the tokens that a program is read from.

The length given by `lexemeBy` is never zero, so that scanning a text uses it up.
-/

import Smalltalk.Token.Basic

namespace Smalltalk.Token

/-! ### Classes of characters -/

def isBlank (c : Char) : Bool := c = ' ' || c = '\r' || c = '\t' || c = '\n'

def isDigit (c : Char) : Bool := '0' ≤ c && c ≤ '9'

def isLetter (c : Char) : Bool :=
  c = '_' || ('a' ≤ c && c ≤ 'z') || ('A' ≤ c && c ≤ 'Z')

def isWordChar (c : Char) : Bool := isLetter c || isDigit c

def isOperator (c : Char) : Bool :=
  ['+', '-', '*', '/', '\\', '<', '>', '=', '~', ',', '@', '%', '&', '?'].contains c

/-! ### Bytes -/

/-- The bytes of a text, each as the character with its number. -/
def bytes (text : String) : List Char := text.toUTF8.data.toList.map Char.ofUInt8

/-- How many bytes a character has, by its first byte. -/
def utf8Length (first : Char) : Nat :=
  if first.toNat &&& 0xf0 = 0xf0 then 4
  else if first.toNat &&& 0xe0 = 0xe0 then 3
  else if first.toNat &&& 0xc0 = 0xc0 then 2
  else 1

/-! ### Lengths of tokens -/

/-- How much of a text belongs to its longest run within a class. -/
def runLength (p : Char → Bool) (cs : List Char) : Nat := (cs.takeWhile p).length

/-- The kind and length of a comment, whose opening quote has been read. -/
def commentLexeme (cs : List Char) : Kind × Nat :=
  match cs.findIdx? (· = '"') with
  | some n => (.comment, n + 2)
  | none => (.unterminatedComment, cs.length + 1)

/-- The kind and length of a string after a length of `n` has been read. A doubled quote
belongs to the string, a single one ends it. -/
def stringLexeme (n : Nat) : List Char → Kind × Nat
  | [] => (.unterminatedString, n)
  | '\'' :: '\'' :: cs => stringLexeme (n + 2) cs
  | '\'' :: _ => (.string, n + 1)
  | _ :: cs => stringLexeme (n + 1) cs

/-- The kind and length of a character, whose dollar sign has been read. How long a character is that
starts with a given byte is told by `width`. -/
def characterLexeme (width : Char → Nat) : List Char → Kind × Nat
  | [] => (.unknown, 1)
  | c :: _ => (.character, 1 + width c)

/-- The kind and length of a symbol, whose hash sign has been read: an identifier that may hold
colons, or an operator. -/
def symbolLexeme (cs : List Char) : Kind × Nat :=
  match cs with
  | [] => (.unknown, 1)
  | c :: _ =>
    if isLetter c then (.symbol, runLength (fun c => isWordChar c || c = ':') cs + 1)
    else if isOperator c then (.symbol, runLength isOperator cs + 1)
    else (.unknown, 1)

/-- The length of a number. A point belongs to it only if a digit follows, since a point also
ends a statement. -/
def numberLength (cs : List Char) : Nat :=
  let whole := runLength isDigit cs
  match cs.drop whole with
  | '.' :: rest =>
    let decimals := runLength isDigit rest
    if decimals = 0 then whole else whole + 1 + decimals
  | _ => whole

def wordKind (word : List Char) : Kind :=
  if word = ['c', 'l', 'a', 's', 's'] then .classWord
  else if word = ['f', 'a', 'l', 's', 'e'] then .falseWord
  else if word = ['n', 'i', 'l'] then .nilWord
  else if word = ['s', 'e', 'l', 'f'] then .selfWord
  else if word = ['s', 'u', 'p', 'e', 'r'] then .superWord
  else if word = ['t', 'r', 'u', 'e'] then .trueWord
  else .identifier

/-- The kind and length of a word: a keyword if a colon follows that is not part of `:=`. -/
def wordLexeme (cs : List Char) : Kind × Nat :=
  let word := cs.takeWhile isWordChar
  match cs.drop word.length with
  | ':' :: rest =>
    if rest.head? = some '=' then (wordKind word, word.length) else (.keyword, word.length + 1)
  | _ => (wordKind word, word.length)

/-- The kinds that one character settles on its own. -/
def punctuation? (c : Char) : Option Kind :=
  if c = '(' then some .leftParen
  else if c = ')' then some .rightParen
  else if c = '[' then some .leftSquare
  else if c = ']' then some .rightSquare
  else if c = '\x7b' then some .leftCurly
  else if c = '\x7d' then some .rightCurly
  else if c = '.' then some .dot
  else if c = ';' then some .semicolon
  else if c = '^' then some .caret
  else if c = '|' then some .pipe
  else none

/-- **The kind and the length** of the token that starts with `c` and goes on with `cs`, where `c` is
not a blank. -/
def lexemeBy (width : Char → Nat) (c : Char) (cs : List Char) : Kind × Nat :=
  if c = '"' then commentLexeme cs
  else if c = '\'' then stringLexeme 1 cs
  else if c = '$' then characterLexeme width cs
  else if c = '#' then symbolLexeme cs
  else if isDigit c then (.number, numberLength (c :: cs))
  else if isLetter c then wordLexeme (c :: cs)
  else if c = ':' then if cs.head? = some '=' then (.assign, 2) else (.colon, 1)
  else if isOperator c then (.operator, runLength isOperator (c :: cs))
  else match punctuation? c with
    | some kind => (kind, 1)
    | none => (.unknown, width c)

/-! ### Scanning -/

/-- The kinds and spans of tokens in some bytes that start at an offset, after those already found,
which are kept in reverse. Each step reads a blank or a token, so that as many steps as there are
bytes are enough. -/
def spansFrom (steps offset : Nat) (done : List (Kind × Span)) (bs : List Char) :
    List (Kind × Span) :=
  match steps, bs with
  | 0, _ | _, [] => done.reverse
  | steps + 1, b :: bs =>
    if isBlank b then spansFrom steps (offset + 1) done bs
    else
      let (kind, length) := lexemeBy utf8Length b bs
      let stop := offset + length
      spansFrom steps stop ((kind, ⟨offset, stop⟩) :: done) ((b :: bs).drop length)

/-- **The kinds and spans of the tokens of a source**, comments included. -/
def spans (source : String) : List (Kind × Span) :=
  let bs := bytes source
  spansFrom bs.length 0 [] bs

/-- **The tokens of a source**, with the text that each span covers. -/
def scan (source : String) : List Token :=
  (spans source).map fun (kind, span) => ⟨kind, span.start, span.text source⟩

/-- The tokens without the comments among them. -/
def withoutComments (tokens : List Token) : List Token :=
  tokens.filter fun t => t.kind ≠ .comment

end Smalltalk.Token
