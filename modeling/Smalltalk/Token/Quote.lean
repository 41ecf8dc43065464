/-
**Quoted text.**

A string is written between quotes, and a quote inside of it is written twice.

* `Quote.encode` — a text with every quote doubled;
* `Quote.decode` — a text with every pair of quotes read as one, from left to right;
* `Quote.write`, `Quote.read` — **the written form of a string and back**.
-/

namespace Smalltalk.Quote

/-- Double every quote, after the characters of `done`, which are kept in reverse. -/
def encode (done : List Char) : List Char → List Char
  | [] => done.reverse
  | '\'' :: cs => encode ('\'' :: '\'' :: done) cs
  | c :: cs => encode (c :: done) cs

/-- Read every pair of quotes as one, after the characters of `done`, which are kept in reverse. -/
def decode (done : List Char) : List Char → List Char
  | [] => done.reverse
  | '\'' :: '\'' :: cs => decode ('\'' :: done) cs
  | c :: cs => decode (c :: done) cs

def write (s : String) : String :=
  String.ofList ('\'' :: encode [] s.toList ++ ['\''])

/-- The string with a given written form, whose first and last characters are its quotes. -/
def read (text : String) : String :=
  String.ofList (decode [] (text.toList.drop 1).dropLast)

end Smalltalk.Quote
