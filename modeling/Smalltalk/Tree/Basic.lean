/-
**Syntax trees.**

A program is a list of class definitions followed by a body: local variables and statements. A
tree keeps the tokens it was built from, so names and places are read off the tree itself.

Blocks carry a note of a type `β` of the reader's choice. The parser leaves it empty; the
declaration of names fills in the scope that each block opens.

* `Literal` — the values that can be written down directly;
* `Expr`, `Statement`, `Body` — **what is evaluated**;
* `Signature`, `MethodDef`, `ClassDef` — **what is defined**;
* `SyntaxError` — a mistake and the token it was found at;
* `Program` — a whole source, with its tokens, its tree and its mistakes.
-/

import Smalltalk.Number.Single
import Smalltalk.Token.Basic

namespace Smalltalk

/-! ### Expressions and statements -/

/-- A value that is written down directly, or `self`. -/
inductive Literal where
  | nil
  | boolean (value : Bool)
  | receiver
  | integer (value : Int32)
  | float (value : Single)
  | character (value : Char)
  | string (value : String)
  | symbol (value : String)
deriving DecidableEq, Repr, Inhabited

mutual

/-- An expression. A bracket that is never closed has no closing token. -/
inductive Expr (β : Type) where
  | array (opening : Token) (items : List (Expr β)) (closing : Option Token)
  | block (opening : Token) (parameters locals : List Token) (statements : List (Statement β))
      (closing : Option Token) (note : β)
  | group (opening : Token) (inner : Expr β) (closing : Option Token)
  /-- A literal, whose first and last token differ if it has a sign. -/
  | literal (first last : Token) (value : Literal)
  | unary (receiver : Expr β) (selector : Token)
  | binary (receiver : Expr β) (operator : Token) (argument : Expr β)
  /-- A message with as many keywords as arguments. -/
  | keyword (receiver : Expr β) (keywords : List Token) (arguments : List (Expr β))
  /-- The receiver, with methods looked up from the superclass on. -/
  | super (word : Token)
  | variable (name : Token)
  /-- What stands in place of an expression that could not be read. -/
  | invalid (found : Token)

inductive Statement (β : Type) where
  | assignment (target : Token) (value : Expr β)
  /-- Leave the enclosing method with a value. -/
  | answer (caret : Token) (value : Expr β)
  | expression (value : Expr β)

end

variable {β : Type}

instance : Inhabited (Expr β) := ⟨.invalid default⟩

instance : Inhabited (Statement β) := ⟨.expression default⟩

def Statement.value : Statement β → Expr β
  | .assignment _ value | .answer _ value | .expression value => value

def Statement.isAnswer : Statement β → Bool
  | .answer _ _ => true
  | _ => false

def Expr.isSuper : Expr β → Bool
  | .super _ => true
  | _ => false

/-- The local variables and statements of a method, a block or a whole program. -/
structure Body (β : Type) where
  locals : List Token
  statements : List (Statement β)
deriving Inhabited

/-- Does the last of the statements leave the enclosing method? -/
def endsWithAnswer (statements : List (Statement β)) : Bool :=
  statements.getLast?.any Statement.isAnswer

/-! ### Definitions -/

inductive Signature where
  | unary (name : Token)
  | binary (operator parameter : Token)
  /-- Keywords, each with its parameter. -/
  | keyword (parts : List (Token × Token))
deriving DecidableEq, Repr, Inhabited

def joinTexts (tokens : List Token) : String :=
  tokens.foldl (fun text token => text ++ token.text) ""

def Signature.selector : Signature → String
  | .unary name => name.name
  | .binary operator _ => operator.text
  | .keyword parts => joinTexts (parts.map Prod.fst)

def Signature.parameters : Signature → List Token
  | .unary _ => []
  | .binary _ parameter => [parameter]
  | .keyword parts => parts.map Prod.snd

inductive MethodBody (β : Type) where
  | code (body : Body β)
  /-- Perform the built-in operation that a symbol names. -/
  | primitive (name : Token)
deriving Inhabited

structure MethodDef (β : Type) where
  /-- The word `class` in front of a method of the class itself. -/
  classWord : Option Token
  signature : Signature
  body : MethodBody β
deriving Inhabited

namespace MethodDef

def isClassSide (m : MethodDef β) : Bool := m.classWord.isSome

def selector (m : MethodDef β) : String := m.signature.selector

def parameters (m : MethodDef β) : List Token := m.signature.parameters

end MethodDef

structure ClassDef (β : Type) where
  word : Token
  /-- The name; the word `class` again if the name is missing. -/
  nameToken : Token
  superclass : Option Token
  fields : List Token
  methods : List (MethodDef β)
  closing : Option Token
deriving Inhabited

def ClassDef.name (c : ClassDef β) : String := c.nameToken.name

/-! ### Mistakes -/

inductive SyntaxError.Cause where
  | expected (kind : Token.Kind)
  | expectedExpression
  | expectedIdentifier
  | expectedMethod
  | expectedPrimitive
  | classAfterStatements
  | integerOutOfRange
  | unknownCharacter
  | unterminatedString
  | unterminatedComment
deriving DecidableEq, Repr, Inhabited

structure SyntaxError where
  cause : SyntaxError.Cause
  token : Token
deriving DecidableEq, Repr, Inhabited

namespace SyntaxError

def title (e : SyntaxError) : String :=
  match e.cause with
  | .expected kind => "Expected " ++ kind.label
  | .expectedExpression => "Expected Expression"
  | .expectedIdentifier => "Expected Identifier"
  | .expectedMethod => "Expected Method Definition"
  | .expectedPrimitive => "Expected Primitive"
  | .classAfterStatements => "Class After Statements"
  | .integerOutOfRange => "Integer Out of Range"
  | .unknownCharacter => "Unknown Character"
  | .unterminatedString => "Unterminated String"
  | .unterminatedComment => "Unterminated Comment"

def message (e : SyntaxError) : String :=
  let got := " but got " ++ e.token.kind.label
  match e.cause with
  | .expected kind => "expected " ++ kind.label ++ got
  | .expectedExpression => "expected expression" ++ got
  | .expectedIdentifier => "expected identifier" ++ got
  | .expectedMethod => "expected a unary, operator, or keyword method header" ++ got
  | .expectedPrimitive => "primitive methods are written `<primitive:#Name>`"
  | .classAfterStatements => "classes must be defined before the top-level statements"
  | .integerOutOfRange => "integer literal does not fit in 32 bits"
  | .unknownCharacter => "got unknown character"
  | .unterminatedString => "missing closing quote for string"
  | .unterminatedComment => "missing closing double quote for comment"

def span (e : SyntaxError) : Span := e.token.span

end SyntaxError

/-! ### Programs -/

/-- **A source and what was read from it.** -/
structure Program where
  source : String
  tokens : List Token
  classes : List (ClassDef Unit)
  /-- The top-level variables and statements, which follow the classes. -/
  main : Body Unit
  errors : List SyntaxError
deriving Inhabited

namespace Program

def isValid (p : Program) : Bool := p.errors.isEmpty

/-- Is there anything to run at the top level? -/
def hasMain (p : Program) : Bool := !p.main.statements.isEmpty || !p.main.locals.isEmpty

end Program

end Smalltalk
