/-
**Reading a program.**

The tokens of a source are read from left to right by recursive descent. A mistake is recorded
and reading goes on, so that one run finds as many mistakes as it can; what could not be read
leaves an invalid expression in the tree, and the rest of its statement is skipped.

Two things repeat: loops, which read one more item as long as the next token asks for it, and
expressions inside of brackets. Each turn of a loop and each opening bracket uses up a token, so
both are bounded by a limit that is larger than the number of tokens. If the limit were reached,
the state would tell.

* `Reader`, `ReaderState` — reading as a change of state;
* `Reader.loop` — repeat a step while it asks for another turn; the steps of the loops have names
  of their own;
* `Reader.primary`, `unary`, `binary`, `message` — the levels of an expression, given a
  reader for the expressions in brackets;
* `Reader.expression` — **an expression**, with brackets nested to a given depth;
* `Reader.statement`, `body`, `method`, `classDef` — the larger parts;
* `Program.ofTokens`, `Program.parse` — **read a source**.
-/

import Smalltalk.Token.Quote
import Smalltalk.Token.Scan
import Smalltalk.Tree.Basic

namespace Smalltalk

/-! ### The state of reading -/

structure ReaderState where
  rest : List Token
  last : Token
  /-- The token that stands after all others. -/
  atEnd : Token
  errors : Array SyntaxError
  /-- A bound on the turns of a loop and on the depth of brackets. -/
  limit : Nat
  /-- Has the limit been reached? -/
  exhausted : Bool

abbrev Reader (α : Type) := StateM ReaderState α

namespace Reader

variable {α : Type}

/-! ### Single tokens -/

/-- The next token, which is the end of the file if there is no other. -/
def current : Reader Token := do
  let s ← get
  return s.rest.head?.getD s.atEnd

def kind : Reader Token.Kind := return (← current).kind

def peekKind : Reader Token.Kind := do
  let s ← get
  return (s.rest[1]?.getD s.atEnd).kind

/-- The token that a node found here keeps: the next one, and the last one at the end. -/
def here : Reader Token := do
  let s ← get
  return s.rest.head?.getD s.last

def skip : Reader Unit :=
  modify fun s =>
    match s.rest with
    | [] => s
    | t :: rest => { s with rest := rest, last := t }

def next : Reader Token := do
  let t ← here
  skip
  return t

def report (cause : SyntaxError.Cause) : Reader Unit := do
  let token ← current
  modify fun s => { s with errors := s.errors.push ⟨cause, token⟩ }

def errorCount : Reader Nat := return (← get).errors.size

def accept (k : Token.Kind) : Reader Bool := do
  if (← kind) = k then
    skip
    return true
  return false

def expect (k : Token.Kind) : Reader (Option Token) := do
  if (← kind) = k then
    return some (← next)
  report (.expected k)
  return none

def expectIdentifier : Reader (Option Token) := do
  if (← kind) = .identifier then
    return some (← next)
  report .expectedIdentifier
  return none

def isText (k : Token.Kind) (text : String) : Reader Bool := do
  let t ← current
  return t.kind = k && t.text = text

/-! ### Loops -/

/-- Leave what was to be read, as the limit has been reached. -/
def giveUp : Reader Unit := modify fun s => { s with exhausted := true }

/-- Repeat a step, at most `n` times, while it asks for another turn. -/
def iterate (step : α → Reader (α × Bool)) : Nat → α → Reader α
  | 0, a => do
    giveUp
    return a
  | n + 1, a => do
    let (a, again) ← step a
    if again then iterate step n a else return a

/-- **Repeat a step** while it asks for another turn. -/
def loop (step : α → Reader (α × Bool)) (a : α) : Reader α := do
  iterate step (← get).limit a

/-- One more turn, if the next token is of some kind. -/
def whileStep (p : Token.Kind → Bool) (step : α → Reader α) (a : α) : Reader (α × Bool) := do
  if p (← kind) then return (← step a, true) else return (a, false)

def loopWhile (p : Token.Kind → Bool) (step : α → Reader α) (a : α) : Reader α :=
  loop (whileStep p step) a

@[reducible] def tokenStep (taken : Array Token) : Reader (Array Token) := return taken.push (← next)

def takeWhileKind (k : Token.Kind) : Reader (List Token) := do
  let tokens ← loopWhile (· = k) tokenStep #[]
  return tokens.toList

/-! ### Literals -/

/-- The value of a number. There is none if it is whole and does not fit into 32 bits. -/
def numberLiteral? (negative : Bool) (t : Token) : Option Literal :=
  let whole := t.text.toList.takeWhile (· ≠ '.')
  match t.text.toList.drop whole.length with
  | _ :: decimals =>
    let value := Single.ofDecimal (digitsValue (whole ++ decimals)) decimals.length
    some (.float (if negative then value.neg else value))
  | [] =>
    let value : Int := if negative then -digitsValue whole else digitsValue whole
    if -0x80000000 ≤ value && value < 0x80000000 then some (.integer (Int32.ofInt value))
    else none

/-- Is a minus sign next, with a number directly after it? -/
def isNegativeNumber : Reader Bool := do
  match (← get).rest with
  | sign :: number :: _ =>
    return sign.text = "-" && number.kind = .number && number.start = sign.stop
  | _ => return false

/-! ### Expressions -/

@[reducible] def single (e : Expr Unit) : Reader (Expr Unit) := do
  skip
  return e

/-- Record a mistake and leave an invalid expression, without taking a token. -/
def failed (cause : SyntaxError.Cause) : Reader (Expr Unit) := do
  report cause
  return .invalid (← here)

def negativeNumber : Reader (Expr Unit) := do
  let first ← next
  match numberLiteral? true (← current) with
  | some value => return .literal first (← next) value
  | none =>
    report .integerOutOfRange
    skip
    return .invalid first

/-- Local variables or fields, between bars. -/
def declarations : Reader (List Token) := do
  skip
  let names ← takeWhileKind .identifier
  let _ ← expect .pipe
  return names

@[reducible] def optionalDeclarations : Reader (List Token) := do
  if (← kind) = .pipe then declarations else return []

def isSkipped (k : Token.Kind) : Bool :=
  k ≠ .dot && k ≠ .rightSquare && k ≠ .rightCurly && k ≠ .endOfFile

def resync : Reader Unit := loopWhile isSkipped (fun _ => skip) ()

/-- A statement, given a reader for expressions. -/
def sentence (expr : Reader (Expr Unit)) : Reader (Statement Unit) := do
  let k ← kind
  if k = .identifier && (← peekKind) = .assign then
    let target ← next
    skip
    return .assignment target (← expr)
  else if k = .caret then
    let caret ← next
    return .answer caret (← expr)
  else return .expression (← expr)

/-- **A statement**. After a mistake its rest is skipped. -/
def statement (expr : Reader (Expr Unit)) : Reader (Statement Unit) := do
  let mistakes ← errorCount
  let read ← sentence expr
  if mistakes < (← errorCount) then resync
  return read

def endsBody (k : Token.Kind) : Bool := k = .rightSquare || k = .endOfFile || k = .classWord

/-- One more statement of a body, and the points after it. -/
def bodyStep (expr : Reader (Expr Unit)) (read : Array (Statement Unit)) :
    Reader (Array (Statement Unit) × Bool) := do
  if endsBody (← kind) then return (read, false)
  let read := read.push (← statement expr)
  if ← accept .dot then
    loopWhile (· = .dot) (fun _ => skip) ()
    return (read, true)
  return (read, false)

/-- **A body**: local variables, then statements with points between them. -/
def body (expr : Reader (Expr Unit)) : Reader (Body Unit) := do
  let locals ← optionalDeclarations
  let statements ← loop (bodyStep expr) #[]
  return ⟨locals, statements.toList⟩

/-- One more parameter of a block. -/
def parameterStep (names : Array Token) : Reader (Array Token) := do
  skip
  match ← expectIdentifier with
  | some name => return names.push name
  | none => return names

/-- The rest of a block, behind its parameters. -/
def blockRest (nested : Reader (Expr Unit)) (opening : Token) (names : List Token) :
    Reader (Expr Unit) := do
  let inner ← body nested
  let closing ← expect .rightSquare
  return .block opening names inner.locals inner.statements closing ()

def block (nested : Reader (Expr Unit)) : Reader (Expr Unit) := do
  let opening ← next
  if (← kind) = .colon then
    let names ← loopWhile (· = .colon) parameterStep #[]
    if (← kind) ≠ .rightSquare then
      let _ ← expect .pipe
    blockRest nested opening names.toList
  else blockRest nested opening []

/-- One more item of an array, and the point after it. -/
@[reducible] def itemStep (nested : Reader (Expr Unit)) (items : Array (Expr Unit)) :
    Reader (Array (Expr Unit) × Bool) := do
  let k ← kind
  if k = .rightCurly || k = .endOfFile then return (items, false)
  let items := items.push (← nested)
  return (items, ← accept .dot)

def array (nested : Reader (Expr Unit)) : Reader (Expr Unit) := do
  let opening ← next
  let items ← loop (itemStep nested) #[]
  let closing ← expect .rightCurly
  return .array opening items.toList closing

def group (nested : Reader (Expr Unit)) : Reader (Expr Unit) := do
  let opening ← next
  let inner ← nested
  let closing ← expect .rightParen
  return .group opening inner closing

/-- The part of an expression that binds tightest. -/
def primary (nested : Reader (Expr Unit)) : Reader (Expr Unit) := do
  let t ← current
  let literal (value : Literal) : Reader (Expr Unit) := single (.literal t t value)
  match t.kind with
  | .nilWord => literal .nil
  | .trueWord => literal (.boolean true)
  | .falseWord => literal (.boolean false)
  | .selfWord => literal .receiver
  | .number =>
    match numberLiteral? false t with
    | some value => literal value
    | none => failed .integerOutOfRange
  | .character => literal (.character (t.text.toList.getD 1 '\x00'))
  | .string => literal (.string (Quote.read t.text))
  | .symbol => literal (.symbol t.symbolText)
  | .operator => do
    if ← isNegativeNumber then negativeNumber else failed .expectedExpression
  | .superWord => single (.super t)
  | .identifier => single (.variable t)
  | .leftSquare => block nested
  | .leftCurly => array nested
  | .leftParen => group nested
  | .unknown => failed .unknownCharacter
  | .unterminatedString => failed .unterminatedString
  | .unterminatedComment => failed .unterminatedComment
  | _ => failed .expectedExpression

@[reducible] def selectorStep (e : Expr Unit) : Reader (Expr Unit) := return .unary e (← next)

/-- A primary and the unary messages sent to it. -/
def unary (nested : Reader (Expr Unit)) : Reader (Expr Unit) := do
  loopWhile (· = .identifier) selectorStep (← primary nested)

@[reducible] def operatorStep (nested : Reader (Expr Unit)) (e : Expr Unit) : Reader (Expr Unit) := do
  let operator ← next
  return .binary e operator (← unary nested)

/-- Unary expressions with operators between them, grouped from the left. -/
def binary (nested : Reader (Expr Unit)) : Reader (Expr Unit) := do
  loopWhile (· = .operator) (operatorStep nested) (← unary nested)

/-- One more keyword and its argument. -/
def argumentStep (nested : Reader (Expr Unit)) (read : Array Token × Array (Expr Unit)) :
    Reader (Array Token × Array (Expr Unit)) := do
  let keyword ← next
  return (read.1.push keyword, read.2.push (← binary nested))

/-- A binary expression and the keyword message sent to it, if there is one. -/
def message (nested : Reader (Expr Unit)) : Reader (Expr Unit) := do
  let receiver ← binary nested
  if (← kind) ≠ .keyword then return receiver
  let (keywords, arguments) ← loopWhile (· = .keyword) (argumentStep nested) (#[], #[])
  return .keyword receiver keywords.toList arguments.toList

/-- **An expression**, with brackets nested to at most the given depth. -/
def expressionWithin : Nat → Reader (Expr Unit)
  | 0 => do
    giveUp
    return .invalid (← here)
  | depth + 1 => message (expressionWithin depth)

/-- An expression. Each bracket uses up a token, so the depth of brackets stays below the limit. -/
def expression : Reader (Expr Unit) := do
  expressionWithin (← get).limit

/-! ### Definitions -/

/-- One more keyword of a header and its parameter. -/
def keywordStep (read : Array (Token × Token) × Bool) :
    Reader ((Array (Token × Token) × Bool) × Bool) := do
  if (← kind) ≠ .keyword then return ((read.1, true), false)
  let keyword ← next
  match ← expectIdentifier with
  | some parameter => return ((read.1.push (keyword, parameter), true), true)
  | none => return ((read.1, false), false)

/-- The rest of a keyword header, as long as each keyword has its parameter. -/
def keywordSignature : Reader (Option Signature) := do
  let (parts, complete) ← loop keywordStep (#[], true)
  return if complete then some (.keyword parts.toList) else none

def signature : Reader (Option Signature) := do
  match ← kind with
  | .identifier => return some (.unary (← next))
  | .operator =>
    let operator ← next
    return (← expectIdentifier).map (.binary operator)
  | .keyword => keywordSignature
  | _ =>
    report .expectedMethod
    return none

/-- The body of a method that names a built-in operation, whose opening sign is next. -/
def primitiveBody : Reader (Option (MethodBody Unit)) := do
  skip
  if !(← isText .keyword "primitive:") then
    report .expectedPrimitive
    return none
  skip
  match ← expect .symbol with
  | none => return none
  | some name =>
    if ← isText .operator ">" then skip else report .expectedPrimitive
    return some (.primitive name)

def methodBody : Reader (Option (MethodBody Unit)) := do
  if ← isText .operator "<" then
    primitiveBody
  else
    match ← expect .leftSquare with
    | none => return none
    | some _ =>
      let code ← body expression
      let _ ← expect .rightSquare
      return some (.code code)

/-- The word in front of a method of the class itself. -/
@[reducible] def classMark : Reader (Option Token) := do
  if (← kind) = .classWord then return some (← next) else return none

/-- A method definition. There is none if its header or the start of its body is wrong. -/
def method : Reader (Option (MethodDef Unit)) := do
  let classWord ← classMark
  match ← signature with
  | none => return none
  | some signature =>
    return (← methodBody).map fun body => ⟨classWord, signature, body⟩

def classHeader (word : Token) : Reader (Token × Option Token) := do
  if (← kind) = .keyword then
    let name ← next
    return (name, ← expectIdentifier)
  let name ← expectIdentifier
  let superclass ← if ← accept .colon then expectIdentifier else pure none
  return (name.getD word, superclass)

/-- One more method of a class. What is no method is skipped. -/
def methodStep (methods : Array (MethodDef Unit)) : Reader (Array (MethodDef Unit)) := do
  match ← method with
  | some m => return methods.push m
  | none =>
    skip
    return methods

/-- The rest of a class, behind its opening bracket. -/
def classRest (word name : Token) (superclass : Option Token) : Reader (ClassDef Unit) := do
  let fields ← optionalDeclarations
  let methods ← loopWhile (fun k => k ≠ .rightSquare && k ≠ .endOfFile) methodStep #[]
  let closing ← expect .rightSquare
  return ⟨word, name, superclass, fields, methods.toList, closing⟩

/-- **A class definition**, whose first word is next. -/
def classDef : Reader (ClassDef Unit) := do
  let word ← next
  let (name, superclass) ← classHeader word
  match ← expect .leftSquare with
  | none => return ⟨word, name, superclass, [], [], none⟩
  | some _ => classRest word name superclass

@[reducible] def classStep (classes : Array (ClassDef Unit)) : Reader (Array (ClassDef Unit)) :=
  return classes.push (← classDef)

def fileEnd : Reader Unit := do
  match ← kind with
  | .endOfFile => return ()
  | .classWord => report .classAfterStatements
  | _ => report (.expected .endOfFile)

def program : Reader (List (ClassDef Unit) × Body Unit) := do
  let classes ← loopWhile (· = .classWord) classStep #[]
  let main ← body expression
  fileEnd
  return (classes.toList, main)

end Reader

namespace Program

/-- The program that some tokens of a source spell. -/
def ofTokens (source : String) (tokens : List Token) : Program :=
  let atEnd := Token.atEnd source.utf8ByteSize
  let ((classes, main), final) :=
    Reader.program.run ⟨tokens, atEnd, atEnd, #[], tokens.length + 1, false⟩
  ⟨source, tokens, classes, main, final.errors.toList⟩

/-- **Read a source.** -/
def parse (source : String) : Program :=
  ofTokens source (Token.withoutComments (Token.scan source))

end Program

end Smalltalk
