/-
**Writing the code of a method.**

An expression becomes instructions that leave its value on the operand stack, a statement
instructions that leave one value as well, and statements are parted by instructions that drop the
value in between. Blocks have instructions and literals of their own; their code is kept in one
table for the whole method.

With marks switched on, instructions that can fail are preceded by their place in the source.

* `CodeContext` — what does not change while a method is written;
* `Emission`, `Emitting` — **what has been written so far**;
* `CodeContext.emitExpr`, `emitStatement` — **write a tree**;
* `CodeContext.methodCode` — **the code of a method**.
-/

import Smalltalk.Compile.Declare
import Smalltalk.Source.Lines

namespace Smalltalk

/-! ### What is being written -/

structure CodeContext where
  table : SymbolTable
  lines : Lines
  /-- The name of the file, which is literal 0 of all code with marks. -/
  fileName : String
  marks : Bool

structure Emission where
  buffer : CodeBuffer
  /-- The blocks of the method that are finished, by number. -/
  blocks : Array (Option CompiledCode)

/-- Writing code, which ends at the first mistake. -/
abbrev Emitting := StateT Emission (Except CompileError)

namespace Emission

def putBlock (blocks : Array (Option CompiledCode)) (index : Nat) (code : CompiledCode) :
    Array (Option CompiledCode) :=
  (blocks ++ Array.replicate (index + 1 - blocks.size) none).setIfInBounds index (some code)

/-- The blocks of a finished method, if none is missing. -/
def allBlocks? (blocks : Array (Option CompiledCode)) : Option (Array CompiledCode) :=
  if blocks.all Option.isSome then some (blocks.filterMap id) else none

end Emission

namespace CodeContext

/-! ### Basic steps -/

def emit (i : Instruction) : Emitting Unit :=
  modify fun ⟨buffer, blocks⟩ => ⟨buffer.emit i, blocks⟩

def fail {α : Type} (c : CodeContext) (scope : ScopeId) (cause : String → CompileError.Cause)
    (span : Span) : Emitting α :=
  throw ⟨cause (c.table.qualifiedName scope), span⟩

def literal (c : CodeContext) (scope : ScopeId) (text : String) (span : Span) : Emitting UInt16 :=
  fun ⟨⟨instructions, literals⟩, blocks⟩ =>
    match literals.intern text with
    | (some position, literals) =>
      .ok (UInt16.ofNat position, ⟨⟨instructions, literals⟩, blocks⟩)
    | (none, _) => .error ⟨.tooManyLiterals (c.table.qualifiedName scope), span⟩

/-- A number that is written in two bytes, and the largest such number if it is too large. -/
def clamp (n : Nat) : UInt16 := UInt16.ofNat (min n 65535)

/-- Record the place of what is written next. -/
def mark (c : CodeContext) (span : Span) : Emitting Unit :=
  if c.marks then
    let place := c.lines.location span.start
    emit (.mark 0 (clamp place.line) (clamp place.column))
  else pure ()

def countOf (c : CodeContext) (scope : ScopeId) (count : Nat) (span : Span) : Emitting UInt16 :=
  if count < 65536 then pure (UInt16.ofNat count) else c.fail scope .tooManyItems span

/-- Where the code of a method or block starts: with the name of the file among the literals if
places are recorded. -/
def newBuffer (c : CodeContext) : CodeBuffer :=
  if c.marks then ⟨#[], (LiteralPool.empty.intern c.fileName).2⟩ else CodeBuffer.empty

def classNameOf (c : CodeContext) (scope : ScopeId) : String :=
  ((c.table.enclosingClass? scope).map fun s => (c.table.scope s).name).getD ""

def code (c : CodeContext) (scope : ScopeId) (buffer : CodeBuffer) (blocks : Array CompiledCode)
    (isClassMethod : Bool) : CompiledCode :=
  let s := c.table.scope scope
  ⟨c.table.qualifiedName scope, c.classNameOf scope, buffer.bytes, buffer.literals.texts,
    s.argumentCount, s.localCount, blocks, isClassMethod, none⟩

/-! ### Variables, literals and messages -/

def emitLiteral (c : CodeContext) (scope : ScopeId) (value : Literal) (span : Span) :
    Emitting Unit :=
  match value with
  | .nil => emit .pushNil
  | .boolean value => emit (if value then .pushTrue else .pushFalse)
  | .receiver => emit .pushSelf
  | .integer value => emit (.pushInteger value.toUInt32)
  | .float value => emit (.pushFloat value.bits)
  | .character value => emit (.pushCharacter value.val)
  | .string value | .symbol value => do emit (.pushLiteral (← c.literal scope value span))

/-- Where a variable is found from the code of a scope. -/
inductive Place where
  | field (index : Nat)
  | slot (depth index : Nat)
deriving DecidableEq, Repr

/-- Where the variable with a name is found, if the name is one of a variable. -/
def place? (c : CodeContext) (scope : ScopeId) (name : String) : Option Place :=
  match c.table.resolve? scope name with
  | none => none
  | some id =>
    let s := c.table.symbol id
    match s.kind with
    | .field => some (.field s.index)
    | .argument | .localVariable =>
      (c.table.depth? scope s.scope).map fun depth => .slot depth s.index
    | _ => none

/-- Push a variable, or a global if the name is not one of a variable. -/
def emitVariable (c : CodeContext) (scope : ScopeId) (name : Token) : Emitting Unit :=
  match c.place? scope name.text with
  | some (.field index) => emit (.pushField (UInt16.ofNat index))
  | some (.slot depth index) => emit (.pushLocal (UInt16.ofNat depth) (UInt16.ofNat index))
  | none => do
    c.mark name.span
    emit (.pushGlobal (← c.literal scope name.text name.span))

def emitStore (c : CodeContext) (scope : ScopeId) (target : Token) : Emitting Unit :=
  match c.place? scope target.name with
  | some (.field index) => emit (.storeField (UInt16.ofNat index))
  | some (.slot depth index) => emit (.storeLocal (UInt16.ofNat depth) (UInt16.ofNat index))
  | none => c.fail scope .invalidTree target.span

def emitSend (c : CodeContext) (scope : ScopeId) (toSuper : Bool) (selector : String)
    (count : Nat) (span : Span) : Emitting Unit := do
  let count ← c.countOf scope count span
  c.mark span
  let selector ← c.literal scope selector span
  emit (if toSuper then .sendSuper count selector else .send count selector)

def firstSpan : List Token → Span
  | [] => Span.missing
  | token :: _ => token.span

/-! ### Expressions and statements -/

def openBlock (c : CodeContext) : Emitting CodeBuffer :=
  fun ⟨buffer, blocks⟩ => .ok (buffer, ⟨c.newBuffer, blocks⟩)

/-- Finish a block, and go on with what was being written around it. -/
def closeBlock (c : CodeContext) (scope : ScopeId) (index : Nat) (outer : CodeBuffer) :
    Emitting Unit :=
  modify fun ⟨buffer, blocks⟩ =>
    ⟨outer.emit (.block (UInt16.ofNat index)),
      Emission.putBlock blocks index (c.code scope buffer #[] false)⟩

mutual

/-- **Write an expression.** -/
def emitExpr (c : CodeContext) (scope : ScopeId) : Expr ScopeId → Emitting Unit
  | .array opening items closing => do
    emitExprs c scope items
    let span := (Expr.array opening items closing).span
    emit (.pushArray (← c.countOf scope items.length span))
  | .block opening _ _ statements closing body =>
    match (c.table.scope body).kind with
    | .block index => do
      let outer ← c.openBlock
      if statements.isEmpty then emit .pushNil else emitStatements c body statements
      unless endsWithAnswer statements do emit .blockReturn
      c.closeBlock body index outer
    | _ =>
      let span :=
        match closing with
        | some closing => opening.span.merge closing.span
        | none => opening.span
      c.fail scope .invalidTree span
  | .group _ inner _ => emitExpr c scope inner
  | .literal first last value => c.emitLiteral scope value (first.span.merge last.span)
  | .unary receiver selector => do
    emitExpr c scope receiver
    c.emitSend scope receiver.isSuper selector.text 0 selector.span
  | .binary receiver operator argument => do
    emitExpr c scope receiver
    emitExpr c scope argument
    c.emitSend scope receiver.isSuper operator.text 1 operator.span
  | .keyword receiver keywords arguments => do
    emitExpr c scope receiver
    emitExprs c scope arguments
    c.emitSend scope receiver.isSuper (joinTexts keywords) arguments.length (firstSpan keywords)
  | .super _ => emit .pushSelf
  | .variable name => c.emitVariable scope name
  | .invalid found => c.fail scope .invalidTree found.span

def emitExprs (c : CodeContext) (scope : ScopeId) : List (Expr ScopeId) → Emitting Unit
  | [] => pure ()
  | e :: es => do
    emitExpr c scope e
    emitExprs c scope es

def emitStatement (c : CodeContext) (scope : ScopeId) : Statement ScopeId → Emitting Unit
  | .assignment target value => do
    emitExpr c scope value
    c.mark (target.span.merge value.span)
    c.emitStore scope target
  | .answer caret value => do
    emitExpr c scope value
    c.mark caret.span
    emit .methodReturn
  | .expression value => emitExpr c scope value

/-- Write some statements, and drop the value of each but the last. -/
def emitStatements (c : CodeContext) (scope : ScopeId) : List (Statement ScopeId) → Emitting Unit
  | [] => pure ()
  | s :: ss => do
    emitStatement c scope s
    unless ss.isEmpty do emit .pop
    emitStatements c scope ss

end

/-! ### Methods -/

def emitAnswerSelf (c : CodeContext) (span : Span) : Emitting Unit := do
  c.mark span
  emit .pushSelf
  emit .methodReturn

/-- Write the body of a method, which answers the receiver unless its last statement answers
something else. -/
def emitMethod (c : CodeContext) (job : Job) : Emitting Unit := do
  let statements := job.body.statements
  emitStatements c job.scope statements
  match statements.getLast? with
  | none => c.emitAnswerSelf job.span
  | some last =>
    unless last.isAnswer do
      emit .pop
      c.emitAnswerSelf last.span

/-- **The code of a method.** -/
def methodCode (c : CodeContext) (job : Job) : Except CompileError CompiledCode := do
  let (_, ⟨buffer, blocks⟩) ← (c.emitMethod job).run ⟨c.newBuffer, #[]⟩
  match Emission.allBlocks? blocks with
  | none => throw ⟨.invalidTree (c.table.qualifiedName job.scope), job.span⟩
  | some blocks =>
    let classSide :=
      match (c.table.scope job.scope).kind with
      | .method classSide _ => classSide
      | _ => false
    return c.code job.scope buffer blocks classSide

end CodeContext

end Smalltalk
