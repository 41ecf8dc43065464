/-
**Declaring the names of a program.**

All classes, fields, methods, blocks and variables of a program are declared before any code is
written, so that a method can use a class that is defined after it. The top-level statements
become a method of a class of their own.

What is left to compile is a list of jobs: the methods with code, with the scopes of their blocks
noted in the tree. A method with a mistake in its declarations has failed, and will get no code.

* `Declaring` — declaring names and reporting mistakes;
* `Declaring.declareExpr`, `declareStatement` — **declare the blocks of a tree**;
* `Job` — a method whose code is to be written;
* `Declaring.declareMethod`, `declareClass`, `declareProgram` — **declare everything**.
-/

import Smalltalk.Compile.Error
import Smalltalk.Scope.Lookup
import Smalltalk.Tree.Span

namespace Smalltalk

def mainClass : String := "MainClass"

def mainMethod : String := "main"

structure Declarations where
  table : SymbolTable
  errors : Array CompileError
  /-- The methods that have failed. -/
  failed : List ScopeId

abbrev Declaring := StateM Declarations

/-- A method whose names are declared. -/
structure Job where
  scope : ScopeId
  /-- The body, whose blocks are noted with their scopes. -/
  body : Body ScopeId
  span : Span
deriving Inhabited

namespace Declaring

/-! ### Basic steps -/

def report (cause : CompileError.Cause) (span : Span) : Declaring Unit :=
  modify fun ⟨table, errors, failed⟩ => ⟨table, errors.push ⟨cause, span⟩, failed⟩

/-- The method that a scope belongs to has failed. -/
def fail (scope : ScopeId) : Declaring Unit :=
  modify fun ⟨table, errors, failed⟩ => ⟨table, errors, table.fail failed scope⟩

def ask {α : Type} (f : SymbolTable → α) : Declaring α := fun s => (f s.table, s)

def change {α : Type} (f : SymbolTable → α × SymbolTable) : Declaring α :=
  fun ⟨table, errors, failed⟩ =>
    let (result, table) := f table
    (result, ⟨table, errors, failed⟩)

/-! ### Variables and blocks -/

/-- The mistake of a declaration that fails. -/
def causeOf (name scope : String) : DeclarationError → CompileError.Cause
  | .duplicate => .redefinition name scope
  | .tooMany => .tooManyVariables scope

def declareVariable (scope : ScopeId) (kind : SymbolKind) (name : Token) : Declaring Unit := do
  match ← change fun table => table.declare scope name.name kind with
  | .ok _ => pure ()
  | .error e => do
    let place ← ask fun table => table.qualifiedName scope
    report (causeOf name.name place e) name.span
    fail scope

def declareVariables (scope : ScopeId) (kind : SymbolKind) : List Token → Declaring Unit
  | [] => pure ()
  | name :: names => do
    declareVariable scope kind name
    declareVariables scope kind names

def declareBlock (scope : ScopeId) : Declaring ScopeId :=
  change fun table =>
    let (_, body, table) := table.declareBlock scope
    (body, table)

mutual

/-- **Declare the blocks of an expression**, each before those inside of it. -/
def declareExpr (scope : ScopeId) : Expr Unit → Declaring (Expr ScopeId)
  | .array opening items closing => do
    return .array opening (← declareExprs scope [] items) closing
  | .block opening parameters locals statements closing _ => do
    let body ← declareBlock scope
    declareVariables body .argument parameters
    declareVariables body .localVariable locals
    return .block opening parameters locals (← declareStatements body [] statements) closing body
  | .group opening inner closing => do return .group opening (← declareExpr scope inner) closing
  | .literal first last value => pure (.literal first last value)
  | .unary receiver selector => do return .unary (← declareExpr scope receiver) selector
  | .binary receiver operator argument => do
    let receiver ← declareExpr scope receiver
    return .binary receiver operator (← declareExpr scope argument)
  | .keyword receiver keywords arguments => do
    let receiver ← declareExpr scope receiver
    return .keyword receiver keywords (← declareExprs scope [] arguments)
  | .super word => pure (.super word)
  | .variable name => pure (.variable name)
  | .invalid found => pure (.invalid found)

/-- Declare the blocks of some expressions; `done` are those before, the last one first. -/
def declareExprs (scope : ScopeId) (done : List (Expr ScopeId)) :
    List (Expr Unit) → Declaring (List (Expr ScopeId))
  | [] => pure done.reverse
  | e :: es => do
    let e ← declareExpr scope e
    declareExprs scope (e :: done) es

def declareStatement (scope : ScopeId) : Statement Unit → Declaring (Statement ScopeId)
  | .assignment target value => do return .assignment target (← declareExpr scope value)
  | .answer caret value => do return .answer caret (← declareExpr scope value)
  | .expression value => do return .expression (← declareExpr scope value)

/-- Declare the blocks of some statements; `done` are those before, the last one first. -/
def declareStatements (scope : ScopeId) (done : List (Statement ScopeId)) :
    List (Statement Unit) → Declaring (List (Statement ScopeId))
  | [] => pure done.reverse
  | s :: ss => do
    let s ← declareStatement scope s
    declareStatements scope (s :: done) ss

end

def declareBody (scope : ScopeId) (body : Body Unit) : Declaring (Body ScopeId) := do
  declareVariables scope .localVariable body.locals
  return ⟨body.locals, ← declareStatements scope [] body.statements⟩

/-! ### Methods -/

/-- Open the scope of a method and declare the method in its class. A class that is full does
not get the method. -/
def openMethod (scope : ScopeId) (selector : String) (classSide : Bool) : Declaring ScopeId :=
  change fun table =>
    let (body, table) := table.addScope selector (.method classSide 0) scope
    (body, (table.declareMethod scope selector (.method body classSide)).2)

def declareCode (scope : ScopeId) (selector : String) (classSide : Bool) (parameters : List Token)
    (body : Body Unit) (span : Span) : Declaring Job := do
  let method ← openMethod scope selector classSide
  declareVariables method .argument parameters
  return ⟨method, ← declareBody method body, span⟩

def declarePrimitive (scope : ScopeId) (m : MethodDef Unit) (name : Token) : Declaring Unit := do
  match Primitive.ofName? name.symbolText with
  | none => do
    let place ← ask fun table => table.qualifiedName scope
    report (.unknownPrimitive name.symbolText (place ++ ">>" ++ m.selector)) name.span
  | some operation =>
    let arguments := min m.parameters.length 65535
    change fun table =>
      let kind := .primitive operation m.isClassSide arguments
      ((), (table.declareMethod scope m.selector kind).2)

/-- **Declare a method** of a class. The first of two with one selector is kept. -/
def declareMethod (scope : ScopeId) (m : MethodDef Unit) : Declaring (Option Job) := do
  if ← ask fun table => table.hasMethod scope m.selector m.isClassSide then
    let className ← ask fun table => (table.scope scope).name
    report (.methodRedefinition m.selector className) m.headerSpan
    return none
  else
    match m.body with
    | .primitive name => do
      declarePrimitive scope m name
      return none
    | .code body =>
      return some (← declareCode scope m.selector m.isClassSide m.parameters body m.headerSpan)

def declareMethods (scope : ScopeId) (jobs : Array Job) :
    List (MethodDef Unit) → Declaring (Array Job)
  | [] => pure jobs
  | m :: ms => do
    match ← declareMethod scope m with
    | some job => declareMethods scope (jobs.push job) ms
    | none => declareMethods scope jobs ms

/-! ### Classes -/

/-- The superclass of a class that names none: `Object`, if there is one by then. -/
def defaultSuperclass (name : String) : Declaring (Option ScopeId) :=
  ask fun table => if name = "Object" then none else table.classNamed? "Object"

def openClass (name : String) (superclass : Option ScopeId) : Declaring ScopeId :=
  change fun table =>
    let inherited := (superclass.map fun s => (table.scope s).kind.fieldCount).getD 0
    let (scope, table) := table.addScope name (.classOf superclass inherited ∅ ∅) SymbolTable.global
    (scope, (table.declare SymbolTable.global name (.classOf scope)).2)

/-- The superclass that a class names, or else the one it has by default. -/
def findSuperclass (c : ClassDef Unit) : Declaring (Option ScopeId) := do
  match c.superclass with
  | none => defaultSuperclass c.name
  | some superclass => do
    match ← ask fun table => table.classNamed? superclass.name with
    | some scope => return some scope
    | none => do
      report (.unknownSuperclass superclass.name c.name) superclass.span
      defaultSuperclass c.name

/-- **Declare a class** with its fields and methods, and add their jobs to those before. The
first of two with one name is kept. -/
def declareClass (jobs : Array Job) (c : ClassDef Unit) : Declaring (Array Job) := do
  if c.name = mainClass then
    report .reservedClassName c.nameToken.span
    return jobs
  else if (← ask fun table => table.classNamed? c.name).isSome then
    report (.classRedefinition c.name) c.nameToken.span
    return jobs
  else
    let scope ← openClass c.name (← findSuperclass c)
    declareVariables scope .field c.fields
    declareMethods scope jobs c.methods

def declareClasses (jobs : Array Job) : List (ClassDef Unit) → Declaring (Array Job)
  | [] => pure jobs
  | c :: cs => do
    let jobs ← declareClass jobs c
    declareClasses jobs cs

def declareMain (jobs : Array Job) (body : Body Unit) : Declaring (Array Job) := do
  if (← ask fun table => table.classNamed? mainClass).isSome then
    report (.classRedefinition mainClass) Span.missing
    return jobs
  else
    let scope ← openClass mainClass (← defaultSuperclass mainClass)
    return jobs.push (← declareCode scope mainMethod false [] body Span.missing)

/-- **Declare everything** in a program. -/
def declareProgram (p : Program) : Declaring (Array Job) := do
  let jobs ← declareClasses #[] p.classes
  if p.hasMain then declareMain jobs p.main else return jobs

end Declaring

end Smalltalk
