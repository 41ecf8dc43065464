/-
**Scopes and symbols.**

The names that a program declares live in scopes. The global scope holds the classes, a class the
fields and methods, a method or block its arguments and local variables. Scopes and symbols are
numbered in the order in which they are made, and refer to each other by number; a scope is only
ever nested in, or a subclass of, a scope that was there before it.

Fields are numbered after those of the superclasses, arguments and local variables share one
numbering, and blocks are numbered within their method. These numbers are where the variables and
blocks are found when the program runs.

* `Symbol`, `Scope`, `SymbolTable` — what has been declared;
* `SymbolTable.addScope` — open a scope;
* `SymbolTable.declare` — **declare a class or a variable**;
* `SymbolTable.declareMethod` — **declare a method**, on either side of its class;
* `SymbolTable.declareBlock` — **declare a block**, numbered within its method;
* `SymbolTable.setCode` — keep the code of a method.

An operation that can fail also answers the table, which it leaves as it was if it fails.
-/

import Smalltalk.Code.Compiled

namespace Smalltalk

abbrev ScopeId := Nat

abbrev SymbolId := Nat

/-! ### Symbols -/

inductive SymbolKind where
  | classOf (body : ScopeId)
  | method (body : ScopeId) (classSide : Bool)
  | primitive (operation : Primitive) (classSide : Bool) (arguments : Nat)
  | block (body : ScopeId)
  | field
  | argument
  | localVariable
deriving DecidableEq, Repr, Inhabited

namespace SymbolKind

def isVariable : SymbolKind → Bool
  | field | argument | localVariable => true
  | _ => false

/-- The side of a method; what is no method counts as one of instances. -/
def isClassSide : SymbolKind → Bool
  | method _ classSide | primitive _ classSide _ => classSide
  | _ => false

def isMethodOf (classSide : Bool) : SymbolKind → Bool
  | method _ side | primitive _ side _ => side = classSide
  | _ => false

end SymbolKind

structure Symbol where
  name : String
  kind : SymbolKind
  scope : ScopeId
  /-- Its number among the declarations of its kind. -/
  index : Nat
deriving DecidableEq, Repr, Inhabited

/-! ### Scopes -/

abbrev SymbolMap := Std.TreeMap String SymbolId

inductive ScopeKind where
  | global
  /-- A class: its superclass, its fields with the inherited ones counted, and its methods. -/
  | classOf (superclass : Option ScopeId) (fieldCount : Nat) (methods classMethods : SymbolMap)
  /-- A method, and the number of blocks anywhere inside of it. -/
  | method (classSide : Bool) (blockCount : Nat)
  | block (index : Nat)
deriving Inhabited

namespace ScopeKind

def methods? (classSide : Bool) : ScopeKind → Option SymbolMap
  | classOf _ _ methods classMethods => some (if classSide then classMethods else methods)
  | _ => none

def addMethod (classSide : Bool) (selector : String) (id : SymbolId) : ScopeKind → ScopeKind
  | classOf superclass fieldCount methods classMethods =>
    if classSide then classOf superclass fieldCount methods (classMethods.insert selector id)
    else classOf superclass fieldCount (methods.insert selector id) classMethods
  | kind => kind

/-- Count one more field of a class. -/
def addField : ScopeKind → ScopeKind
  | classOf superclass fieldCount methods classMethods =>
    classOf superclass (fieldCount + 1) methods classMethods
  | kind => kind

/-- Count one more block of a method, if there is a number left. -/
def addBlock (capacity : Nat) : ScopeKind → ScopeKind
  | method classSide blockCount => method classSide (min (blockCount + 1) capacity)
  | kind => kind

/-- The number of fields of a class, with the inherited ones. -/
def fieldCount : ScopeKind → Nat
  | classOf _ count _ _ => count
  | _ => 0

/-- The number of blocks that a method has counted. -/
def blockCount : ScopeKind → Nat
  | method _ count => count
  | _ => 0

def isClass : ScopeKind → Bool
  | classOf .. => true
  | _ => false

def isMethod : ScopeKind → Bool
  | method .. => true
  | _ => false

def isBlock : ScopeKind → Bool
  | block _ => true
  | _ => false

def isGlobal : ScopeKind → Bool
  | global => true
  | _ => false

/-- Is it a method or a block, which have variables of their own when they run? -/
def isActivation (kind : ScopeKind) : Bool := kind.isMethod || kind.isBlock

end ScopeKind

structure Scope where
  /-- The name of the class, the selector of the method, or the name of the block. -/
  name : String
  kind : ScopeKind
  /-- The scope around it, which only the global scope lacks. -/
  enclosing : Option ScopeId
  symbols : Array SymbolId
  names : SymbolMap
  slotCount : Nat
  argumentCount : Nat
  code : Option CompiledCode
deriving Inhabited

namespace Scope

def new (name : String) (kind : ScopeKind) (enclosing : Option ScopeId) : Scope :=
  ⟨name, kind, enclosing, #[], ∅, 0, 0, none⟩

def localCount (s : Scope) : Nat := s.slotCount - s.argumentCount

end Scope

/-! ### The table -/

inductive DeclarationError where
  | duplicate
  | tooMany
deriving DecidableEq, Repr, Inhabited

structure SymbolTable where
  scopes : Array Scope
  symbols : Array Symbol

namespace SymbolTable

def global : ScopeId := 0

def new : SymbolTable := ⟨#[Scope.new "" .global none], #[]⟩

instance : Inhabited SymbolTable := ⟨new⟩

def scope (t : SymbolTable) (id : ScopeId) : Scope := t.scopes.getD id default

def symbol (t : SymbolTable) (id : SymbolId) : Symbol := t.symbols.getD id default

def modifyScope (t : SymbolTable) (id : ScopeId) (f : Scope → Scope) : SymbolTable :=
  { t with scopes := t.scopes.modify id f }

/-- How many variables or fields a scope can have. -/
def capacity : Nat := 65535

/-- How many methods one side of a class can have. -/
def methodCapacity : Nat := 65536

/-- **Open a scope.** -/
def addScope (t : SymbolTable) (name : String) (kind : ScopeKind) (enclosing : ScopeId) :
    ScopeId × SymbolTable :=
  (t.scopes.size, { t with scopes := t.scopes.push (Scope.new name kind (some enclosing)) })

/-- Add a symbol to a scope, which is changed by `f` besides. -/
def addSymbol (t : SymbolTable) (s : Symbol) (f : SymbolId → Scope → Scope) :
    SymbolId × SymbolTable :=
  let id := t.symbols.size
  let added : SymbolTable := { t with symbols := t.symbols.push s }
  (id, added.modifyScope s.scope fun scope =>
    f id { scope with symbols := scope.symbols.push id })

/-- Add a symbol that is found by its name to a scope, which is changed by `f` besides. -/
def addNamed (t : SymbolTable) (s : Symbol) (f : Scope → Scope) :
    Except DeclarationError SymbolId × SymbolTable :=
  let (id, t) := t.addSymbol s fun id scope =>
    f { scope with names := scope.names.insert s.name id }
  (.ok id, t)

def countSlot (isArgument : Bool) (s : Scope) : Scope :=
  { s with
    slotCount := s.slotCount + 1
    argumentCount := if isArgument then s.argumentCount + 1 else s.argumentCount }

def countField (s : Scope) : Scope := { s with kind := s.kind.addField }

def countBlock (s : Scope) : Scope := { s with kind := s.kind.addBlock capacity }

/-- **Declare a class or a variable** in a scope. It fails if the name is taken in this very
scope, or if there is no number left for a variable. -/
def declare (t : SymbolTable) (scope : ScopeId) (name : String) (kind : SymbolKind) :
    Except DeclarationError SymbolId × SymbolTable :=
  if (t.scope scope).names.contains name then (.error .duplicate, t)
  else
    match kind with
    | .field =>
      if (t.scope scope).kind.isClass then
        let index := (t.scope scope).kind.fieldCount
        if index < capacity then t.addNamed ⟨name, kind, scope, index⟩ countField
        else (.error .tooMany, t)
      else t.addNamed ⟨name, kind, scope, 0⟩ id
    | .argument | .localVariable =>
      let index := (t.scope scope).slotCount
      if index < capacity then
        t.addNamed ⟨name, kind, scope, index⟩ (countSlot (kind = .argument))
      else (.error .tooMany, t)
    | _ => t.addNamed ⟨name, kind, scope, 0⟩ id

def methodMap? (t : SymbolTable) (scope : ScopeId) (classSide : Bool) : Option SymbolMap :=
  (t.scope scope).kind.methods? classSide

/-- **Declare a method** in a class, on the side that its kind says. It fails if the scope is no
class, if the selector is taken on this side, or if there are too many methods. -/
def declareMethod (t : SymbolTable) (scope : ScopeId) (selector : String) (kind : SymbolKind) :
    Except DeclarationError SymbolId × SymbolTable :=
  let classSide := kind.isClassSide
  match t.methodMap? scope classSide with
  | none => (.error .duplicate, t)
  | some methods =>
    if methods.contains selector then (.error .duplicate, t)
    else if methods.size < methodCapacity then
      let (id, t) := t.addSymbol ⟨selector, kind, scope, methods.size⟩ fun id s =>
        { s with kind := s.kind.addMethod classSide selector id }
      (.ok id, t)
    else (.error .tooMany, t)

def hasMethod (t : SymbolTable) (scope : ScopeId) (selector : String) (classSide : Bool) : Bool :=
  (t.methodMap? scope classSide).any (·.contains selector)

def setCode (t : SymbolTable) (scope : ScopeId) (code : CompiledCode) : SymbolTable :=
  t.modifyScope scope fun s => { s with code := some code }

/-! ### Chains of scopes -/

/-- At most `n` numbers, from one to the next. -/
def chainFrom (next : ScopeId → Option ScopeId) : Nat → ScopeId → List ScopeId
  | 0, _ => []
  | n + 1, s =>
    s :: match next s with
      | some s => chainFrom next n s
      | none => []

/-- A scope and those around it, from the inside out. Each is older than the one before, so the
number of the scope bounds their number. -/
def outward (t : SymbolTable) (scope : ScopeId) : List ScopeId :=
  chainFrom (fun s => (t.scope s).enclosing) (scope + 1) scope

def superclass? (t : SymbolTable) (scope : ScopeId) : Option ScopeId :=
  match (t.scope scope).kind with
  | .classOf superclass .. => superclass
  | _ => none

/-- A class and its superclasses, from the class up. Each is older than the one before. -/
def lineage (t : SymbolTable) (scope : ScopeId) : List ScopeId :=
  chainFrom t.superclass? (scope + 1) scope

/-- The method a scope belongs to, which is itself if it is a method. -/
def enclosingMethod? (t : SymbolTable) (scope : ScopeId) : Option ScopeId :=
  match (t.outward scope).dropWhile fun s => (t.scope s).kind.isBlock with
  | s :: _ => if (t.scope s).kind.isMethod then some s else none
  | [] => none

/-- The methods that have failed, with the one that a scope belongs to, if any. -/
def fail (t : SymbolTable) (failed : List ScopeId) (scope : ScopeId) : List ScopeId :=
  (t.enclosingMethod? scope).toList ++ failed

/-- **Declare a block** in a method or block, and open its scope. It takes the next number of the
method it is in; the last number there is may be given twice. -/
def declareBlock (t : SymbolTable) (enclosing : ScopeId) : SymbolId × ScopeId × SymbolTable :=
  let method := (t.enclosingMethod? enclosing).getD enclosing
  let index := (t.scope method).kind.blockCount
  let t := t.modifyScope method countBlock
  let name := "block" ++ toString index
  let (body, t) := t.addScope name (.block index) enclosing
  let (id, t) := t.addSymbol ⟨name, .block body, enclosing, index⟩ fun _ s => s
  (id, body, t)

end SymbolTable

end Smalltalk
