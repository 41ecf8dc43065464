/-
**Finding what a name refers to.**

A name is looked up in a scope, then in the superclasses if the scope is a class, and then in the
scopes around it. In a class, fields come before the methods of instances, so that a field may
share its name with the method that reads it.

* `SymbolTable.resolve?` — **the symbol a name refers to**;
* `SymbolTable.classNamed?`, `classes`, `methods`, `fields` — what has been declared;
* `SymbolTable.enclosingClass?`, `depth?`, `qualifiedName` — where a scope is;
* `SymbolTable.codeOf?` — **the code of a method**, inherited or not;
* `SymbolTable.listing` — all classes with their fields and methods.
-/

import Smalltalk.Scope.Table

namespace Smalltalk.SymbolTable

/-! ### Names -/

/-- The symbol a name refers to in a scope or its superclasses: a class or variable before a
method of instances. -/
def findIn? (t : SymbolTable) (name : String) (scope : ScopeId) : Option SymbolId :=
  let lineage := t.lineage scope
  (lineage.findSome? fun s => (t.scope s).names[name]?) <|>
    lineage.findSome? fun s => (t.methodMap? s false).bind fun methods => methods[name]?

/-- **The symbol a name refers to**, from the scope outward. -/
def resolve? (t : SymbolTable) (scope : ScopeId) (name : String) : Option SymbolId :=
  (t.outward scope).findSome? (t.findIn? name)

/-! ### Classes -/

def classBody? (t : SymbolTable) (id : SymbolId) : Option ScopeId :=
  match (t.symbol id).kind with
  | .classOf body => some body
  | _ => none

def classNamed? (t : SymbolTable) (name : String) : Option ScopeId :=
  (t.scope global).names[name]?.bind t.classBody?

/-- The scopes of all classes, in the order of their declaration. -/
def classes (t : SymbolTable) : List ScopeId :=
  (t.scope global).symbols.toList.filterMap t.classBody?

def methods (t : SymbolTable) (scope : ScopeId) (classSide : Bool) : List SymbolId :=
  (t.scope scope).symbols.toList.filter fun id => (t.symbol id).kind.isMethodOf classSide

/-- The fields of a class, the inherited ones first. -/
def fields (t : SymbolTable) (scope : ScopeId) : List SymbolId :=
  ((t.lineage scope).reverse.flatMap fun s => (t.scope s).symbols.toList).filter fun id =>
    (t.symbol id).kind = .field

/-! ### Places -/

/-- The class a scope belongs to, which is itself if it is a class. -/
def enclosingClass? (t : SymbolTable) (scope : ScopeId) : Option ScopeId :=
  (t.outward scope).find? fun s => (t.scope s).kind.isClass

/-- How many activations lie between the code of a scope and the scope of a variable. -/
def depth? (t : SymbolTable) (start stop : ScopeId) : Option Nat :=
  let chain := t.outward start
  let inner := chain.takeWhile (· ≠ stop)
  if inner.length < chain.length && inner.all fun s => (t.scope s).kind.isActivation then
    some inner.length
  else none

/-- The name of a scope with the names of the scopes around it in front. -/
def qualifiedName (t : SymbolTable) (scope : ScopeId) : String :=
  let scopes := (t.outward scope).filter fun s => !(t.scope s).kind.isGlobal
  ">>".intercalate (scopes.reverse.map fun s => (t.scope s).name)

/-! ### Code -/

def methodCode? (t : SymbolTable) (id : SymbolId) : Option CompiledCode :=
  match (t.symbol id).kind with
  | .method body _ => (t.scope body).code
  | _ => none

/-- **The code of a method** of a class, or of the first of its superclasses that has the method.
A built-in operation has no code. -/
def codeOf? (t : SymbolTable) (className selector : String) (classSide : Bool) :
    Option CompiledCode := do
  let scope ← t.classNamed? className
  let id ← (t.lineage scope).findSome? fun s =>
    (t.methodMap? s classSide).bind fun methods => methods[selector]?
  t.methodCode? id

/-- The code of the methods of a class itself, those of instances first. -/
def codesOf (t : SymbolTable) (className : String) : List CompiledCode :=
  match t.classNamed? className with
  | none => []
  | some scope => (t.methods scope false ++ t.methods scope true).filterMap t.methodCode?

/-! ### Listing -/

/-- The lines of a class: its name, its fields and its methods. -/
def classListing (t : SymbolTable) (scope : ScopeId) : String :=
  let name (id : SymbolId) : String := (t.symbol id).name
  let heading :=
    match t.superclass? scope with
    | some superclass => "class " ++ (t.scope scope).name ++ " : " ++ (t.scope superclass).name
    | none => "class " ++ (t.scope scope).name
  let fields := t.fields scope
  let fieldLines :=
    if fields.isEmpty then [] else ["  fields: " ++ " ".intercalate (fields.map name)]
  let methodLines :=
    (t.methods scope false).map (fun id => "  " ++ name id)
      ++ (t.methods scope true).map (fun id => "  class " ++ name id)
  String.join ((heading :: fieldLines ++ methodLines).map (· ++ "\n"))

/-- **All classes** with their fields and methods. -/
def listing (t : SymbolTable) : String := String.join (t.classes.map t.classListing)

end Smalltalk.SymbolTable
