/-
**Classes.**

A class of a running program knows its superclass, the names of its fields and the methods of its
two sides: those of its instances and those of the class itself. A message that the class and its
superclasses do not know is looked for in two classes that serve all objects.

* `Method` — a method, and where it is declared;
* `Class`, `Class.lineage` — a class, and the classes it inherits from;
* `Class.lookup?` — **the method for a selector**, inherited or not;
* `ClassTable` — all classes, by name and in order;
* `ClassTable.findMethod?` — the method for a message;
* `ClassTable.ofSymbols` — **the classes of a compiled program**.
-/

import Smalltalk.Scope.Lookup

namespace Smalltalk

/-! ### Methods and classes -/

/-- Where a method is declared, which tells it from every other method. -/
structure MethodAddress where
  className : String
  classSide : Bool
  selector : String
deriving DecidableEq, Repr, Inhabited

structure Method where
  address : MethodAddress
  code : CompiledCode
deriving Inhabited

structure Class where
  name : String
  superclass : Option Class
  /-- The names of the fields of an instance, the inherited ones first. -/
  fields : List String
  /-- The methods of instances that are declared in this very class. -/
  methods : Std.TreeMap String Method
  /-- The methods of the class itself that are declared in this very class. -/
  classMethods : Std.TreeMap String Method
deriving Inhabited

namespace Class

def side (c : Class) (classSide : Bool) : Std.TreeMap String Method :=
  if classSide then c.classMethods else c.methods

/-- **The class and its superclasses**, from the class up. -/
def lineage (c : Class) : List Class :=
  c :: match c with
    | ⟨_, some superclass, _, _, _⟩ => superclass.lineage
    | ⟨_, none, _, _, _⟩ => []

/-- **The method for a selector** in the class or the nearest of its superclasses that has one. -/
def lookup? (c : Class) (selector : String) (classSide : Bool) : Option Method :=
  c.lineage.findSome? fun d => (d.side classSide)[selector]?

/-- The lines of a class: its name, its fields and its selectors in order. -/
def listing (c : Class) : String :=
  let heading :=
    match c.superclass with
    | some superclass => c.name ++ " : " ++ superclass.name
    | none => c.name
  let fieldLines := if c.fields.isEmpty then [] else ["  fields: " ++ " ".intercalate c.fields]
  let methodLines :=
    c.methods.keys.map (fun selector => "  " ++ selector)
      ++ c.classMethods.keys.map (fun selector => "  class " ++ selector)
  String.join ((heading :: fieldLines ++ methodLines).map (· ++ "\n"))

end Class

/-! ### The table of classes -/

structure ClassTable where
  /-- The classes, in the order of their declaration. -/
  classes : Array Class
  byName : Std.TreeMap String Class
deriving Inhabited

namespace ClassTable

def empty : ClassTable := ⟨#[], ∅⟩

def get? (t : ClassTable) (name : String) : Option Class := t.byName[name]?

def size (t : ClassTable) : Nat := t.classes.size

def insert (t : ClassTable) (c : Class) : ClassTable :=
  ⟨t.classes.push c, t.byName.insert c.name c⟩

/-- The classes that serve all objects. -/
def shared : List String := ["Object", "Collection"]

/-- The method for a message to an object of a class, which may be unknown. -/
def findMethod? (t : ClassTable) (c : Option Class) (selector : String) (classSide : Bool) :
    Option Method :=
  c.bind (·.lookup? selector classSide) <|>
    (shared.filterMap t.get?).findSome? (·.lookup? selector classSide)

def listing (t : ClassTable) : String := String.join (t.classes.toList.map Class.listing)

/-! ### From symbols to classes -/

/-- The code of a method of a class, if it has any. -/
def codeOf? (symbols : SymbolTable) (className : String) (s : Symbol) : Option CompiledCode :=
  match s.kind with
  | .method body _ => (symbols.scope body).code
  | .primitive operation classSide arguments =>
    some (CompiledCode.ofPrimitive (className ++ ">>" ++ s.name) className operation arguments
      classSide)
  | _ => none

/-- One more method of a class. A method without code is left out. -/
def addMethod (symbols : SymbolTable) (className : String) (classSide : Bool)
    (methods : Std.TreeMap String Method) (id : SymbolId) : Std.TreeMap String Method :=
  let s := symbols.symbol id
  match codeOf? symbols className s with
  | some code => methods.insert s.name ⟨⟨className, classSide, s.name⟩, code⟩
  | none => methods

/-- The methods of one side of a class. -/
def methodsOf (symbols : SymbolTable) (scope : ScopeId) (className : String) (classSide : Bool) :
    Std.TreeMap String Method :=
  (symbols.methods scope classSide).foldl (addMethod symbols className classSide) ∅

/-- The class of a scope, whose superclass is already in the table. -/
def classOf (symbols : SymbolTable) (t : ClassTable) (scope : ScopeId) : Class :=
  let name := (symbols.scope scope).name
  let superclass := (symbols.superclass? scope).bind fun s => t.get? (symbols.scope s).name
  ⟨name, superclass, (symbols.fields scope).map fun id => (symbols.symbol id).name,
    methodsOf symbols scope name false, methodsOf symbols scope name true⟩

/-- **The classes of a compiled program.** -/
def ofSymbols (symbols : SymbolTable) : ClassTable :=
  symbols.classes.foldl (fun t scope => t.insert (classOf symbols t scope)) empty

end ClassTable

end Smalltalk
