/-
**Values.**

Numbers, characters and strings are held directly. Arrays, objects and the variables of
activations live elsewhere and are referred to by number, so that all who hold the value see a
change of the contents.

Two strings with the same contents may be different objects: each literal of some code is one
object, and every operation that makes a string makes a new one.

* `Environment`, `Closure` — what the code of a block can refer to;
* `Value` — **the values of a running program**;
* `Value.className` — the name of the class of a value;
* `Value.isIdentical`, `Value.isEqual` — **the two notions of being the same**;
* `Value.builtin?` — the operation that answers a message without a method.
-/

import Smalltalk.Number.Single
import Smalltalk.Object.Class

namespace Smalltalk

/-! ### Environments and closures -/

/-- Where the variables of running code are: the activation of the code itself, and those of the
code around it from the inside out, the last of which is the activation of the method. -/
structure Environment (α : Type) where
  receiver : α
  activation : Nat
  /-- The activations around it; a method has none. -/
  enclosing : List Nat

namespace Environment

variable {α : Type}

def isBlock (e : Environment α) : Bool := !e.enclosing.isEmpty

def chain (e : Environment α) : List Nat := e.activation :: e.enclosing

def home (e : Environment α) : Nat := e.enclosing.getLastD e.activation

/-- The environment of an activation of a block that was made in this environment. -/
def inner (e : Environment α) (activation : Nat) : Environment α :=
  ⟨e.receiver, activation, e.chain⟩

end Environment

structure Closure (α : Type) where
  method : Method
  index : Nat
  code : CompiledCode
  environment : Environment α

/-! ### Values -/

/-- What tells a string from every other string. -/
inductive StringIdentity where
  | literal (method : MethodAddress) (block : Option Nat) (index : Nat)
  | made (number : Nat)
deriving DecidableEq, Repr, Inhabited

/-- **A value of a running program.** -/
inductive Value where
  | nil
  | boolean (value : Bool)
  | integer (value : Int32)
  | float (value : Single)
  | character (value : Char)
  | string (identity : StringIdentity) (text : String)
  | array (number : Nat)
  | block (number : Nat) (closure : Closure Value)
  | object (cls : Class) (number : Nat)
  /-- A class, which receives the messages of its own side. -/
  | classObject (cls : Class)
deriving Inhabited

namespace Value

/-- The name of the class of a value; a class has its own name. -/
def className : Value → String
  | nil => "UndefinedObject"
  | boolean _ => "Boolean"
  | integer _ => "Integer"
  | float _ => "Float"
  | character _ => "Character"
  | string _ _ => "String"
  | array _ => "Array"
  | block _ _ => "BlockDescriptor"
  | object cls _ => cls.name
  | classObject cls => cls.name

def isClass : Value → Bool
  | classObject _ => true
  | _ => false

/-! ### Being the same -/

/-- **Are they one and the same object?** -/
def isIdentical : Value → Value → Bool
  | nil, nil => true
  | boolean a, boolean b => a = b
  | integer a, integer b => a = b
  | float a, float b => a.bits = b.bits
  | character a, character b => a = b
  | string a _, string b _ => a = b
  | array a, array b => a = b
  | block a _, block b _ => a = b
  | object _ a, object _ b => a = b
  | classObject a, classObject b => a.name = b.name
  | _, _ => false

def floatOf (n : Int32) : Single := Single.ofInt n.toInt

/-- **Are they equal?**  Numbers are compared as numbers, strings by their contents, and all else
by identity. -/
def isEqual : Value → Value → Bool
  | integer a, float b => (floatOf a).beq b
  | float a, integer b => (floatOf b).beq a
  | float a, float b => a.beq b
  | string _ a, string _ b => a = b
  | a, b => a.isIdentical b

/-! ### Built-in messages -/

def arithmetic : List (String × Primitive) :=
  [("+", .add), ("-", .subtract), ("*", .multiply), ("/", .divide), ("<", .less),
    ("<=", .lessEqual), (">", .greater), (">=", .greaterEqual), ("=", .equal), ("~=", .notEqual)]

/-- The messages with a number of arguments that a value answers without a method. -/
def builtins : Value → Nat → List (String × Primitive)
  | integer _, 0 =>
    [("asString", .asString), ("printString", .printString), ("hash", .hash),
      ("asFloat", .asFloat), ("asInteger", .asInteger), ("asCharacter", .asCharacter),
      ("className", .className)]
  | integer _, 1 =>
    ("//", .floorDivide) :: ("\\\\", .remainder) :: ("mod:", .modulo) :: arithmetic
  | float _, 0 =>
    [("asString", .asString), ("printString", .printString), ("asInteger", .asInteger),
      ("asFloat", .asFloat), ("className", .className)]
  | float _, 1 => arithmetic
  | character _, 0 =>
    [("asInteger", .asInteger), ("asCharacter", .asCharacter), ("asString", .asString),
      ("className", .className)]
  | character _, 1 => [("=", .equal), ("~=", .notEqual)]
  | string _ _, 0 =>
    [("asString", .asString), ("size", .size), ("asArray", .asArray), ("className", .className)]
  | string _ _, 1 => [(",", .concatenate), ("=", .equal), ("==", .equal), ("at:", .elementAt)]
  | boolean _, 0 => [("not", .logicalNot), ("asString", .asString), ("className", .className)]
  | boolean _, 1 =>
    [("ifTrue:", .ifTrue), ("ifFalse:", .ifFalse), ("&", .logicalAnd), ("|", .logicalOr)]
  | boolean _, 2 => [("ifTrue:ifFalse:", .ifTrueIfFalse), ("ifFalse:ifTrue:", .ifFalseIfTrue)]
  | array _, 0 => [("size", .size), ("asString", .asString), ("className", .className)]
  | array _, 1 => [("at:", .elementAt)]
  | array _, 2 => [("at:put:", .elementAtPut)]
  | block _ _, 0 => [("value", .value .zero), ("numArgs", .numArgs)]
  | block _ _, 1 =>
    [("valueWithArguments:", .valueWithArguments), ("whileTrue:", .whileTrue),
      ("whileFalse:", .whileFalse), ("value:", .value .one)]
  | block _ _, 2 => [("value:value:", .value .two)]
  | block _ _, 3 => [("value:value:value:", .value .three)]
  | block _ _, 4 => [("value:value:value:value:", .value .four)]
  | _, _ => []

/-- **The operation that answers a message** without a method. -/
def builtin? (v : Value) (selector : String) (arguments : Nat) : Option Primitive :=
  (v.builtins arguments).lookup selector

end Value

end Smalltalk
