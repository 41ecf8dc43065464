/-
**Compiled code.**

The code of a method or block is a sequence of bytes together with a pool of literals that its
instructions refer to. A method also holds the code of all the blocks inside of it, numbered in
the order in which they start.

* `CompiledCode` — **code with its literals and blocks**;
* `CompiledCode.ofPrimitive` — a method that is a built-in operation;
* `LiteralPool`, `LiteralPool.intern` — a pool that holds each text once;
* `CodeBuffer` — instructions that are being written, with their pool.
-/

import Smalltalk.Code.Instruction
import Smalltalk.Code.Primitive
import Std.Data.TreeMap

namespace Smalltalk

/-! ### Code -/

structure CompiledCode where
  /-- The name, with the names of everything around it. -/
  name : String
  /-- The class the code belongs to, whose superclass is where messages to `super` start. -/
  className : String
  code : List UInt8
  /-- The strings, selectors and names of globals that the instructions refer to. -/
  literals : Array String
  argumentCount : Nat
  /-- The number of local variables, arguments not counted. -/
  localCount : Nat
  /-- The blocks inside of a method, by number. -/
  blocks : Array CompiledCode
  isClassMethod : Bool
  /-- The built-in operation that takes the place of the instructions. -/
  primitive : Option Primitive
deriving Inhabited

namespace CompiledCode

def ofPrimitive (name className : String) (primitive : Primitive) (argumentCount : Nat)
    (isClassMethod : Bool) : CompiledCode :=
  ⟨name, className, [], #[], argumentCount, 0, #[], isClassMethod, some primitive⟩

/-- The number of variables of an activation, arguments included. -/
def slotCount (c : CompiledCode) : Nat := c.argumentCount + c.localCount

def literal? (c : CompiledCode) (index : UInt16) : Option String := c.literals[index.toNat]?

end CompiledCode

/-! ### Literals -/

/-- Texts, each of them once, in the order in which they were first asked for. -/
structure LiteralPool where
  texts : Array String
  positions : Std.TreeMap String Nat

namespace LiteralPool

def empty : LiteralPool := ⟨#[], ∅⟩

instance : Inhabited LiteralPool := ⟨empty⟩

/-- How many texts a pool can hold, as positions are written in two bytes. -/
def capacity : Nat := 65536

/-- **The position of a text**, which is added if it is new and there is room for it, and the
pool that then holds it. -/
def intern (pool : LiteralPool) (text : String) : Option Nat × LiteralPool :=
  match pool.positions[text]? with
  | some position => (some position, pool)
  | none =>
    let position := pool.texts.size
    if position < capacity then
      (some position, ⟨pool.texts.push text, pool.positions.insert text position⟩)
    else (none, pool)

end LiteralPool

/-! ### Code that is being written -/

/-- Instructions in the order in which they were written, and the literals they refer to. -/
structure CodeBuffer where
  instructions : Array Instruction
  literals : LiteralPool
deriving Inhabited

namespace CodeBuffer

def empty : CodeBuffer := ⟨#[], LiteralPool.empty⟩

def emit (b : CodeBuffer) (i : Instruction) : CodeBuffer :=
  { b with instructions := b.instructions.push i }

def bytes (b : CodeBuffer) : List UInt8 := b.instructions.toList.flatMap Instruction.encode

end CodeBuffer

end Smalltalk
