/-
**Listings of code.**

A listing shows the instructions of a method, each with its position and its operands written
out, and then the listings of the blocks inside of it.

* `Instruction.describe` — an instruction with its operands;
* `CompiledCode.listing` — **the listing of a method or block**.
-/

import Smalltalk.Code.Compiled
import Smalltalk.Number.Decimal
import Smalltalk.Text.CodePoint

namespace Smalltalk

def CompiledCode.literalText (c : CompiledCode) (index : UInt16) : String :=
  (c.literal? index).getD "?"

def Instruction.describe (c : CompiledCode) (i : Instruction) : String :=
  let name := i.opcode.name
  match i with
  | pushInteger bits => name ++ " " ++ toString bits.toInt32.toInt
  | pushFloat bits => name ++ " " ++ (Single.mk bits).shortest
  | pushCharacter code =>
    name ++ " $" ++ ((Text.charOf? code.toNat).getD '\x00').toString
  | pushArray n | pushField n | storeField n | block n => name ++ " (" ++ toString n.toNat ++ ")"
  | pushLiteral n | pushGlobal n =>
    name ++ " '" ++ c.literalText n ++ "' (" ++ toString n.toNat ++ ")"
  | pushLocal depth index | storeLocal depth index =>
    name ++ " " ++ toString depth.toNat ++ ":" ++ toString index.toNat
  | send arguments selector | sendSuper arguments selector =>
    name ++ " #" ++ c.literalText selector ++ " (" ++ toString arguments.toNat ++ ")"
  | mark file line column =>
    name ++ " '" ++ c.literalText file ++ "' " ++ toString line.toNat ++ ":"
      ++ toString column.toNat
  | pushNil | pushTrue | pushFalse | pushSelf | pop | blockReturn | methodReturn => name

namespace CompiledCode

def listInstruction (c : CompiledCode) (listed : String × Nat) (i : Instruction) : String × Nat :=
  let (text, position) := listed
  (text ++ " " ++ padZeros 4 (toString position) ++ " │ " ++ i.describe c ++ "\n",
    position + i.opcode.length)

def listBody (text : String) (c : CompiledCode) : String :=
  let text := text ++ "      ╭─[Bytecode: " ++ c.name ++ "]\n"
  let text :=
    match c.primitive with
    | some p => text ++ "      │ <primitive:#" ++ p.name ++ ">\n"
    | none => text
  ((Instruction.decode c.code).foldl c.listInstruction (text, 0)).1 ++ "──────╯\n"

mutual

def list (text : String) (c : CompiledCode) : String :=
  match c with
  | ⟨_, _, _, _, _, _, ⟨blocks⟩, _, _⟩ => listAll (listBody text c) blocks

def listAll (text : String) (cs : List CompiledCode) : String :=
  match cs with
  | [] => text
  | c :: cs => listAll (list text c) cs

end

/-- **The listing of a method or block.** -/
def listing (c : CompiledCode) : String := c.list ""

end CompiledCode

end Smalltalk
