/-
**Instructions and their bytes.**

Code is a sequence of bytes: each instruction is an opcode of one byte, followed by operands of
fixed width with the low byte first. There are no jumps, so code is read from its front only, and
what is left to run is simply what has not been read yet.

* `Opcode` — the opcodes, with their bytes, their names and their lengths;
* `Instruction` — an opcode with operands of the right widths;
* `Instruction.encode` — **the bytes of an instruction**;
* `Instruction.read?` — **the instruction at the front of some bytes**, and the bytes
  after it;
* `Instruction.decode` — all instructions of some bytes.
-/

namespace Smalltalk

/-! ### Opcodes -/

inductive Opcode where
  | pushNil
  | pushTrue
  | pushFalse
  | pushSelf
  | pushInteger
  | pushFloat
  | pushCharacter
  | pushArray
  | pushLiteral
  | pushGlobal
  | pushLocal
  | pushField
  | storeLocal
  | storeField
  | pop
  | send
  | sendSuper
  | block
  | blockReturn
  | methodReturn
  | mark
deriving DecidableEq, Repr, Inhabited

namespace Opcode

def byte : Opcode → UInt8
  | pushNil => 0
  | pushTrue => 1
  | pushFalse => 2
  | pushSelf => 3
  | pushInteger => 4
  | pushFloat => 5
  | pushCharacter => 6
  | pushArray => 7
  | pushLiteral => 8
  | pushGlobal => 9
  | pushLocal => 10
  | pushField => 11
  | storeLocal => 12
  | storeField => 13
  | pop => 14
  | send => 15
  | sendSuper => 16
  | block => 17
  | blockReturn => 18
  | methodReturn => 19
  | mark => 20

def ofByte? : UInt8 → Option Opcode
  | 0 => some pushNil
  | 1 => some pushTrue
  | 2 => some pushFalse
  | 3 => some pushSelf
  | 4 => some pushInteger
  | 5 => some pushFloat
  | 6 => some pushCharacter
  | 7 => some pushArray
  | 8 => some pushLiteral
  | 9 => some pushGlobal
  | 10 => some pushLocal
  | 11 => some pushField
  | 12 => some storeLocal
  | 13 => some storeField
  | 14 => some pop
  | 15 => some send
  | 16 => some sendSuper
  | 17 => some block
  | 18 => some blockReturn
  | 19 => some methodReturn
  | 20 => some mark
  | _ => none

def name : Opcode → String
  | pushNil => "Nil"
  | pushTrue => "True"
  | pushFalse => "False"
  | pushSelf => "SelfRef"
  | pushInteger => "PushInteger"
  | pushFloat => "PushFloat"
  | pushCharacter => "PushCharacter"
  | pushArray => "PushArray"
  | pushLiteral => "PushLiteral"
  | pushGlobal => "PushGlobal"
  | pushLocal => "PushLocal"
  | pushField => "PushField"
  | storeLocal => "StoreLocal"
  | storeField => "StoreField"
  | pop => "Pop"
  | send => "Send"
  | sendSuper => "SendSuper"
  | block => "Block"
  | blockReturn => "BlockReturn"
  | methodReturn => "Return"
  | mark => "Debug"

def length : Opcode → Nat
  | pushNil | pushTrue | pushFalse | pushSelf | pop | blockReturn | methodReturn => 1
  | pushArray | pushLiteral | pushGlobal | pushField | storeField | block => 3
  | pushInteger | pushFloat | pushCharacter | pushLocal | storeLocal | send | sendSuper => 5
  | mark => 7

end Opcode

/-! ### Instructions -/

/-- An instruction. Literals are named by their position in the pool of the code that the
instruction belongs to. -/
inductive Instruction where
  | pushNil
  | pushTrue
  | pushFalse
  | pushSelf
  | pushInteger (bits : UInt32)
  | pushFloat (bits : UInt32)
  | pushCharacter (code : UInt32)
  | pushArray (count : UInt16)
  | pushLiteral (literal : UInt16)
  | pushGlobal (literal : UInt16)
  /-- Push a variable of the activation that is `depth` steps out. -/
  | pushLocal (depth index : UInt16)
  | pushField (index : UInt16)
  /-- Store the top value in a variable of the activation that is `depth` steps out. -/
  | storeLocal (depth index : UInt16)
  | storeField (index : UInt16)
  | pop
  | send (arguments selector : UInt16)
  /-- Send a message, with methods looked up from the superclass of the running code on. -/
  | sendSuper (arguments selector : UInt16)
  | block (index : UInt16)
  | blockReturn
  | methodReturn
  | mark (file line column : UInt16)
deriving DecidableEq, Repr, Inhabited

namespace Instruction

def opcode : Instruction → Opcode
  | pushNil => .pushNil
  | pushTrue => .pushTrue
  | pushFalse => .pushFalse
  | pushSelf => .pushSelf
  | pushInteger _ => .pushInteger
  | pushFloat _ => .pushFloat
  | pushCharacter _ => .pushCharacter
  | pushArray _ => .pushArray
  | pushLiteral _ => .pushLiteral
  | pushGlobal _ => .pushGlobal
  | pushLocal _ _ => .pushLocal
  | pushField _ => .pushField
  | storeLocal _ _ => .storeLocal
  | storeField _ => .storeField
  | pop => .pop
  | send _ _ => .send
  | sendSuper _ _ => .sendSuper
  | block _ => .block
  | blockReturn => .blockReturn
  | methodReturn => .methodReturn
  | mark _ _ _ => .mark

/-! ### Writing -/

def bytes16 (n : UInt16) : List UInt8 := [n.toUInt8, (n >>> 8).toUInt8]

def bytes32 (n : UInt32) : List UInt8 :=
  [n.toUInt8, (n >>> 8).toUInt8, (n >>> 16).toUInt8, (n >>> 24).toUInt8]

def operandBytes : Instruction → List UInt8
  | pushInteger n | pushFloat n | pushCharacter n => bytes32 n
  | pushArray n | pushLiteral n | pushGlobal n | pushField n | storeField n | block n => bytes16 n
  | pushLocal m n | storeLocal m n | send m n | sendSuper m n => bytes16 m ++ bytes16 n
  | mark l m n => bytes16 l ++ bytes16 m ++ bytes16 n
  | pushNil | pushTrue | pushFalse | pushSelf | pop | blockReturn | methodReturn => []

/-- **The bytes of an instruction.** -/
def encode (i : Instruction) : List UInt8 := i.opcode.byte :: i.operandBytes

/-! ### Reading -/

/-- The byte at the front, or zero if there is none, and the bytes after it. -/
@[inline] def read8 : List UInt8 → UInt8 × List UInt8
  | [] => (0, [])
  | b :: rest => (b, rest)

@[inline] def read16 (bytes : List UInt8) : UInt16 × List UInt8 :=
  let (low, rest) := read8 bytes
  let (high, rest) := read8 rest
  (low.toUInt16 ||| (high.toUInt16 <<< 8), rest)

/-- An operand of four bytes. Bytes past the end count as zero. -/
@[inline] def read32 (bytes : List UInt8) : UInt32 × List UInt8 :=
  let (low, rest) := read16 bytes
  let (high, rest) := read16 rest
  (low.toUInt32 ||| (high.toUInt32 <<< 16), rest)

@[inline]
def with32 (make : UInt32 → Instruction) (bytes : List UInt8) : Instruction × List UInt8 :=
  let (n, rest) := read32 bytes
  (make n, rest)

@[inline]
def with16 (make : UInt16 → Instruction) (bytes : List UInt8) : Instruction × List UInt8 :=
  let (n, rest) := read16 bytes
  (make n, rest)

@[inline] def withTwo (make : UInt16 → UInt16 → Instruction) (bytes : List UInt8) :
    Instruction × List UInt8 :=
  let (m, rest) := read16 bytes
  let (n, rest) := read16 rest
  (make m n, rest)

@[inline] def withThree (make : UInt16 → UInt16 → UInt16 → Instruction) (bytes : List UInt8) :
    Instruction × List UInt8 :=
  let (l, rest) := read16 bytes
  let (m, rest) := read16 rest
  let (n, rest) := read16 rest
  (make l m n, rest)

def readOperands (bytes : List UInt8) : Opcode → Instruction × List UInt8
  | .pushNil => (pushNil, bytes)
  | .pushTrue => (pushTrue, bytes)
  | .pushFalse => (pushFalse, bytes)
  | .pushSelf => (pushSelf, bytes)
  | .pushInteger => with32 pushInteger bytes
  | .pushFloat => with32 pushFloat bytes
  | .pushCharacter => with32 pushCharacter bytes
  | .pushArray => with16 pushArray bytes
  | .pushLiteral => with16 pushLiteral bytes
  | .pushGlobal => with16 pushGlobal bytes
  | .pushLocal => withTwo pushLocal bytes
  | .pushField => with16 pushField bytes
  | .storeLocal => withTwo storeLocal bytes
  | .storeField => with16 storeField bytes
  | .pop => (pop, bytes)
  | .send => withTwo send bytes
  | .sendSuper => withTwo sendSuper bytes
  | .block => with16 block bytes
  | .blockReturn => (blockReturn, bytes)
  | .methodReturn => (methodReturn, bytes)
  | .mark => withThree mark bytes

/-- **The instruction at the front of some bytes**, and the bytes after it. There is none at the
end and at a byte that is no opcode. -/
def read? : List UInt8 → Option (Instruction × List UInt8)
  | [] => none
  | b :: rest => (Opcode.ofByte? b).map (readOperands rest)

/-- Read at most `n` instructions, after those in `done`, which are kept in reverse. -/
def decodeUpTo (n : Nat) (done : List Instruction) (bytes : List UInt8) : List Instruction :=
  match n, read? bytes with
  | 0, _ | _, none => done.reverse
  | n + 1, some (i, rest) => decodeUpTo n (i :: done) rest

/-- **All instructions of some bytes**, up to the end or the first byte that is no opcode. -/
def decode (bytes : List UInt8) : List Instruction := decodeUpTo bytes.length [] bytes

end Instruction

end Smalltalk
