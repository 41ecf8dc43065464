/-
**Reading instructions back from their bytes.**

Code is written as a sequence of instructions and run as a sequence of bytes. Nothing is lost in
between: the bytes of an instruction, with any bytes after them, are read as that instruction, and
what is left is exactly the bytes after it.

* `Instruction.read?_encode_append` — **an instruction is read back**, whatever follows.
-/

import Mathlib.Algebra.Group.Nat.Defs
import Smalltalk.Code.Instruction

namespace Smalltalk.Instruction

/-! ### Operands -/

/-- Two parts that share no bit are joined by adding them. -/
theorem or_shiftLeft_eq {low high width : Nat} (h : low < 2 ^ width) :
    low ||| high <<< width = low + 2 ^ width * high := by
  rw [Nat.or_comm, ← Nat.shiftLeft_add_eq_or_of_lt h, Nat.shiftLeft_eq, Nat.add_comm,
    Nat.mul_comm]

/-- The value of an operand of two bytes. -/
theorem toNat_join16 (low high : UInt8) :
    (low.toUInt16 ||| (high.toUInt16 <<< 8)).toNat = low.toNat + 256 * high.toNat := by
  have hl : low.toNat < 2 ^ 8 := low.toNat_lt
  have hh : high.toNat < 2 ^ 8 := high.toNat_lt
  have hshift : high.toNat <<< 8 < 2 ^ 16 := by
    rw [Nat.shiftLeft_eq]; omega
  rw [UInt16.toNat_or, UInt16.toNat_shiftLeft, UInt8.toNat_toUInt16, UInt8.toNat_toUInt16]
  change low.toNat ||| high.toNat <<< 8 % 2 ^ 16 = _
  rw [Nat.mod_eq_of_lt hshift]
  exact or_shiftLeft_eq hl

/-- The value of an operand of four bytes. -/
theorem toNat_join32 (low high : UInt16) :
    (low.toUInt32 ||| (high.toUInt32 <<< 16)).toNat = low.toNat + 65536 * high.toNat := by
  have hl : low.toNat < 2 ^ 16 := low.toNat_lt
  have hh : high.toNat < 2 ^ 16 := high.toNat_lt
  have hshift : high.toNat <<< 16 < 2 ^ 32 := by
    rw [Nat.shiftLeft_eq]; omega
  rw [UInt32.toNat_or, UInt32.toNat_shiftLeft, UInt16.toNat_toUInt32, UInt16.toNat_toUInt32]
  change low.toNat ||| high.toNat <<< 16 % 2 ^ 32 = _
  rw [Nat.mod_eq_of_lt hshift]
  exact or_shiftLeft_eq hl

theorem read16_cons (low high : UInt8) (rest : List UInt8) :
    read16 (low :: high :: rest) = (low.toUInt16 ||| (high.toUInt16 <<< 8), rest) := rfl

/-- An operand of two bytes is read back. -/
@[simp] theorem read16_bytes16 (n : UInt16) (rest : List UInt8) :
    read16 (bytes16 n ++ rest) = (n, rest) := by
  have hlow : n.toUInt8.toNat = n.toNat % 256 := by simp
  have hhigh : (n >>> 8).toUInt8.toNat = n.toNat / 256 % 256 := by
    simp [Nat.shiftRight_eq_div_pow]
  have hn : n.toNat < 65536 := n.toNat_lt
  change read16 (n.toUInt8 :: (n >>> 8).toUInt8 :: rest) = _
  rw [read16_cons]
  refine Prod.ext ?_ rfl
  apply UInt16.toNat_inj.1
  change _ = n.toNat
  rw [toNat_join16, hlow, hhigh]
  omega

/-- An operand of four bytes is read back. -/
@[simp] theorem read32_bytes32 (n : UInt32) (rest : List UInt8) :
    read32 (bytes32 n ++ rest) = (n, rest) := by
  have h₀ : n.toUInt8.toNat = n.toNat % 256 := by simp
  have h₁ : (n >>> 8).toUInt8.toNat = n.toNat / 256 % 256 := by
    simp [Nat.shiftRight_eq_div_pow]
  have h₂ : (n >>> 16).toUInt8.toNat = n.toNat / 65536 % 256 := by
    simp [Nat.shiftRight_eq_div_pow]
  have h₃ : (n >>> 24).toUInt8.toNat = n.toNat / 16777216 % 256 := by
    simp [Nat.shiftRight_eq_div_pow]
  have hn : n.toNat < 4294967296 := n.toNat_lt
  refine Prod.ext ?_ rfl
  apply UInt32.toNat_inj.1
  change ((n.toUInt8.toUInt16 ||| ((n >>> 8).toUInt8.toUInt16 <<< 8)).toUInt32 |||
    (((n >>> 16).toUInt8.toUInt16 ||| ((n >>> 24).toUInt8.toUInt16 <<< 8)).toUInt32 <<<
      16)).toNat = n.toNat
  rw [toNat_join32, toNat_join16, toNat_join16, h₀, h₁, h₂, h₃]
  omega

/-! ### Instructions -/

/-- The byte of an opcode is read back. -/
@[simp] theorem ofByte?_byte (o : Opcode) : Opcode.ofByte? o.byte = some o := by
  cases o <;> rfl

/-- The operands of an instruction are read back. -/
theorem readOperands_operandBytes (i : Instruction) (rest : List UInt8) :
    readOperands (i.operandBytes ++ rest) i.opcode = (i, rest) := by
  cases i <;>
    simp [operandBytes, opcode, readOperands, with32, with16, withTwo, withThree]

/-- **An instruction is read back**, whatever follows it. -/
@[simp] theorem read?_encode_append (i : Instruction) (rest : List UInt8) :
    read? (i.encode ++ rest) = some (i, rest) := by
  simp only [encode, List.cons_append, read?, ofByte?_byte, Option.map_some]
  rw [readOperands_operandBytes]

theorem decodeUpTo_flatMap_encode (is : List Instruction) {n : Nat} (hn : is.length ≤ n)
    (done : List Instruction) :
    decodeUpTo n done (is.flatMap encode) = done.reverse ++ is := by
  induction is generalizing n done with
  | nil =>
    rw [List.append_nil]
    cases n <;> rfl
  | cons i is ih =>
    cases n with
    | zero => simp at hn
    | succ n =>
      rw [List.length_cons, Nat.succ_le_succ_iff] at hn
      rw [List.flatMap_cons, decodeUpTo.eq_def, read?_encode_append]
      grind

/-- **All instructions are read back.** -/
theorem decode_flatMap_encode (is : List Instruction) : decode (is.flatMap encode) = is := by
  have hlength : is.length ≤ (is.flatMap encode).length := by
    induction is with
    | nil => exact Nat.le_refl 0
    | cons i is ih =>
      rw [List.flatMap_cons, List.length_append, List.length_cons, encode, List.length_cons]
      omega
  exact decodeUpTo_flatMap_encode is hlength []

end Smalltalk.Instruction
