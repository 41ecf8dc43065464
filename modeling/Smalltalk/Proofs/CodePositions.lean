/-
**Code by position.**

A running activation reads its code from the front and keeps what is left. A listing of the code
names positions instead: an opcode stands at a position, its operands stand after it, and the next
instruction stands as many bytes further as the opcode says. Both ways of reading agree on all
bytes, and both give back the instructions that were written, up to the last byte and no further.

All code that is written for some programs, with or without mistakes, is the code of instructions
in this sense, and these refer to nothing that is not there: their literals are in the pool of their
unit, and their blocks are blocks of their method.

* `Instruction.Reads` — **reading on from a position** until there is no opcode;
* `CodeContext.methodCode_encodes` — **the code of a method and of its blocks**;
* `Compilation.code_read_back` — **code is read back as it was written**, and stored code
  refers to what there is.
-/

import Smalltalk.Proofs.FieldUse

namespace Smalltalk

/-! ### Reading at a position -/

namespace Instruction

variable {code : List UInt8} {position stop : Nat} {is : List Instruction}

/-- The byte at a position, or zero past the end. -/
def byteAt (code : List UInt8) (position : Nat) : UInt8 := code[position]?.getD 0

/-- The operand of two bytes at a position. -/
def operand16At (code : List UInt8) (position : Nat) : UInt16 :=
  (byteAt code position).toUInt16 ||| ((byteAt code (position + 1)).toUInt16 <<< 8)

/-- The operand of four bytes at a position. -/
def operand32At (code : List UInt8) (position : Nat) : UInt32 :=
  (operand16At code position).toUInt32 ||| ((operand16At code (position + 2)).toUInt32 <<< 16)

/-- The opcode at a position. -/
def opcodeAt? (code : List UInt8) (position : Nat) : Option Opcode :=
  code[position]?.bind Opcode.ofByte?

/-- An opcode with the operands that stand at a position. -/
def operandsAt (code : List UInt8) (position : Nat) : Opcode → Instruction
  | .pushNil => pushNil
  | .pushTrue => pushTrue
  | .pushFalse => pushFalse
  | .pushSelf => pushSelf
  | .pushInteger => pushInteger (operand32At code position)
  | .pushFloat => pushFloat (operand32At code position)
  | .pushCharacter => pushCharacter (operand32At code position)
  | .pushArray => pushArray (operand16At code position)
  | .pushLiteral => pushLiteral (operand16At code position)
  | .pushGlobal => pushGlobal (operand16At code position)
  | .pushLocal => pushLocal (operand16At code position) (operand16At code (position + 2))
  | .pushField => pushField (operand16At code position)
  | .storeLocal => storeLocal (operand16At code position) (operand16At code (position + 2))
  | .storeField => storeField (operand16At code position)
  | .pop => pop
  | .send => send (operand16At code position) (operand16At code (position + 2))
  | .sendSuper => sendSuper (operand16At code position) (operand16At code (position + 2))
  | .block => block (operand16At code position)
  | .blockReturn => blockReturn
  | .methodReturn => methodReturn
  | .mark =>
    mark (operand16At code position) (operand16At code (position + 2))
      (operand16At code (position + 4))

/-- **Reading on from a position** until there is no opcode: the instructions that are read, and the
position where reading stops. -/
inductive Reads (code : List UInt8) : Nat → List Instruction → Nat → Prop
  | stop {position : Nat} (h : opcodeAt? code position = none) : Reads code position [] position
  | next {position stop : Nat} {opcode : Opcode} {is : List Instruction}
      (h : opcodeAt? code position = some opcode)
      (hrest : Reads code (position + opcode.length) is stop) :
      Reads code position (operandsAt code (position + 1) opcode :: is) stop

/-- There is only one way to read. -/
theorem Reads.unique {stop' : Nat} {is' : List Instruction} (h : Reads code position is stop)
    (h' : Reads code position is' stop') : is = is' ∧ stop = stop' := by
  induction h generalizing is' stop' with
  | stop hnone =>
    cases h' with
    | stop _ => exact ⟨rfl, rfl⟩
    | next hopcode _ => cases hnone.symm.trans hopcode
  | next hopcode _ ih =>
    cases h' with
    | stop hnone => cases hnone.symm.trans hopcode
    | next hopcode' hrest' =>
      grind

/-! ### Both ways of reading agree -/

section

variable (code : List UInt8) (position : Nat)

theorem read8_drop :
    read8 (code.drop position) = (byteAt code position, code.drop (position + 1)) := by
  rw [byteAt, ← List.head?_drop, ← List.tail_drop]
  cases code.drop position with
  | nil | cons b rest => rfl

theorem read16_drop :
    read16 (code.drop position) = (operand16At code position, code.drop (position + 2)) := by
  rw [read16, read8_drop]
  dsimp only
  rw [read8_drop]
  rfl

theorem read32_drop :
    read32 (code.drop position) = (operand32At code position, code.drop (position + 4)) := by
  rw [read32, read16_drop]
  dsimp only
  rw [read16_drop]
  rfl

/-- The operands of an opcode take up the length of the opcode, its own byte left out. -/
theorem readOperands_drop (opcode : Opcode) : readOperands (code.drop (position + 1)) opcode
      = (operandsAt code (position + 1) opcode, code.drop (position + opcode.length)) := by
  cases opcode <;>
    simp only [readOperands, with32, with16, withTwo, withThree, read16_drop, read32_drop,
      operandsAt, Opcode.length]

theorem opcode_operandsAt (opcode : Opcode) :
    (operandsAt code position opcode).opcode = opcode := by
  cases opcode <;> rfl

/-- **What is read from the front is what stands at the position**, for any bytes. -/
theorem read?_drop : read? (code.drop position) = (opcodeAt? code position).map fun opcode =>
      (operandsAt code (position + 1) opcode, code.drop (position + opcode.length)) := by
  rw [opcodeAt?, ← List.head?_drop]
  have htail : (code.drop position).tail = code.drop (position + 1) := List.tail_drop
  cases hrest : code.drop position with
  | nil => rfl
  | cons b rest =>
    rw [hrest, List.tail_cons] at htail
    rw [read?, htail]
    congr 1
    funext opcode
    exact readOperands_drop code position opcode

end

/-- Reading at positions gives the instructions that reading from the front gives, if it is allowed
to read that many. -/
theorem Reads.decodeUpTo_eq (h : Reads code position is stop) {n : Nat} (hn : is.length ≤ n)
    (done : List Instruction) : decodeUpTo n done (code.drop position) = done.reverse ++ is := by
  induction h generalizing n done with
  | stop hnone =>
    rw [decodeUpTo.eq_def, read?_drop, hnone, List.append_nil]
    cases n <;> rfl
  | next hopcode _ ih =>
    cases n with
    | zero => simp at hn
    | succ n =>
      rw [List.length_cons, Nat.succ_le_succ_iff] at hn
      rw [decodeUpTo.eq_def, read?_drop, hopcode]
      grind

/-- Each instruction that is read takes up a byte at least. -/
theorem Reads.length_le (h : Reads code position is stop) : is.length ≤ code.length - position := by
  induction h with
  | stop _ => exact Nat.zero_le _
  | @next position _ opcode is hopcode _ ih =>
    have hlt : position < code.length := by
      by_contra hge
      rw [opcodeAt?, List.getElem?_eq_none (Nat.le_of_not_lt hge)] at hopcode
      cases hopcode
    have hlength : 0 < opcode.length := by cases opcode <;> decide
    rw [List.length_cons]
    omega

/-- **A listing shows what stands at the positions.** -/
theorem Reads.decode_eq (h : Reads code 0 is stop) : decode code = is :=
  h.decodeUpTo_eq h.length_le []

/-! ### Instructions are read back -/

theorem length_encode (i : Instruction) : i.encode.length = i.opcode.length := by
  cases i <;> rfl

/-- An instruction that stands at a position is read there. -/
theorem Reads.of_encode {before rest : List UInt8} {i : Instruction}
    (hcode : code = before ++ i.encode ++ rest) (h : Reads code (before ++ i.encode).length is stop) :
    Reads code before.length (i :: is) stop := by
  have hdrop : code.drop before.length = i.encode ++ rest := by
    rw [hcode, List.append_assoc, List.drop_left]
  have hread := read?_drop code before.length
  rw [hdrop, read?_encode_append] at hread
  obtain ⟨opcode, hopcode, hi⟩ := Option.map_eq_some_iff.1 hread.symm
  obtain ⟨rfl, -⟩ := Prod.mk.inj hi
  refine .next hopcode ?_
  rwa [List.length_append, length_encode, opcode_operandsAt] at h

/-- Instructions are read back from where they start, up to the end of the code. -/
theorem reads_append_encode (is : List Instruction) (before : List UInt8) :
    Reads (before ++ is.flatMap encode) before.length is (before ++ is.flatMap encode).length := by
  induction is generalizing before with
  | nil =>
    rw [List.flatMap_nil, List.append_nil]
    exact .stop (by rw [opcodeAt?, List.getElem?_eq_none (Nat.le_refl _)]; rfl)
  | cons i is ih =>
    rw [List.flatMap_cons, ← List.append_assoc]
    exact .of_encode rfl (ih (before ++ i.encode))

/-- **Instructions are read back from their positions**: reading from the start gives them and no
others, and stops at the end of the code. -/
theorem reads_iff_of_encode (is is' : List Instruction) (stop : Nat) :
    Reads (is.flatMap encode) 0 is' stop ↔ is' = is ∧ stop = (is.flatMap encode).length := by
  have hreads := reads_append_encode is []
  rw [List.nil_append, List.length_nil] at hreads
  constructor
  · exact fun h => h.unique hreads
  · rintro ⟨rfl, rfl⟩
    exact hreads

end Instruction

/-- The bytes of a buffer are those of the instructions, in the order in which they were written. -/
theorem CodeBuffer.bytes_foldl_emit (is : List Instruction) (b : CodeBuffer) :
    (is.foldl CodeBuffer.emit b).bytes = b.bytes ++ is.flatMap Instruction.encode := by
  induction is generalizing b with
  | nil => rw [List.foldl_nil, List.flatMap_nil, List.append_nil]
  | cons i is ih =>
    have hemit : (b.emit i).bytes = b.bytes ++ i.encode := by
      simp [CodeBuffer.bytes, CodeBuffer.emit]
    rw [List.foldl_cons, ih, hemit, List.flatMap_cons, List.append_assoc]

/-! ### What code refers to -/

/-- The literals that an instruction refers to. -/
def Instruction.literalOperands : Instruction → List UInt16
  | .pushLiteral literal | .pushGlobal literal | .send _ literal | .sendSuper _ literal
  | .mark literal _ _ => [literal]
  | _ => []

/-- **The code of a unit of a method**: it is that of some instructions, whose literals are in the
pool of the unit, and whose blocks are blocks of the method. -/
structure CompiledCode.Encodes (method unit : CompiledCode) (is : List Instruction) : Prop where
  bytes : unit.code = is.flatMap Instruction.encode
  literals : ∀ i ∈ is, ∀ literal ∈ i.literalOperands, literal.toNat < unit.literals.size
  blocks : ∀ index, .block index ∈ is → index.toNat < method.blocks.size

/-- The literal of an operation other than a mark is in the pool. -/
theorem Op.Written.literal_lt {literals : Array String} {op : Op} {i : Instruction}
    (h : op.Written literals i) (hmark : ∀ file line column, op ≠ .plain (.mark file line column)) :
    ∀ literal ∈ i.literalOperands, literal.toNat < literals.size := by
  have hpool {literal : UInt16} {text : String} (htext : literals[literal.toNat]? = some text) :
      ∀ a ∈ [literal], a.toNat < literals.size :=
    List.forall_mem_singleton.2 (Array.getElem?_eq_some_iff.1 htext).1
  cases h with
  | array _ => exact List.forall_mem_nil _
  | literal htext | global htext | send _ htext | sendSuper _ htext => exact hpool htext
  | plain hplain =>
    cases i with
    | mark file line column => exact absurd rfl (hmark file line column)
    | pushLiteral | pushGlobal | send | sendSuper => cases hplain
    | _ => exact List.forall_mem_nil _

/-! ### The code of a method -/

namespace CodeContext

variable {c : CodeContext}

variable {bs : List OpenedBlock} {blocks : Array CompiledCode}

/-- The number of a block that was finished is that of an entry. -/
theorem blockNumber_lt {codes : List (Nat × CompiledCode)}
    (hcodes : List.Forall₂ c.IsBlockCode bs codes)
    (hall : Emission.allBlocks? (putBlocks #[] codes) = some blocks)
    {b : OpenedBlock} (hb : b ∈ bs) : c.blockNumber b.1 < blocks.size := by
  obtain ⟨⟨number, code⟩, hcode, hkind, -⟩ :=
    Forall₂.exists_left (R := flip c.IsBlockCode) hcodes.flip hb
  have hsome := isSome_blockAt?_putBlocks hcode #[]
  rw [← Emission.blockAt?_of_allBlocks? hall, Option.isSome_iff_exists] at hsome
  obtain ⟨found, hfound⟩ := hsome
  rw [blockNumber, hkind]
  exact (Array.getElem?_eq_some_iff.1 hfound).1

/-- **The code of a method and of its blocks** is that of instructions that refer to what there
is. -/
theorem methodCode_encodes {job : Job} {code : CompiledCode} (h : c.methodCode job = .ok code) :
    ∀ unit ∈ code.units, ∃ is, code.Encodes unit is := by
  intro unit hunit
  obtain ⟨_, -, _, _, _, ⟨buffer, rfl, -, hfile, hwritten⟩, horder⟩ := methodCode_inOrder h unit hunit
  refine ⟨buffer.instructions.toList, rfl, fun i hi => ?_, fun index hindex => ?_⟩
  · rcases horder.exists_follows hwritten hi with ⟨_, _, hmarks, rfl⟩ | ⟨op, _, _, hfollows, hop⟩
    · -- that of a mark is the name of the file
      exact List.forall_mem_singleton.2 (Array.getElem?_eq_some_iff.1 (hfile hmarks)).1
    · exact hop.literal_lt (by rintro _ _ _ rfl; exact hfollows)
  · rcases horder.exists_follows hwritten hindex with ⟨_, _, _, hi⟩ | ⟨op, _, _, hfollows, hop⟩
    · cases hi
    · cases hop
      obtain ⟨b, hb, rfl⟩ := hfollows
      obtain ⟨codes, blocks, hcodes, hall, ⟨_, rfl, -⟩⟩ := methodCode_isCode h
      -- A number that does not fit into two bytes would be written as a smaller one.
      rw [UInt16.toNat_ofNat']
      exact Nat.lt_of_le_of_lt (Nat.mod_le _ _) (blockNumber_lt hcodes hall hb)

end CodeContext

/-! ### The code of all programs -/

namespace Compilation

/-- **Code is read back as it was written.**  If instructions are written into a buffer, then reading
its bytes from position 0 gives these instructions and no others, and stops exactly at the end. What
stands at a position is what running code reads there, and what a listing shows, for any bytes. All
code that is stored for some programs, with or without mistakes, and that of its blocks, is the code
of instructions in this sense; their literals are in the pool of their own unit, and their blocks are
in the table of the method. -/
theorem code_read_back :
    (∀ (is is' : List Instruction) (stop : Nat),
      Instruction.Reads (is.foldl CodeBuffer.emit .empty).bytes 0 is' stop ↔
        is' = is ∧ stop = (is.foldl CodeBuffer.emit .empty).bytes.length) ∧
    (∀ (bytes : List UInt8) (position : Nat), Instruction.read? (bytes.drop position) =
      (Instruction.opcodeAt? bytes position).map fun opcode =>
        (Instruction.operandsAt bytes (position + 1) opcode,
          bytes.drop (position + opcode.length))) ∧
    (∀ (bytes : List UInt8) (is : List Instruction) (stop : Nat),
      Instruction.Reads bytes 0 is stop → Instruction.decode bytes = is) ∧
    ∀ (options : CompileOptions) (programs : List Program) (M : ScopeId) (code : CompiledCode),
      ((ofPrograms options programs).table.scope M).code = some code →
        ∀ unit ∈ code.units, ∃ is, code.Encodes unit is ∧
          Instruction.Reads unit.code 0 is unit.code.length := by
  refine ⟨fun is is' stop => ?_, Instruction.read?_drop, fun _ _ _ h => h.decode_eq,
    fun options programs M code hcode unit hunit => ?_⟩
  · rw [CodeBuffer.bytes_foldl_emit, CodeBuffer.empty, CodeBuffer.bytes, List.flatMap_nil,
      List.nil_append]
    exact Instruction.reads_iff_of_encode is is' stop
  · obtain ⟨_, _, -, -, hmethod⟩ := exists_methodCode hcode
    obtain ⟨is, h⟩ := CodeContext.methodCode_encodes hmethod unit hunit
    refine ⟨is, h, ?_⟩
    rw [h.bytes]
    exact (Instruction.reads_iff_of_encode is is _).2 ⟨rfl, rfl⟩

/-- A block inside of a block, both with literals of their own. -/
def blockInBlock : Program := Program.parse "| a | a := [:x | [a foo: x] value]. ^a value: 'text'"

set_option maxRecDepth 100000 in
/-- The code of a method with a block inside of a block is read back unit by unit. -/
theorem blockInBlock_read_back :
    ∃ code, ((ofPrograms ⟨"main.st", true, false⟩ [blockInBlock]).table.scope 2).code = some code ∧
      code.units.map (·.code.length) = [44, 16, 23] ∧
      ∀ unit ∈ code.units, ∃ is, code.Encodes unit is ∧
        Instruction.Reads unit.code 0 is unit.code.length := by
  have hlengths : (((ofPrograms ⟨"main.st", true, false⟩ [blockInBlock]).table.scope 2).code.map
      fun code => code.units.map (·.code.length)) = some [44, 16, 23] := by
    decide +kernel
  obtain ⟨code, hcode, hlengths⟩ := Option.map_eq_some_iff.1 hlengths
  exact ⟨code, hcode, hlengths, code_read_back.2.2.2 _ _ _ code hcode⟩

end Compilation

end Smalltalk
