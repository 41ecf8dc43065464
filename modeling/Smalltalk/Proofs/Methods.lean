/-
**The code of a method is that of its routine.**

The code that is written for a method consists of the operations that were read off its source, and
so does the code of each of its blocks, which stands under the number of the block.

* `CompiledWith`, `CompiledAs` — **the code of a method and its blocks**;
* `CodeContext.JobMatch.compiled` — **what is written for a method** is the code of its
  routine.
-/

import Smalltalk.Proofs.MarkedCode

namespace Smalltalk

open SymbolTable

/-! ### The code of a routine -/

/-- All operations that record a place are marks. -/
def Naming.MarksOnly (N : Naming) : Prop := ∀ span, ∀ op ∈ N.marks span, op.isWork = false

/-- **Code that consists of the operations of a routine.** -/
structure UnitAs (r : Routine) (ops : List Op) (code : CompiledCode) : Prop where
  name : code.name = r.name
  className : code.className = r.address.className
  argumentCount : code.argumentCount = r.arity
  slotCount : code.slotCount = r.slotCount
  distinct {i j : Nat} {text : String} :
    code.literals[i]? = some text → code.literals[j]? = some text → i = j
  spelled : Spelled code.literals code.code ops
  room : ∀ names ∈ r.scopes, names.length ≤ capacity

/-- **The code of a method and its blocks.** -/
@[grind cases]
structure CompiledWith (N : Naming) (span : Span) (r : Routine) (code : CompiledCode) : Prop where
  unit : UnitAs r (N.methodCode r.scopes span r.statements) code
  blocks (i : Nat) :
    Option.Rel (fun q => UnitAs q (N.blockCode q.scopes q.firstBlock q.statements))
      r.blocks[i]? code.blocks[i]?
  primitive : code.primitive = none
  marks : N.MarksOnly
  room : N.fields.length ≤ capacity

/-- The code under the number of a block is that of the block. -/
theorem CompiledWith.block {N : Naming} {span : Span} {r q : Routine} {code c : CompiledCode}
    (h : CompiledWith N span r code) {n : Nat} (hq : r.blocks[n]? = some q)
    (hc : code.blocks[n]? = some c) :
    UnitAs q (N.blockCode q.scopes q.firstBlock q.statements) c := by
  have hblocks := h.blocks n
  rw [hq, hc] at hblocks
  cases hblocks with
  | some hunit => exact hunit

/-- The code of a method of a class with some fields. -/
def CompiledAs (fields : List String) (r : Routine) (code : CompiledCode) : Prop :=
  ∃ N span, N.fields = fields ∧ CompiledWith N span r code

namespace CodeContext

variable {c : CodeContext} {C M scope : ScopeId} {r : Routine}

theorem naming_marksOnly (c : CodeContext) (C : ScopeId) : (c.naming C).MarksOnly := by
  intro span op hop
  change op ∈ c.markOps span at hop
  rw [markOps] at hop
  split at hop
  · rw [List.mem_singleton.1 hop]
    rfl
  · cases hop

theorem Locates.unitAs (h : c.Locates C M scope r)
    (hargs : (c.table.scope scope).argumentCount = r.arity) (harity : r.arity ≤ r.slotCount)
    {ops : List Op} {blocks : Array CompiledCode} {isClassMethod : Bool} {code : CompiledCode}
    (hcode : c.IsCode scope ops blocks isClassMethod code) : UnitAs r ops code := by
  have hspelled := hcode.spelled
  obtain ⟨buffer, rfl, hvalid, -, -⟩ := hcode
  refine ⟨?_, ?_, hargs, ?_, fun hi hj => hvalid.eq_of_getElem? hi hj, hspelled, h.located.room⟩
  · have hname := h.located.qualifiedName_eq h.sound h.isClass
    rw [h.className, h.selector] at hname
    exact hname
  · exact (h.located.classNameOf_eq h.sound h.isClass).trans h.className
  · have hcount : (c.table.scope scope).slotCount = r.slotCount := h.located.hasNames.count
    change (c.table.scope scope).argumentCount
      + ((c.table.scope scope).slotCount - (c.table.scope scope).argumentCount) = r.slotCount
    rw [hargs, hcount]
    omega

/-- Code that was put aside under a number is found there. -/
theorem isSome_blockAt?_putBlocks {codes : List (Nat × CompiledCode)} {i : Nat}
    {code : CompiledCode} (h : (i, code) ∈ codes) (blocks : Array (Option CompiledCode)) :
    (Emission.blockAt? (putBlocks blocks codes) i).isSome := by
  -- What is found is not lost again.
  have hkeep (codes : List (Nat × CompiledCode)) (blocks : Array (Option CompiledCode))
      (h : (Emission.blockAt? blocks i).isSome) :
      (Emission.blockAt? (putBlocks blocks codes) i).isSome := by
    induction codes generalizing blocks with
    | nil => exact h
    | cons numbered codes ih =>
      refine ih _ ?_
      rw [Emission.blockAt?_putBlock]
      split
      · rfl
      · exact h
  induction codes generalizing blocks with
  | nil => cases h
  | cons numbered codes ih =>
    rcases List.mem_cons.1 h with rfl | h
    · refine hkeep codes _ ?_
      rw [Emission.blockAt?_putBlock, if_pos rfl]
      rfl
    · exact ih h _

/-- **What is written for a method is the code of its routine.** -/
theorem JobMatch.compiled {job : Job} (h : c.JobMatch C r job) (hblock : r.block = none)
    (hscopes : r.scopes.length = 1) (harity : r.arity ≤ r.slotCount) {code : CompiledCode}
    (hcode : c.methodCode job = .ok code) : CompiledWith (c.naming C) job.span r code := by
  obtain ⟨codes, blocks, hblocks, hall, hmethod⟩ := methodCode_isCode hcode
  rw [h.ops] at hmethod
  refine ⟨h.locates.unitAs h.arity harity hmethod, fun i => ?_, ?_, c.naming_marksOnly C, ?_⟩
  · obtain ⟨buffer, rfl, -⟩ := hmethod
    change Option.Rel _ r.blocks[i]? blocks[i]?
    -- A block that was written is the routine with its number.
    have hunit {code : CompiledCode} (hi : blocks[i]? = some code) : ∃ q, r.Has i q ∧
        UnitAs q ((c.naming C).blockCode q.scopes q.firstBlock q.statements) code := by
      obtain ⟨b, hb, hkind, hbcode⟩ := block_of_methodCode hblocks hall hi
      obtain ⟨q, hq, hmatch⟩ := h.blocks.left b hb
      obtain ⟨j, hj⟩ := List.mem_iff_getElem?.1 hq
      have hinside := Routine.Has.inside hj hblock hscopes
      obtain ⟨m, hm, -, hkind'⟩ := hmatch.kind
      have hij : i = j := by
        grind
      rw [hmatch.ops] at hbcode
      exact ⟨q, hij ▸ hj, hmatch.locates.unitAs hmatch.arity hinside.arity hbcode⟩
    cases hi : blocks[i]? with
    | some code =>
      obtain ⟨q, hq, hunit⟩ := hunit hi
      rw [Routine.Has] at hq
      rw [hq]
      exact .some hunit
    | none =>
      cases hq : r.blocks[i]? with
      | none => exact .none
      | some q =>
        -- Every routine was written under its number.
        obtain ⟨b, hb, hmatch⟩ := h.blocks.right q (List.mem_of_getElem? hq)
        obtain ⟨m, hm, -, hkind⟩ := hmatch.kind
        rw [(Routine.Has.inside hq hblock hscopes).block] at hm
        obtain ⟨numbered, hnumbered, hcode⟩ :=
          Forall₂.exists_left (R := flip c.IsBlockCode) (List.Forall₂.flip hblocks) hb
        have hindex : numbered.1 = i := by
          have := hcode.1.symm.trans hkind
          grind
        have hsome := @isSome_blockAt?_putBlocks codes i numbered.2 (hindex ▸ hnumbered) #[]
        rw [← Emission.blockAt?_of_allBlocks? hall, hi] at hsome
        cases hsome
  · obtain ⟨buffer, rfl, -⟩ := hmethod
    rfl
  · change (c.table.fieldNames C).length ≤ capacity
    rw [fieldNames, List.length_map, h.locates.sound.length_fields h.locates.isClass]
    exact (h.locates.sound.fields h.locates.isClass).room

end CodeContext

end Smalltalk
