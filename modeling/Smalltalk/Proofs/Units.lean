/-
**What activations run.**

Code comes in units: that of a method, and that of each of its blocks. Every activation is started
for one unit and has as many variables as it asks for. The activations that code can see are those
of the routines around it: the one of the unit itself, then that of the block around it, and so on
up to the method. All this is told by a list that says for each activation what it was started
for, which the machine itself does not keep.

* `ClassTable.HasUnit` — **a unit and the routine it was made from**;
* `Origins`, `Origins.Covers` — **what each activation was started for**;
* `Frame.Lawful.slot` — **the variables that code names are there**.
-/

import Smalltalk.Proofs.CompiledMethods
import Smalltalk.Proofs.Flow

namespace Smalltalk

variable {q method r : Routine} {n index : Nat} {block : Option Nat} {T : ClassTable}
  {programs : List Program} {m : Method} {Λ Λ' : Origins} {s : Store}

/-! ### Lists of equal length -/

section Lists

variable {α β : Type} {R : α → β → Prop} {l : List α} {l' : List β} {i : Nat}

theorem Forall₂.exists_getElem?_right (h : List.Forall₂ R l l') {a : α} (ha : l[i]? = some a) :
    ∃ b, l'[i]? = some b ∧ R a b := by
  have hi := Forall₂.getElem? h i
  rw [ha] at hi
  generalize l'[i]? = found at hi ⊢
  cases hi with
  | some hab => exact ⟨_, rfl, hab⟩

theorem Forall₂.exists_getElem?_left (h : List.Forall₂ R l l') {b : β} (hb : l'[i]? = some b) :
    ∃ a, l[i]? = some a ∧ R a b := by
  have hi := Forall₂.getElem? h i
  rw [hb] at hi
  generalize l[i]? = found at hi ⊢
  cases hi with
  | some hab => exact ⟨_, rfl, hab⟩

end Lists

/-! ### The blocks of a method -/

section Blocks

variable {Q : Routine → Prop}

/-- Blocks of the method take the property over from the routine they are in. -/
def Routine.Inherits (method : Routine) (Q : Routine → Prop) : Prop :=
  ∀ {q : Routine} {n : Nat} {parameters locals : List Token} {statements : List (Statement Unit)},
    Q q → method.Has n (q.inner n parameters locals statements) →
      Q (q.inner n parameters locals statements)

/-- **Induction on the blocks of a method**, from the outside in. -/
theorem Routine.Has.induction (h : method.Has n q) (hblock : method.block = none)
    (hmethod : Q method) (hinner : method.Inherits Q) : Q q := by
  have hq := h
  rw [Routine.Has, Routine.blocks, Routine.firstBlock, hblock] at hq
  exact statementsRoutines_handed (P := fun _ => Q) (Q := fun _ => Q) (fun _ => id)
    (fun hr hhas _ => ⟨hinner hr hhas, hinner hr hhas⟩) _ hmethod (Routine.has_blocks hblock) n q hq

end Blocks

/-! ### Units -/

/-- The code of a method, or of the block with a number. -/
def Method.unit? (m : Method) : Option Nat → Option CompiledCode
  | none => some m.code
  | some n => m.code.blocks[n]?

namespace Routine

/-- A method, or the block with a number. -/
def unit? (method : Routine) : Option Nat → Option Routine
  | none => some method
  | some n => method.blocks[n]?

/-- The routines around and the routine itself, from the inside out. -/
def units (q : Routine) : List (Option Nat) := q.nest.map some ++ [none]

/-- **The names around a block** are those of the blocks around it and of the method. -/
def Nested (method q : Routine) : Prop :=
  List.Forall₂ (fun block names => ∃ q', method.unit? block = some q' ∧ q'.names = names)
    q.units q.scopes

theorem IsMethod.nested (h : method.IsMethod) : method.Nested method := by
  obtain ⟨names, hnames⟩ := List.length_eq_one_iff.1 h.scopes
  have hself : method.names = names := by
    rw [Routine.names, hnames]
    rfl
  rw [Nested, units, h.nest, hnames]
  exact .cons ⟨method, rfl, hself⟩ .nil

theorem Has.nested (h : method.Has n q) (hmethod : method.IsMethod) : method.Nested q :=
  h.induction hmethod.block hmethod.nested fun hq hinner => .cons ⟨_, hinner, rfl⟩ hq

theorem nested_of_unit? (h : method.unit? block = some q) (hmethod : method.IsMethod) :
    method.Nested q ∧ q.block = block := by
  cases block with
  | none =>
    obtain rfl := Option.some.inj h
    exact ⟨hmethod.nested, hmethod.block⟩
  | some n => exact ⟨Has.nested h hmethod, (Has.inside h hmethod.block hmethod.scopes).block⟩

/-- The unit of a routine comes first among those it can see. -/
theorem units_eq_cons (q : Routine) : q.units = q.block :: q.units.tail := by
  rw [units, block]
  cases q.nest <;> rfl

end Routine

namespace ClassTable

/-- **A unit and the routine it was made from.** -/
@[grind cases]
structure HasUnit (T : ClassTable) (programs : List Program) (m : Method) (block : Option Nat)
    (code : CompiledCode) (r q : Routine) : Prop where
  method : ∃ N span, T.HasMethod programs m r N span
  routine : r.unit? block = some q
  code : m.unit? block = some code

variable {code : CompiledCode}

/-- Every routine of a method has a unit. -/
theorem HasMethod.exists_unit {N : Naming} {span : Span} (h : T.HasMethod programs m r N span)
    (hq : r.unit? block = some q) : ∃ code, T.HasUnit programs m block code r q := by
  cases block with
  | none => exact ⟨m.code, ⟨N, span, h⟩, hq, rfl⟩
  | some n =>
    have hblocks := h.compiled.blocks n
    rw [Routine.unit?] at hq
    rw [hq] at hblocks
    cases hcode : m.code.blocks[n]? with
    | none => rw [hcode] at hblocks; cases hblocks
    | some code => exact ⟨code, ⟨N, span, h⟩, hq, hcode⟩

namespace HasUnit

section

variable (h : T.HasUnit programs m block code r q) (hT : T.Implements programs)

include h hT

theorem fit : r.IsFit := by
  obtain ⟨N, span, hmethod⟩ := h.method
  exact hmethod.fit hT

/-- The code of a unit consists of the operations of its routine. -/
theorem unitAs : ∃ ops, UnitAs q ops code ∧ (r.Numbered q → Flows r q 0 ops) := by
  have hfit := h.fit hT
  obtain ⟨N, span, hmethod⟩ := h.method
  have hroutine := h.routine
  have hcode := h.code
  cases block with
  | none =>
    obtain rfl := Option.some.inj hroutine
    obtain rfl := Option.some.inj hcode
    exact ⟨_, hmethod.compiled.unit, fun hnumbered =>
      Naming.methodCode_flows hmethod.compiled.marks hfit hnumbered span⟩
  | some n =>
    exact ⟨_, hmethod.compiled.block hroutine hcode, fun hnumbered =>
      Naming.blockCode_flows hmethod.compiled.marks hfit hroutine hnumbered⟩

theorem nested : r.Nested q ∧ q.block = block :=
  Routine.nested_of_unit? h.routine (h.fit hT).isMethod

theorem numbered : r.Numbered q := by
  have hfit := h.fit hT
  obtain ⟨ops, hunit, -⟩ := h.unitAs hT
  refine ⟨?_, hunit.room, hfit.blocks⟩
  have hroutine := h.routine
  cases block with
  | none =>
    obtain rfl := Option.some.inj hroutine
    rw [hfit.isMethod.scopes]
    decide
  | some n =>
    have hdepth := (Routine.Has.inside hroutine hfit.isMethod.block hfit.isMethod.scopes).depth
    have hlt := Nat.lt_of_lt_of_le (Routine.Has.lt hroutine) hfit.blocks
    omega

/-- **The code of a unit can be run.** -/
theorem flows : ∃ ops, Spelled code.literals code.code ops ∧ Flows r q 0 ops := by
  obtain ⟨ops, hunit, hflows⟩ := h.unitAs hT
  exact ⟨ops, hunit.spelled, hflows (h.numbered hT)⟩

theorem slotCount : code.slotCount = q.names.length := by
  obtain ⟨ops, hunit, -⟩ := h.unitAs hT
  exact hunit.slotCount

theorem argumentCount : code.argumentCount = q.arity := by
  obtain ⟨ops, hunit, -⟩ := h.unitAs hT
  exact hunit.argumentCount

/-- The routines that a unit can see have units with as many variables as they have names. -/
theorem around :
    List.Forall₂ (fun block names => ∃ q' code', T.HasUnit programs m block code' r q' ∧
      q'.names = names ∧ code'.slotCount = names.length) q.units q.scopes := by
  obtain ⟨N, span, hmethod⟩ := h.method
  refine (h.nested hT).1.imp fun block names hq => ?_
  obtain ⟨q', hq', rfl⟩ := hq
  obtain ⟨code', hunit⟩ := hmethod.exists_unit hq'
  exact ⟨q', code', hunit, rfl, hunit.slotCount hT⟩

theorem exists_of_mem_units {block' : Option Nat} (hmem : block' ∈ q.units) :
    ∃ q' code', T.HasUnit programs m block' code' r q' := by
  obtain ⟨i, hi⟩ := List.getElem?_of_mem hmem
  obtain ⟨names, -, q', code', hunit, -⟩ := Forall₂.exists_getElem?_right (h.around hT) hi
  exact ⟨q', code', hunit⟩

end

end HasUnit

end ClassTable

/-! ### What activations were started for -/

/-- **What each activation was started for**: a method, and the number of a block if it is one. -/
abbrev Origins := List (Method × Option Nat)

/-- The activations are those of some units of a method. -/
def Origins.Covers (Λ : Origins) (m : Method) (chain : List Nat) (units : List (Option Nat)) :
    Prop :=
  List.Forall₂ (fun a block => Λ[a]? = some (m, block)) chain units

theorem Origins.Covers.mono (h : Λ <+: Λ') {chain : List Nat} {units : List (Option Nat)}
    (hcovers : Λ.Covers m chain units) : Λ'.Covers m chain units := by
  obtain ⟨more, rfl⟩ := h
  refine hcovers.imp fun a block ha => ?_
  grind

/-- How many variables the activations have. -/
def Store.rowSizes (s : Store) : List Nat := s.activations.toList.map Array.size

theorem Store.rowSizes_setSlot (s : Store) (activation index : Nat) (v : Value) :
    (s.setSlot activation index v).rowSizes = s.rowSizes := by
  rw [rowSizes, rowSizes, setSlot, Array.toList_modify]
  refine List.ext_getElem? fun i => ?_
  grind

theorem Store.exists_slot? {a size : Nat} (h : s.rowSizes[a]? = some size) (hindex : index < size) :
    ∃ v, s.slot? a index = some v := by
  rw [rowSizes, List.getElem?_map, Array.getElem?_toList, Option.map_eq_some_iff] at h
  obtain ⟨row, hrow, rfl⟩ := h
  exact ⟨row[index], by rw [slot?, hrow, Option.bind_some, Array.getElem?_eq_getElem hindex]⟩

/-- Every activation has as many variables as the unit that it was started for. -/
def Store.Fits (s : Store) (Λ : Origins) : Prop :=
  List.Forall₂ (fun origin size => ∃ code, origin.1.unit? origin.2 = some code ∧
    size = code.slotCount) Λ s.rowSizes

/-! ### Lawful blocks and activations -/

section Lawful

variable (T : ClassTable) (programs : List Program) (Λ : Origins)

/-- **A block that was made in an activation of the routine around it.** -/
def Closure.Lawful (c : Closure Value) : Prop :=
  ∃ r q, T.HasUnit programs c.method (some c.index) c.code r q ∧
    Λ.Covers c.method c.environment.chain q.units.tail

/-- The values whose blocks are lawful and whose classes belong to the table. -/
def Origins.pairing : Pairing :=
  .diagonal (Closure.Lawful T programs Λ) T.Holds (fun m => T.methodAt? m.address = some m)
    (fun hc hd => hc.superclass hd) fun hc hm => (hc.lookup hm).2

/-- **An activation of a unit**, whose code can be run once it has got some number of values. -/
@[grind cases]
structure Frame.Lawful (given : Nat) (f : Frame) : Prop where
  unit : ∃ r q ops, T.HasUnit programs f.method f.block f.code r q ∧
    Λ.Covers f.method f.environment.chain q.units ∧ Spelled f.code.literals f.rest ops ∧
      Flows r q (f.operands.length + given) ops
  receiver : f.environment.receiver.Pair (Λ.pairing T programs) f.environment.receiver
  operands : List.Forall₂ (Value.Pair (Λ.pairing T programs)) f.operands f.operands

end Lawful

theorem Closure.Lawful.mono (h : Λ <+: Λ') {c : Closure Value} (hc : c.Lawful T programs Λ) :
    c.Lawful T programs Λ' := by
  obtain ⟨r, q, hunit, hcovers⟩ := hc
  exact ⟨r, q, hunit, hcovers.mono h⟩

theorem Origins.within (h : Λ <+: Λ') :
    (Λ.pairing T programs).Within (Λ'.pairing T programs) :=
  ⟨fun hc => ⟨hc.1, hc.2.mono h⟩, id, id⟩

namespace Frame.Lawful

variable {given : Nat} {f : Frame}

theorem mono (h : Λ <+: Λ') (hf : f.Lawful T programs Λ given) :
    f.Lawful T programs Λ' given := by
  obtain ⟨r, q, ops, hunit, hcovers, hcode⟩ := hf.unit
  exact ⟨⟨r, q, ops, hunit, hcovers.mono h, hcode⟩, hf.receiver.mono (Origins.within h),
    Forall₂.mono (Origins.within h) hf.operands⟩

/-- **The variables that code names are there**, in an activation of the routine that has them. -/
theorem slot (hT : T.Implements programs) (hs : s.Fits Λ)
    (hunit : T.HasUnit programs f.method f.block f.code r q)
    (hcovers : Λ.Covers f.method f.environment.chain q.units) {depth : Nat}
    (hslot : q.HasSlot depth index) :
    ∃ a v, f.environment.chain[depth]? = some a ∧ s.slot? a index = some v := by
  obtain ⟨name, hname⟩ := hslot
  obtain ⟨names, hnames, hindex⟩ := slotOf?_lt hname
  obtain ⟨block, hblock, q', code, hunit', -, hcount⟩ :=
    Forall₂.exists_getElem?_left (hunit.around hT) hnames
  obtain ⟨a, ha, horigin⟩ := Forall₂.exists_getElem?_left hcovers hblock
  obtain ⟨size, hsize, code', hcode, rfl⟩ := Forall₂.exists_getElem?_right hs horigin
  obtain rfl := Option.some.inj (hcode.symm.trans hunit'.code)
  obtain ⟨v, hv⟩ := Store.exists_slot? hsize (hcount ▸ hindex)
  exact ⟨a, v, ha, hv⟩

end Frame.Lawful

end Smalltalk
