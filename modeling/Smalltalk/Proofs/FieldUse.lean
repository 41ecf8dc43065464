/-
**Fields, and the code that uses them.**

The fields of a class are numbered from the oldest superclass down, without a gap, so that a method
of a superclass finds its fields at the same numbers in every subclass. Code refers to a field by
this number alone. Whatever mistakes there are in some programs, all code that is written for a
class uses the numbers of fields of that class, and it sends a message to `super` only if the operand
that is to receive it is the receiver of the running method.

* `SymbolTable.PartOf` — **the scopes of the methods of a class** and of their blocks;
* `Tracks` — **code that keeps track of the receiver** among its operands;
* `Compilation.ofPrograms_codeFits` — **the code of all programs fits to its class**.
-/

import Smalltalk.Proofs.Modularity
import Smalltalk.Proofs.Selectors

namespace Smalltalk

open Declaring SymbolTable

variable {t t' : SymbolTable} {fields n : Nat} {C S : ScopeId} {ops : List Op} {id : SymbolId}
  {name : String} {s : List Bool} {index : UInt16} {c : CodeContext} {code : CompiledCode}
  {job : Job}

namespace SymbolTable

variable {s : ScopeId}

/-! ### The numbers of fields -/

/-- The fields of a class start with those of its superclass. -/
theorem Sound.prefix_fields (h : t.Sound) (hs : t.superclass? C = some s) :
    t.fields s <+: t.fields C := by
  rw [h.fields_eq C, hs]
  exact List.prefix_append _ _

/-- **A field has the number of its place.** -/
theorem Sound.index_of_fields (h : t.Sound) (hclass : (t.scope C).kind.isClass = true) {i : Nat}
    (hid : (t.fields C)[i]? = some id) : (t.symbol id).kind = .field ∧ (t.symbol id).index = i := by
  induction C using Nat.strongRecOn with
  | ind C ih =>
    have hinherited : (((t.superclass? C).map t.fields).getD []).length = t.inherited C := by
      rw [inherited]
      cases hsuper : t.superclass? C with
      | none => rfl
      | some s => exact h.length_fields (h.isClass_of_mem (h.superclass hsuper).2)
    rw [h.fields_eq C] at hid
    rcases Nat.lt_or_ge i (t.inherited C) with hlt | hge
    · -- an inherited field is one of the superclass
      rw [List.getElem?_append_left (hinherited ▸ hlt)] at hid
      cases hsuper : t.superclass? C with
      | none => rw [hsuper] at hid; cases hid
      | some s =>
        rw [hsuper] at hid
        obtain ⟨hs, hmem⟩ := h.superclass hsuper
        exact ih s hs (h.isClass_of_mem hmem) hid
    · rw [List.getElem?_append_right (hinherited.symm ▸ hge), hinherited] at hid
      have hfield := (List.mem_filter.1 (List.mem_of_getElem? hid)).2
      exact ⟨of_decide_eq_true hfield,
        ((h.fields hclass).index hid).trans (Nat.add_sub_of_le hge)⟩

/-- Declarations elsewhere leave the fields of a class alone. -/
theorem Sound.fields_grows (h : t.Sound) (h' : t'.Sound) (hgrows : Grows n t t') (hC : C < n) :
    t'.fields C = t.fields C := by
  induction C using Nat.strongRecOn with
  | ind C ih =>
    rw [h.fields_eq C, h'.fields_eq C, hgrows.ownFields hC,
      hgrows.superclass? (Nat.lt_of_lt_of_le hC hgrows.bound)]
    cases hsuper : t.superclass? C with
    | none => rfl
    | some s =>
      grind

/-- What a class inherits stays as it was when it was declared. -/
theorem Sound.lineage_grows (h : t.Sound) (h' : t'.Sound) (hgrows : Grows n t t')
    (hC : C < t.scopes.size) : t'.lineage C = t.lineage C := by
  induction C using Nat.strongRecOn with
  | ind C ih =>
    rw [h.lineage_eq C, h'.lineage_eq C, hgrows.superclass? hC]
    cases hsuper : t.superclass? C with
    | none => rfl
    | some s =>
      grind

/-! ### Where classes and fields are -/

/-- Every class is listed, and every field belongs to a class. -/
@[grind cases]
structure Homed (t : SymbolTable) : Prop where
  listed {s : ScopeId} : (t.scope s).kind.isClass = true → s ∈ t.classes
  field {id : SymbolId} : id < t.symbols.size → (t.symbol id).kind = .field →
    (t.scope (t.symbol id).scope).kind.isClass = true

theorem new_homed : new.Homed where
  listed {s} h := by
    cases (scope_new (P := (·.kind.isClass = false)) rfl rfl s).symm.trans h
  field h := absurd h (Nat.not_lt_zero _)

theorem lt_size_of_isClass (h : (t.scope s).kind.isClass = true) : s < t.scopes.size := by
  refine Nat.lt_of_not_le fun hle => ?_
  rw [scope_of_size_le _ hle] at h
  cases h

theorem Homed.of_withoutCode (h : t.withoutCode = t'.withoutCode) (hhomed : t.Homed) :
    t'.Homed where
  listed {s} hs := by
    rw [classes_of_withoutCode h]
    exact hhomed.listed ((congrArg (·.kind.isClass) (scope_eq_of_withoutCode h s) :).trans hs)
  field {id} hlt hkind := by
    rw [← symbol_eq_of_withoutCode h] at hkind ⊢
    exact (congrArg (·.kind.isClass) (scope_eq_of_withoutCode h _) :).symm.trans
      (hhomed.field (symbols_of_withoutCode h ▸ hlt) hkind)

/-- What is kept when scopes and symbols are added: new classes have to be listed, and new fields
have to belong to a class. -/
theorem Homed.grows (h : t.Homed) (hgrows : Grows n t t') (hclasses : t.classes ⊆ t'.classes)
    (hlisted : ∀ s, t.scopes.size ≤ s → (t'.scope s).kind.isClass = true → s ∈ t'.classes)
    (hfield : ∀ id, t.symbols.size ≤ id → id < t'.symbols.size → (t'.symbol id).kind = .field →
      (t'.scope (t'.symbol id).scope).kind.isClass = true) : t'.Homed where
  listed {s} hs := by
    rcases Nat.lt_or_ge s t.scopes.size with hlt | hge
    · exact hclasses (h.listed ((hgrows.alike hlt).isClass.symm.trans hs))
    · exact hlisted s hge hs
  field {id} hlt hkind := by
    rcases Nat.lt_or_ge id t.symbols.size with hold | hnew
    · rw [hgrows.symbol hold] at hkind ⊢
      have hclass := h.field hold hkind
      exact (hgrows.alike (lt_size_of_isClass hclass)).isClass.trans hclass
    · exact hfield id hnew hlt hkind

end SymbolTable

namespace Declaring

/-- A field is declared in a class. -/
theorem Step.field_mem (h : Step n t t') (hge : t.symbols.size ≤ id) (hlt : id < t'.symbols.size)
    (hfield : (t'.symbol id).kind = .field) : (t'.symbol id).scope ∈ t.classes := by
  cases h with
  | inner hstep =>
    cases hstep with
    | named name hn hopen hkind =>
      obtain ⟨index, heq⟩ := symbol_declare hge hlt
      rw [heq] at hfield
      rcases hkind with rfl | rfl <;> cases hfield
    | @block scope =>
      rw [declareBlock_eq] at hlt hfield
      have hge' : (t.openBlock scope).symbols.size ≤ id := hge
      grind
  | @newClass name superclass =>
    obtain ⟨index, heq⟩ := symbol_declare (t := (t.addScope name _ global).2) hge hlt
    cases (congrArg Symbol.kind heq).symm.trans hfield
  | field name hn hlast hC =>
    obtain ⟨index, heq⟩ := symbol_declare hge hlt
    rwa [heq]
  | @method scope selector classSide =>
    obtain ⟨index, heq⟩ := symbol_declareMethod
      (t := (t.addScope selector (.method classSide 0) scope).2) hge hlt
    cases (congrArg Symbol.kind heq).symm.trans hfield
  | operation =>
    obtain ⟨index, heq⟩ := symbol_declareMethod hge hlt
    rw [heq] at hfield
    cases hfield

theorem Step.homed (h : Step n t t') (hsound : t.Sound) (hhomed : t.Homed) : t'.Homed := by
  obtain ⟨-, hgrows⟩ := h.sound hsound
  refine hhomed.grows hgrows (h.classes_subset hsound) (fun s hge hclass => ?_)
    fun id hge hlt hfield => ?_
  · obtain ⟨-, hmem | ⟨_, _, kind, hnew, -, hkind⟩⟩ :=
      h.opened hsound hge (lt_size_of_isClass hclass)
    · exact hmem
    · rw [hnew] at hclass
      have hactivation : kind.isActivation = true := by grind [ScopeKind.isActivation]
      cases (ScopeKind.isClass_of_isActivation hactivation).symm.trans hclass
  · have hC := h.field_mem hge hlt hfield
    exact (hgrows.alike (hsound.lt_size_of_mem hC)).isClass.trans (hsound.isClass_of_mem hC)

theorem Run.homed (h : Run n t t') (hsound : t.Sound) (hhomed : t.Homed) : t'.Homed :=
  h.keeps hsound hhomed fun _ _ hu hstep => hstep.homed hu

end Declaring

theorem Compilation.ofPrograms_homed (options : CompileOptions) (ps : List Program) :
    (ofPrograms options ps).table.Homed :=
  ofPrograms_keeps options ps new_homed (fun _ _ => Homed.of_withoutCode)
    fun _ _ hsound hrun => hrun.homed hsound

/-! ### The scopes of the methods of a class -/

namespace SymbolTable

/-- **The scope of a method of a class**, or of a block inside of one. -/
inductive PartOf (t : SymbolTable) (C : ScopeId) : ScopeId → Prop
  | method {S : ScopeId} (hkind : (t.scope S).kind.isMethod = true)
      (henclosing : (t.scope S).enclosing = some C) : PartOf t C S
  | block {S outer : ScopeId} (hkind : (t.scope S).kind.isBlock = true)
      (henclosing : (t.scope S).enclosing = some outer) (h : PartOf t C outer) : PartOf t C S

namespace PartOf

theorem isActivation (h : t.PartOf C S) : (t.scope S).kind.isActivation = true := by
  cases h with
  | method hkind _ => rw [ScopeKind.isActivation, hkind, Bool.true_or]
  | block hkind _ _ => rw [ScopeKind.isActivation, hkind, Bool.or_true]

theorem grows (h : t.PartOf C S) (hgrows : Grows n t t') : t'.PartOf C S := by
  induction h with
  | method hkind henclosing =>
    have halike := hgrows.alike (lt_size_of_isMethod hkind)
    exact .method (halike.isMethod.trans hkind) (halike.enclosing.trans henclosing)
  | block hkind henclosing h ih =>
    have halike := hgrows.alike (lt_size_of_isActivation (block hkind henclosing h).isActivation)
    exact .block (halike.isBlock.trans hkind) (halike.enclosing.trans henclosing) ih

/-- The scopes from the method of a class on, if they are all blocks inside of it. -/
theorem of_blocksCounted {M : ScopeId} (h : t.BlocksCounted M) (hsound : t.Sound)
    (hM : (t.scope M).enclosing = some C) (hS : M ≤ S) (hlt : S < t.scopes.size) :
    t.PartOf C S := by
  induction S using Nat.strongRecOn with
  | ind S ih =>
    rcases Nat.eq_or_lt_of_le hS with rfl | hgt
    · exact .method h.isMethod hM
    · obtain ⟨i, rfl⟩ := Nat.exists_eq_add_of_le (Nat.succ_le_of_lt hgt)
      obtain ⟨hkind, outer, henclosing, houter⟩ := h.block hlt
      have hinner := hsound.enclosing henclosing
      exact .block (by rw [hkind]; rfl) henclosing
        (ih outer hinner houter (Nat.lt_trans hinner hlt))

section

variable (h : t.PartOf C S) (hsound : t.Sound) (hnested : t.Nested) (hhomed : t.Homed)

include h hsound hnested hhomed

/-- A name that is not one of a class, from the inside out: either a variable of the code, or what
the class of the code knows it as. -/
theorem resolve?_cases (hid : t.resolve? S name = some id) :
    (t.symbol id).kind ≠ .field ∨ t.resolve? C name = some id := by
  -- A name of the scope itself belongs to a method or block, and fields belong to classes.
  have hown {S outer : ScopeId} (hactivation : (t.scope S).kind.isActivation = true)
      (henclosing : (t.scope S).enclosing = some outer) (hid : t.resolve? S name = some id) :
      (t.symbol id).kind ≠ .field ∨ t.resolve? outer name = some id := by
    rw [resolve?, Located.outward_eq_cons hsound henclosing, List.findSome?_cons,
      Located.findIn?_eq hsound (ScopeKind.isClass_of_isActivation hactivation)] at hid
    cases hfound : (t.scope S).names[name]? with
    | none =>
      rw [hfound] at hid
      exact .inr hid
    | some found =>
      rw [hfound] at hid
      obtain rfl := Option.some.inj hid
      obtain ⟨hlt, hscope⟩ := hnested.own hactivation hfound
      refine .inl fun hfield => ?_
      have hclass := hhomed.field hlt hfield
      rw [hscope, ScopeKind.isClass_of_isActivation hactivation] at hclass
      cases hclass
  induction h with
  | method hkind henclosing => exact hown (method hkind henclosing).isActivation henclosing hid
  | block hkind henclosing h ih =>
    rcases hown (block hkind henclosing h).isActivation henclosing hid with hkind | hid
    · exact .inl hkind
    · exact ih hid

/-- **Code can only name the fields of its class.** -/
theorem index_lt (hclass : (t.scope C).kind.isClass = true) (hid : t.resolve? S name = some id)
    (hfield : (t.symbol id).kind = .field) : (t.symbol id).index < (t.fields C).length := by
  have hC := (h.resolve?_cases hsound hnested hhomed hid).resolve_left fun hne => hne hfield
  rcases Located.resolve?_class hsound hclass name with
    ⟨found, index, hindex, hfound, -, rfl⟩ | ⟨-, hother⟩
  · obtain rfl := Option.some.inj (hfound.symm.trans hC)
    have hlt := (List.getElem?_eq_some_iff.1 (getElem?_of_fieldOf? hindex)).1
    rwa [fieldNames, List.length_map] at hlt
  · have hvariable := hother id hC
    rw [hfield] at hvariable
    cases hvariable

end

theorem enclosingClass?_eq (h : t.PartOf C S) (hsound : t.Sound)
    (hclass : (t.scope C).kind.isClass = true) : t.enclosingClass? S = some C := by
  have hskip {S outer : ScopeId} (hactivation : (t.scope S).kind.isActivation = true)
      (henclosing : (t.scope S).enclosing = some outer) :
      t.enclosingClass? S = t.enclosingClass? outer := by
    rw [enclosingClass?, Located.outward_eq_cons hsound henclosing, List.find?_cons,
      ScopeKind.isClass_of_isActivation hactivation]
    rfl
  induction h with
  | method hkind henclosing =>
    rw [hskip (method hkind henclosing).isActivation henclosing, enclosingClass?,
      Located.outward_class hsound hclass, List.find?_cons, hclass]
  | block hkind henclosing h ih => rw [hskip (block hkind henclosing h).isActivation henclosing, ih]

end PartOf

end SymbolTable

/-! ### Code that keeps track of the receiver -/

namespace Op

/-- What code of a class with some number of fields may do: it uses a field that there is, and it
sends a message to `super` only on behalf of the receiver of the running method. -/
def Allowed (fields : Nat) (s : List Bool) : Op → Prop
  | .plain (.pushField index) | .plain (.storeField index) => index.toNat < fields
  | .send true count _ => s[count]? = some true
  | _ => True

end Op

/-- **Code that keeps track of the receiver** among its operands, and of the number of fields. -/
def Tracks (fields : Nat) : List Bool → List Op → Prop
  | _, [] => True
  | s, op :: ops => op = .invalid ∨ op.Allowed fields s ∧ Tracks fields (op.shape s) ops

namespace Tracks

variable {rest : List Op}

/-- Instructions that spell such code use no field that there is not. -/
theorem index_lt (h : Tracks fields s ops) {literals : Array String} {is : List Instruction}
    (hwritten : List.Forall₂ (Op.Written literals) ops is)
    (hi : .pushField index ∈ is ∨ .storeField index ∈ is) : index.toNat < fields := by
  induction hwritten generalizing s with
  | nil => rcases hi with hi | hi <;> cases hi
  | cons hop _ ih =>
    obtain ⟨hallowed, hrest⟩ := h.resolve_left fun hinvalid => by subst hinvalid; cases hop
    rcases hi with hi | hi
    · rcases List.mem_cons.1 hi with rfl | hi
      · cases hop
        exact hallowed
      · exact ih hrest (.inl hi)
    · rcases List.mem_cons.1 hi with rfl | hi
      · cases hop
        exact hallowed
      · exact ih hrest (.inr hi)

end Tracks

namespace CodeContext

variable {scope : ScopeId}

/-- The fields that the code of a scope can name. -/
def FieldsBelow (c : CodeContext) (scope : ScopeId) (fields : Nat) : Prop :=
  fields ≤ capacity ∧ ∀ name index, c.place? scope name = some (.field index) → index < fields

theorem FieldsBelow.toNat_lt (h : c.FieldsBelow scope fields) {index : Nat}
    (hplace : c.place? scope name = some (.field index)) : (UInt16.ofNat index).toNat < fields := by
  have hlt := h.2 name index hplace
  rwa [UInt16.toNat_ofNat_of_lt' (Nat.lt_succ_of_lt (Nat.lt_of_lt_of_le hlt h.1))]

/-- Operations in order keep track of the receiver. -/
theorem FieldsBelow.tracks (h : c.FieldsBelow scope fields) {S : Span → Prop}
    {bs : List OpenedBlock} {marked : Bool}
    (horder : InOrder S c scope bs marked s ops) : Tracks fields s ops := by
  induction horder with
  | nil => trivial
  | invalid => exact .inl rfl
  | marks span _ ih =>
    rw [markOps]
    split
    · exact .inr ⟨trivial, ih⟩
    · exact ih
  | @cons _ s op _ hop _ ih =>
    refine .inr ⟨?_, ih⟩
    cases op with
    | plain i =>
      cases i with
      | pushField index =>
        obtain ⟨name, i, hplace, rfl⟩ := hop
        exact h.toNat_lt hplace
      | storeField index =>
        obtain ⟨-, name, i, hplace, rfl⟩ := hop
        exact h.toNat_lt hplace
      | _ => trivial
    | send toSuper count selector =>
      cases toSuper with
      | false => trivial
      | true => exact hop.2 rfl
    | _ => trivial

end CodeContext

/-! ### The code of a class -/

/-- Code that belongs to a class with some name and some number of fields. -/
structure CompiledCode.IsOf (className : String) (fields : Nat) (code : CompiledCode) : Prop where
  className : code.className = className
  tracks : ∃ ops, Spelled code.literals code.code ops ∧ Tracks fields [] ops

/-- The instructions of such code use only fields that there are. -/
theorem CompiledCode.IsOf.index_lt {className : String} (h : code.IsOf className fields)
    (hi : .pushField index ∈ Instruction.decode code.code ∨ .storeField index ∈ Instruction.decode
      code.code) : index.toNat < fields := by
  obtain ⟨ops, ⟨is, hbytes, hwritten⟩, htracks⟩ := h.tracks
  rw [hbytes, Instruction.decode_flatMap_encode] at hi
  exact htracks.index_lt hwritten hi

namespace CodeContext

theorem fieldsBelow_of_partOf (h : c.table.PartOf C S) (hsound : c.table.Sound)
    (hnested : c.table.Nested) (hhomed : c.table.Homed)
    (hclass : (c.table.scope C).kind.isClass = true) :
    c.FieldsBelow S (c.table.fields C).length := by
  refine ⟨hsound.length_fields hclass ▸ (hsound.fields hclass).room, fun name index hplace => ?_⟩
  rw [place?] at hplace
  cases hid : c.table.resolve? S name with
  | none => rw [hid] at hplace; cases hplace
  | some id =>
    rw [hid] at hplace
    dsimp only at hplace
    cases hkind : (c.table.symbol id).kind with
    | field =>
      rw [hkind] at hplace
      cases hplace
      exact h.index_lt hsound hnested hhomed hclass hid hkind
    | argument | localVariable =>
      rw [hkind] at hplace
      obtain ⟨depth, -, hslot⟩ := Option.map_eq_some_iff.1 hplace
      cases hslot
    | _ => rw [hkind] at hplace; cases hplace

/-- Code that is written in a scope of a class belongs to the class. -/
theorem IsCode.isOf {blocks : Array CompiledCode} {isClassMethod : Bool}
    (h : c.IsCode S ops blocks isClassMethod code) (hS : c.table.PartOf C S)
    (hsound : c.table.Sound) (hclass : (c.table.scope C).kind.isClass = true)
    (htracks : Tracks fields [] ops) : code.IsOf (c.table.scope C).name fields := by
  refine ⟨?_, ops, h.spelled, htracks⟩
  obtain ⟨buffer, rfl, -⟩ := h
  change c.classNameOf S = _
  rw [classNameOf, hS.enclosingClass?_eq hsound hclass]
  rfl

/-- **The code of a method belongs to its class**, and so does that of its blocks. -/
theorem isOf_of_methodCode (h : c.methodCode job = .ok code) (hjob : c.table.PartOf C job.scope)
    (hblocks : ∀ b ∈ statementsBlocks job.body.statements, c.table.PartOf C b.1)
    (hsound : c.table.Sound) (hnested : c.table.Nested) (hhomed : c.table.Homed)
    (hclass : (c.table.scope C).kind.isClass = true) :
    ∀ unit ∈ code.units, unit.IsOf (c.table.scope C).name (c.table.fields C).length := by
  intro unit hunit
  obtain ⟨S, hS, _, _, _, hcode, horder⟩ := methodCode_inOrder h unit hunit
  have hpart : c.table.PartOf C S := by
    rcases List.mem_cons.1 hS with rfl | hS
    · exact hjob
    · obtain ⟨b, hb, rfl⟩ := List.mem_map.1 hS
      exact hblocks b hb
  exact hcode.isOf hpart hsound hclass
    ((fieldsBelow_of_partOf hpart hsound hnested hhomed hclass).tracks horder)

end CodeContext

/-- The scopes of a job are those of its class. -/
theorem Visit.Codes.partOf {v : Visit} {body : Body Unit} (h : v.Codes job body)
    (hlater : Declaring.Run 0 v.after.table t) (hnested : t.Nested) :
    ∃ C, (t.scope job.scope).enclosing = some C ∧ (t.scope C).kind.isClass = true ∧
      t.PartOf C job.scope ∧ ∀ b ∈ statementsBlocks job.body.statements, t.PartOf C b.1 := by
  obtain ⟨hsound, hcounted, -, hmem⟩ := h.counted
  have hgrows := hlater.grows hsound (Nat.zero_le _)
  have halike := hgrows.alike hcounted.lt_size
  obtain ⟨C, henclosing, hclass⟩ := hnested.method (halike.isMethod.trans hcounted.isMethod)
  have hpart {S : ScopeId} (hle : job.scope ≤ S) (hlt : S < v.after.table.scopes.size) :
      t.PartOf C S :=
    (PartOf.of_blocksCounted hcounted hsound (halike.enclosing.symm.trans henclosing) hle hlt).grows
      hgrows
  refine ⟨C, henclosing, hclass, hpart (Nat.le_refl _) hcounted.lt_size, fun b hb => ?_⟩
  obtain ⟨hle, hlt⟩ := (hmem b.1).1 (List.mem_map_of_mem hb)
  exact hpart (Nat.le_of_succ_le hle) hlt

/-- **All code belongs to the class of its method.** -/
def SymbolTable.CodeFits (t : SymbolTable) : Prop :=
  ∀ M code, (t.scope M).code = some code → ∃ C, (t.scope M).enclosing = some C ∧
    (t.scope C).kind.isClass = true ∧
    ∀ unit ∈ code.units, unit.IsOf (t.scope C).name (t.fields C).length

theorem SymbolTable.new_codeFits : new.CodeFits := by
  intro M code hcode
  rw [code_new] at hcode
  cases hcode

namespace Compilation

theorem addFile_codeFits {c : Compilation} (hsound : c.table.Sound) (hnested : c.table.Nested)
    (hhomed : c.table.Homed) (hfits : c.table.CodeFits) (marks : Bool) (fileName : String)
    (p : Program) : (c.addFile marks fileName p).table.CodeFits := by
  have hleads := visits_leads hsound p
  have hdeclares := declared_declares hsound p
  have hwithout := c.addFile_withoutCode marks fileName p
  have hfields (C : ScopeId) :
      (c.addFile marks fileName p).table.fields C = (c.declared p).2.table.fields C := by
    rw [← fields_withoutCode, hwithout, fields_withoutCode]
  intro M code hcode
  -- The code is not part of what is said about the scopes.
  suffices h : ∃ C, ((c.declared p).2.table.scope M).enclosing = some C ∧
      ((c.declared p).2.table.scope C).kind.isClass = true ∧ ∀ unit ∈ code.units,
        unit.IsOf ((c.declared p).2.table.scope C).name ((c.declared p).2.table.fields C).length by
    obtain ⟨C, henclosing, hclass, hunits⟩ := h
    rw [← hfields, name_of_withoutCode hwithout] at hunits
    refine ⟨C, (enclosing_of_withoutCode hwithout.symm M).trans henclosing, ?_, hunits⟩
    rw [kind_of_withoutCode hwithout.symm, hclass]
  rcases code_of_addFile hsound hcode with hcode | ⟨job, hjob, rfl, hmethod⟩
  · have hlt := lt_size_of_code hcode
    obtain ⟨C, henclosing, hclass, hunits⟩ := hfits M code hcode
    have hC := Nat.lt_trans (hsound.enclosing henclosing) hlt
    have halike := hdeclares.grows.alike hC
    refine ⟨C, (hdeclares.grows.alike hlt).enclosing.trans henclosing,
      halike.isClass.trans hclass, ?_⟩
    rw [halike.name, hsound.fields_grows hdeclares.sound hdeclares.grows hC]
    exact hunits
  · obtain ⟨v, hv, hjob⟩ := exists_visit_of_mem_declared hjob
    obtain ⟨body, hcodes, -⟩ := Program.codes_of_visit hsound hv hjob
    have hnested' : (c.declared p).2.table.Nested :=
      hleads.run.nested hsound hnested
    have hhomed' : (c.declared p).2.table.Homed := hleads.run.homed hsound hhomed
    obtain ⟨C, henclosing, hclass, hpart, hblocks⟩ :=
      hcodes.partOf (hleads.later hsound hv).2.1 hnested'
    exact ⟨C, henclosing, hclass, CodeContext.isOf_of_methodCode hmethod hpart hblocks
      hdeclares.sound hnested' hhomed' hclass⟩

/-- **The code of all programs fits to its class**, with or without mistakes. -/
theorem ofPrograms_codeFits (options : CompileOptions) (ps : List Program) :
    (ofPrograms options ps).table.CodeFits := by
  induction ps using List.reverseRecOn with
  | nil =>
    rw [ofPrograms_nil, start]
    split
    · exact addFile_codeFits new_sound new_nested new_homed new_codeFits _ _ _
    · exact new_codeFits
  | append_singleton ps p ih =>
    rw [ofPrograms_append_singleton]
    exact addFile_codeFits (ofPrograms_sound options ps).1 (ofPrograms_nested options ps)
      (ofPrograms_homed options ps) ih _ _ _

end Compilation

end Smalltalk
