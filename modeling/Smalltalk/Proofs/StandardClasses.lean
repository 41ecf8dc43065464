/-
**The standard classes.**

The standard classes come before every program, and no program can change them: the first of two
classes with one name is kept, and what is declared later belongs to other classes. So what the
standard classes hold can be read off once and for all, from the table that has no other classes.

* `Compilation.get?_ofPrograms` — **no program changes the standard classes**.
-/

import Smalltalk.Proofs.FieldUse
import Smalltalk.Proofs.Lookups

namespace Smalltalk

open Declaring SymbolTable

variable {C : ScopeId} {cls : Class}

/-! ### Classes stay as they are -/

namespace Declaring

variable {t t' : SymbolTable} {n : Nat}

/-- The scope of an older class is left alone. -/
theorem Step.scope_eq_of_mem (h : Step n t t') (hsound : t.Sound) (hC : C ∈ t.classes)
    (hlt : C < n) : t'.scope C = t.scope C := by
  have hsize := hsound.lt_size_of_mem hC
  obtain hstep | heq := h.scope_eq hsize (hsound.ne_global_of_mem hC) fun _ => hlt
  · exact hstep.undisturbed C hsize (hsound.isActivation_of_mem hC)
  · exact heq

theorem Run.scope_eq_of_mem (h : Run n t t') (hsound : t.Sound) (hC : C ∈ t.classes)
    (hlt : C < n) : t'.scope C = t.scope C := by
  have hboth : C ∈ t'.classes ∧ t'.scope C = t.scope C := by
    refine h.keeps (P := fun u => C ∈ u.classes ∧ u.scope C = t.scope C) hsound ⟨hC, rfl⟩ ?_
    intro u u' hu hstep hkept
    exact ⟨hstep.classes_subset hu hkept.1, (hstep.scope_eq_of_mem hu hkept.1 hlt).trans hkept.2⟩
  exact hboth.2

end Declaring

theorem ClassTable.classAt_eq {t : SymbolTable} (h : t.Sound) (C : ScopeId) :
    classAt t C = ⟨(t.scope C).name, (t.superclass? C).map (classAt t),
      (t.fields C).map fun id => (t.symbol id).name, methodsOf t C (t.scope C).name false,
      methodsOf t C (t.scope C).name true⟩ := by
  rw [← superclass_classAt h]
  rfl

/-- The methods of a class are read off its symbols and their code. -/
theorem ClassTable.methodsOf_congr {t t' : SymbolTable} (hscope : t'.scope C = t.scope C)
    (hsymbol : ∀ id ∈ (t.scope C).symbols, t'.symbol id = t.symbol id)
    (hcode : ∀ id ∈ (t.scope C).symbols, ∀ className,
      codeOf? t' className (t.symbol id) = codeOf? t className (t.symbol id))
    (className : String) (classSide : Bool) :
    methodsOf t' C className classSide = methodsOf t C className classSide := by
  have hids : t'.methods C classSide = t.methods C classSide := by
    rw [SymbolTable.methods, SymbolTable.methods, hscope]
    exact List.filter_congr fun id hid => by rw [hsymbol id (Array.mem_toList_iff.1 hid)]
  rw [methodsOf, methodsOf, hids]
  refine List.foldl_ext _ _ _ fun methods id hid => ?_
  have hmem := Array.mem_toList_iff.1 (List.mem_filter.1 hid).1
  rw [addMethod, addMethod, hsymbol id hmem, hcode id hmem]

namespace Compilation

variable {c : Compilation} (marks : Bool) (fileName : String) (p : Program)

theorem scope_addFile_of_mem (hsound : c.table.Sound) (hC : C ∈ c.table.classes) :
    (c.addFile marks fileName p).table.scope C = c.table.scope C := by
  have hlt := hsound.lt_size_of_mem hC
  have hrun := declareProgram_run (s := ⟨c.table, c.errors, []⟩) hsound (Nat.le_refl _) p
  have hscope : ((c.addFile marks fileName p).table.scope C).withoutCode =
      (c.table.scope C).withoutCode := by
    rw [scope_eq_of_withoutCode (c.addFile_withoutCode marks fileName p)]
    exact congrArg Scope.withoutCode (hrun.scope_eq_of_mem hsound hC hlt)
  have hcode : ((c.addFile marks fileName p).table.scope C).code = (c.table.scope C).code :=
    code_addFile_of_lt hsound hlt
  generalize (c.addFile marks fileName p).table.scope C = s at hscope hcode
  generalize c.table.scope C = s' at hscope hcode
  obtain ⟨⟩ := s
  obtain ⟨⟩ := s'
  simp_all [Scope.withoutCode]

/-- **A program leaves older classes as they are.** -/
theorem classAt_addFile (hsound : c.table.Sound) (hclosed : c.table.Closed)
    (hC : C ∈ c.table.classes) :
    ClassTable.classAt (c.addFile marks fileName p).table C = ClassTable.classAt c.table C := by
  have hdeclares := declared_declares hsound p
  have hsame := c.addFile_withoutCode marks fileName p
  have hsymbol {C : ScopeId} {id : SymbolId} (hid : id ∈ (c.table.scope C).symbols) :
      (c.addFile marks fileName p).table.symbol id = c.table.symbol id :=
    (symbol_eq_of_withoutCode hsame id).trans (hdeclares.grows.symbol (hsound.bounded hid))
  have hcode (s : Symbol) (hs : ∃ id, s = c.table.symbol id) (className : String) :
      ClassTable.codeOf? (c.addFile marks fileName p).table className s =
        ClassTable.codeOf? c.table className s := by
    obtain ⟨id, rfl⟩ := hs
    rw [ClassTable.codeOf?, ClassTable.codeOf?]
    cases hkind : (c.table.symbol id).kind with
    | method body side => exact code_addFile_of_lt hsound (hclosed.body (by rw [hkind]; rfl))
    | _ => rfl
  induction C using Nat.strongRecOn with
  | ind C ih =>
    have hscope := scope_addFile_of_mem marks fileName p hsound hC
    have hmethods := ClassTable.methodsOf_congr hscope (fun id hid => hsymbol hid)
      fun id _ => hcode _ ⟨id, rfl⟩
    have hfields : (c.addFile marks fileName p).table.fields C = c.table.fields C := by
      rw [← fields_withoutCode, hsame, fields_withoutCode]
      exact hsound.fields_grows hdeclares.sound hdeclares.grows (hsound.lt_size_of_mem hC)
    have hnames : (c.table.fields C).map (fun id =>
          ((c.addFile marks fileName p).table.symbol id).name) =
        (c.table.fields C).map fun id => (c.table.symbol id).name := by
      refine List.map_congr_left fun id hid => ?_
      obtain ⟨s, -, hid⟩ := List.mem_flatMap.1 (List.mem_filter.1 hid).1
      rw [hsymbol (Array.mem_toList_iff.1 hid)]
    have hsuper : (c.table.superclass? C).map (ClassTable.classAt (c.addFile marks fileName p).table) =
        (c.table.superclass? C).map (ClassTable.classAt c.table) := by
      refine Option.map_congr fun s hs => ?_
      obtain ⟨hlt, hmem⟩ := hsound.superclass hs
      exact ih s hlt hmem
    rw [ClassTable.classAt_eq (addFile_sound hsound marks fileName p).1, ClassTable.classAt_eq hsound,
      superclass?_eq, hscope, ← superclass?_eq, hfields, hmethods, hmethods, hnames, hsuper]

/-- A class that is found is still found, and is the same, after another program. -/
theorem get?_addFile (hsound : c.table.Sound) (hclosed : c.table.Closed) {name : String}
    (hcls : (ClassTable.ofSymbols c.table).get? name = some cls) :
    (ClassTable.ofSymbols (c.addFile marks fileName p).table).get? name = some cls := by
  obtain ⟨C, hC, rfl, rfl⟩ := ClassTable.exists_of_get?_ofSymbols hsound hcls
  have hmem : C ∈ (c.addFile marks fileName p).table.classes := by
    have hrun := declareProgram_run (s := ⟨c.table, c.errors, []⟩) hsound (Nat.le_refl _) p
    rw [← classes_withoutCode, addFile_withoutCode, classes_withoutCode]
    exact hrun.classes_subset hsound hC
  have hget := ClassTable.get?_ofSymbols (addFile_sound hsound marks fileName p).1 hmem
  rwa [scope_addFile_of_mem marks fileName p hsound hC,
    classAt_addFile marks fileName p hsound hclosed hC] at hget

end Compilation

/-! ### The standard classes -/

namespace Standard

/-- The standard classes, compiled with or without marks. -/
def classes (marks : Bool) : ClassTable :=
  .ofSymbols (Compilation.addFile ⟨SymbolTable.new, #[]⟩ marks fileName program).table

end Standard

/-- **No program changes the standard classes.** -/
theorem Compilation.get?_ofPrograms {options : CompileOptions} (hstandard : options.standard = true)
    (ps : List Program) {name : String}
    (hcls : (Standard.classes options.marks).get? name = some cls) :
    (ClassTable.ofSymbols (ofPrograms options ps).table).get? name = some cls := by
  induction ps using List.reverseRecOn with
  | nil =>
    rw [ofPrograms_nil, start, if_pos hstandard]
    exact hcls
  | append_singleton ps p ih =>
    rw [ofPrograms_append_singleton]
    exact get?_addFile _ _ p (ofPrograms_sound options ps).1 (ofPrograms_closed options ps) ih

/-! ### Basic classes -/

/-- The classes that serve all objects, and those of values that are no objects. -/
def ClassTable.basic : List String :=
  shared ++ ["UndefinedObject", "Boolean", "Integer", "Float", "Character", "String", "Array",
    "BlockDescriptor"]

/-- **The basic classes are there** and have no fields, and those that serve all objects inherit from
each other only. -/
def ClassTable.BasicsStand (T : ClassTable) : Prop :=
  ∀ name ∈ basic, ∃ cls ∈ T.get? name, cls.fields = [] ∧
    (name ∈ shared → ∀ d ∈ cls.lineage, d.name ∈ shared)

instance (T : ClassTable) : Decidable T.BasicsStand :=
  inferInstanceAs (Decidable (∀ name ∈ ClassTable.basic, ∃ cls ∈ T.get? name, _))

namespace Standard

set_option maxRecDepth 100000 in
/-- The basic classes are among the standard ones. -/
theorem classes_stand (marks : Bool) : (classes marks).BasicsStand := by
  have hprogram := Program.parse_append (a := objects) (b := numbers) (c := collections)
    (d := services) rfl rfl rfl rfl
  rw [classes, program, source, hprogram]
  cases marks <;> decide +kernel

end Standard

theorem Compilation.ofPrograms_basicsStand {options : CompileOptions}
    (hstandard : options.standard = true) (ps : List Program) :
    (ClassTable.ofSymbols (ofPrograms options ps).table).BasicsStand := by
  intro name hname
  obtain ⟨cls, hcls, hstands⟩ := Standard.classes_stand options.marks name hname
  exact ⟨cls, get?_ofPrograms hstandard ps hcls, hstands⟩

end Smalltalk
