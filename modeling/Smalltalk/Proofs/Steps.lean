/-
**Declaring one thing at a time.**

Whatever a program declares, the table changes in small steps: a class, a field, a method, a
variable or a block is declared. A property of tables that each of these steps keeps is kept by whole
programs, so that a proof about tables need not follow the trees of the program again.

* `Declaring.Step`, `Run` — **any declarations**;
* `Declaring.declareProgram_run` — **a program is declared in steps**.
-/

import Smalltalk.Proofs.MethodTables

namespace Smalltalk.Declaring

open SymbolTable

variable {α β : Type} {n : Nat} {t t' : SymbolTable}

/-! ### Inside of a method -/

variable {m : Nat} {scope : ScopeId} {kind : SymbolKind} {s : Declarations}

/-- A scope that is opened inside of a method is that of a block. -/
theorem InnerStep.opened (h : InnerStep n t t') (hge : t.scopes.size ≤ scope)
    (hlt : scope < t'.scopes.size) : scope = t.scopes.size ∧ ∃ outer name index, IsOpen t outer ∧
      t'.scope scope = Scope.new name (.block index) (some outer) := by
  cases h with
  | named =>
    rw [size_declare] at hlt
    exact absurd hlt (Nat.not_lt.2 hge)
  | @block outer hn hopen =>
    rw [size_declareBlock] at hlt
    obtain rfl := Nat.le_antisymm (Nat.le_of_lt_succ hlt) hge
    exact ⟨rfl, outer, _, _, hopen, t.scope_declareBlock_self hopen.1⟩

/-- **No method is declared inside of a method.** -/
theorem InnerRun.isMethod (h : InnerRun n t t') (hsound : t.Sound) (hn : n ≤ t.scopes.size)
    (hge : t.scopes.size ≤ scope) : (t'.scope scope).kind.isMethod = false := by
  induction h with
  | refl =>
    rw [t.scope_of_size_le hge]
    rfl
  | @tail u u' hrun hstep ih =>
    obtain ⟨hsound', hgrows⟩ := InnerRun.sound hrun hsound hn
    obtain ⟨-, hgrows'⟩ := hstep.sound hsound'
    rcases Nat.lt_or_ge scope u.scopes.size with hlt | hge'
    · exact (hgrows'.alike hlt).isMethod.trans ih
    rcases Nat.lt_or_ge scope u'.scopes.size with hlt | hbeyond
    · obtain ⟨-, _, _, _, -, hnew⟩ := hstep.opened hge' hlt
      rw [hnew]
      rfl
    · rw [scope_of_size_le _ hbeyond]
      rfl

/-! ### Methods and classes -/

/-- **A declaration**, of whatever kind, that changes no scope older than `n` but the global one. -/
inductive Step (n : Nat) : SymbolTable → SymbolTable → Prop
  | inner {t t' : SymbolTable} : InnerStep n t t' → Step n t t'
  | newClass {t : SymbolTable} {name : String} {superclass : Option ScopeId} :
      n ≤ t.scopes.size → t.classNamed? name = none →
        (∀ s, superclass = some s → s ∈ t.classes) → Step n t (t.withClass name superclass)
  | field {t : SymbolTable} {scope : ScopeId} (name : String) :
      n ≤ scope → scope + 1 = t.scopes.size → scope ∈ t.classes →
        Step n t (t.declare scope name .field).2
  | method {t : SymbolTable} {scope : ScopeId} {selector : String} {classSide : Bool} :
      n ≤ scope → scope ∈ t.classes → t.hasMethod scope selector classSide = false →
        Step n t (withMethod t scope selector classSide)
  | operation {t : SymbolTable} {scope : ScopeId} {selector : String} {classSide : Bool}
      (operation : Primitive) (arguments : Nat) : n ≤ scope → scope ∈ t.classes →
        t.hasMethod scope selector classSide = false →
          Step n t (t.declareMethod scope selector (.primitive operation classSide arguments)).2

/-- **Some declarations**, one after the other. -/
abbrev Run (n : Nat) : SymbolTable → SymbolTable → Prop := Relation.ReflTransGen (Step n)

theorem Step.sound (h : Step n t t') (hsound : t.Sound) : t'.Sound ∧ Grows n t t' := by
  cases h with
  | inner hstep => exact hstep.sound hsound
  | newClass hn _ hsuper =>
    obtain ⟨hsound', hgrows, -⟩ := withClass_sound hsound hn _ hsuper
    exact ⟨hsound', hgrows⟩
  | field name hn hlast hC =>
    exact declare_field_sound hsound hn hlast (hsound.isClass_of_mem hC) name
  | method hn hC _ =>
    have hlt := hsound.lt_size_of_mem hC
    obtain ⟨hsound', hgrows, -⟩ :=
      withMethod_sound hsound (Nat.le_trans hn (Nat.le_of_lt hlt)) hlt _ _
    exact ⟨hsound', hgrows⟩
  | operation operation arguments hn hC =>
    exact declareMethod_sound hsound (Nat.le_trans hn (Nat.le_of_lt (hsound.lt_size_of_mem hC)))
      _ _ (decide_eq_true rfl)

/-- **A scope that is opened** is that of a class, of a method in a class, or of a block in a method
or block. -/
theorem Step.opened (h : Step n t t') (hsound : t.Sound) (hge : t.scopes.size ≤ scope)
    (hlt : scope < t'.scopes.size) : scope = t.scopes.size ∧ (scope ∈ t'.classes ∨
      ∃ outer name kind, t'.scope scope = Scope.new name kind (some outer) ∧
        outer < t.scopes.size ∧ (kind.isMethod = true ∧ (t.scope outer).kind.isClass = true ∨
          kind.isBlock = true ∧ (t.scope outer).kind.isActivation = true)) := by
  cases h with
  | inner hstep =>
    obtain ⟨heq, outer, name, index, hopen, hnew⟩ := hstep.opened hge hlt
    exact ⟨heq, .inr ⟨outer, name, .block index, hnew, hopen.1, .inr ⟨rfl, hopen.2⟩⟩⟩
  | newClass hn hnew hsuper =>
    rw [(withClass_sound hsound hn _ hsuper).2.2.1] at hlt
    obtain rfl := Nat.le_antisymm (Nat.le_of_lt_succ hlt) hge
    rw [(withClass_declared hsound hnew hsuper).classes]
    exact ⟨rfl, .inl (List.mem_append_right _ (List.mem_singleton_self _))⟩
  | field =>
    rw [size_declare] at hlt
    exact absurd hlt (Nat.not_lt.2 hge)
  | @method C selector classSide hn hC =>
    have hClt := hsound.lt_size_of_mem hC
    rw [size_withMethod] at hlt
    obtain rfl := Nat.le_antisymm (Nat.le_of_lt_succ hlt) hge
    exact ⟨rfl, .inr ⟨C, selector, .method classSide 0, scope_withMethod hClt selector classSide,
      hClt, .inl ⟨rfl, hsound.isClass_of_mem hC⟩⟩⟩
  | operation =>
    rw [size_declareMethod] at hlt
    exact absurd hlt (Nat.not_lt.2 hge)

/-- **What is left alone** by declarations outside of methods: all scopes but the global one and
those of the newest classes. -/
theorem Step.scope_eq {i : ScopeId} (h : Step n t t') (hi : i < t.scopes.size)
    (hglobal : i ≠ global) (hold : i ∈ t.classes → i < n) :
    InnerStep n t t' ∨ t'.scope i = t.scope i := by
  have hne {C : ScopeId} (hn : n ≤ C) (hC : C ∈ t.classes) : i ≠ C := by
    rintro rfl
    exact absurd (hold hC) (Nat.not_lt.2 hn)
  cases h with
  | inner hstep => exact .inl hstep
  | newClass =>
    refine .inr ?_
    rw [withClass, scope_declare_of_ne _ _ _ hglobal, scope_addScope_of_ne _ (Nat.ne_of_lt hi)]
  | field name hn _ hC => exact .inr (t.scope_declare_of_ne _ _ (hne hn hC))
  | method hn hC =>
    refine .inr ?_
    rw [withMethod, scope_declareMethod_of_ne _ _ _ (hne hn hC),
      scope_addScope_of_ne _ (Nat.ne_of_lt hi)]
  | operation _ _ hn hC => exact .inr (t.scope_declareMethod_of_ne _ _ (hne hn hC))

/-- **What a step does to the methods**: it leaves them alone, or it declares one. -/
theorem Step.methods (h : Step n t t') (hsound : t.Sound) :
    t.SameMethods t' ∨ ∃ u D selector, ∃ kind : SymbolKind, u.Sound ∧ Grows 0 t u ∧
      t.SameMethods u ∧ D ∈ u.classes ∧ kind.isMethodOf kind.isClassSide = true ∧
      u.hasMethod D selector kind.isClassSide = false ∧
      t' = (u.declareMethod D selector kind).2 ∧
      ∀ body side, kind = .method body side →
        (u.scope body).enclosing = some D ∧ (u.scope body).kind = .method side 0 := by
  cases h with
  | inner hstep =>
    exact .inl (hsound.sameMethods_of_undisturbed (hstep.sound hsound).2 hstep.undisturbed)
  | newClass hn hnew hsuper =>
    obtain ⟨-, hgrows, -⟩ := withClass_sound hsound hn _ hsuper
    exact .inl (hsound.sameMethods_of_class (withClass_declared hsound hnew hsuper) hgrows)
  | field name hn hlast hD => exact .inl (hsound.sameMethods_of_field hD name).1
  | @method D selector side hn hD hnew =>
    obtain ⟨hopen, hgrows, hsame, hclasses⟩ := openMethod_sound hsound hD selector side
    refine .inr ⟨_, D, selector, .method t.scopes.size side, hopen, hgrows, hsame, hclasses ▸ hD,
      decide_eq_true rfl, (hsame.hasMethod_eq hD _ _).trans hnew, rfl, ?_⟩
    rintro body side ⟨⟩
    have hscope := t.scope_addScope_self selector (.method side 0) D
    exact ⟨congrArg Scope.enclosing hscope, congrArg Scope.kind hscope⟩
  | @operation D selector side operation arguments hn hD hnew =>
    exact .inr ⟨t, D, selector, .primitive operation side arguments, hsound,
      .refl (Nat.zero_le _), .refl t, hD, decide_eq_true rfl, hnew, rfl, nofun⟩

theorem Run.sound (h : Run n t t') (hsound : t.Sound) : t'.Sound := by
  induction h with
  | refl => exact hsound
  | tail _ hstep ih => exact (hstep.sound ih).1

theorem Run.grows (h : Run n t t') (hsound : t.Sound) (hn : n ≤ t.scopes.size) : Grows n t t' := by
  induction h with
  | refl => exact .refl hn
  | tail hrun hstep ih => exact ih.trans (hstep.sound (Run.sound hrun hsound)).2

/-- A property of sound tables that every step keeps is kept by all. -/
theorem Run.keeps {P : SymbolTable → Prop} (h : Run n t t') (hsound : t.Sound) (hP : P t)
    (hstep : ∀ u u', u.Sound → Step n u u' → P u → P u') : P t' := by
  induction h with
  | refl => exact hP
  | tail hrun hlast ih => exact hstep _ _ (Run.sound hrun hsound) hlast ih

theorem InnerRun.run (h : InnerRun n t t') (hm : m ≤ n) : Run m t t' :=
  Relation.ReflTransGen.mono (fun _ _ hstep => Step.inner (hstep.mono hm)) _ _ h

theorem declareCode_run (hsound : s.table.Sound) (hn : n ≤ scope) (hscope : scope ∈ s.table.classes)
    {selector : String} {classSide : Bool}
    (hnew : s.table.hasMethod scope selector classSide = false) (parameters : List Token)
    (body : Body Unit) (span : Span) :
    Run n s.table (declareCode scope selector classSide parameters body span s).2.table ∧
      (declareCode scope selector classSide parameters body span s).2.table.classes =
        s.table.classes := by
  have hlt := hsound.lt_size_of_mem hscope
  obtain ⟨-, -, -, -, -, -, -, -, hclasses⟩ :=
    declareCode_methods hsound hscope hnew parameters body span
  exact ⟨.head (.method hn hscope hnew)
    ((declareCode_runs s hsound hlt ..).run (Nat.le_trans hn (Nat.le_of_lt hlt))), hclasses⟩

/-- **A method is declared in steps**, and the classes stay the same. -/
theorem declareMethod_run (hsound : s.table.Sound) (hn : n ≤ scope)
    (hscope : scope ∈ s.table.classes) (m : MethodDef Unit) :
    Run n s.table (declareMethod scope m s).2.table ∧
      (declareMethod scope m s).2.table.classes = s.table.classes := by
  rw [declareMethod_apply]
  split
  · exact ⟨.refl, rfl⟩
  case isFalse hnew =>
    rw [Bool.not_eq_true] at hnew
    cases m.body with
    | primitive name =>
      dsimp only
      rw [declarePrimitive]
      cases Primitive.ofName? name.symbolText with
      | none => exact ⟨.refl, rfl⟩
      | some operation =>
        have hdeclared := @declareMethod_declared _ hsound scope hscope m.selector
          (.primitive operation m.isClassSide (min m.parameters.length 65535))
          (decide_eq_true rfl) hnew
        exact ⟨.single (.operation operation _ hn hscope hnew), hdeclared.classes⟩
    | code body =>
      dsimp only
      exact declareCode_run hsound hn hscope hnew ..

theorem declareMethods_run (ms : List (MethodDef Unit)) (jobs : Array Job) (hsound : s.table.Sound)
    (hn : n ≤ scope) (hscope : scope ∈ s.table.classes) :
    Run n s.table (declareMethods scope jobs ms s).2.table ∧
      (declareMethods scope jobs ms s).2.table.classes = s.table.classes := by
  induction ms generalizing jobs s with
  | nil => exact ⟨.refl, rfl⟩
  | cons m ms ih =>
    obtain ⟨hrun, hclasses⟩ := declareMethod_run hsound hn hscope m
    rw [declareMethods_cons]
    obtain ⟨hrun', hclasses'⟩ := ih _ (hrun.sound hsound) (hclasses ▸ hscope)
    exact ⟨hrun.trans hrun', hclasses'.trans hclasses⟩

theorem declareFields_run (names : List Token) (hsound : s.table.Sound) (hn : n ≤ scope)
    (hscope : scope ∈ s.table.classes) (hlast : scope + 1 = s.table.scopes.size) :
    Run n s.table (declareVariables scope .field names s).2.table := by
  induction names generalizing s with
  | nil => exact .refl
  | cons name names ih =>
    obtain ⟨-, hclasses⟩ := hsound.sameMethods_of_field hscope name.name
    obtain ⟨hsound', -, hsize⟩ :=
      declareFields_sound (Nat.le_refl scope) [name] s hsound hlast (hsound.isClass_of_mem hscope)
    have hstep : Step n s.table (s.table.declare scope name.name .field).2 :=
      .field name.name hn hlast hscope
    rw [← table_declareVariable] at hclasses hstep
    exact .head hstep (ih hsound' (hclasses ▸ hscope) (hlast.trans hsize.symm))

theorem withClass_run (hsound : t.Sound) (hn : n ≤ t.scopes.size) {name : String}
    (hnew : t.classNamed? name = none) {superclass : Option ScopeId}
    (hsuper : ∀ s, superclass = some s → s ∈ t.classes) :
    Run n t (t.withClass name superclass) ∧
      t.scopes.size ∈ (t.withClass name superclass).classes := by
  refine ⟨.single (.newClass hn hnew hsuper), ?_⟩
  rw [(withClass_declared hsound hnew hsuper).classes]
  exact List.mem_append_right _ (List.mem_singleton_self _)

section

variable (hsound : s.table.Sound) (hn : n ≤ s.table.scopes.size)

include hsound hn

/-- **The header of a class is declared in steps.**  Either its name is taken and nothing is
declared, or its scope is the newest one and has no methods. -/
theorem declareHeader_cases (c : ClassDef Unit) :
    ((declareHeader c s).1 = none ∧ (declareHeader c s).2.table = s.table ∧
        (declareHeader c s).2.errors ≠ #[]) ∨
      ((declareHeader c s).1 = some s.table.scopes.size ∧
        Run n s.table (declareHeader c s).2.table ∧
        s.table.scopes.size ∈ (declareHeader c s).2.table.classes ∧
        (declareHeader c s).2.table.scopes.size = s.table.scopes.size + 1 ∧
        s.table.SameMethods (declareHeader c s).2.table ∧
        (declareHeader c s).2.table.classes = s.table.classes ++ [s.table.scopes.size] ∧
        ((declareHeader c s).2.table.scope s.table.scopes.size).name = c.name ∧
        c.name ≠ mainClass) := by
  rw [declareHeader_apply]
  split
  · exact .inl ⟨rfl, rfl, Array.push_ne_empty⟩
  rename_i hmain
  split
  · exact .inl ⟨rfl, rfl, Array.push_ne_empty⟩
  case isFalse hnew =>
    rw [Bool.not_eq_true, Option.isSome_eq_false_iff, Option.isNone_iff_eq_none] at hnew
    obtain ⟨htable, hsuper⟩ := findSuperclass_sound c s hsound
    dsimp only
    generalize findSuperclass c s = found at htable hsuper ⊢
    rw [htable]
    obtain ⟨hrun, hmem⟩ := withClass_run hsound hn hnew hsuper
    have hdeclared := withClass_declared hsound hnew hsuper
    obtain ⟨hsound', hgrows, hsize, hclass⟩ :=
      withClass_sound hsound (Nat.le_refl _) c.name hsuper
    -- the fields leave the classes as they are
    obtain ⟨hsame, hclasses⟩ := declareFields_sameMethods
      (s := { found.2 with table := _ }) c.fields hsound' hmem hsize.symm
    obtain ⟨-, -, hsize'⟩ := declareFields_sound (Nat.le_refl _) c.fields
      { found.2 with table := _ } hsound' hsize.symm hclass
    exact .inr ⟨rfl, hrun.trans (declareFields_run (s := { found.2 with table := _ }) c.fields
      hsound' hn hmem hsize.symm), hclasses ▸ hmem, hsize'.trans hsize,
      (hsound.sameMethods_of_class hdeclared hgrows).trans hsame,
      hclasses.trans hdeclared.classes, (hsame.name _ hmem).trans hdeclared.name, hmain⟩

theorem declareHeader_run (c : ClassDef Unit) : Run n s.table (declareHeader c s).2.table := by
  obtain ⟨-, h, -⟩ | ⟨-, h, -⟩ := declareHeader_cases hsound hn c
  · rw [h]
  · exact h

theorem declareClass_run (jobs : Array Job) (c : ClassDef Unit) :
    Run n s.table (declareClass jobs c s).2.table := by
  have hsound' := (declareHeader_run hsound hn c).sound hsound
  rw [declareClass_eq]
  obtain ⟨h, htable, -⟩ | ⟨h, hrun, hmem, -⟩ := declareHeader_cases hsound hn c
  · rw [h, htable]
  · rw [h]
    exact hrun.trans (declareMethods_run c.methods jobs hsound' hn hmem).1

theorem declareClasses_run (jobs : Array Job) (cs : List (ClassDef Unit)) :
    Run n s.table (declareClasses jobs cs s).2.table := by
  induction cs generalizing jobs s with
  | nil => exact .refl
  | cons c cs ih =>
    have hrun := declareClass_run hsound hn jobs c
    rw [declareClasses, bind_apply]
    refine hrun.trans (ih (hrun.sound hsound) ?_ _)
    exact Nat.le_trans hn (hrun.grows hsound hn).scopes_size

theorem declareMain_run (jobs : Array Job) (body : Body Unit) :
    Run n s.table (declareMain jobs body s).2.table := by
  rw [declareMain_apply]
  split
  · exact .refl
  case isFalse hnew =>
    rw [Bool.not_eq_true, Option.isSome_eq_false_iff, Option.isNone_iff_eq_none] at hnew
    have hsuper : ∀ scope, defaultOf s.table mainClass = some scope → scope ∈ s.table.classes :=
      fun _ => mem_of_defaultOf hsound
    obtain ⟨hrun, hmem⟩ := withClass_run hsound hn hnew hsuper
    have hfree := (withClass_declared hsound hnew hsuper).hasMethod_eq mainMethod false
    exact hrun.trans (declareCode_run (s := { s with table := _ }) (hrun.sound hsound) hn hmem
      hfree [] body Span.missing).1

/-- **A program is declared in steps.** -/
theorem declareProgram_run (p : Program) : Run n s.table (declareProgram p s).2.table := by
  have hrun := declareClasses_run hsound hn #[] p.classes
  rw [declareProgram, bind_apply]
  split
  · refine hrun.trans (declareMain_run (hrun.sound hsound) ?_ _ p.main)
    exact Nat.le_trans hn (hrun.grows hsound hn).scopes_size
  · exact hrun

end

end Smalltalk.Declaring
