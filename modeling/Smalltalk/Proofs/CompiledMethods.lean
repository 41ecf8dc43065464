/-
**The classes of compiled programs are those that were written down.**

When programs have been compiled without mistakes, every method of the table has a scope, and so has
every block inside of it; what is found in them are the names that the source gives. The code of
the method is the code of its routine. So the table of classes that is made of it can be read
without the table of names: a method that is found under an address is a built-in operation, or it is
the first routine that the programs have for the address.

* `SymbolTable.Implements` — **the scopes and the code of a method**;
* `ClassTable.Implements` — **classes whose methods are those of some programs**;
* `Compilation.ofPrograms_records` — **every method has its scopes and its code**.
-/

import Smalltalk.Proofs.Methods
import Smalltalk.Proofs.Sources

namespace Smalltalk

open SymbolTable

variable {P : String → String → Nat → Prop} {t t' : SymbolTable} {rs : List Routine}
  {C scope M : ScopeId} {r : Routine} {options : CompileOptions} {programs : List Program}
  {p : Program} {span : Span}

/-! ### Tables that differ in their code only -/

namespace SymbolTable

variable {n : Nat}

section

variable (h : t.withoutCode = t'.withoutCode)

include h

theorem fieldNames_of_withoutCode (scope : ScopeId) : t'.fieldNames scope = t.fieldNames scope := by
  have hfields : t'.fields scope = t.fields scope := by
    rw [← t.fields_withoutCode, h, t'.fields_withoutCode]
  simp only [fieldNames, hfields, symbol_eq_of_withoutCode h]

theorem HasNames.of_withoutCode {names : List String} (hnames : t.HasNames scope names) :
    t'.HasNames scope names := by
  have hscope := scope_eq_of_withoutCode h scope
  have hsame := names_of_withoutCode h scope
  have harguments : (t'.scope scope).argumentCount = (t.scope scope).argumentCount :=
    (congrArg Scope.argumentCount hscope.symm :)
  refine ⟨fun hname => ?_, fun hname => ?_, ?_, hnames.room⟩
  · rw [hsame, harguments, symbols_of_withoutCode h]
    simp only [← symbol_eq_of_withoutCode h]
    exact hnames.found hname
  · rw [hsame]
    exact hnames.absent hname
  · exact (congrArg Scope.slotCount hscope.symm : _).trans hnames.count

theorem Located.of_withoutCode {scopes : List (List String)} {nest : List Nat}
    (hlocated : t.Located C M scope scopes nest) : t'.Located C M scope scopes nest := by
  have hkind := kind_of_withoutCode h
  have henclosing := enclosing_of_withoutCode h
  induction hlocated with
  | method hmethod hclass hnames =>
    exact .method (hkind _ ▸ hmethod) ((henclosing _).trans hclass) (hnames.of_withoutCode h)
  | block hblock hself houter hnames _ ih =>
    exact .block ((hkind _).trans hblock) ((name_of_withoutCode h _).trans hself)
      ((henclosing _).trans houter) (hnames.of_withoutCode h) ih

theorem SameMethods.of_withoutCode : t.SameMethods t' := by
  have hkind := kind_of_withoutCode h
  have hsymbols (s : ScopeId) : (t'.scope s).symbols = (t.scope s).symbols :=
    (congrArg Scope.symbols (scope_eq_of_withoutCode h s).symm :)
  have hclasses := classes_of_withoutCode h
  refine ⟨by rw [hclasses]; exact List.Subset.refl _, fun C _ => ?_, fun C _ classSide => ?_,
    fun C hC hnot => absurd (hclasses ▸ hC) hnot, fun C _ id hid => ?_, fun C hC id hid _ _ => ?_⟩
  · exact name_of_withoutCode h C
  · rw [methodMap?, methodMap?, hkind]
  · rw [hsymbols]
    exact ⟨hid, (symbol_eq_of_withoutCode h id).symm⟩
  · rw [hclasses] at hC
    rw [hsymbols] at hid
    exact ⟨hC, hid, (symbol_eq_of_withoutCode h id).symm⟩

end

/-! ### The scopes and the code of a method -/

/-- The names of fields stay when something else is declared. -/
theorem Grows.fieldNames (h : Grows n t t') (hsound : t.Sound) (hsound' : t'.Sound) (hs : scope < n) :
    t'.fieldNames scope = t.fieldNames scope := by
  have hfields : t'.fields scope = t.fields scope := by
    induction scope using Nat.strongRecOn with
    | ind scope ih =>
      rw [hsound.fields_eq, hsound'.fields_eq, h.ownFields hs,
        h.superclass? (Nat.lt_of_lt_of_le hs h.bound)]
      cases hsuper : t.superclass? scope with
      | none => rfl
      | some s =>
        grind
  rw [SymbolTable.fieldNames, SymbolTable.fieldNames, hfields]
  refine List.map_congr_left fun id hid => ?_
  have hbound : id < t.symbols.size := by
    rw [SymbolTable.fields, List.mem_filter, List.mem_flatMap] at hid
    grind
  rw [h.symbol hbound]

/-- **The scope of a routine**, with as many arguments. -/
structure HasRoutine (t : SymbolTable) (C M scope : ScopeId) (q : Routine) : Prop where
  located : t.Located C M scope q.scopes q.nest
  arity : (t.scope scope).argumentCount = q.arity

/-- **The scopes and the code of a method.** -/
@[grind cases]
structure Implements (t : SymbolTable) (C M : ScopeId) (r : Routine) : Prop where
  method : t.HasRoutine C M M r
  blocks {n : Nat} {q : Routine} : r.Has n q → t.HasRoutine C M (M + 1 + n) q
  code : ∃ code, (t.scope M).code = some code ∧ CompiledAs (t.fieldNames C) r code

variable {q : Routine}

theorem HasRoutine.of_withoutCode (h : t.withoutCode = t'.withoutCode)
    (hq : t.HasRoutine C M scope q) : t'.HasRoutine C M scope q :=
  ⟨hq.located.of_withoutCode h,
    (congrArg Scope.argumentCount (scope_eq_of_withoutCode h scope).symm : _).trans hq.arity⟩

theorem HasRoutine.lt_size (h : t.HasRoutine C M scope q) : scope < t.scopes.size :=
  lt_size_of_isActivation h.located.isActivation

theorem HasRoutine.grows (h : t.HasRoutine C M scope q) (hsound : t.Sound)
    (hgrows : Grows t.scopes.size t t') : t'.HasRoutine C M scope q :=
  ⟨h.located.grows hsound hgrows h.lt_size,
    (hgrows.settled h.lt_size).argumentCount.trans h.arity⟩

/-- A method keeps its scopes and its code when others are declared and get theirs. -/
theorem Implements.keep {t'' : SymbolTable} (h : t.Implements C M r) (hsound : t.Sound)
    (hsound' : t'.Sound) (hgrows : Grows t.scopes.size t t')
    (hwithout : t'.withoutCode = t''.withoutCode)
    (hcode : (t''.scope M).code = (t.scope M).code) : t''.Implements C M r := by
  obtain ⟨code, hM, hcompiled⟩ := h.code
  have hC : C < t.scopes.size := Nat.lt_trans (h.method.located.class_lt hsound) h.method.lt_size
  refine ⟨(h.method.grows hsound hgrows).of_withoutCode hwithout,
    fun hq => ((h.blocks hq).grows hsound hgrows).of_withoutCode hwithout,
    code, hcode.trans hM, ?_⟩
  rw [fieldNames_of_withoutCode hwithout, hgrows.fieldNames hsound hsound' hC]
  exact hcompiled

end SymbolTable

/-- A method that has been compiled has its scopes and its code. -/
theorem CodeContext.JobMatch.implements {c : CodeContext} {job : Job} (h : c.JobMatch C r job)
    (hblock : r.block = none) (hscopes : r.scopes.length = 1) (harity : r.arity ≤ r.slotCount)
    {code : CompiledCode} (hcode : c.methodCode job = .ok code)
    (hwithout : c.table.withoutCode = t.withoutCode)
    (hstored : (t.scope job.scope).code = some code) : t.Implements C job.scope r := by
  have hmethod : c.table.HasRoutine C job.scope job.scope r := ⟨h.locates.located, h.arity⟩
  refine ⟨hmethod.of_withoutCode hwithout, fun {n q} hq => ?_, code, hstored, ?_⟩
  · obtain ⟨b, -, hmatch⟩ := h.blocks.right q (List.mem_of_getElem? hq)
    obtain ⟨m, hm, hb, -⟩ := hmatch.kind
    rw [(hq.inside hblock hscopes).block] at hm
    obtain rfl := Option.some.inj hm
    rw [← hb]
    exact HasRoutine.of_withoutCode hwithout ⟨hmatch.locates.located, hmatch.arity⟩
  · rw [fieldNames_of_withoutCode hwithout]
    exact ⟨c.naming C, job.span, rfl, h.compiled hblock hscopes harity hcode⟩

/-! ### What a program declares -/

namespace Declaring

variable {old : ScopeId → ScopeId → Routine → Prop} {s s' : Declarations} {jobs jobs' : List Job}
  {D : ScopeId} {body : Body Unit}

/-- A method was there before, or it is one of the jobs. -/
def Matched (old : ScopeId → ScopeId → Routine → Prop) (s : Declarations) (jobs : List Job)
    (C body : ScopeId) (r : Routine) : Prop :=
  old C body r ∨ ∃ job ∈ jobs, job.scope = body ∧ ∀ c, Late s c → c.JobMatch C r job

theorem Matched.later {body : ScopeId} (h : Matched old s jobs C body r)
    (hgrows : Grows s.table.scopes.size s.table s'.table) (hjobs : jobs ⊆ jobs') :
    Matched old s' jobs' C body r := by
  rcases h with hold | ⟨job, hjob, hbody, hmatch⟩
  · exact .inl hold
  · exact .inr ⟨job, hjobs hjob, hbody, fun c hc => hmatch c (hc.earlier hgrows)⟩

/-- **The methods that were declared are those of some routines**, the new ones with the jobs that
they became. -/
structure Covers (old : ScopeId → ScopeId → Routine → Prop) (P : String → String → Nat → Prop)
    (s : Declarations) (jobs : List Job) (rs : List Routine) : Prop where
  sound : s.table.Sound
  records : s.table.Records rs (Matched old s jobs) P

/-- What is no method with code keeps the methods as they are. -/
theorem Covers.step (h : Covers old P s jobs rs) (hsound : s'.table.Sound)
    (hgrows : Grows s.table.scopes.size s.table s'.table)
    (hrecords : s.table.Records rs (Matched old s jobs) P →
      s'.table.Records rs (Matched old s jobs) P) : Covers old P s' jobs rs :=
  ⟨hsound, (hrecords h.records).imp fun _ _ _ _ _ hm => hm.later hgrows (List.Subset.refl _)⟩

/-- **A method with code is one more routine and one more job.** -/
theorem declareCode_covers (h : Covers old P s jobs rs) (hC : C ∈ s.table.classes)
    (address : MethodAddress) (hname : (s.table.scope C).name = address.className)
    (hnew : s.table.hasMethod C address.selector address.classSide = false)
    {parameters : List Token} (hroom : statementsBlockCount body.statements ≤ capacity)
    (herrors : (declareCode C address.selector address.classSide parameters body span s).2.errors =
      #[]) :
    Covers old P (declareCode C address.selector address.classSide parameters body span s).2
        (jobs ++ [(declareCode C address.selector address.classSide parameters body span s).1])
        (rs ++ [.ofMethod address parameters body]) := by
  have hlt := h.sound.lt_size_of_mem hC
  have hclass := h.sound.isClass_of_mem hC
  obtain ⟨hsound', hgrows⟩ := declareCode_sound s h.sound (Nat.le_refl _) hlt address.selector
    address.classSide parameters body span
  have hmatch (c : CodeContext) hc := declareCode_yields (c := c) h.sound hclass hlt hname hroom
    herrors hc
  have hscope : (declareCode C address.selector address.classSide parameters body span s).1.scope =
      s.table.scopes.size := by
    rw [declareCode_apply]
  obtain ⟨t, t', hsound, hbefore, hclasses, hsameC, hdeclared, hafter, -⟩ :=
    declareCode_methods h.sound hC hnew parameters body span
  generalize declareCode C address.selector address.classSide parameters body span s = result
    at hsound' hgrows hmatch hscope hafter ⊢
  have hlater : s.table.Records rs (Matched old result.2 (jobs ++ [result.1])) P :=
    h.records.imp fun _ _ _ _ _ hm => hm.later hgrows (List.subset_append_left _ _)
  have hadded := (hlater.keep hbefore).addMethod hsound (hclasses ▸ hC) hdeclared
    (r := .ofMethod address parameters body) (by rw [hsameC, hname]; rfl)
    (.inr ⟨result.1, List.mem_append_right _ (List.mem_singleton_self _), hscope, hmatch⟩)
  exact ⟨hsound', hadded.keep hafter⟩

/-! ### Methods and classes -/

/-- What is known of the methods that are built-in operations. -/
def Operates (P : String → String → Nat → Prop) (className : String) (m : MethodDef Unit) : Prop :=
  ∀ name, m.body = .primitive name → P className m.selector (min m.parameters.length 65535)

/-- A method does not have more blocks than can be numbered. -/
def Fits (m : MethodDef Unit) : Prop :=
  ∀ body, m.body = .code body → statementsBlockCount body.statements ≤ capacity

/-- **What a method declares**: one more routine if it has code, and nothing for the top-level
statements. -/
theorem declareMethod_covers (h : Covers old P s jobs rs) (hC : C ∈ s.table.classes)
    {m : MethodDef Unit} (hfits : Fits m) (hP : Operates P (s.table.scope C).name m)
    (herrors : (declareMethod C m s).2.errors = #[]) :
    Covers old P (declareMethod C m s).2 (jobs ++ (declareMethod C m s).1.toList)
        (rs ++ (m.routine? (s.table.scope C).name).toList) ∧
      (declareMethod C m s).2.table.classes = s.table.classes ∧
      (s.table.HasMain → (declareMethod C m s).2.table.HasMain) := by
  rw [declareMethod_apply] at herrors ⊢
  by_cases hnew : s.table.hasMethod C m.selector m.isClassSide = true
  · rw [if_pos hnew] at herrors
    exact absurd herrors Array.push_ne_empty
  · rw [if_neg hnew] at herrors ⊢
    rw [Bool.not_eq_true] at hnew
    cases hbody : m.body with
    | primitive name =>
      rw [hbody] at herrors
      rw [MethodDef.routine?, hbody]
      dsimp only at herrors ⊢
      rw [Option.toList_none, List.append_nil, Option.toList_none, List.append_nil]
      rw [declarePrimitive] at herrors ⊢
      cases hp : Primitive.ofName? name.symbolText with
      | none =>
        rw [hp] at herrors
        exact absurd herrors Array.push_ne_empty
      | some operation =>
        have hdeclared := @declareMethod_declared _ h.sound C hC m.selector
          (.primitive operation m.isClassSide (min m.parameters.length 65535))
          (decide_eq_true rfl) hnew
        have hsound := @declareMethod_sound _ s.table.scopes.size h.sound (Nat.le_refl _) C
          m.selector (.primitive operation m.isClassSide (min m.parameters.length 65535))
          (decide_eq_true rfl)
        exact ⟨h.step hsound.1 hsound.2 fun hr => hr.addPrimitive hdeclared (hP name hbody),
          hdeclared.classes, fun hmain => hmain.addMethod hdeclared⟩
    | code body =>
      rw [hbody] at herrors
      rw [MethodDef.routine?, hbody]
      dsimp only at herrors ⊢
      obtain ⟨t, t', -, hbefore, hclasses, -, hdeclared, hafter, hall⟩ :=
        declareCode_methods h.sound hC hnew m.parameters body m.headerSpan
      refine ⟨declareCode_covers h hC ⟨_, m.isClassSide, m.selector⟩ rfl hnew (hfits body hbody)
        herrors, hall, fun hmain => ?_⟩
      have hmain₁ := hmain.keep hbefore fun C hC _ => hclasses ▸ hC
      refine (hmain₁.addMethod hdeclared).keep hafter fun C hC _ => ?_
      rw [hdeclared.classes, hclasses, ← hall]
      exact hC

section

variable {jobs : Array Job} (h : Covers old P s jobs.toList rs)

include h

theorem declareMethods_covers {ms : List (MethodDef Unit)} (hC : scope ∈ s.table.classes)
    (hfits : ∀ m ∈ ms, Fits m) (hP : ∀ m ∈ ms, Operates P (s.table.scope scope).name m)
    (herrors : (declareMethods scope jobs ms s).2.errors = #[]) :
    Covers old P (declareMethods scope jobs ms s).2 (declareMethods scope jobs ms s).1.toList
        (rs ++ ms.filterMap (MethodDef.routine? (s.table.scope scope).name)) ∧
      (declareMethods scope jobs ms s).2.table.classes = s.table.classes ∧
      (s.table.HasMain → (declareMethods scope jobs ms s).2.table.HasMain) := by
  induction ms generalizing jobs s rs with
  | nil =>
    rw [List.filterMap_nil, List.append_nil]
    exact ⟨h, rfl, id⟩
  | cons m ms ih =>
    rw [declareMethods_cons] at herrors ⊢
    have hfirst := (declareMethods_alike .refl scope ms (.refl _)).plain.errors_eq_empty herrors
    obtain ⟨hm, hclasses, hmain⟩ :=
      declareMethod_covers h hC (hfits m List.mem_cons_self) (hP m List.mem_cons_self) hfirst
    have hgrows := (declareMethod_run h.sound (Nat.zero_le _) hC m).1.grows h.sound
      (Nat.zero_le _)
    have hname := (hgrows.alike (h.sound.lt_size_of_mem hC)).name
    have hjobs : (jobs ++ (declareMethod scope m s).1.toList.toArray).toList =
        jobs.toList ++ (declareMethod scope m s).1.toList := by
      rw [Array.toList_append]
    obtain ⟨hms, hclasses', hmain'⟩ := ih (hjobs ▸ hm) (hclasses ▸ hC)
      (fun m hm => hfits m (List.mem_cons_of_mem _ hm))
      (fun m hm => hname.symm ▸ hP m (List.mem_cons_of_mem _ hm)) herrors
    refine ⟨?_, hclasses'.trans hclasses, fun h => hmain' (hmain h)⟩
    rw [hname, List.append_assoc] at hms
    rw [List.filterMap_cons]
    cases hr : m.routine? (s.table.scope scope).name with
    | none | some r =>
      rw [hr] at hms
      exact hms

/-- **What a class declares**: a routine for each of its methods with code. -/
theorem declareClass_covers {c : ClassDef Unit} (hmain : s.table.HasMain)
    (hfits : ∀ m ∈ c.methods, Fits m)
    (hP : c.name ≠ mainClass → ∀ m ∈ c.methods, Operates P c.name m)
    (herrors : (declareClass jobs c s).2.errors = #[]) :
    Covers old P (declareClass jobs c s).2 (declareClass jobs c s).1.toList (rs ++ c.routines) ∧
      (declareClass jobs c s).2.table.HasMain := by
  rw [declareClass_eq] at herrors ⊢
  obtain ⟨hnone, -, hmistake⟩ | ⟨hsome, hrun, hmem, -, hsame, hclasses, hnamed, hname⟩ :=
    declareHeader_cases h.sound (Nat.le_refl _) c
  · rw [hnone] at herrors
    exact absurd herrors hmistake
  rw [hsome] at herrors ⊢
  dsimp only at herrors ⊢
  have hcovers := h.step (hrun.sound h.sound) (hrun.grows h.sound (Nat.le_refl _)) fun hr =>
    hr.keep hsame
  generalize (declareHeader c s).2 = s₁ at *
  obtain ⟨hall, -, hmain'⟩ := declareMethods_covers hcovers hmem hfits (hnamed.symm ▸ hP hname) herrors
  rw [hnamed] at hall
  refine ⟨hall, hmain' (hmain.keep hsame fun C hC hmainName => ?_)⟩
  rw [hclasses, List.mem_append, List.mem_singleton] at hC
  grind

theorem declareClasses_covers {cs : List (ClassDef Unit)} (hmain : s.table.HasMain)
    (hfits : ∀ c ∈ cs, ∀ m ∈ c.methods, Fits m)
    (hP : ∀ c ∈ cs, c.name ≠ mainClass → ∀ m ∈ c.methods, Operates P c.name m)
    (herrors : (declareClasses jobs cs s).2.errors = #[]) :
    Covers old P (declareClasses jobs cs s).2 (declareClasses jobs cs s).1.toList
        (rs ++ cs.flatMap ClassDef.routines) ∧
      (declareClasses jobs cs s).2.table.HasMain := by
  induction cs generalizing jobs s rs with
  | nil =>
    rw [List.flatMap_nil, List.append_nil]
    exact ⟨h, hmain⟩
  | cons c cs ih =>
    rw [declareClasses, bind_apply] at herrors ⊢
    obtain ⟨hfirst, hmain'⟩ := declareClass_covers h hmain (hfits c List.mem_cons_self)
      (hP c List.mem_cons_self) ((declareClasses_alike .refl cs (.refl _)).plain.errors_eq_empty herrors)
    rw [List.flatMap_cons, ← List.append_assoc]
    exact ih hfirst hmain' (fun c hc => hfits c (List.mem_cons_of_mem _ hc))
      (fun c hc => hP c (List.mem_cons_of_mem _ hc)) herrors

/-- **What the top-level statements declare**: a class with a method. -/
theorem declareMain_covers (hfits : statementsBlockCount body.statements ≤ capacity)
    (herrors : (declareMain jobs body s).2.errors = #[]) :
    Covers old P (declareMain jobs body s).2 (declareMain jobs body s).1.toList
        (rs ++ [.ofMethod ⟨mainClass, false, mainMethod⟩ [] body]) ∧
      (declareMain jobs body s).2.table.HasMain := by
  rw [declareMain_apply] at herrors ⊢
  by_cases hnew : (s.table.classNamed? mainClass).isSome = true
  · rw [if_pos hnew] at herrors
    exact absurd herrors Array.push_ne_empty
  rw [if_neg hnew] at herrors ⊢
  rw [Bool.not_eq_true, Option.isSome_eq_false_iff, Option.isNone_iff_eq_none] at hnew
  dsimp only at herrors ⊢
  have hsuper : ∀ scope, defaultOf s.table mainClass = some scope → scope ∈ s.table.classes :=
    fun _ => mem_of_defaultOf h.sound
  obtain ⟨hsound₁, hgrows₁, -, -⟩ := withClass_sound h.sound (Nat.le_refl _) mainClass hsuper
  have hdeclared := withClass_declared h.sound hnew hsuper
  have hsame₁ := h.sound.sameMethods_of_class hdeclared hgrows₁
  have hmem₁ : s.table.scopes.size ∈
      (s.table.withClass mainClass (defaultOf s.table mainClass)).classes := by
    grind
  let s₁ := { s with table := s.table.withClass mainClass (defaultOf s.table mainClass) }
  have hcovers : Covers old P s₁ jobs.toList rs :=
    h.step hsound₁ hgrows₁ fun hr => hr.keep hsame₁
  have hfree := hdeclared.hasMethod_eq mainMethod false
  obtain ⟨t, t', -, -, hclasses, hscope, hmethod, hafter, hall⟩ :=
    declareCode_methods hcovers.sound hmem₁ hfree [] body Span.missing
  rw [Array.toList_push]
  refine ⟨declareCode_covers hcovers hmem₁ ⟨mainClass, false, mainMethod⟩ hdeclared.name hfree
    hfits herrors, ?_⟩
  have hfinal := (declareCode_sound s₁ hsound₁ (Nat.le_refl _) (hsound₁.lt_size_of_mem hmem₁)
    mainMethod false [] body Span.missing).1
  have hmem : s.table.scopes.size ∈ t'.classes := by
    rw [hmethod.classes, hclasses]
    exact hmem₁
  -- The class is the only one with its name, and its method has just been declared.
  intro C hC hname
  have hnamed : (t'.scope s.table.scopes.size).name = mainClass := by
    rw [hmethod.name, hscope]
    exact hdeclared.name
  obtain rfl : s.table.scopes.size = C :=
    hfinal.eq_of_name (hafter.classes hmem) hC
      ((hafter.name _ hmem).trans (hnamed.trans hname.symm))
  obtain ⟨id, hid, hmain, hkind⟩ := hmethod.added fun htaken => by
    rw [IsTaken, methodMap?, hscope] at htaken
    exact hdeclared.not_isTaken mainMethod false htaken
  grind

end

/-- **What a program declares is what it defines.** -/
theorem declareProgram_covers (h : Covers old P s [] rs) (hmain : s.table.HasMain)
    (hfits : p.BlocksFit)
    (hP : ∀ c ∈ p.classes, c.name ≠ mainClass → ∀ m ∈ c.methods, Operates P c.name m)
    (herrors : (declareProgram p s).2.errors = #[]) :
    Covers old P (declareProgram p s).2 (declareProgram p s).1.toList (rs ++ p.routines) ∧
      (declareProgram p s).2.table.HasMain := by
  have hmethods : ∀ c ∈ p.classes, ∀ m ∈ c.methods, Fits m := by
    intro c hc m hm body hbody
    refine hfits (.ofMethod ⟨c.name, m.isClassSide, m.selector⟩ m.parameters body) ?_
    refine List.mem_append_left _ (List.mem_flatMap.2 ⟨c, hc, List.mem_filterMap.2 ⟨m, hm, ?_⟩⟩)
    rw [MethodDef.routine?, hbody]
  replace h : Covers old P s (#[] : Array Job).toList rs := h
  rw [declareProgram, bind_apply] at herrors ⊢
  by_cases hhas : p.hasMain = true
  · rw [if_pos hhas] at herrors ⊢
    obtain ⟨hclasses, -⟩ := declareClasses_covers h hmain hmethods hP
      ((declareMain_alike .refl _ (.refl _)).plain.errors_eq_empty herrors)
    have hbody : statementsBlockCount p.main.statements ≤ capacity := by
      refine hfits (.ofMethod ⟨mainClass, false, mainMethod⟩ [] p.main) ?_
      rw [Program.routines, if_pos hhas]
      exact List.mem_append_right _ (List.mem_singleton_self _)
    rw [Program.routines, if_pos hhas, ← List.append_assoc]
    exact declareMain_covers hclasses hbody herrors
  · rw [if_neg hhas] at herrors ⊢
    rw [Program.routines, if_neg hhas, List.append_nil]
    exact declareClasses_covers h hmain hmethods hP herrors

end Declaring

/-! ### Compiling a file -/

namespace Compilation

variable {c : Compilation}

/-- No method of the class of the top-level statements is a built-in operation. -/
def NotOfMain (className _selector : String) (_count : Nat) : Prop := className ≠ mainClass

/-- **What a program without mistakes adds to the methods of a table.** -/
theorem addFile_records (hsound : c.table.Sound)
    (hrecords : c.table.Records rs c.table.Implements NotOfMain) (hmain : c.table.HasMain)
    (hrs : ∀ r ∈ rs, r.IsMethod) {marks : Bool} {fileName : String} (hfits : p.BlocksFit)
    (herrors : (c.addFile marks fileName p).errors = #[]) :
    (c.addFile marks fileName p).table.Records (rs ++ p.routines)
        (c.addFile marks fileName p).table.Implements NotOfMain ∧
      (c.addFile marks fileName p).table.HasMain := by
  have hfile := addFile_compiled hsound herrors
  generalize c.addFile marks fileName p = c' at hfile ⊢
  have hcovers : Declaring.Covers c.table.Implements NotOfMain ⟨c.table, c.errors, []⟩ [] rs :=
    ⟨hsound, hrecords.imp fun _ _ _ _ _ h => .inl h⟩
  obtain ⟨hall, hmain'⟩ := Declaring.declareProgram_covers hcovers hmain hfits
    (fun _ _ hne _ _ _ _ => hne) hfile.clean
  have hsame := SameMethods.of_withoutCode hfile.withoutCode.symm
  have hclasses := classes_of_withoutCode hfile.withoutCode.symm
  refine ⟨(hall.records.keep hsame).imp fun C _ body r hr hmatched => ?_,
    hmain'.keep hsame fun C hC _ => hclasses ▸ hC⟩
  rcases hmatched with hold | ⟨job, hjob, rfl, hmatch⟩
  · -- A method that was there before is older than all jobs.
    have hlt := hold.method.lt_size
    refine hold.keep hsound hfile.declares.sound hfile.declares.grows hfile.withoutCode.symm ?_
    exact hfile.code_of_ne fun job hjob => Nat.ne_of_gt
      (Nat.lt_of_lt_of_le hlt (hfile.declares.fresh hjob).1)
  · have hmethod : r.IsMethod := by
      rcases List.mem_append.1 hr with hr | hr
      · exact hrs r hr
      · exact Program.isMethod_of_mem_routines hr
    obtain ⟨code, hcode, hstored⟩ := hfile.code hjob
    have hjobMatch := hmatch (c.context marks fileName p)
      ⟨hfile.declares.sound, .refl (Nat.le_refl _)⟩
    exact hjobMatch.implements hmethod.block hmethod.scopes hmethod.arity hcode
      hfile.withoutCode.symm hstored

end Compilation

/-! ### Compiling programs -/

namespace Compilation

theorem new_records : SymbolTable.new.Records [] SymbolTable.new.Implements NotOfMain where
  found hC := by cases hC
  kept hr := by cases hr
  operation hC := by cases hC
  taken hC := by cases hC
  unique hC := by cases hC

theorem start_records (options : CompileOptions) (herrors : (start options).errors = #[]) :
    (start options).table.Records ((allPrograms options []).flatMap Program.routines)
        (start options).table.Implements NotOfMain ∧ (start options).table.HasMain := by
  obtain ⟨fileName, marks, standard⟩ := options
  cases standard with
  | false =>
    rw [start_empty]
    exact ⟨new_records, fun C hC => by cases hC⟩
  | true =>
    have hfits := Standard.program_isFit.2
    rw [start_standard] at herrors ⊢
    rw [allPrograms, if_pos rfl, List.append_nil]
    -- What the standard classes are does not matter here.
    generalize Standard.program = p at hfits herrors ⊢
    have hfile := addFile_records (c := ⟨SymbolTable.new, #[]⟩) SymbolTable.new_sound new_records
      (fun C hC => by cases hC) (fun r hr => by cases hr) hfits herrors
    grind

/-- **Every method has its scopes and its code**, and the top-level statements are one. -/
theorem ofPrograms_records (hfits : ∀ p ∈ programs, p.BlocksFit)
    (herrors : (ofPrograms options programs).errors = #[]) :
    (ofPrograms options programs).table.Records
        ((allPrograms options programs).flatMap Program.routines)
        (ofPrograms options programs).table.Implements NotOfMain ∧
      (ofPrograms options programs).table.HasMain := by
  induction programs using List.reverseRecOn with
  | nil =>
    rw [ofPrograms_nil] at herrors ⊢
    exact start_records options herrors
  | append_singleton ps p ih =>
    have hsound := (ofPrograms_sound options ps).1
    rw [ofPrograms_append_singleton] at herrors ⊢
    obtain ⟨hrecords, hmain⟩ := ih (fun p hp => hfits p (List.mem_append_left _ hp))
      (errors_of_addFile hsound herrors)
    have hfile := addFile_records hsound hrecords hmain (fun _ => isMethod_of_mem_flatMap)
      (hfits p (List.mem_append_right _ (List.mem_singleton_self p))) herrors
    rw [allPrograms, ← List.append_assoc, ← allPrograms, List.flatMap_append, List.flatMap_singleton]
    exact hfile

end Compilation

/-! ### Methods by address -/

/-- **The scope of the method with an address**, and that of its class. -/
@[grind cases]
structure SymbolTable.Declares (t : SymbolTable) (address : MethodAddress) (C M : ScopeId) :
    Prop where
  mem : C ∈ t.classes
  name : (t.scope C).name = address.className
  symbol : ∃ id ∈ (t.scope C).symbols, (t.symbol id).name = address.selector ∧
    (t.symbol id).kind = .method M address.classSide

namespace ClassTable

variable {m : Method} {T : ClassTable} {c : Class} {N : Naming}

/-- A method that has code is one of the methods of its class. -/
theorem isSome_getElem?_methodsOf {className : String} {classSide : Bool} {id : SymbolId}
    (hid : id ∈ t.methods C classSide) (hcode : (codeOf? t className (t.symbol id)).isSome) :
    (methodsOf t C className classSide)[(t.symbol id).name]?.isSome := by
  rw [methodsOf]
  -- What has been put into the table stays there, possibly with other code.
  suffices hfold : ∀ (ids : List SymbolId) (methods : Std.TreeMap String Method),
      id ∈ ids ∨ methods[(t.symbol id).name]?.isSome →
        (ids.foldl (addMethod t className classSide) methods)[(t.symbol id).name]?.isSome from
    hfold _ _ (.inl hid)
  intro ids
  induction ids with
  | nil =>
    rintro methods (hmem | hsome)
    · cases hmem
    · exact hsome
  | cons id' ids ih =>
    intro methods hmem
    rw [List.foldl_cons]
    grind [addMethod]

/-- **A method that is found** is a built-in operation, or the code of a routine. -/
theorem methodAt?_cases (hsound : t.Sound) (hrecords : t.Records rs t.Implements P)
    {address : MethodAddress} (h : (ofSymbols t).methodAt? address = some m) :
    m.address = address ∧ (m.code.primitive.isSome ∨ ∃ C M r, t.Declares address C M ∧
      rs.find? (fun r => r.address = address) = some r ∧ t.Implements C M r ∧
      (t.scope M).code = some m.code) := by
  rw [methodAt?, Option.bind_eq_some_iff] at h
  obtain ⟨cls, hcls, hm⟩ := h
  obtain ⟨C, hC, hname, rfl⟩ := exists_of_get?_ofSymbols hsound hcls
  rw [side_classAt, hname] at hm
  obtain ⟨haddress, id, hid, hselector, hcode⟩ := exists_of_getElem?_methodsOf hm
  obtain ⟨hid, hside⟩ := List.mem_filter.1 hid
  rw [Array.mem_toList_iff] at hid
  refine ⟨haddress, ?_⟩
  cases hkind : (t.symbol id).kind with
  | method M classSide =>
    rw [codeOf?, hkind] at hcode
    obtain rfl : classSide = address.classSide := by
      rw [hkind] at hside
      exact of_decide_eq_true hside
    obtain ⟨r, hr, himplements⟩ := hrecords.found hC hid hkind
    rw [hname, hselector] at hr
    exact .inr ⟨C, M, r, ⟨hC, hname, id, hid, hselector, hkind⟩, hr, himplements, hcode⟩
  | primitive operation classSide count =>
    rw [codeOf?, hkind] at hcode
    rw [← Option.some.inj hcode]
    exact .inl rfl
  | _ =>
    rw [hkind] at hside
    cases hside

/-- The top-level statements are no built-in operation. -/
theorem primitive_of_main (hsound : t.Sound) (hrecords : t.Records rs t.Implements P)
    (hmain : t.HasMain) {cls : Class} (hcls : (ofSymbols t).get? mainClass = some cls)
    (hm : cls.lookup? mainMethod false = some m) : m.code.primitive = none := by
  obtain ⟨C, hC, hname, rfl⟩ := exists_of_get?_ofSymbols hsound hcls
  obtain ⟨id, hid, hselector, M, hkind⟩ := hmain C hC hname
  obtain ⟨r, -, himplements⟩ := hrecords.found hC hid hkind
  obtain ⟨code, hcode, N, span, -, hcompiled⟩ := himplements.code
  have hmethod : (t.symbol id).kind.isMethodOf false = true := by
    rw [hkind]
    rfl
  have hmem : id ∈ t.methods C false :=
    List.mem_filter.2 ⟨Array.mem_toList_iff.2 hid, hmethod⟩
  have hcodeOf : codeOf? t mainClass (t.symbol id) = some code := by
    rw [codeOf?, hkind]
    exact hcode
  -- The class itself has the method, so that none is inherited.
  have hown : (methodsOf t C mainClass false)[mainMethod]? = some m := by
    have hsome := @isSome_getElem?_methodsOf t C mainClass false id hmem (by rw [hcodeOf]; rfl)
    rw [hselector] at hsome
    obtain ⟨m', hm'⟩ := Option.isSome_iff_exists.1 hsome
    rw [Class.lookup?, Class.lineage_eq, List.findSome?_cons, side_classAt, hname, hm'] at hm
    rw [hm', Option.some.inj hm]
  obtain ⟨-, id', hid', hselector', hcode'⟩ := exists_of_getElem?_methodsOf hown
  obtain ⟨hid', hmethod'⟩ := List.mem_filter.1 hid'
  grind

/-! ### Classes whose methods are those of some programs -/

/-- **A method whose code is that of a routine**, the one that some programs have for its address. -/
@[grind cases]
structure HasMethod (T : ClassTable) (programs : List Program) (m : Method) (r : Routine)
    (N : Naming) (span : Span) : Prop where
  found : T.methodAt? m.address = some m
  routine : Program.routineAt? programs m.address = some r
  compiled : CompiledWith N span r m.code
  fields : ∃ cls, T.get? m.address.className = some cls ∧ cls.fields = N.fields

/-- The methods of the class and of its superclasses are found under their addresses. -/
def Holds (T : ClassTable) (c : Class) : Prop :=
  ∀ d ∈ c.lineage, ∀ classSide selector m, (d.side classSide)[selector]? = some m →
    m.address.selector = selector ∧ T.methodAt? m.address = some m

/-- **Classes whose methods are those of some programs**, and built-in operations. -/
@[grind cases]
structure Implements (T : ClassTable) (programs : List Program) : Prop where
  methods {m : Method} : T.methodAt? m.address = some m → m.code.primitive = none →
    ∃ r N span, T.HasMethod programs m r N span
  classes {name : String} {cls : Class} : T.get? name = some cls → T.Holds cls
  main {cls : Class} {m : Method} : T.get? mainClass = some cls →
    cls.lookup? mainMethod false = some m → m.code.primitive = none
  fit : ∀ r ∈ programs.flatMap Program.routines, r.IsFit

theorem Holds.superclass {d : Class} (h : T.Holds c) (hd : c.superclass = some d) : T.Holds d := by
  intro e he
  refine h e ?_
  rw [Class.lineage_eq, hd]
  exact List.mem_cons_of_mem _ he

theorem Holds.lookup (h : T.Holds c) {selector : String} {classSide : Bool}
    (hm : c.lookup? selector classSide = some m) :
    m.address.selector = selector ∧ T.methodAt? m.address = some m := by
  obtain ⟨d, hd, hm⟩ := List.exists_of_findSome?_eq_some hm
  exact h d hd classSide selector m hm

theorem HasMethod.fit (hT : T.Implements programs) (h : T.HasMethod programs m r N span) :
    r.IsFit :=
  hT.fit r (List.mem_of_find?_eq_some h.routine)

theorem HasMethod.address (h : T.HasMethod programs m r N span) : r.address = m.address :=
  of_decide_eq_true (List.find?_some (p := fun r : Routine => decide (r.address = m.address))
    h.routine)

end ClassTable

/-- **The classes of compiled sources are those that the sources have.** -/
theorem Compilation.classes_implement {sources : List String}
    (hfit : ∀ source ∈ sources, (Program.parse source).IsFit)
    (herrors : (ofPrograms options (sources.map Program.parse)).errors = #[]) :
    (ClassTable.ofSymbols (ofPrograms options (sources.map Program.parse)).table).Implements
      (allPrograms options (sources.map Program.parse)) := by
  have hall := isFit_of_mem_allPrograms options hfit
  have hfits : ∀ p ∈ sources.map Program.parse, p.BlocksFit := by
    intro p hp
    obtain ⟨source, hsource, rfl⟩ := List.mem_map.1 hp
    exact (hfit source hsource).2
  have hsound := (ofPrograms_sound options (sources.map Program.parse)).1
  obtain ⟨hrecords, hmain⟩ := ofPrograms_records hfits herrors
  -- Only the table and the programs matter from here on.
  generalize allPrograms options (sources.map Program.parse) = programs at hall hrecords ⊢
  generalize (ofPrograms options (sources.map Program.parse)).table = t at hsound hrecords hmain ⊢
  refine ⟨fun {m} hfound hprimitive => ?_, fun hcls d hd classSide selector m hm => ?_,
    fun hcls hm => ClassTable.primitive_of_main hsound hrecords hmain hcls hm, hall⟩
  · obtain ⟨-, hcase⟩ := ClassTable.methodAt?_cases hsound hrecords hfound
    rw [hprimitive] at hcase
    obtain ⟨C, M, r, hdeclares, hr, himplements, hcode⟩ := hcase.resolve_left (by simp)
    obtain ⟨code, hcode', N, span, hfields, hcompiled⟩ := himplements.code
    obtain rfl := Option.some.inj (hcode.symm.trans hcode')
    refine ⟨r, N, span, hfound, hr, hcompiled, ClassTable.classAt t C, ?_, hfields.symm⟩
    rw [← hdeclares.name]
    exact ClassTable.get?_ofSymbols hsound hdeclares.mem
  · obtain ⟨C, hC, rfl⟩ := ClassTable.exists_of_mem_lineage hsound hcls hd
    refine ⟨?_, ClassTable.methodAt?_of_classAt hsound hC hm⟩
    rw [ClassTable.side_classAt] at hm
    rw [(ClassTable.exists_of_getElem?_methodsOf hm).1]

end Smalltalk
