/-
**What compiling a program leaves in the table.**

A program that is compiled without mistakes was declared without mistakes, and each of its methods
has code in the end: the code that was written for it when everything was declared. The code of
other methods is not touched.

Mistakes are found in three rounds, and each round goes through the parts of the program in order.
So every mistake is one of a part, and a log of the three rounds keeps the two together.

* `Compilation.log` — **the mistakes of the three rounds**, each with its part;
* `Compilation.FileCompiled`, `Compilation.addFile_compiled` — **what becomes of
  a program without mistakes**;
* `Compilation.exists_methodCode` — **all code that is stored was written for a method**;
* `Compilation.errors_addFile` — **the log has all mistakes, in order**;
* `Compilation.code_isSome_iff` — **a method has code exactly if it has no mistake**.
-/

import Mathlib.Data.List.Induction
import Smalltalk.Proofs.Assignments

namespace Smalltalk

variable {p : Program} {scope s : ScopeId} {code : CompiledCode}
  {c : Compilation} {marks : Bool} {fileName : String} {α β : Type} {job : Job} {v : Visit}
  {e : CompileError}

/-! ### Tables and code -/

namespace SymbolTable

variable {t t' : SymbolTable}

section

variable (h : t.withoutCode = t'.withoutCode)

include h

theorem scope_eq_of_withoutCode (scope : ScopeId) :
    (t.scope scope).withoutCode = (t'.scope scope).withoutCode := by
  rw [← t.scope_withoutCode, h, t'.scope_withoutCode]

theorem symbol_eq_of_withoutCode (id : SymbolId) : t.symbol id = t'.symbol id := by
  rw [← t.symbol_withoutCode, h, t'.symbol_withoutCode]

theorem size_eq_of_withoutCode : t.scopes.size = t'.scopes.size := by
  rw [← t.size_scopes_withoutCode, h, t'.size_scopes_withoutCode]

theorem symbols_of_withoutCode : t'.symbols = t.symbols := (congrArg SymbolTable.symbols h).symm

theorem classes_of_withoutCode : t'.classes = t.classes := by
  rw [← t.classes_withoutCode, h, t'.classes_withoutCode]

theorem kind_of_withoutCode (s : ScopeId) : (t'.scope s).kind = (t.scope s).kind :=
  (congrArg Scope.kind (scope_eq_of_withoutCode h s).symm :)

theorem enclosing_of_withoutCode (s : ScopeId) : (t'.scope s).enclosing = (t.scope s).enclosing :=
  (congrArg Scope.enclosing (scope_eq_of_withoutCode h s).symm :)

theorem name_of_withoutCode (s : ScopeId) : (t'.scope s).name = (t.scope s).name :=
  (congrArg Scope.name (scope_eq_of_withoutCode h s).symm :)

theorem names_of_withoutCode (s : ScopeId) : (t'.scope s).names = (t.scope s).names :=
  (congrArg Scope.names (scope_eq_of_withoutCode h s).symm :)

/-- **Whether a table is sound does not depend on code.** -/
theorem Sound.of_withoutCode (hsound : t.Sound) : t'.Sound := by
  have hkind := kind_of_withoutCode h
  have henclosing := enclosing_of_withoutCode h
  have hname := name_of_withoutCode h
  have hnames := names_of_withoutCode h
  have hsymbols (s : ScopeId) : (t'.scope s).symbols = (t.scope s).symbols :=
    (congrArg Scope.symbols (scope_eq_of_withoutCode h s).symm :)
  have hsymbol := symbol_eq_of_withoutCode h
  have hsize := size_eq_of_withoutCode h
  have hcount : t.symbols.size = t'.symbols.size := by rw [symbols_of_withoutCode h]
  have hclasses := classes_of_withoutCode h
  have hsuper (s : ScopeId) : t'.superclass? s = t.superclass? s := by
    rw [superclass?_eq, superclass?_eq, hkind]
  have hfields (s : ScopeId) : t'.ownFields s = t.ownFields s := by
    simp only [ownFields, hsymbols, hsymbol]
  have hinherited (s : ScopeId) : t'.inherited s = t.inherited s := by
    simp only [inherited, hsuper, hkind]
  refine ⟨?_, ?_, ?_, ?_, ?_, ?_⟩
  · intro scope s hs
    exact hsound.enclosing (henclosing scope ▸ hs)
  · grind
  · grind
  · intro scope hclass
    have hf := hsound.fields (hkind scope ▸ hclass)
    refine ⟨?_, ?_, ?_, ?_, ?_, ?_⟩
    · rw [henclosing]
      exact hf.enclosing
    · grind
    · grind
    · grind
    · rw [hkind, hinherited, hfields]
      exact hf.count
    · rw [hkind]
      exact hf.room
  · grind
  · have hg := hsound.globals
    refine ⟨hsize ▸ hg.size, ?_, ?_, ?_, ?_, ?_, ?_⟩
    · rw [hkind]
      exact hg.kind
    · rw [henclosing]
      exact hg.enclosing
    · grind
    · grind
    · grind
    · rw [hclasses]
      exact hg.ascending

end

theorem code_setCode (t : SymbolTable) (scope : ScopeId) (code : CompiledCode) (s : ScopeId) :
    ((t.setCode scope code).scope s).code =
      if s = scope ∧ s < t.scopes.size then some code else (t.scope s).code := by
  rw [setCode, scope_modifyScope]
  split <;> rfl

theorem lt_size_of_code (h : (t.scope scope).code = some code) : scope < t.scopes.size := by
  by_contra hge
  rw [scope_of_size_le _ (Nat.le_of_not_lt hge)] at h
  cases h

theorem code_new (scope : ScopeId) : (new.scope scope).code = none := by
  cases scope <;> rfl

end SymbolTable

/-! ### Compiling a file -/

namespace Compilation

/-- What was declared for a program: the jobs, and the table with the mistakes. -/
def declared (c : Compilation) (p : Program) : Array Job × Declarations :=
  Declaring.declareProgram p ⟨c.table, c.errors, []⟩

/-- The visits of a program that is compiled after others. -/
def visits (c : Compilation) (p : Program) : List Visit := p.visits ⟨c.table, c.errors, []⟩

/-- What the methods of a program are written with. -/
def context (c : Compilation) (marks : Bool) (fileName : String) (p : Program) : CodeContext :=
  ⟨(c.declared p).2.table, Lines.ofSource p.source, fileName, marks⟩

/-- What is known when all assignments have been checked. -/
def checked (c : Compilation) (p : Program) : Findings :=
  check (c.declared p).2.table ⟨(c.declared p).2.errors, (c.declared p).2.failed⟩
    (c.declared p).1.toList

/-- The mistake that ends the writing of a method, if any. -/
def codeError? (context : CodeContext) (job : Job) : Option CompileError :=
  match context.methodCode job with
  | .ok _ => none
  | .error e => some e

/-- Neither the assignments of a method nor its code are wrong. -/
def Right (context : CodeContext) (job : Job) : Prop :=
  context.table.wrongAssignments job = #[] ∧ ∃ code, context.methodCode job = .ok code

/-- The wrong assignments of the method that was visited. -/
def assignmentErrors (context : CodeContext) (v : Visit) : List CompileError :=
  v.job.toList.flatMap fun job => (context.table.wrongAssignments job).toList

theorem assignmentErrors_eq {context : CodeContext} (hjob : v.job = some job) :
    assignmentErrors context v = (context.table.wrongAssignments job).toList := by
  rw [assignmentErrors, hjob, Option.toList_some, List.flatMap_singleton]

/-- The mistake that ended the writing of the method that was visited, if it was written. -/
def codeErrors (context : CodeContext) (v : Visit) : List CompileError :=
  if v.found = [] ∧ assignmentErrors context v = [] then
    v.job.toList.flatMap fun job => (codeError? context job).toList
  else []

section Files

open Declaring SymbolTable

variable {context : CodeContext} {failed : List ScopeId} {jobs : List Job}

theorem jobs_declared (c : Compilation) (p : Program) :
    (c.declared p).1.toList = jobsOf (c.visits p) := p.jobs_visits _

theorem visits_leads (hsound : c.table.Sound) (p : Program) :
    Leads ⟨c.table, c.errors, []⟩ (c.visits p) (c.declared p).2 := p.visits_leads hsound

theorem mem_declared_of_visit (hv : v ∈ c.visits p) (hjob : v.job = some job) :
    job ∈ (c.declared p).1.toList := by
  rw [jobs_declared]
  exact List.mem_filterMap.2 ⟨v, hv, hjob⟩

theorem exists_visit_of_mem_declared (hjob : job ∈ (c.declared p).1.toList) :
    ∃ v ∈ c.visits p, v.job = some job := by
  rw [jobs_declared] at hjob
  exact List.mem_filterMap.1 hjob

/-- **The methods that fail** are those with a wrong name or a wrong assignment. A mistake is found
in a scope, and the method around that scope is the one that was visited. -/
theorem mem_failed_iff (hsound : c.table.Sound) (hv : v ∈ c.visits p) (hjob : v.job = some job) :
    job.scope ∈ (c.checked p).failed ↔
      v.found ≠ [] ∨ (c.declared p).2.table.wrongAssignments job ≠ #[] := by
  have hleads := visits_leads hsound p
  rw [checked, mem_failed_check, hleads.mem_failed_iff hsound rfl hv hjob]
  · refine or_congr_right ⟨?_, fun h => ⟨job, mem_declared_of_visit hv hjob, rfl, h⟩⟩
    rintro ⟨job', hjob', hscope, hwrong⟩
    obtain ⟨v', hv', hjob'⟩ := exists_visit_of_mem_declared hjob'
    -- no two jobs have one scope
    obtain rfl := hleads.eq_of_scope hsound hv hv' hjob hjob' hscope
    obtain rfl := Option.some.inj (hjob.symm.trans hjob')
    exact hwrong
  · intro job hjob a ha
    obtain ⟨v, hv, hjob⟩ := exists_visit_of_mem_declared hjob
    obtain ⟨body, hcodes, -⟩ := Program.codes_of_visit hsound hv hjob
    exact hcodes.enclosingMethod?_eq (hleads.later hsound hv).2.1
      (statementsTargets_scope _ _ _ ha)

theorem addFile_eq (c : Compilation) (marks : Bool) (fileName : String) (p : Program) :
    c.addFile marks fileName p =
      (c.declared p).1.toList.foldl (write (c.context marks fileName p) (c.checked p).failed)
        ⟨(c.declared p).2.table, (c.checked p).errors⟩ := rfl

theorem declared_declares (hsound : c.table.Sound) (p : Program) :
    Declares ⟨c.table, c.errors, []⟩ (c.declared p).2 (c.declared p).1.toList :=
  declareProgram_declares p hsound

/-! ### Writing code -/

theorem write_withoutCode (context : CodeContext) (failed : List ScopeId) (c : Compilation)
    (job : Job) : (write context failed c job).table.withoutCode = c.table.withoutCode := by
  rw [write]
  split
  · rfl
  · split
    · exact setCode_withoutCode _ _ _
    · rfl

/-- Compiling adds only code to what was declared. -/
theorem addFile_withoutCode (c : Compilation) (marks : Bool) (fileName : String) (p : Program) :
    (c.addFile marks fileName p).table.withoutCode = (c.declared p).2.table.withoutCode := by
  have hwrite (jobs : List Job) (c' : Compilation) :
      (jobs.foldl (write (c.context marks fileName p) (c.checked p).failed) c').table.withoutCode =
        c'.table.withoutCode := by
    induction jobs generalizing c' with
    | nil => rfl
    | cons job jobs ih => rw [List.foldl_cons, ih, write_withoutCode]
  exact hwrite _ _

theorem code_write_of_ne (hne : job.scope ≠ s) :
    ((write context failed c job).table.scope s).code = (c.table.scope s).code := by
  rw [write]
  split
  · rfl
  · split
    · rw [code_setCode, if_neg fun h => hne h.1.symm]
    · rfl

theorem code_write (hlt : job.scope < c.table.scopes.size)
    (hnone : (c.table.scope job.scope).code = none) :
    ((write context failed c job).table.scope job.scope).code =
      if job.scope ∈ failed then none else (context.methodCode job).toOption := by
  rw [write]
  split
  · exact hnone
  · cases context.methodCode job with
    | ok code => exact (code_setCode _ _ _ _).trans (if_pos ⟨rfl, hlt⟩)
    | error e => exact hnone

/-- The code of other methods is not touched. -/
theorem code_foldl_write_of_ne (h : ∀ job ∈ jobs, job.scope ≠ s) :
    ((jobs.foldl (write context failed) c).table.scope s).code = (c.table.scope s).code := by
  induction jobs generalizing c with
  | nil => rfl
  | cons job jobs ih =>
    obtain ⟨hjob, hjobs⟩ := List.forall_mem_cons.1 h
    rw [List.foldl_cons, ih hjobs, code_write_of_ne hjob]

/-- The code of a method is kept, as no two methods have one scope. -/
theorem code_foldl_write (hdistinct : jobs.Pairwise fun a b => a.scope < b.scope)
    (hjob : job ∈ jobs) (hlt : job.scope < c.table.scopes.size)
    (hnone : (c.table.scope job.scope).code = none) :
    ((jobs.foldl (write context failed) c).table.scope job.scope).code =
      if job.scope ∈ failed then none else (context.methodCode job).toOption := by
  induction jobs generalizing c with
  | nil => cases hjob
  | cons job' jobs ih =>
    obtain ⟨hlater, hdistinct⟩ := List.pairwise_cons.1 hdistinct
    have hsize := size_eq_of_withoutCode (write_withoutCode context failed c job')
    rw [List.foldl_cons]
    cases hjob with
    | tail _ hjob =>
      exact ih hdistinct hjob (hsize ▸ hlt)
        ((code_write_of_ne (Nat.ne_of_lt (hlater _ hjob))).trans hnone)
    | head =>
      rw [code_foldl_write_of_ne fun b hb => Nat.ne_of_gt (hlater b hb), code_write hlt hnone]

theorem code_addFile_of_ne (hsound : c.table.Sound)
    (hs : ∀ job ∈ (c.declared p).1.toList, job.scope ≠ s) :
    ((c.addFile marks fileName p).table.scope s).code = (c.table.scope s).code := by
  rw [addFile_eq, code_foldl_write_of_ne hs]
  exact (declared_declares hsound p).grows.code s

/-- **The code of a method** of the program that was compiled last. -/
theorem code_addFile (hsound : c.table.Sound) (hv : v ∈ c.visits p) (hjob : v.job = some job) :
    ((c.addFile marks fileName p).table.scope job.scope).code =
      if v.found = [] ∧ assignmentErrors (c.context marks fileName p) v = [] then
        ((c.context marks fileName p).methodCode job).toOption
      else none := by
  have hdeclares := declared_declares hsound p
  have hmem := mem_declared_of_visit hv hjob
  have hfresh : ((c.declared p).2.table.scope job.scope).code = none := by
    rw [hdeclares.grows.code, scope_of_size_le _ (hdeclares.fresh hmem).1]
    rfl
  rw [addFile_eq, code_foldl_write hdeclares.ascending hmem (hdeclares.fresh hmem).2 hfresh]
  simp only [mem_failed_iff hsound hv hjob, assignmentErrors_eq hjob, Array.toList_eq_nil_iff]
  grind [context]

/-- **The code that a program adds is that of its methods**, with or without mistakes. -/
theorem code_of_addFile (hsound : c.table.Sound)
    (h : ((c.addFile marks fileName p).table.scope s).code = some code) :
    (c.table.scope s).code = some code ∨ ∃ job ∈ (c.declared p).1.toList, job.scope = s ∧
      (c.context marks fileName p).methodCode job = .ok code := by
  by_cases hs : ∀ job ∈ (c.declared p).1.toList, job.scope ≠ s
  · exact .inl (code_addFile_of_ne hsound hs ▸ h)
  · push Not at hs
    obtain ⟨job, hjob, rfl⟩ := hs
    refine .inr ⟨job, hjob, rfl, ?_⟩
    obtain ⟨v, hv, hjob⟩ := exists_visit_of_mem_declared hjob
    rw [code_addFile hsound hv hjob] at h
    split at h
    · cases hcode : (c.context marks fileName p).methodCode job with
      | error e => rw [hcode] at h; cases h
      | ok code' => rw [hcode] at h; exact congrArg _ (Option.some.inj h)
    · cases h

/-! ### Mistakes -/

/-- The mistakes that end the writing of code are kept in order. -/
theorem errors_foldl_write (context : CodeContext) (failed : List ScopeId) (c : Compilation)
    (jobs : List Job) : (jobs.foldl (write context failed) c).errors.toList = c.errors.toList ++
      jobs.flatMap fun job => if job.scope ∈ failed then [] else (codeError? context job).toList := by
  induction jobs generalizing c with
  | nil => simp
  | cons job jobs ih =>
    rw [List.foldl_cons, ih, write, List.flatMap_cons, codeError?]
    split
    · rfl
    · cases context.methodCode job <;> simp

/-- Where nothing is declared wrongly, nothing was found. -/
theorem found_eq_nil (hsound : c.table.Sound) (hclean : (c.declared p).2.errors = #[])
    (hv : v ∈ c.visits p) : v.found = [] := by
  have herrors := (visits_leads hsound p).errors
  rw [hclean, eq_comm, List.append_eq_nil_iff, List.flatMap_eq_nil_iff] at herrors
  exact herrors.2 v hv

/-- **The mistakes of the second and the third round** come after those of the first one. -/
theorem errors_addFile_declared (hsound : c.table.Sound) :
    (c.addFile marks fileName p).errors.toList = (c.declared p).2.errors.toList ++
      ((c.visits p).flatMap (assignmentErrors (c.context marks fileName p)) ++
        (c.visits p).flatMap (codeErrors (c.context marks fileName p))) := by
  have hflat (f : Job → List CompileError) : (c.declared p).1.toList.flatMap f =
      (c.visits p).flatMap fun v => v.job.toList.flatMap f := by
    rw [jobs_declared, jobsOf, List.filterMap_eq_flatMap_toList, List.flatMap_assoc]
  have hcode : ((c.visits p).flatMap fun v => v.job.toList.flatMap fun job =>
      if job.scope ∈ (c.checked p).failed then []
      else (codeError? (c.context marks fileName p) job).toList) =
      (c.visits p).flatMap (codeErrors (c.context marks fileName p)) := by
    refine List.flatMap_congr fun v hv => ?_
    rw [codeErrors]
    cases hjob : v.job with
    | none => simp
    | some job =>
      simp only [Option.toList_some, List.flatMap_singleton, mem_failed_iff hsound hv hjob,
        assignmentErrors_eq hjob, Array.toList_eq_nil_iff]
      grind [context]
  rw [addFile_eq, errors_foldl_write, hflat, hcode, checked, errors_check, hflat,
    List.append_assoc]
  rfl

/-- **A program adds no mistake** exactly if nothing is declared wrongly and all methods are
right. -/
theorem errors_addFile_eq_empty_iff (hsound : c.table.Sound) (marks : Bool) (fileName : String)
    (p : Program) : (c.addFile marks fileName p).errors = #[] ↔ (c.declared p).2.errors = #[] ∧
      ∀ job ∈ (c.declared p).1.toList, Right (c.context marks fileName p) job := by
  rw [← Array.toList_eq_nil_iff, errors_addFile_declared hsound, List.append_eq_nil_iff,
    List.append_eq_nil_iff, List.flatMap_eq_nil_iff, List.flatMap_eq_nil_iff,
    Array.toList_eq_nil_iff]
  refine and_congr_right fun hclean => ⟨fun ⟨hassignments, hcodes⟩ job hjob => ?_, fun h => ?_⟩
  · obtain ⟨v, hv, hjob⟩ := exists_visit_of_mem_declared hjob
    have hassignments := hassignments v hv
    have hcodes := hcodes v hv
    rw [codeErrors, if_pos ⟨found_eq_nil hsound hclean hv, hassignments⟩] at hcodes
    rw [hjob, Option.toList_some, List.flatMap_singleton, Option.toList_eq_nil_iff,
      codeError?] at hcodes
    rw [assignmentErrors_eq hjob, Array.toList_eq_nil_iff] at hassignments
    refine ⟨hassignments, ?_⟩
    cases hcode : (c.context marks fileName p).methodCode job with
    | error e => rw [hcode] at hcodes; cases hcodes
    | ok code => exact ⟨code, rfl⟩
  · have hright {v : Visit} (hv : v ∈ c.visits p) {job : Job} (hjob : job ∈ v.job.toList) :=
      h job (mem_declared_of_visit hv (Option.mem_toList.1 hjob))
    refine ⟨fun v hv => ?_, fun v hv => ?_⟩
    · rw [assignmentErrors, List.flatMap_eq_nil_iff]
      exact fun job hjob => Array.toList_eq_nil_iff.2 (hright hv hjob).1
    · rw [codeErrors, ite_eq_right_iff, List.flatMap_eq_nil_iff]
      intro _ job hjob
      obtain ⟨-, code, hcode⟩ := hright hv hjob
      rw [codeError?, hcode]
      rfl

/-- **What becomes of a program without mistakes.** -/
structure FileCompiled (c : Compilation) (marks : Bool) (fileName : String) (p : Program)
    (c' : Compilation) : Prop where
  clean : (c.declared p).2.errors = #[]
  withoutCode : c'.table.withoutCode = (c.declared p).2.table.withoutCode
  declares : Declares ⟨c.table, c.errors, []⟩ (c.declared p).2 (c.declared p).1.toList
  assignments {job : Job} : job ∈ (c.declared p).1.toList →
    (c.declared p).2.table.wrongAssignments job = #[]
  code {job : Job} : job ∈ (c.declared p).1.toList → ∃ code,
    (c.context marks fileName p).methodCode job = .ok code ∧
      (c'.table.scope job.scope).code = some code
  code_of_ne {s : ScopeId} : (∀ job ∈ (c.declared p).1.toList, job.scope ≠ s) →
    (c'.table.scope s).code = (c.table.scope s).code

theorem addFile_compiled (hsound : c.table.Sound) (h : (c.addFile marks fileName p).errors = #[]) :
    c.FileCompiled marks fileName p (c.addFile marks fileName p) := by
  obtain ⟨hclean, hright⟩ := (errors_addFile_eq_empty_iff hsound _ _ _).1 h
  refine ⟨hclean, c.addFile_withoutCode marks fileName p, declared_declares hsound p,
    fun hjob => (hright _ hjob).1, fun hjob => ?_, code_addFile_of_ne hsound⟩
  obtain ⟨hassignments, code, hcode⟩ := hright _ hjob
  obtain ⟨v, hv, hjob⟩ := exists_visit_of_mem_declared hjob
  refine ⟨code, hcode, ?_⟩
  rw [code_addFile hsound hv hjob, if_pos ⟨found_eq_nil hsound hclean hv,
    (assignmentErrors_eq hjob).trans (Array.toList_eq_nil_iff.2 hassignments)⟩, hcode]
  rfl

/-- A program with mistakes adds to the mistakes. -/
theorem errors_of_addFile (hsound : c.table.Sound)
    (h : (c.addFile marks fileName p).errors = #[]) : c.errors = #[] :=
  (declareProgram_blind p).plain.errors_eq_empty ((errors_addFile_eq_empty_iff hsound _ _ _).1 h).1

/-- With or without mistakes the table stays sound, and it does not shrink. -/
theorem addFile_sound (hsound : c.table.Sound) (marks : Bool) (fileName : String) (p : Program) :
    (c.addFile marks fileName p).table.Sound ∧
      c.table.scopes.size ≤ (c.addFile marks fileName p).table.scopes.size := by
  have hdeclares := declared_declares hsound p
  have hcode := c.addFile_withoutCode marks fileName p
  refine ⟨.of_withoutCode hcode.symm hdeclares.sound, ?_⟩
  rw [SymbolTable.size_eq_of_withoutCode hcode]
  exact hdeclares.grows.scopes_size

end Files

/-! ### Compiling programs -/

theorem start_standard (fileName : String) (marks : Bool) :
    start ⟨fileName, marks, true⟩
      = addFile ⟨SymbolTable.new, #[]⟩ marks Standard.fileName Standard.program := by
  rw [start]
  exact if_pos rfl

theorem start_empty (fileName : String) (marks : Bool) :
    start ⟨fileName, marks, false⟩ = ⟨SymbolTable.new, #[]⟩ := by
  rw [start]
  exact if_neg Bool.false_ne_true

section

variable (options : CompileOptions)

theorem start_sound : (start options).table.Sound := by
  rw [start]
  split
  · exact (addFile_sound SymbolTable.new_sound _ _ _).1
  · exact SymbolTable.new_sound

theorem ofPrograms_nil : ofPrograms options [] = start options := rfl

theorem ofPrograms_append_singleton (ps : List Program) (p : Program) :
    ofPrograms options (ps ++ [p])
      = (ofPrograms options ps).addFile options.marks options.fileName p := by
  rw [ofPrograms, List.foldl_append]
  rfl

theorem ofPrograms_sound (programs : List Program) : (ofPrograms options programs).table.Sound ∧
      (start options).table.scopes.size ≤ (ofPrograms options programs).table.scopes.size := by
  induction programs using List.reverseRecOn with
  | nil => exact ⟨start_sound options, Nat.le_refl _⟩
  | append_singleton ps p ih =>
    have hadd := addFile_sound ih.1 options.marks options.fileName p
    rw [ofPrograms_append_singleton]
    exact ⟨hadd.1, Nat.le_trans ih.2 hadd.2⟩

end

/-- The file that a scope comes from: the scopes of the standard classes are the oldest ones. -/
def fileOf (options : CompileOptions) (scope : ScopeId) : String :=
  if scope < (start options).table.scopes.size then Standard.fileName else options.fileName

/-- **All code that is stored was written for a method**, with the marks and the file that were asked
for. -/
theorem exists_methodCode {options : CompileOptions} {programs : List Program}
    (h : ((ofPrograms options programs).table.scope scope).code = some code) :
    ∃ (c : CodeContext) (job : Job), c.marks = options.marks ∧
      c.fileName = fileOf options scope ∧ c.methodCode job = .ok code := by
  induction programs using List.reverseRecOn with
  | nil =>
    obtain ⟨fileName, marks, standard⟩ := options
    rw [ofPrograms_nil] at h
    cases standard with
    | false =>
      rw [start_empty, SymbolTable.code_new] at h
      cases h
    | true =>
      have hlt := SymbolTable.lt_size_of_code h
      rw [start_standard] at h
      rcases code_of_addFile SymbolTable.new_sound h with hnew | ⟨job, -, -, hcode⟩
      · rw [SymbolTable.code_new] at hnew
        cases hnew
      · exact ⟨_, job, rfl, by rw [fileOf, if_pos hlt]; rfl, hcode⟩
  | append_singleton ps p ih =>
    obtain ⟨hsound, hsize⟩ := ofPrograms_sound options ps
    rw [ofPrograms_append_singleton] at h
    rcases code_of_addFile hsound h with hold | ⟨job, hjob, rfl, hcode⟩
    · exact ih hold
    · have hge := Nat.le_trans hsize ((declared_declares hsound p).fresh hjob).1
      exact ⟨_, job, rfl, by rw [fileOf, if_neg (Nat.not_lt.2 hge)]; rfl, hcode⟩

end Compilation

/-! ### The log -/

open Declaring SymbolTable

variable {s : Declarations}

/-- The mistakes that `f` finds in some visits, each with its part. -/
def tagged (f : Visit → List CompileError) (vs : List Visit) : List (Part × CompileError) :=
  vs.flatMap fun v => (f v).map (v.part, ·)

theorem map_snd_tagged (f : Visit → List CompileError) (vs : List Visit) :
    (tagged f vs).map Prod.snd = vs.flatMap f := by
  simp only [tagged, List.map_flatMap, List.map_map, Function.comp_def, List.map_id']

theorem mem_tagged_iff {f : Visit → List CompileError} (hv : v ∈ p.visits s) :
    (v.part, e) ∈ tagged f (p.visits s) ↔ e ∈ f v := by
  rw [tagged, List.mem_flatMap]
  constructor
  · rintro ⟨v', hv', hmem⟩
    obtain ⟨e', he', heq⟩ := List.mem_map.1 hmem
    obtain ⟨hpart, rfl⟩ := Prod.mk.inj heq
    rwa [← Program.eq_of_part hv hv' hpart]
  · exact fun he => ⟨v, hv, List.mem_map_of_mem he⟩

namespace Compilation

/-- **A property of tables that declarations keep** holds of all programs, if it has nothing to do
with code. -/
theorem ofPrograms_keeps {P : SymbolTable → Prop} (options : CompileOptions) (ps : List Program)
    (hnew : P SymbolTable.new)
    (hblind : ∀ t t' : SymbolTable, t.withoutCode = t'.withoutCode → P t → P t')
    (hrun : ∀ t t' : SymbolTable, t.Sound → Run 0 t t' → P t → P t') :
    P (ofPrograms options ps).table := by
  have hadd (c : Compilation) (hsound : c.table.Sound) (hc : P c.table) (marks : Bool)
      (fileName : String) (p : Program) : P (c.addFile marks fileName p).table := by
    exact hblind _ _ (c.addFile_withoutCode marks fileName p).symm (hrun _ _ hsound
      (declareProgram_run (s := ⟨c.table, c.errors, []⟩) hsound (Nat.zero_le _) p) hc)
  induction ps using List.reverseRecOn with
  | nil =>
    rw [ofPrograms_nil, start]
    split
    · exact hadd _ SymbolTable.new_sound hnew _ _ _
    · exact hnew
  | append_singleton ps p ih =>
    rw [ofPrograms_append_singleton]
    exact hadd _ (ofPrograms_sound options ps).1 ih _ _ _

/-- **The mistakes of the three rounds**, in order, each with the part that it is in: those of the
declarations, those of the assignments, and those that ended the writing of code. -/
def log (c : Compilation) (marks : Bool) (fileName : String) (p : Program) :
    List (Part × CompileError) :=
  tagged Visit.found (c.visits p) ++
    tagged (assignmentErrors (c.context marks fileName p)) (c.visits p) ++
    tagged (codeErrors (c.context marks fileName p)) (c.visits p)

/-- **The log has all mistakes, in order.** -/
theorem errors_addFile (hsound : c.table.Sound) :
    (c.addFile marks fileName p).errors.toList =
      c.errors.toList ++ (c.log marks fileName p).map Prod.snd := by
  rw [errors_addFile_declared hsound, (visits_leads hsound p).errors, log, List.map_append,
    List.map_append, map_snd_tagged, map_snd_tagged, map_snd_tagged, List.append_assoc,
    List.append_assoc]

/-- The mistakes of a method with code. -/
theorem mem_log_iff (hv : v ∈ c.visits p) :
    (v.part, e) ∈ c.log marks fileName p ↔ e ∈ v.found ∨
      e ∈ assignmentErrors (c.context marks fileName p) v ∨
      e ∈ codeErrors (c.context marks fileName p) v := by
  rw [log, List.mem_append, List.mem_append, visits, mem_tagged_iff hv, mem_tagged_iff hv,
    mem_tagged_iff hv, or_assoc]

/-- A part has no mistake in the log if none of the three rounds found one. -/
theorem forall_log_ne_iff (hv : v ∈ c.visits p) :
    (∀ entry ∈ c.log marks fileName p, entry.1 ≠ v.part) ↔ v.found = [] ∧
      assignmentErrors (c.context marks fileName p) v = [] ∧
        codeErrors (c.context marks fileName p) v = [] := by
  have hentries : (∀ entry ∈ c.log marks fileName p, entry.1 ≠ v.part) ↔
      ∀ e, (v.part, e) ∉ c.log marks fileName p := by
    grind
  rw [hentries]
  simp only [List.eq_nil_iff_forall_not_mem, mem_log_iff hv, not_or, forall_and]

/-- **A method has code exactly if it has no mistake.**  When a program has been compiled, with
mistakes or without, after any others: the log of the three rounds has all new mistakes in order,
each with its part; every method that was opened is the job of a part; and the scope of such a
method has code if and only if no mistake in the log is one of the part. -/
theorem code_isSome_iff (options : CompileOptions) (ps : List Program) (p : Program) :
    (ofPrograms options (ps ++ [p])).errors.toList =
        (ofPrograms options ps).errors.toList ++
          ((ofPrograms options ps).log options.marks options.fileName p).map Prod.snd ∧
      (∀ scope, (ofPrograms options ps).table.scopes.size ≤ scope →
        ((ofPrograms options (ps ++ [p])).table.scope scope).kind.isMethod = true →
          ∃ v ∈ (ofPrograms options ps).visits p, ∃ job, v.job = some job ∧ job.scope = scope) ∧
      ∀ v ∈ (ofPrograms options ps).visits p, ∀ job, v.job = some job →
        (((ofPrograms options (ps ++ [p])).table.scope job.scope).code.isSome = true ↔
          ∀ entry ∈ (ofPrograms options ps).log options.marks options.fileName p,
            entry.1 ≠ v.part) := by
  have hsound := (ofPrograms_sound options ps).1
  rw [ofPrograms_append_singleton]
  generalize ofPrograms options ps = c at hsound ⊢
  refine ⟨errors_addFile hsound, fun scope hge hmethod => ?_, fun v hv job hjob => ?_⟩
  · refine (visits_leads hsound p).exists_job hsound hge ?_
    rw [← hmethod]
    exact congrArg (·.kind.isMethod) (scope_eq_of_withoutCode
      (c.addFile_withoutCode options.marks options.fileName p).symm scope)
  · rw [forall_log_ne_iff hv, code_addFile hsound hv hjob, codeErrors, hjob, Option.toList_some,
      List.flatMap_singleton, codeError?]
    split
    case isFalse hwrong => exact ⟨fun h => (by cases h), fun h => absurd ⟨h.1, h.2.1⟩ hwrong⟩
    case isTrue hright =>
      cases (c.context options.marks options.fileName p).methodCode job with
      | ok code => exact ⟨fun _ => ⟨hright.1, hright.2, rfl⟩, fun _ => rfl⟩
      | error e => exact ⟨fun h => (by cases h), fun h => (by cases h.2.2)⟩

/-- A class with mistakes in its header, its fields and one of its methods. -/
def wrongNeighbours : Program := Program.parse
  "class A : B [| x x | bad [[y := 1] value] good: z [^[z + x] value]] A new good: 3"

/-- The other method and the top-level statements have code all the same. -/
theorem wrongNeighbours_code :
    ((start ⟨"main.st", false, false⟩).log false "main.st" wrongNeighbours).map Prod.fst =
        [.header 0, .header 0, .method 0 0] ∧
      ∃ v ∈ (start ⟨"main.st", false, false⟩).visits wrongNeighbours, ∃ job,
        v.part = .method 0 1 ∧ v.job = some job ∧
        ((ofPrograms ⟨"main.st", false, false⟩ [wrongNeighbours]).table.scope
          job.scope).code.isSome = true := by
  have hlog : ((start ⟨"main.st", false, false⟩).log false "main.st" wrongNeighbours).map Prod.fst =
      [.header 0, .header 0, .method 0 0] := by decide +kernel
  have hpart : ((start ⟨"main.st", false, false⟩).visits wrongNeighbours)[2]?.map
      (fun v => (v.part, v.job.isSome)) = some (.method 0 1, true) := by decide +kernel
  obtain ⟨v, hv, heq⟩ := Option.map_eq_some_iff.1 hpart
  obtain ⟨hpart, hsome⟩ := Prod.mk.inj heq
  obtain ⟨job, hjob⟩ := Option.isSome_iff_exists.1 hsome
  have hmem := List.mem_of_getElem? hv
  refine ⟨hlog, v, hmem, job, hpart, hjob,
    ((code_isSome_iff ⟨"main.st", false, false⟩ [] wrongNeighbours).2.2 v hmem job hjob).2 ?_⟩
  intro entry hentry hne
  have hin : entry.1 ∈ [Part.header 0, .header 0, .method 0 0] := hlog ▸ List.mem_map_of_mem hentry
  rw [hne, hpart] at hin
  revert hin
  decide

end Compilation

end Smalltalk
