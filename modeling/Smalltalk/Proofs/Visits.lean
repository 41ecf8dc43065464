/-
**The parts of a program, and the mistakes in each of them.**

A program is declared part by part: the header of a class with its fields, then its methods, then
the next class, and the top-level statements at the end. The list of these visits says what was known
before and after each part, and which job was left to compile.

* `Visit` — **what was done for a part**, and the mistakes that were found;
* `Declaring.Declares` — **what is declared with some jobs**;
* `Declaring.declareProgram_declares` — **what a program declares**.
-/

import Smalltalk.Proofs.Failing

namespace Smalltalk

open Declaring SymbolTable

variable {v : Visit} {vs : List Visit}

/-! ### Visits -/

/-- A part of a program that is declared on its own. Classes and methods are counted from 0. -/
inductive Part where
  /-- The header of a class, and its fields. -/
  | header (cls : Nat)
  | method (cls index : Nat)
  /-- The top-level statements. -/
  | main
deriving DecidableEq, Repr

/-- The class a part belongs to. -/
def Part.class? : Part → Option Nat
  | header cls | method cls _ => some cls
  | main => none

/-- **What was done for a part.** -/
structure Visit where
  /-- The part. -/
  part : Part
  /-- What had been declared before. -/
  before : Declarations
  /-- What had been declared afterwards. -/
  after : Declarations
  /-- The method whose code is to be written, if the part is one. -/
  job : Option Job

namespace Visit

/-- The mistakes in the declarations of the part. -/
def found (v : Visit) : List CompileError := v.after.errors.toList.drop v.before.errors.size

/-- **What every visit does**: mistakes are added to those before, for which the method of the job
has failed, and this is the only method that is opened. -/
structure Proper (v : Visit) : Prop where
  run : Run 0 v.before.table v.after.table
  errors : v.before.errors.toList <+: v.after.errors.toList
  failed (M : ScopeId) : M ∈ v.after.failed ↔
    M ∈ v.before.failed ∨ v.found ≠ [] ∧ ∃ job, v.job = some job ∧ job.scope = M
  fresh {job : Job} : v.job = some job →
    v.before.table.scopes.size ≤ job.scope ∧ job.scope < v.after.table.scopes.size
  method {scope : ScopeId} : v.before.table.scopes.size ≤ scope →
    (v.after.table.scope scope).kind.isMethod = true → ∃ job, v.job = some job ∧ job.scope = scope

theorem Proper.errors_eq (h : v.Proper) :
    v.after.errors.toList = v.before.errors.toList ++ v.found := by
  obtain ⟨new, hnew⟩ := h.errors
  rw [found, ← hnew, ← Array.length_toList, List.drop_left]

end Visit

/-- The visits start at some declarations and end at others. -/
inductive Leads : Declarations → List Visit → Declarations → Prop
  | nil (s : Declarations) : Leads s [] s
  | cons {v : Visit} {vs : List Visit} {s' : Declarations} :
      v.Proper → Leads v.after vs s' → Leads v.before (v :: vs) s'

namespace Leads

variable {s s' s'' : Declarations} {vs' : List Visit}

section

variable (h : Leads s vs s')

include h

theorem append (h' : Leads s' vs' s'') : Leads s (vs ++ vs') s'' := by
  induction h with
  | nil => exact h'
  | cons hv _ ih => exact .cons hv (ih h')

theorem run : Run 0 s.table s'.table := by
  induction h with
  | nil => exact .refl
  | cons hv _ ih => exact hv.run.trans ih

/-- The mistakes in the end are those before and those of the visits. -/
theorem errors : s'.errors.toList = s.errors.toList ++ vs.flatMap Visit.found := by
  induction h with
  | nil s => simp
  | cons hv _ ih => rw [ih, hv.errors_eq, List.flatMap_cons, List.append_assoc]

/-- The methods that have failed in the end are those of visits that found mistakes. -/
theorem mem_failed (M : ScopeId) : M ∈ s'.failed ↔
    M ∈ s.failed ∨ ∃ v ∈ vs, v.found ≠ [] ∧ ∃ job, v.job = some job ∧ job.scope = M := by
  induction h with
  | nil s => simp
  | cons hv _ ih =>
    rw [ih, hv.failed, or_assoc]
    simp only [List.mem_cons, or_and_right, exists_or, exists_eq_left]

theorem proper (hv : v ∈ vs) : v.Proper := by
  induction h with
  | nil => cases hv
  | cons hproper _ ih =>
    grind

/-- What was declared with a visit stays declared. -/
theorem later (hsound : s.table.Sound) (hv : v ∈ vs) :
    v.before.table.Sound ∧ Run 0 v.after.table s'.table ∧
      v.after.errors.toList <+: s'.errors.toList := by
  induction h with
  | nil => cases hv
  | cons hproper hvs ih =>
    rcases List.mem_cons.1 hv with rfl | hv
    · refine ⟨hsound, run hvs, ?_⟩
      rw [errors hvs]
      exact List.prefix_append _ _
    · exact ih (hproper.run.sound hsound) hv

/-- **Every method that was opened is a job.** -/
theorem exists_job (hsound : s.table.Sound) {scope : ScopeId} (hge : s.table.scopes.size ≤ scope)
    (hmethod : (s'.table.scope scope).kind.isMethod = true) :
    ∃ v ∈ vs, ∃ job, v.job = some job ∧ job.scope = scope := by
  induction h with
  | nil s =>
    rw [s.table.scope_of_size_le hge] at hmethod
    cases hmethod
  | @cons v vs s' hv hvs ih =>
    have hsound' := hv.run.sound hsound
    have hgrows' := (run hvs).grows hsound' (Nat.zero_le _)
    rcases Nat.lt_or_ge scope v.after.table.scopes.size with hlt | hge'
    · obtain ⟨job, hjob, hscope⟩ :=
        hv.method hge ((hgrows'.alike hlt).isMethod.symm.trans hmethod)
      exact ⟨v, List.mem_cons_self, job, hjob, hscope⟩
    · grind

end

end Leads

/-! ### The visits of a program -/

variable {ms : List (MethodDef Unit)} {cs : List (ClassDef Unit)} {s : Declarations}
  {c : ClassDef Unit} {scope : ScopeId} {cls i : Nat} {p : Program}

/-- The visits of some methods of a class, the first of which has the given number. -/
def methodVisits (scope : ScopeId) (cls : Nat) :
    Nat → List (MethodDef Unit) → Declarations → List Visit
  | _, [], _ => []
  | i, m :: ms, s =>
    let r := declareMethod scope m s
    ⟨.method cls i, s, r.2, r.1⟩ :: methodVisits scope cls (i + 1) ms r.2

/-- The visits of a class with the given number. If its name is taken, its methods are left out. -/
def classVisits (cls : Nat) (c : ClassDef Unit) (s : Declarations) : List Visit :=
  let r := declareHeader c s
  ⟨.header cls, s, r.2, none⟩ ::
    match r.1 with
    | none => []
    | some scope => methodVisits scope cls 0 c.methods r.2

/-- The visits of some classes, the first of which has the given number. -/
def classesVisits : Nat → List (ClassDef Unit) → Declarations → List Visit
  | _, [], _ => []
  | i, c :: cs, s => classVisits i c s ++ classesVisits (i + 1) cs (declareClass #[] c s).2

/-- The visit of the top-level statements. -/
def mainVisit (body : Body Unit) (s : Declarations) : Visit :=
  let r := declareMain #[] body s
  ⟨.main, s, r.2, r.1[0]?⟩

/-- **All visits of a program**, in order. -/
def Program.visits (p : Program) (s : Declarations) : List Visit :=
  classesVisits 0 p.classes s ++
    if p.hasMain then [mainVisit p.main (declareClasses #[] p.classes s).2] else []

/-- The jobs of some visits. -/
def jobsOf (vs : List Visit) : List Job := vs.filterMap Visit.job

theorem jobsOf_append (vs vs' : List Visit) : jobsOf (vs ++ vs') = jobsOf vs ++ jobsOf vs' :=
  List.filterMap_append

/-! ### The jobs of the visits -/

theorem declareMethods_visits (scope : ScopeId) (cls i : Nat) (jobs : Array Job)
    (ms : List (MethodDef Unit)) (s : Declarations) :
    declareMethods scope jobs ms s =
      (jobs ++ (jobsOf (methodVisits scope cls i ms s)).toArray,
        (declareMethods scope #[] ms s).2) := by
  induction ms generalizing jobs i s with
  | nil => simp [declareMethods, methodVisits, jobsOf, pure_apply]
  | cons m ms ih =>
    rw [declareMethods_cons, declareMethods_cons, ih (i + 1), ih (i + 1) (#[] ++ _), methodVisits]
    cases (declareMethod scope m s).1 <;> simp [jobsOf]

theorem declareClass_visits (jobs : Array Job) (cls : Nat) (c : ClassDef Unit) (s : Declarations) :
    declareClass jobs c s =
      (jobs ++ (jobsOf (classVisits cls c s)).toArray, (declareClass #[] c s).2) := by
  rw [declareClass_eq, declareClass_eq, classVisits]
  cases (declareHeader c s).1 with
  | none => simp [jobsOf]
  | some scope =>
    dsimp only
    rw [declareMethods_visits scope cls 0]
    rfl

theorem declareClasses_visits (jobs : Array Job) (i : Nat) (cs : List (ClassDef Unit))
    (s : Declarations) :
    declareClasses jobs cs s =
      (jobs ++ (jobsOf (classesVisits i cs s)).toArray, (declareClasses #[] cs s).2) := by
  induction cs generalizing jobs i s with
  | nil => simp [declareClasses, classesVisits, jobsOf, pure_apply]
  | cons c cs ih =>
    rw [declareClasses, declareClasses, bind_apply, bind_apply, declareClass_visits jobs i,
      declareClass_visits #[] i]
    dsimp only
    rw [ih _ (i + 1), ih (#[] ++ _) (i + 1), classesVisits, jobsOf_append]
    simp

theorem declareMain_visit (jobs : Array Job) (body : Body Unit) (s : Declarations) :
    declareMain jobs body s =
      (jobs ++ (jobsOf [mainVisit body s]).toArray, (mainVisit body s).after) := by
  rw [mainVisit, declareMain_apply, declareMain_apply]
  split <;> simp [jobsOf]

/-- **The jobs of a program** are those of its visits. -/
theorem Program.jobs_visits (p : Program) (s : Declarations) :
    (declareProgram p s).1.toList = jobsOf (p.visits s) := by
  rw [declareProgram, bind_apply, declareClasses_visits #[] 0, visits, jobsOf_append]
  split
  · rw [declareMain_visit]
    simp
  · simp [pure_apply, jobsOf]

/-! ### Where a definition is visited -/

/-- The state after some methods does not depend on the jobs before. -/
theorem declareMethods_state (scope : ScopeId) (jobs : Array Job) (ms : List (MethodDef Unit))
    (s : Declarations) :
    (declareMethods scope jobs ms s).2 = (declareMethods scope #[] ms s).2 := by
  rw [declareMethods_visits scope 0 0]

theorem declareClasses_state (jobs : Array Job) (cs : List (ClassDef Unit)) (s : Declarations) :
    (declareClasses jobs cs s).2 = (declareClasses #[] cs s).2 := by
  rw [declareClasses_visits _ 0]

/-- A method is visited after those that are defined before it. -/
theorem getElem?_methodVisits (scope : ScopeId) (cls i : Nat) (s : Declarations) {j : Nat}
    {m : MethodDef Unit} (hm : ms[j]? = some m) :
    (methodVisits scope cls i ms s)[j]? =
      some ⟨.method cls (i + j), (declareMethods scope #[] (ms.take j) s).2,
        (declareMethod scope m (declareMethods scope #[] (ms.take j) s).2).2,
        (declareMethod scope m (declareMethods scope #[] (ms.take j) s).2).1⟩ := by
  induction ms generalizing i j s with
  | nil => cases hm
  | cons m' ms ih =>
    rw [methodVisits]
    cases j with
    | zero =>
      obtain rfl := Option.some.inj hm
      rfl
    | succ j =>
      rw [List.getElem?_cons_succ, ih (i + 1) _ hm, List.take_succ_cons, declareMethods_cons,
        declareMethods_state _ (#[] ++ _), Nat.add_right_comm, Nat.add_assoc]

/-- A class is visited after those that are defined before it. -/
theorem mem_classesVisits (i : Nat) {k : Nat} (hc : cs[k]? = some c)
    (hv : v ∈ classVisits (i + k) c (declareClasses #[] (cs.take k) s).2) :
    v ∈ classesVisits i cs s := by
  induction cs generalizing i k s with
  | nil => cases hc
  | cons c' cs ih =>
    rw [classesVisits, List.mem_append]
    cases k with
    | zero =>
      obtain rfl := Option.some.inj hc
      exact .inl hv
    | succ k =>
      rw [List.take_succ_cons, declareClasses, bind_apply,
        declareClasses_state (declareClass _ _ _).1] at hv
      exact .inr (ih (i + 1) hc (by rwa [Nat.add_right_comm, Nat.add_assoc]))

/-! ### What the visits do -/

/-- **What a method with code does**: its scope is the only one of a method that is opened. -/
theorem declareCode_opens (hsound : s.table.Sound) (hlt : scope < s.table.scopes.size)
    (selector : String) (classSide : Bool) (parameters : List Token) (body : Body Unit)
    (span : Span) :
    (declareCode scope selector classSide parameters body span s).1.scope =
        s.table.scopes.size ∧
      s.table.scopes.size <
        (declareCode scope selector classSide parameters body span s).2.table.scopes.size ∧
      ∀ other, s.table.scopes.size < other →
        ((declareCode scope selector classSide parameters body span s).2.table.scope
          other).kind.isMethod = false := by
  obtain ⟨hsound', -, hopen⟩ := withMethod_sound hsound (Nat.le_refl _) hlt selector classSide
  have hrun := declareCode_runs s hsound hlt selector classSide parameters body span
  refine ⟨by rw [declareCode_apply], ?_, fun other hother => ?_⟩
  · exact Nat.lt_of_lt_of_le hopen.1 (hrun.sound hsound' (Nat.le_of_lt hopen.1)).2.scopes_size
  · refine hrun.isMethod hsound' (Nat.le_of_lt hopen.1) ?_
    rw [size_withMethod]
    exact hother

theorem size_declarePrimitive (scope : ScopeId) (m : MethodDef Unit) (name : Token)
    (s : Declarations) :
    (declarePrimitive scope m name s).2.table.scopes.size = s.table.scopes.size := by
  rw [declarePrimitive]
  cases Primitive.ofName? name.symbolText with
  | none => rfl
  | some operation =>
    obtain h | ⟨-, index, h⟩ := s.table.declareMethod_cases scope m.selector
      (.primitive operation m.isClassSide (min m.parameters.length 65535))
    · exact congrArg (·.scopes.size) h
    · exact (congrArg (·.scopes.size) h).trans (size_scopes_addSymbol ..)

/-- A visit that leaves no job opens no method. -/
theorem Visit.Proper.ofNone {part : Part} {s' : Declarations} (hrun : Run 0 s.table s'.table)
    (herrors : s.errors.toList <+: s'.errors.toList) (hfailed : s'.failed = s.failed)
    (hmethod : ∀ scope, s.table.scopes.size ≤ scope → (s'.table.scope scope).kind.isMethod = false) :
    Visit.Proper ⟨part, s, s', none⟩ where
  run := hrun
  errors := herrors
  failed M := by simp [hfailed]
  fresh h := by cases h
  method hge h := by
    rw [hmethod _ hge] at h
    cases h

/-- A visit whose job is a method with code, which may be declared in a class of its own. -/
theorem Visit.Proper.ofCode {part : Part} {s s₁ : Declarations} (hrun : Run 0 s.table s₁.table)
    (herrors : s₁.errors = s.errors) (hfailed : s₁.failed = s.failed) (hsound : s₁.table.Sound)
    {scope : ScopeId} (hscope : scope ∈ s₁.table.classes) {selector : String} {classSide : Bool}
    (hnew : s₁.table.hasMethod scope selector classSide = false)
    (hsize : s.table.scopes.size ≤ s₁.table.scopes.size)
    (hopened : ∀ other, s.table.scopes.size ≤ other → other < s₁.table.scopes.size →
      (s₁.table.scope other).kind.isMethod = false)
    (parameters : List Token) (body : Body Unit) (span : Span) :
    Visit.Proper ⟨part, s, (declareCode scope selector classSide parameters body span s₁).2,
      some (declareCode scope selector classSide parameters body span s₁).1⟩ := by
  have hrun' := (declareCode_run hsound (Nat.zero_le _) hscope hnew parameters body span).1
  have hplain := (declareCode_alike (g := id) (S := Eq) (fun _ => rfl) scope selector classSide
    parameters body (rfl : span = span)).plain s₁
  obtain ⟨k, hcount, hblamed⟩ := declareCode_blamed hsound (hsound.lt_size_of_mem hscope) selector
    classSide parameters body span
  obtain ⟨hjob, hlt, hmethods⟩ := declareCode_opens hsound (hsound.lt_size_of_mem hscope) selector
    classSide parameters body span
  generalize declareCode scope selector classSide parameters body span s₁ = r at *
  have halike {other : ScopeId} (h : other < s₁.table.scopes.size) :=
    ((hrun'.grows hsound (Nat.zero_le _)).alike h).isMethod
  rw [herrors] at hcount hplain
  rw [hfailed] at hblamed
  refine ⟨hrun.trans hrun', hplain, fun M => ?_, fun h => ?_, fun {other} hge h => ?_⟩
  · have hfound : Visit.found ⟨part, s, r.2, some r.1⟩ ≠ [] ↔ k ≠ 0 := by
      simp only [Visit.found, ne_eq, List.drop_eq_nil_iff, Array.length_toList, hcount]
      omega
    rw [hfound, hblamed, List.mem_append, List.mem_replicate, or_comm, ← hjob]
    grind
  · obtain rfl := Option.some.inj h
    rw [hjob]
    exact ⟨hsize, hlt⟩
  · refine ⟨r.1, rfl, hjob.trans ?_⟩
    rcases Nat.lt_trichotomy other s₁.table.scopes.size with hlt' | rfl | hgt
    · rw [halike hlt', hopened other hge hlt'] at h
      cases h
    · rfl
    · rw [hmethods other hgt] at h
      cases h

theorem declareMethod_proper (hsound : s.table.Sound) (hscope : scope ∈ s.table.classes)
    (m : MethodDef Unit) (part : Part) :
    Visit.Proper ⟨part, s, (declareMethod scope m s).2, (declareMethod scope m s).1⟩ := by
  have hrun := (declareMethod_run hsound (Nat.zero_le _) hscope m).1
  have hplain := (declareMethod_alike .refl scope m).plain s
  rw [declareMethod_apply] at hrun hplain ⊢
  split
  case isTrue hold =>
    rw [if_pos hold] at hrun hplain
    refine .ofNone hrun hplain rfl fun other hge => ?_
    dsimp only
    rw [s.table.scope_of_size_le hge]
    rfl
  case isFalse hnew =>
    rw [if_neg hnew] at hrun hplain
    rw [Bool.not_eq_true] at hnew
    cases hbody : m.body with
    | primitive name =>
      rw [hbody] at hrun hplain
      refine .ofNone hrun hplain (failed_declarePrimitive scope m name s) fun other hge => ?_
      rw [scope_of_size_le]
      · rfl
      · rw [size_declarePrimitive]
        exact hge
    | code body =>
      exact .ofCode .refl rfl rfl hsound hscope hnew (Nat.le_refl _)
        (fun other hge hlt => absurd hlt (Nat.not_lt.2 hge)) m.parameters body m.headerSpan

theorem declareHeader_proper (hsound : s.table.Sound) (c : ClassDef Unit) (part : Part) :
    Visit.Proper ⟨part, s, (declareHeader c s).2, none⟩ := by
  have hrun := declareHeader_run hsound (Nat.zero_le _) c
  refine .ofNone hrun ((declareHeader_alike .refl c).plain s) (failed_declareHeader hsound c)
    fun other hge => ?_
  obtain ⟨-, htable, -⟩ | ⟨-, -, hmem, hsize, -⟩ := declareHeader_cases hsound (Nat.zero_le _) c
  · rw [htable, scope_of_size_le _ hge]
    rfl
  · rcases Nat.eq_or_lt_of_le hge with rfl | hgt
    · have hclass := (hrun.sound hsound).isClass_of_mem hmem
      cases hkind : ((declareHeader c s).2.table.scope s.table.scopes.size).kind <;>
        rw [hkind] at hclass <;> first | rfl | cases hclass
    · rw [scope_of_size_le _ (hsize ▸ hgt)]
      rfl

theorem declareMain_proper (hsound : s.table.Sound) (body : Body Unit) :
    (mainVisit body s).Proper := by
  rw [mainVisit, declareMain_apply]
  split
  · refine .ofNone .refl ?_ rfl fun other hge => ?_
    · rw [Array.toList_push]
      exact List.prefix_append _ _
    · dsimp only
      rw [s.table.scope_of_size_le hge]
      rfl
  case isFalse hnew =>
    rw [Bool.not_eq_true, Option.isSome_eq_false_iff, Option.isNone_iff_eq_none] at hnew
    have hsuper : ∀ scope, defaultOf s.table mainClass = some scope → scope ∈ s.table.classes :=
      fun _ => mem_of_defaultOf hsound
    obtain ⟨hrun, hmem⟩ := withClass_run hsound (Nat.zero_le _) hnew hsuper
    obtain ⟨hsound', -, hsize, hclass⟩ := withClass_sound hsound (Nat.le_refl _) mainClass hsuper
    have hfree := (withClass_declared hsound hnew hsuper).hasMethod_eq mainMethod false
    refine @Visit.Proper.ofCode _ _
      { s with table := s.table.withClass mainClass (defaultOf s.table mainClass) } hrun rfl rfl
      hsound' _ hmem _ _ hfree ?_ (fun other hge hlt => ?_) [] body Span.missing
    · exact Nat.le_trans (Nat.le_succ _) (Nat.le_of_eq hsize.symm)
    · obtain rfl : s.table.scopes.size = other :=
        Nat.le_antisymm hge (Nat.le_of_lt_succ (Nat.lt_of_lt_of_eq hlt hsize))
      cases hkind : ((s.table.withClass mainClass (defaultOf s.table mainClass)).scope
        s.table.scopes.size).kind <;> rw [hkind] at hclass <;> first | rfl | cases hclass

theorem methodVisits_leads (scope : ScopeId) (cls i : Nat) (ms : List (MethodDef Unit))
    (hsound : s.table.Sound) (hscope : scope ∈ s.table.classes) :
    Leads s (methodVisits scope cls i ms s) (declareMethods scope #[] ms s).2 := by
  induction ms generalizing i s with
  | nil => exact .nil s
  | cons m ms ih =>
    obtain ⟨hrun, hclasses⟩ := declareMethod_run hsound (Nat.zero_le _) hscope m
    rw [declareMethods_cons, declareMethods_visits scope cls (i + 1)]
    exact .cons (v := ⟨.method cls i, s, _, _⟩) (declareMethod_proper hsound hscope m _)
      (ih (i + 1) (hrun.sound hsound) (hclasses ▸ hscope))

theorem classVisits_leads (cls : Nat) (c : ClassDef Unit) (hsound : s.table.Sound) :
    Leads s (classVisits cls c s) (declareClass #[] c s).2 := by
  have hsound' := (declareHeader_run hsound (Nat.zero_le _) c).sound hsound
  rw [classVisits, declareClass_eq]
  refine .cons (v := ⟨.header cls, s, _, none⟩) (declareHeader_proper hsound c _) ?_
  obtain ⟨h, -⟩ | ⟨h, -, hmem, -⟩ := declareHeader_cases hsound (Nat.zero_le _) c
  · rw [h]
    exact .nil _
  · rw [h]
    exact methodVisits_leads _ cls 0 c.methods hsound' hmem

theorem classesVisits_leads (i : Nat) (cs : List (ClassDef Unit)) (hsound : s.table.Sound) :
    Leads s (classesVisits i cs s) (declareClasses #[] cs s).2 := by
  induction cs generalizing i s with
  | nil => exact .nil s
  | cons c cs ih =>
    have hsound' := (declareClass_run hsound (Nat.zero_le _) #[] c).sound hsound
    rw [declareClasses, bind_apply, declareClasses_visits _ (i + 1)]
    exact (classVisits_leads i c hsound).append (ih (i + 1) hsound')

/-- **The visits of a program are what declaring it does.** -/
theorem Program.visits_leads (p : Program) (hsound : s.table.Sound) :
    Leads s (p.visits s) (declareProgram p s).2 := by
  have hclasses := classesVisits_leads 0 p.classes hsound
  have hsound' := hclasses.run.sound hsound
  rw [declareProgram, bind_apply, visits]
  split
  · rw [declareMain_visit]
    exact hclasses.append (.cons (declareMain_proper hsound' p.main) (.nil _))
  · rw [List.append_nil]
    exact hclasses

/-! ### No part is visited twice -/

theorem part_of_mem_methodVisits (hv : v ∈ methodVisits scope cls i ms s) :
    ∃ j, i ≤ j ∧ v.part = .method cls j := by
  induction ms generalizing i s with
  | nil => cases hv
  | cons m ms ih =>
    rcases List.mem_cons.1 hv with rfl | hv
    · exact ⟨i, Nat.le_refl i, rfl⟩
    · grind

theorem nodup_methodVisits (scope : ScopeId) (cls i : Nat) (ms : List (MethodDef Unit))
    (s : Declarations) : ((methodVisits scope cls i ms s).map Visit.part).Nodup := by
  induction ms generalizing i s with
  | nil => exact List.nodup_nil
  | cons m ms ih =>
    rw [methodVisits, List.map_cons, List.nodup_cons]
    refine ⟨fun hmem => ?_, ih _ _⟩
    obtain ⟨v, hv, hpart⟩ := List.mem_map.1 hmem
    obtain ⟨j, hj, hpart'⟩ := part_of_mem_methodVisits hv
    grind

theorem class?_of_mem_classVisits (hv : v ∈ classVisits cls c s) : v.part.class? = some cls := by
  rw [classVisits] at hv
  rcases List.mem_cons.1 hv with rfl | hv
  · rfl
  · split at hv
    · cases hv
    · obtain ⟨j, -, hpart⟩ := part_of_mem_methodVisits hv
      rw [hpart]
      rfl

theorem nodup_classVisits (cls : Nat) (c : ClassDef Unit) (s : Declarations) :
    ((classVisits cls c s).map Visit.part).Nodup := by
  rw [classVisits, List.map_cons, List.nodup_cons]
  split
  · exact ⟨List.not_mem_nil, List.nodup_nil⟩
  · refine ⟨fun hmem => ?_, nodup_methodVisits ..⟩
    obtain ⟨v, hv, hpart⟩ := List.mem_map.1 hmem
    obtain ⟨j, -, hpart'⟩ := part_of_mem_methodVisits hv
    rw [hpart] at hpart'
    cases hpart'

theorem class?_of_mem_classesVisits (hv : v ∈ classesVisits i cs s) :
    ∃ cls, i ≤ cls ∧ v.part.class? = some cls := by
  induction cs generalizing i s with
  | nil => cases hv
  | cons c cs ih =>
    rcases List.mem_append.1 hv with hv | hv
    · exact ⟨i, Nat.le_refl i, class?_of_mem_classVisits hv⟩
    · grind

theorem nodup_classesVisits (i : Nat) (cs : List (ClassDef Unit)) (s : Declarations) :
    ((classesVisits i cs s).map Visit.part).Nodup := by
  induction cs generalizing i s with
  | nil => exact List.nodup_nil
  | cons c cs ih =>
    rw [classesVisits, List.map_append, List.nodup_append]
    refine ⟨nodup_classVisits i c s, ih _ _, fun part hmem part' hmem' => ?_⟩
    obtain ⟨v, hv, rfl⟩ := List.mem_map.1 hmem
    obtain ⟨v', hv', rfl⟩ := List.mem_map.1 hmem'
    obtain ⟨cls, hcls, hpart⟩ := class?_of_mem_classesVisits hv'
    intro heq
    rw [← heq, class?_of_mem_classVisits hv] at hpart
    obtain rfl := Option.some.inj hpart
    exact Nat.lt_irrefl _ hcls

/-- **No part is visited twice.** -/
theorem Program.nodup_parts (p : Program) (s : Declarations) :
    ((p.visits s).map Visit.part).Nodup := by
  rw [visits, List.map_append, List.nodup_append]
  refine ⟨nodup_classesVisits 0 p.classes s, ?_, fun part hmem part' hmem' => ?_⟩
  · split
    · exact List.nodup_singleton _
    · exact List.nodup_nil
  · obtain ⟨v, hv, rfl⟩ := List.mem_map.1 hmem
    obtain ⟨cls, -, hpart⟩ := class?_of_mem_classesVisits hv
    split at hmem'
    · rw [List.mem_singleton.1 hmem']
      rintro heq
      rw [heq] at hpart
      cases hpart
    · cases hmem'

/-- Two visits of one part are the same. -/
theorem Program.eq_of_part {v' : Visit} (hv : v ∈ p.visits s) (hv' : v' ∈ p.visits s)
    (hpart : v'.part = v.part) : v' = v :=
  List.inj_on_of_nodup_map (p.nodup_parts s) hv' hv hpart

/-! ### The jobs of a program -/

/-- **What is declared with some jobs**: each job has a scope of its own. -/
structure Declaring.Declares (s s' : Declarations) (jobs : List Job) : Prop where
  sound : s'.table.Sound
  grows : Grows s.table.scopes.size s.table s'.table
  fresh {job : Job} : job ∈ jobs →
    s.table.scopes.size ≤ job.scope ∧ job.scope < s'.table.scopes.size
  ascending : jobs.Pairwise fun a b => a.scope < b.scope

/-- The scopes of the jobs are opened one after the other. -/
theorem Leads.ascending {s' : Declarations} (h : Leads s vs s') (hsound : s.table.Sound) :
    (∀ job ∈ jobsOf vs, s.table.scopes.size ≤ job.scope ∧ job.scope < s'.table.scopes.size) ∧
      (jobsOf vs).Pairwise fun a b => a.scope < b.scope := by
  induction h with
  | nil => exact ⟨fun _ h => absurd h List.not_mem_nil, .nil⟩
  | @cons v vs s' hv hvs ih =>
    have hsound' := hv.run.sound hsound
    have hsize := (hv.run.grows hsound (Nat.zero_le _)).scopes_size
    have hsize' := (hvs.run.grows hsound' (Nat.zero_le _)).scopes_size
    obtain ⟨hfresh, hpairs⟩ := ih hsound'
    rw [jobsOf, List.filterMap_cons]
    cases hjob : v.job with
    | none => exact ⟨fun job h => ⟨Nat.le_trans hsize (hfresh job h).1, (hfresh job h).2⟩, hpairs⟩
    | some job =>
      obtain ⟨hge, hlt⟩ := hv.fresh hjob
      refine ⟨fun other h => ?_, List.pairwise_cons.2 ⟨fun other h => ?_, hpairs⟩⟩
      · rcases List.mem_cons.1 h with rfl | h
        · exact ⟨hge, Nat.lt_of_lt_of_le hlt hsize'⟩
        · exact ⟨Nat.le_trans hsize (hfresh other h).1, (hfresh other h).2⟩
      · exact Nat.lt_of_lt_of_le hlt (hfresh other h).1

/-- Two visits with jobs of one scope are the same. -/
theorem Leads.eq_of_scope {s' : Declarations} (h : Leads s vs s') (hsound : s.table.Sound)
    {v' : Visit} {job job' : Job} (hv : v ∈ vs) (hv' : v' ∈ vs) (hjob : v.job = some job)
    (hjob' : v'.job = some job') (hscope : job'.scope = job.scope) : v' = v := by
  induction h with
  | nil => cases hv
  | @cons u us s' hu hus ih =>
    have hsound' := hu.run.sound hsound
    have hlater {w : Visit} {job : Job} (hw : w ∈ us) (hjob : w.job = some job) :=
      ((hus.ascending hsound').1 job (List.mem_filterMap.2 ⟨w, hw, hjob⟩)).1
    rcases List.mem_cons.1 hv with rfl | hin <;> rcases List.mem_cons.1 hv' with rfl | hin'
    · rfl
    · have hlt := Nat.lt_of_lt_of_le (hu.fresh hjob).2 (hlater hin' hjob')
      exact absurd hscope (Nat.ne_of_gt hlt)
    · have hlt := Nat.lt_of_lt_of_le (hu.fresh hjob').2 (hlater hin hjob)
      exact absurd hscope (Nat.ne_of_lt hlt)
    · exact ih hsound' hin hin'

/-- **A method has failed exactly if there are mistakes in its declarations.** -/
theorem Leads.mem_failed_iff {s' : Declarations} (h : Leads s vs s') (hsound : s.table.Sound)
    (hfailed : s.failed = []) {job : Job} (hv : v ∈ vs) (hjob : v.job = some job) :
    job.scope ∈ s'.failed ↔ v.found ≠ [] := by
  rw [h.mem_failed, hfailed]
  constructor
  · rintro (hmem | ⟨v', hv', hfound, job', hjob', hscope⟩)
    · cases hmem
    · rwa [← h.eq_of_scope hsound hv hv' hjob hjob' hscope]
  · exact fun hfound => .inr ⟨v, hv, hfound, job, hjob, rfl⟩

/-- **What a program declares.** -/
theorem Declaring.declareProgram_declares (p : Program) (hsound : s.table.Sound) :
    Declares s (declareProgram p s).2 (declareProgram p s).1.toList := by
  have hleads := p.visits_leads hsound
  obtain ⟨hfresh, hpairs⟩ := hleads.ascending hsound
  have hrun := declareProgram_run hsound (Nat.le_refl _) p
  rw [p.jobs_visits]
  exact ⟨hrun.sound hsound, hrun.grows hsound (Nat.le_refl _), hfresh _, hpairs⟩

end Smalltalk
