/-
**The assignments of a method, and the methods that fail for them.**

The assignments of a method are checked one after the other, also those in its blocks. For a wrong
one the method around its scope fails. The scopes of the blocks of a method lie in it, so this is the
method that is checked.

* `exprTargets`, `statementsTargets` — **the assignments of a tree**;
* `checkStatements_eq` — **they are checked one after the other**;
* `Visit.Codes` — where a job comes from;
* `Visit.Codes.enclosingMethod?_eq` — **the scopes of a job lie in its method**;
* `Compilation.mem_failed_check` — **the methods that fail for their assignments**.
-/

import Smalltalk.Proofs.Sources
import Smalltalk.Proofs.Visits

namespace Smalltalk

variable {job : Job} {t : SymbolTable} {target : Token} {i : Nat} {e : CompileError}
  {b : OpenedBlock} {ss : List (Statement ScopeId)} {p : Program}
  {scope s : ScopeId} {bs bs' : List OpenedBlock}

open Declaring SymbolTable

/-! ### Assignments -/

mutual

/-- **The assignments of an expression**, in the order in which they are checked: the target of
each, with the scope that it is in. -/
def exprTargets (scope : ScopeId) : Expr ScopeId → List (ScopeId × Token)
  | .array _ items _ => exprsTargets scope items
  | .block _ _ _ statements _ body => statementsTargets body statements
  | .group _ inner _ => exprTargets scope inner
  | .unary receiver _ => exprTargets scope receiver
  | .binary receiver _ argument => exprTargets scope receiver ++ exprTargets scope argument
  | .keyword receiver _ arguments => exprTargets scope receiver ++ exprsTargets scope arguments
  | .literal _ _ _ | .super _ | .variable _ | .invalid _ => []

/-- The assignments of some expressions. -/
def exprsTargets (scope : ScopeId) : List (Expr ScopeId) → List (ScopeId × Token)
  | [] => []
  | e :: es => exprTargets scope e ++ exprsTargets scope es

/-- The assignments of a statement. The value comes before the target. -/
def statementTargets (scope : ScopeId) : Statement ScopeId → List (ScopeId × Token)
  | .assignment target value => exprTargets scope value ++ [(scope, target)]
  | .answer _ value | .expression value => exprTargets scope value

/-- The assignments of some statements. -/
def statementsTargets (scope : ScopeId) : List (Statement ScopeId) → List (ScopeId × Token)
  | [] => []
  | s :: ss => statementTargets scope s ++ statementsTargets scope ss

end

section Targets

variable {e : Expr ScopeId}

/-- The assignments of an expression other than a block are those of its parts. -/
theorem exprTargets_of_none (h : e.body? = none) (scope : ScopeId) :
    exprTargets scope e = exprsTargets scope e.children := by
  cases e <;> simp [exprTargets, Expr.children, exprsTargets]
  cases h

theorem exprTargets_of_some (h : e.body? = some b) (scope : ScopeId) :
    exprTargets scope e = statementsTargets b.1 b.2 := by
  cases e <;> cases h
  rw [exprTargets]

theorem exprsTargets_eq (scope : ScopeId) (es : List (Expr ScopeId)) :
    exprsTargets scope es = es.flatMap (exprTargets scope) := by
  induction es with
  | nil => rfl
  | cons e es ih => rw [exprsTargets, ih, List.flatMap_cons]

theorem statementsTargets_eq (scope : ScopeId) (ss : List (Statement ScopeId)) :
    statementsTargets scope ss = ss.flatMap (statementTargets scope) := by
  induction ss with
  | nil => rfl
  | cons s ss ih => rw [statementsTargets, ih, List.flatMap_cons]

/-- Check some assignments, one after the other. -/
abbrev SymbolTable.checkTargets (t : SymbolTable) (found : Findings)
    (targets : List (ScopeId × Token)) : Findings :=
  targets.foldl (fun found a => t.checkTarget found a.1 a.2) found

theorem checkExprs_of {es : List (Expr ScopeId)}
    (h : ∀ e ∈ es, ∀ found, t.checkExpr scope found e = t.checkTargets found (exprTargets scope e))
    (found : Findings) :
    t.checkExprs scope found es = t.checkTargets found (exprsTargets scope es) := by
  induction es generalizing found with
  | nil => rfl
  | cons e es ih =>
    obtain ⟨he, hes⟩ := List.forall_mem_cons.1 h
    rw [checkExprs, exprsTargets, ih hes, he, checkTargets, checkTargets, checkTargets,
      List.foldl_append]

theorem checkStatements_of
    (h : ∀ s ∈ ss, ∀ found,
      t.checkExpr scope found s.value = t.checkTargets found (exprTargets scope s.value))
    (found : Findings) :
    t.checkStatements scope found ss = t.checkTargets found (statementsTargets scope ss) := by
  induction ss generalizing found with
  | nil => rfl
  | cons s ss ih =>
    obtain ⟨hs, hss⟩ := List.forall_mem_cons.1 h
    rw [checkStatements, statementsTargets, ih hss, checkTargets, checkTargets, List.foldl_append]
    congr 1
    cases s with
    | assignment target value =>
      have hvalue : t.checkExpr scope found value = _ := hs found
      rw [checkStatement, statementTargets, List.foldl_append, hvalue]
      rfl
    | _ => exact hs found

theorem checkExpr_eq (e : Expr ScopeId) (scope : ScopeId) (found : Findings) :
    t.checkExpr scope found e = t.checkTargets found (exprTargets scope e) := by
  induction e using Expr.byChildren generalizing scope found with
  | _ e ih =>
    cases hb : e.body? with
    | none =>
      rw [exprTargets_of_none hb, ← checkExprs_of fun d hd => ih d hd scope]
      cases e <;> simp [checkExpr, Expr.children, checkExprs]
      cases hb
    | some b =>
      rw [exprTargets_of_some hb, ← checkStatements_of fun s hs => ih s.value ?_ b.1]
      · cases e <;> cases hb
        rw [checkExpr]
      · rw [Expr.children_of_body? hb]
        exact List.mem_map_of_mem hs

/-- **The assignments of a tree are checked one after the other.** -/
theorem checkStatements_eq (t : SymbolTable) (scope : ScopeId) (found : Findings)
    (ss : List (Statement ScopeId)) :
    t.checkStatements scope found ss = t.checkTargets found (statementsTargets scope ss) :=
  checkStatements_of (fun s _ => checkExpr_eq s.value scope) found

end Targets

theorem SymbolTable.assignmentError?_cause (h : t.assignmentError? scope target = some e) :
    e.cause.isInvalidTree = false := by
  rw [assignmentError?] at h
  split at h
  · split at h
    · cases h
    · obtain rfl := Option.some.inj h
      rfl
  · obtain rfl := Option.some.inj h
    rfl

/-- A scope of a tree is the one around it, or that of one of its blocks. -/
def IsScopeOf (scope : ScopeId) (bs : List OpenedBlock)
    (s : ScopeId) : Prop := s = scope ∨ s ∈ bs.map Prod.fst

theorem IsScopeOf.mono (h : IsScopeOf scope bs s) (hsub : bs ⊆ bs') : IsScopeOf scope bs' s :=
  h.imp_right fun hs => List.map_subset _ hsub hs

theorem statementsTargets_scope_of
    (h : ∀ s ∈ ss, ∀ a ∈ exprTargets scope s.value, IsScopeOf scope (exprBlocks s.value) a.1) :
    ∀ a ∈ statementsTargets scope ss, IsScopeOf scope (statementsBlocks ss) a.1 := by
  intro a ha
  rw [statementsTargets_eq] at ha
  obtain ⟨s, hs, ha⟩ := List.mem_flatMap.1 ha
  rw [statementsBlocks_eq]
  have hvalue := fun ha => (h s hs a ha).mono (exprBlocks_subset (List.mem_map_of_mem hs))
  cases s with
  | assignment target value =>
    rw [statementTargets, List.mem_append, List.mem_singleton] at ha
    rcases ha with ha | rfl
    · exact hvalue ha
    · exact .inl rfl
  | _ => exact hvalue ha

theorem exprTargets_scope (e : Expr ScopeId) (scope : ScopeId) :
    ∀ a ∈ exprTargets scope e, IsScopeOf scope (exprBlocks e) a.1 := by
  induction e using Expr.byChildren generalizing scope with
  | _ e ih =>
    intro a ha
    rw [exprBlocks_eq]
    cases hb : e.body? with
    | none =>
      rw [exprTargets_of_none hb, exprsTargets_eq] at ha
      obtain ⟨d, hd, ha⟩ := List.mem_flatMap.1 ha
      exact (ih d hd scope a ha).mono
        (List.subset_append_of_subset_left _ (exprBlocks_subset hd))
    | some b =>
      rw [exprTargets_of_some hb] at ha
      rw [Expr.children_of_body? hb] at ih ⊢
      rw [← statementsBlocks_eq]
      have hinner := statementsTargets_scope_of (fun s hs => ih _ (List.mem_map_of_mem hs) b.1) a ha
      refine .inr ?_
      rw [List.map_append, List.mem_append]
      exact hinner.symm.imp_right List.mem_singleton.2

/-- An assignment lies in the scope around the tree, or in that of one of its blocks. -/
theorem statementsTargets_scope (scope : ScopeId) (ss : List (Statement ScopeId)) :
    ∀ a ∈ statementsTargets scope ss, IsScopeOf scope (statementsBlocks ss) a.1 :=
  statementsTargets_scope_of fun s _ => exprTargets_scope s.value scope

/-! ### The jobs of a program -/

variable {s : Declarations} {v : Visit} {body : Body Unit}

/-- **Where a job comes from**: it is what was declared for a method of a class, with the given
body. -/
def Visit.Codes (v : Visit) (job : Job) (body : Body Unit) : Prop :=
  ∃ (s : Declarations) (C : ScopeId) (selector : String) (classSide : Bool)
    (parameters : List Token) (span : Span), s.table.Sound ∧ C < s.table.scopes.size ∧
      declareCode C selector classSide parameters body span s = (job, v.after)

theorem codes_of_mem_methodVisits {cls : Nat} {ms : List (MethodDef Unit)} (hsound : s.table.Sound)
    (hscope : scope ∈ s.table.classes) (hv : v ∈ methodVisits scope cls i ms s)
    (hjob : v.job = some job) : ∃ m ∈ ms, ∃ body, m.body = .code body ∧ v.Codes job body := by
  induction ms generalizing i s with
  | nil => cases hv
  | cons m ms ih =>
    obtain ⟨hrun, hclasses⟩ := declareMethod_run hsound (Nat.zero_le _) hscope m
    rcases List.mem_cons.1 hv with rfl | hv
    · refine ⟨m, List.mem_cons_self, ?_⟩
      change (declareMethod scope m s).1 = some job at hjob
      rw [declareMethod_apply] at hjob
      split at hjob
      case isTrue => cases hjob
      case isFalse hnew =>
        cases hbody : m.body with
        | primitive name =>
          rw [hbody] at hjob
          cases hjob
        | code body =>
          rw [hbody] at hjob
          obtain rfl := Option.some.inj hjob
          refine ⟨body, rfl, s, scope, m.selector, m.isClassSide, m.parameters, m.headerSpan,
            hsound, hsound.lt_size_of_mem hscope, ?_⟩
          dsimp only
          rw [declareMethod_apply, if_neg hnew, hbody]
          rfl
    · obtain ⟨m', hm', hcodes⟩ :=
        ih (hrun.sound hsound) (hclasses ▸ hscope) hv
      exact ⟨m', List.mem_cons_of_mem _ hm', hcodes⟩

theorem codes_of_mem_classesVisits {cs : List (ClassDef Unit)} (hsound : s.table.Sound)
    (hv : v ∈ classesVisits i cs s) (hjob : v.job = some job) :
    ∃ cls ∈ cs, ∃ m ∈ cls.methods, ∃ body, m.body = .code body ∧ v.Codes job body := by
  induction cs generalizing i s with
  | nil => cases hv
  | cons c cs ih =>
    have hsound' := (declareHeader_run hsound (Nat.zero_le _) c).sound hsound
    rcases List.mem_append.1 hv with hv | hv
    · refine ⟨c, List.mem_cons_self, ?_⟩
      rw [classVisits] at hv
      rcases List.mem_cons.1 hv with rfl | hv
      · cases hjob
      · obtain ⟨h, -⟩ | ⟨h, -, hmem, -⟩ := declareHeader_cases hsound (Nat.zero_le _) c
        · rw [h] at hv
          cases hv
        · rw [h] at hv
          exact codes_of_mem_methodVisits hsound' hmem hv hjob
    · obtain ⟨c', hc', hcodes⟩ :=
        ih ((declareClass_run hsound (Nat.zero_le _) #[] c).sound hsound) hv
      exact ⟨c', List.mem_cons_of_mem _ hc', hcodes⟩

theorem codes_of_mainVisit (hsound : s.table.Sound) (hjob : (mainVisit body s).job = some job) :
    (mainVisit body s).Codes job body := by
  have hsuper : ∀ scope, defaultOf s.table mainClass = some scope → scope ∈ s.table.classes :=
    fun _ => mem_of_defaultOf hsound
  obtain ⟨hsound', -, hsize, -⟩ := withClass_sound hsound (Nat.le_refl _) mainClass hsuper
  rw [mainVisit] at hjob ⊢
  dsimp only at hjob ⊢
  rw [declareMain_apply] at hjob ⊢
  split at hjob
  case isTrue => cases hjob
  case isFalse hnew =>
    obtain rfl := Option.some.inj hjob
    refine ⟨{ s with table := s.table.withClass mainClass (defaultOf s.table mainClass) },
      s.table.scopes.size, mainMethod, false, [], Span.missing, hsound', ?_, ?_⟩
    · dsimp only
      rw [hsize]
      exact Nat.lt_succ_self _
    · rw [if_neg hnew]
      rfl

/-- **Every job is a method of the program.** -/
theorem Program.codes_of_visit (hsound : s.table.Sound) (hv : v ∈ p.visits s)
    (hjob : v.job = some job) :
    ∃ body, v.Codes job body ∧ ∃ r ∈ p.routines, r.statements = body.statements := by
  rw [visits, List.mem_append] at hv
  rcases hv with hv | hv
  · obtain ⟨c, hc, m, hm, body, hbody, hcodes⟩ := codes_of_mem_classesVisits hsound hv hjob
    refine ⟨body, hcodes, .ofMethod ⟨c.name, m.isClassSide, m.selector⟩ m.parameters body, ?_, rfl⟩
    refine List.mem_append_left _ (List.mem_flatMap.2 ⟨c, hc, List.mem_filterMap.2 ⟨m, hm, ?_⟩⟩)
    rw [MethodDef.routine?, hbody]
  · split at hv
    case isFalse => cases hv
    case isTrue hmain =>
      obtain rfl := List.mem_singleton.1 hv
      have hsound' := (declareClasses_run hsound (Nat.zero_le _) #[] p.classes).sound hsound
      refine ⟨p.main, codes_of_mainVisit hsound' hjob,
        .ofMethod ⟨mainClass, false, mainMethod⟩ [] p.main, List.mem_append_right _ ?_, rfl⟩
      rw [if_pos hmain]
      exact List.mem_singleton_self _

/-- The blocks of a job are those that were opened after its method, in which they lie. -/
theorem Visit.Codes.counted (h : v.Codes job body) : v.after.table.Sound ∧
    v.after.table.BlocksCounted job.scope ∧ job.scope + 1 ≤ v.after.table.scopes.size ∧
      ∀ b : Nat, b ∈ (statementsBlocks job.body.statements).map Prod.fst ↔
        job.scope + 1 ≤ b ∧ b < v.after.table.scopes.size := by
  obtain ⟨s, C, selector, classSide, parameters, span, hsound, hC, heq⟩ := h
  obtain ⟨hsound', -, hopen⟩ := withMethod_sound hsound (Nat.le_refl _) hC selector classSide
  have hrun := declareCode_runs s hsound hC selector classSide parameters body span
  have hafter := hrun.sound hsound' (Nat.le_of_lt hopen.1)
  have hcounted := hrun.blocksCounted hsound' (withMethod_blocksCounted hC selector classSide)
  rw [heq] at hafter hcounted
  rw [declareCode_apply] at heq
  obtain ⟨hjob, hstate⟩ := Prod.mk.inj heq
  obtain ⟨as, has, hopens⟩ := declareStatements_blocks s.table.scopes.size []
    (declareVariables s.table.scopes.size .localVariable body.locals
      (declareVariables s.table.scopes.size .argument parameters
        { s with table := withMethod s.table C selector classSide }).2).2 body.statements
  have hscope : job.scope = s.table.scopes.size := by rw [← hjob]
  have hstatements : job.body.statements = as := by
    rw [← hjob]
    exact has
  have htable : (declareStatements s.table.scopes.size [] body.statements
      (declareVariables s.table.scopes.size .localVariable body.locals
        (declareVariables s.table.scopes.size .argument parameters
          { s with table := withMethod s.table C selector classSide }).2).2).2.table =
      v.after.table := by
    rw [← hstate]
    rfl
  rw [Opens, htable, size_declareVariables (.inr rfl), size_declareVariables (.inl rfl),
    size_withMethod, ← hstatements, ← hscope] at hopens
  rw [← hscope] at hcounted
  exact ⟨hafter.1, hcounted, hopens⟩

/-- **The scopes of a job lie in its method**, also when something else has been declared. -/
theorem Visit.Codes.enclosingMethod?_eq {s : ScopeId} (h : v.Codes job body)
    (hlater : Run 0 v.after.table t)
    (hs : IsScopeOf job.scope (statementsBlocks job.body.statements) s) :
    t.enclosingMethod? s = some job.scope := by
  obtain ⟨hsound, hcounted, hlt, hmem⟩ := h.counted
  have hsound' := hlater.sound hsound
  have hgrows := hlater.grows hsound (Nat.zero_le _)
  obtain ⟨hle, hslt⟩ : job.scope ≤ s ∧ s < v.after.table.scopes.size := by
    rcases hs with rfl | hs
    · exact ⟨Nat.le_refl _, hlt⟩
    · exact ⟨Nat.le_of_succ_le ((hmem s).1 hs).1, ((hmem s).1 hs).2⟩
  rw [enclosingMethod?_congr (fun _ _ => hsound.enclosing) (fun _ _ => hsound'.enclosing)
    (fun _ => hgrows.alike) hslt]
  exact hcounted.enclosingMethod?_eq hsound hle hslt

/-! ### The methods that fail -/

theorem SymbolTable.checkTargets_errors (t : SymbolTable) (found : Findings)
    (targets : List (ScopeId × Token)) : (t.checkTargets found targets).errors =
      found.errors ++ (targets.filterMap fun a => t.assignmentError? a.1 a.2).toArray := by
  induction targets generalizing found with
  | nil => simp
  | cons a targets ih =>
    rw [checkTargets, List.foldl_cons]
    refine (ih _).trans ?_
    rw [checkTarget]
    cases h : t.assignmentError? a.1 a.2 <;> simp [h]

/-- What is wrong with the assignments of a method. -/
def SymbolTable.wrongAssignments (t : SymbolTable) (job : Job) : Array CompileError :=
  (t.checkStatements job.scope ⟨#[], []⟩ job.body.statements).errors

theorem SymbolTable.wrongAssignments_eq (t : SymbolTable) (job : Job) : t.wrongAssignments job =
    ((statementsTargets job.scope job.body.statements).filterMap fun a =>
      t.assignmentError? a.1 a.2).toArray := by
  rw [wrongAssignments, checkStatements_eq, checkTargets_errors, Array.empty_append]

/-- A wrong assignment in a method makes it fail. -/
theorem SymbolTable.mem_failed_checkTargets (found : Findings) {targets : List (ScopeId × Token)}
    {M : ScopeId} (hM : ∀ a ∈ targets, t.enclosingMethod? a.1 = some M) (s : ScopeId) :
    s ∈ (t.checkTargets found targets).failed ↔ s ∈ found.failed ∨
      M = s ∧ (targets.filterMap fun a => t.assignmentError? a.1 a.2) ≠ [] := by
  induction targets generalizing found with
  | nil => simp
  | cons a targets ih =>
    obtain ⟨ha, htargets⟩ := List.forall_mem_cons.1 hM
    rw [checkTargets, List.foldl_cons]
    refine (ih _ htargets).trans ?_
    rw [checkTarget]
    cases h : t.assignmentError? a.1 a.2 with
    | none => simp [h]
    | some e =>
      have hfail : t.fail found.failed a.1 = M :: found.failed := by
        rw [SymbolTable.fail, ha]
        rfl
      simp only [List.filterMap_cons, h, hfail, List.mem_cons]
      grind

namespace Compilation

variable {jobs : List Job}

theorem errors_check (t : SymbolTable) (found : Findings) (jobs : List Job) :
    (check t found jobs).errors.toList =
      found.errors.toList ++ jobs.flatMap fun job => (t.wrongAssignments job).toList := by
  induction jobs generalizing found with
  | nil => simp [check]
  | cons job jobs ih =>
    rw [check, List.foldl_cons]
    refine (ih _).trans ?_
    rw [checkStatements_eq, checkTargets_errors, ← wrongAssignments_eq, Array.toList_append,
      List.append_assoc, List.flatMap_cons]

/-- **The methods that fail for their assignments.** -/
theorem mem_failed_check (found : Findings)
    (hjobs : ∀ job ∈ jobs, ∀ a ∈ statementsTargets job.scope job.body.statements,
      t.enclosingMethod? a.1 = some job.scope) (s : ScopeId) :
    s ∈ (check t found jobs).failed ↔ s ∈ found.failed ∨
      ∃ job ∈ jobs, job.scope = s ∧ t.wrongAssignments job ≠ #[] := by
  induction jobs generalizing found with
  | nil => simp [check]
  | cons job jobs ih =>
    obtain ⟨hjob, hjobs⟩ := List.forall_mem_cons.1 hjobs
    rw [check, List.foldl_cons, checkStatements_eq]
    refine (ih _ hjobs).trans ?_
    rw [mem_failed_checkTargets found hjob, or_assoc]
    simp [wrongAssignments_eq]

end Compilation

end Smalltalk
