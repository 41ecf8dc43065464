/-
**Compiling one method has nothing to do with the others.**

If the bodies of some methods of a program are replaced, all scopes and symbols that are declared
later get other numbers, and the tokens after them other places. Still, all other methods get the
same code as before, or none as before, and the same mistakes are found in them.

Two programs are compared through what they have in common: their skeleton, in which the bodies of
the methods in question are empty and nothing has a place. The skeleton is declared side by side
with each of the programs, and whenever one of the methods comes up, the table of the program gets
wider.

* `Program.skeleton` — **what is left of a program** without some bodies;
* `Compilation.bodies_independent` — **changing some bodies changes nothing else**.
-/

import Smalltalk.Proofs.Mirroring

namespace Smalltalk

open Declaring SymbolTable

variable {r : Renaming} {s s' : Declarations} {changed : Part → Bool} {v v' : Visit} {α : Type}
  {job : Job}

/-! ### Skeletons -/

/-- A method with the same header, and with nothing in its body. -/
def MethodDef.emptied (m : MethodDef Unit) : MethodDef Unit :=
  match m.body with
  | .code _ => { m with body := .code ⟨[], []⟩ }
  | .primitive _ => m

/-- A method without places, and without its body if it was changed. -/
def MethodDef.skeleton (changed : Bool) (m : MethodDef Unit) : MethodDef Unit :=
  if changed then m.unplaced.emptied else m.unplaced

/-- A class without places, and without the bodies of the methods that were changed. -/
def ClassDef.skeleton (changed : Nat → Bool) (c : ClassDef Unit) : ClassDef Unit :=
  ⟨c.word.unplaced, c.nameToken.unplaced, c.superclass.map Token.unplaced,
    c.fields.map Token.unplaced, c.methods.mapIdx fun j m => m.skeleton (changed j),
    c.closing.map Token.unplaced⟩

/-- **What is left of a program** without places and without the bodies of the methods that were
changed. -/
def Program.skeleton (changed : Part → Bool) (p : Program) : Program :=
  ⟨"", [], p.classes.mapIdx fun i c => c.skeleton fun j => changed (.method i j),
    p.main.map id Token.unplaced, []⟩

theorem Program.hasMain_skeleton (changed : Part → Bool) (p : Program) :
    (p.skeleton changed).hasMain = p.hasMain := by
  obtain ⟨source, tokens, classes, ⟨locals, statements⟩, errors⟩ := p
  rw [hasMain, hasMain, skeleton, Body.map]
  cases statements <;> cases locals <;> rfl

/-! ### Visits that match -/

/-- Two visits that are the same but for numbers and places. -/
structure Visit.Twins (r : Renaming) (v v' : Visit) : Prop where
  jobs : Option.Rel (Job.Twins r) v.job v'.job
  found : v'.found.map CompileError.cause = v.found.map CompileError.cause

/-- **Two visits of one part**, which are the same but for numbers and places unless it is the
method that was changed. What happens later does not change the numbers anymore. -/
def Visit.Matches (changed : Part → Bool) (r : Renaming) (v v' : Visit) : Prop :=
  v'.part = v.part ∧ (changed v.part = false →
    ∃ r₀, Renaming.Extends v.after.table.scopes.size r₀ r ∧ Visit.Twins r₀ v v')

variable {r' : Renaming} {n : Nat}

theorem Visit.Matches.extend (h : Visit.Matches changed r v v')
    (hle : v.after.table.scopes.size ≤ n) (hextends : Renaming.Extends n r r') :
    Visit.Matches changed r' v v' := by
  refine ⟨h.1, fun hsame => ?_⟩
  obtain ⟨r₀, hr₀, htwins⟩ := h.2 hsame
  exact ⟨r₀, hr₀.trans hle hextends, htwins⟩

theorem Declaring.SameMistakes.found {s₁ s₁' : Declarations} (h : SameMistakes s s₁ s' s₁')
    (part : Part) (job job' : Option Job) :
    (Visit.found ⟨part, s', s₁', job'⟩).map CompileError.cause =
      (Visit.found ⟨part, s, s₁, job⟩).map CompileError.cause := by
  obtain ⟨new, new', hnew, hnew', hcauses, -⟩ := h
  rw [Visit.found, Visit.found, hnew, hnew', ← Array.length_toList, ← Array.length_toList,
    List.drop_left, List.drop_left, hcauses]

/-- What was declared on both sides is a visit on both sides. -/
theorem Visit.Matches.ofPaired {α' : Type} {R : α → α' → Prop} {x : α × Declarations}
    {x' : α' × Declarations} (h : Paired r R s s' x x') {job job' : Option Job}
    (hjobs : Option.Rel (Job.Twins r) job job') (part : Part) :
    Visit.Matches changed r ⟨part, s, x.2, job⟩ ⟨part, s', x'.2, job'⟩ :=
  ⟨rfl, fun _ => ⟨r, .refl _ r, hjobs, h.mistakes.found part job job'⟩⟩

namespace Declaring

variable {C : ScopeId}

/-- A method is declared next to one with an empty body. -/
theorem declareMethod_emptied (h : Abreast r s s') (hclosed : s.table.Closed)
    (hC : C ∈ s.table.classes) (m : MethodDef Unit) :
    ∃ r', Renaming.Extends s.table.scopes.size r r' ∧
      Abreast r' (declareMethod C m.unplaced.emptied s).2 (declareMethod (r.scope C) m s').2 := by
  have hseen := h.embeds.seen_of_isClass (h.sound.isClass_of_mem hC)
  cases hbody : m.body with
  | primitive name =>
    have hsame : m.unplaced.emptied = m.unplaced := by
      rw [MethodDef.emptied, MethodDef.unplaced, MethodDef.map, hbody]
      rfl
    rw [hsame]
    exact ⟨r, .refl _ r, (declareMethod_twin h (h.sound.lt_size_of_mem hC) hseen m).abreast⟩
  | code body =>
    have hemptied : m.unplaced.emptied = { m.unplaced with body := .code ⟨[], []⟩ } := by
      rw [MethodDef.emptied, MethodDef.unplaced, MethodDef.map, hbody]
      rfl
    have hselector : m.unplaced.emptied.selector = m.selector := by
      rw [hemptied]
      exact m.selector_unplaced
    have hside : m.unplaced.emptied.isClassSide = m.isClassSide := by
      rw [hemptied]
      exact m.isClassSide_unplaced
    have hparameters : m.unplaced.emptied.parameters = m.parameters.map Token.unplaced := by
      rw [hemptied]
      exact m.parameters_unplaced
    have hnothing : m.unplaced.emptied.body = .code ⟨[], []⟩ := by rw [hemptied]
    rw [declareMethod_apply, declareMethod_apply, hselector, hside, hparameters, hnothing, hbody,
      h.embeds.hasMethod_eq]
    split
    · exact ⟨r, .refl _ r, h.embeds, h.sound, h.sound'⟩
    case isFalse hnew =>
      rw [Bool.not_eq_true] at hnew
      exact declareCode_widens h hclosed hC hnew m.parameters body m.unplaced.emptied.headerSpan
        m.headerSpan

section

variable (changed : Part → Bool)

/-- **A method is declared next to its skeleton**, and the table gets wider if it was changed. -/
theorem declareMethod_skeleton (h : Abreast r s s') (hclosed : s.table.Closed)
    (hC : C ∈ s.table.classes) (m : MethodDef Unit) (part : Part) :
    ∃ r', Renaming.Extends s.table.scopes.size r r' ∧
      Abreast r' (declareMethod C (m.skeleton (changed part)) s).2
        (declareMethod (r.scope C) m s').2 ∧
      Visit.Matches changed r'
        ⟨part, s, (declareMethod C (m.skeleton (changed part)) s).2,
          (declareMethod C (m.skeleton (changed part)) s).1⟩
        ⟨part, s', (declareMethod (r.scope C) m s').2, (declareMethod (r.scope C) m s').1⟩ := by
  cases hchanged : changed part with
  | false =>
    have hseen := h.embeds.seen_of_isClass (h.sound.isClass_of_mem hC)
    have htwin := declareMethod_twin h (h.sound.lt_size_of_mem hC) hseen m
    exact ⟨r, .refl _ r, htwin.abreast, .ofPaired htwin htwin.result part⟩
  | true =>
    obtain ⟨r', hextends, habreast⟩ := declareMethod_emptied h hclosed hC m
    refine ⟨r', hextends, habreast, rfl, fun hsame => ?_⟩
    rw [hchanged] at hsame
    cases hsame

/-- The methods of a class are declared next to their skeletons. -/
theorem methodVisits_match (cls : Nat) (ms : List (MethodDef Unit)) (i : Nat) (h : Abreast r s s')
    (hclosed : s.table.Closed) (hC : C ∈ s.table.classes) (hC' : r.scope C ∈ s'.table.classes) :
    ∃ r', Renaming.Extends s.table.scopes.size r r' ∧
      Abreast r'
        (declareMethods C #[]
          (ms.mapIdx fun j m => m.skeleton (changed (.method cls (i + j)))) s).2
        (declareMethods (r.scope C) #[] ms s').2 ∧
      List.Forall₂ (Visit.Matches changed r')
        (methodVisits C cls i (ms.mapIdx fun j m => m.skeleton (changed (.method cls (i + j)))) s)
        (methodVisits (r.scope C) cls i ms s') := by
  induction ms generalizing i r s s' with
  | nil => exact ⟨r, .refl _ r, h, .nil⟩
  | cons m ms ih =>
    obtain ⟨r₁, hextends₁, habreast₁, hmatch⟩ :=
      declareMethod_skeleton changed h hclosed hC m (.method cls i)
    obtain ⟨hrun, hclasses⟩ := declareMethod_run h.sound (Nat.zero_le _) hC
      (m.skeleton (changed (.method cls i)))
    obtain ⟨-, hclasses'⟩ := declareMethod_run h.sound' (Nat.zero_le _) hC' m
    have hscope : r₁.scope C = r.scope C := (hextends₁ C (h.sound.lt_size_of_mem hC)).1
    have hgrows := hrun.grows h.sound (Nat.zero_le _)
    obtain ⟨r₂, hextends₂, habreast₂, hmatches⟩ := ih (i + 1) habreast₁
      (hrun.closed h.sound hclosed) (hclasses ▸ hC)
      (by rw [hscope, hclasses']; exact hC')
    have hindex : (fun j (m : MethodDef Unit) =>
        m.skeleton (changed (.method cls (i + (j + 1))))) =
          fun j m => m.skeleton (changed (.method cls (i + 1 + j))) := by
      funext j m
      rw [Nat.add_assoc, Nat.add_comm 1 j]
    rw [hscope] at habreast₂ hmatches
    rw [List.mapIdx_cons, declareMethods_cons, declareMethods_cons, declareMethods_state,
      declareMethods_state (r.scope C), methodVisits, methodVisits, Nat.add_zero]
    simp only [hindex]
    exact ⟨r₂, hextends₁.trans hgrows.scopes_size hextends₂, habreast₂,
      .cons (hmatch.extend (Nat.le_refl _) hextends₂) hmatches⟩

/-- A class is declared next to its skeleton. -/
theorem classVisits_match (cls : Nat) (c : ClassDef Unit) (h : Abreast r s s')
    (hclosed : s.table.Closed) : ∃ r', Renaming.Extends s.table.scopes.size r r' ∧
      Abreast r' (declareClass #[] (c.skeleton fun j => changed (.method cls j)) s).2
        (declareClass #[] c s').2 ∧
      List.Forall₂ (Visit.Matches changed r')
        (classVisits cls (c.skeleton fun j => changed (.method cls j)) s)
        (classVisits cls c s') := by
  have hheader : Paired r _ s s' (declareHeader (c.skeleton fun j => changed (.method cls j)) s)
      (declareHeader c s') := declareHeader_paired h rfl rfl rfl
  have hrun := declareHeader_run h.sound (Nat.zero_le _)
    (c.skeleton fun j => changed (.method cls j))
  have hgrows := hrun.grows h.sound (Nat.zero_le _)
  have hmatch : Visit.Matches changed r _ _ := .ofPaired hheader .none (.header cls)
  have hresult := hheader.result
  rw [declareClass_eq, declareClass_eq, classVisits, classVisits]
  obtain ⟨hnone, -⟩ | ⟨hsome, -, hmem, -⟩ := declareHeader_cases h.sound (Nat.zero_le _)
    (c.skeleton fun j => changed (.method cls j))
  · rw [hnone] at hresult
    rw [hnone, hresult]
    exact ⟨r, .refl _ r, hheader.abreast, .cons hmatch .nil⟩
  · rw [hsome] at hresult
    rw [hsome, hresult]
    obtain ⟨hnone', -⟩ | ⟨hsome', -, hmem', -⟩ := declareHeader_cases h.sound' (Nat.zero_le _) c
    · rw [hresult] at hnone'
      cases hnone'
    · rw [hresult] at hsome'
      obtain ⟨r', hextends, habreast, hmatches⟩ := methodVisits_match changed cls
        c.methods 0 hheader.abreast (hrun.closed h.sound hclosed) hmem
        (by rw [Option.some.inj hsome']; exact hmem')
      simp only [Nat.zero_add] at habreast hmatches
      exact ⟨r', (Renaming.Extends.refl _ r).trans hgrows.scopes_size hextends, habreast,
        .cons (hmatch.extend (Nat.le_refl _) hextends) hmatches⟩

/-- Some classes are declared next to their skeletons. -/
theorem classesVisits_match (cs : List (ClassDef Unit)) (i : Nat) (h : Abreast r s s')
    (hclosed : s.table.Closed) : ∃ r', Renaming.Extends s.table.scopes.size r r' ∧
      Abreast r'
        (declareClasses #[]
          (cs.mapIdx fun j c => c.skeleton fun k => changed (.method (i + j) k)) s).2
        (declareClasses #[] cs s').2 ∧
      List.Forall₂ (Visit.Matches changed r')
        (classesVisits i (cs.mapIdx fun j c => c.skeleton fun k => changed (.method (i + j) k)) s)
        (classesVisits i cs s') := by
  induction cs generalizing i r s s' with
  | nil => exact ⟨r, .refl _ r, h, .nil⟩
  | cons c cs ih =>
    obtain ⟨r₁, hextends₁, habreast₁, hmatches₁⟩ :=
      classVisits_match changed i c h hclosed
    have hrun := declareClass_run h.sound (Nat.zero_le _) #[]
      (c.skeleton fun k => changed (.method i k))
    have hgrows := hrun.grows h.sound (Nat.zero_le _)
    obtain ⟨r₂, hextends₂, habreast₂, hmatches₂⟩ := ih (i + 1) habreast₁
      (hrun.closed h.sound hclosed)
    have hleads := classVisits_leads i (c.skeleton fun k => changed (.method i k)) h.sound
    have hindex : (fun j (c : ClassDef Unit) =>
        c.skeleton fun k => changed (.method (i + (j + 1)) k)) =
          fun j c => c.skeleton fun k => changed (.method (i + 1 + j) k) := by
      funext j c
      rw [Nat.add_assoc, Nat.add_comm 1 j]
    rw [List.mapIdx_cons, declareClasses, declareClasses, bind_apply, bind_apply,
      declareClasses_state, declareClasses_state (declareClass #[] c s').1, classesVisits,
      classesVisits, Nat.add_zero]
    simp only [hindex]
    refine ⟨r₂, hextends₁.trans hgrows.scopes_size hextends₂, habreast₂,
      List.rel_append ?_ hmatches₂⟩
    -- The visits of the class came before, so that their numbers are settled.
    have hsettled : ∀ v ∈ classVisits i (c.skeleton fun k => changed (.method i k)) s,
        v.after.table.scopes.size ≤ (declareClass #[]
          (c.skeleton fun k => changed (.method i k)) s).2.table.scopes.size := by
      intro v hv
      obtain ⟨hsound, hlater, -⟩ := hleads.later h.sound hv
      have hafter := (hleads.proper hv).run.sound hsound
      exact (hlater.grows hafter (Nat.zero_le _)).scopes_size
    exact ((List.forall₂_and_left _ _).2 ⟨hsettled, hmatches₁⟩).imp fun v v' hv =>
      hv.2.extend hv.1 hextends₂

end

end Declaring

/-- **The visits of a program match those of its skeleton**, from one state on. -/
theorem Program.visits_match (changed : Part → Bool) (p : Program) (hsound : s.table.Sound)
    (hclosed : s.table.Closed) :
    ∃ r, Embeds r (declareProgram (p.skeleton changed) s).2.table (declareProgram p s).2.table ∧
      List.Forall₂ (Visit.Matches changed r) ((p.skeleton changed).visits s) (p.visits s) := by
  obtain ⟨r, -, habreast, hmatches⟩ := classesVisits_match changed p.classes 0
    (r := .same) ⟨.refl s.table, hsound, hsound⟩ hclosed
  simp only [Nat.zero_add] at habreast hmatches
  refine ⟨r, ?_⟩
  rw [declareProgram, declareProgram, bind_apply, bind_apply, visits, visits,
    p.hasMain_skeleton changed]
  split
  · have hmain := declareMain_paired habreast p.main
    refine ⟨?_, List.rel_append hmatches (.cons (.ofPaired hmain hmain.result .main) .nil)⟩
    rw [declareMain_visit, declareMain_visit]
    exact hmain.abreast.embeds
  · rw [List.append_nil, List.append_nil]
    exact ⟨habreast.embeds, hmatches⟩

/-! ### The same code and the same mistakes -/

theorem Job.Twins.follows {job' : Job} (h : Job.Twins r job job') (hscope : job.scope < n)
    (hnotes : ∀ b ∈ (statementsBlocks job.body.statements).map Prod.fst, b < n)
    (hextends : Renaming.Extends n r r') : Job.Follows r' job job' := by
  obtain ⟨-, as, -, has, has', hseen⟩ := h.body
  refine ⟨h.scope.trans (hextends _ hscope).1.symm, (hextends _ hscope).2 h.seen,
    r.scope, as, has, has', fun b hb => ?_⟩
  have hlt : b.1 < n := by
    refine hnotes b.1 ?_
    rw [has, statementsBlocks_map]
    exact List.mem_map.2 ⟨_, List.mem_map_of_mem hb, rfl⟩
  exact ⟨(hextends _ hlt).2 (hseen b hb), (hextends _ hlt).1.symm⟩

namespace Compilation

/-- The code of the method that was visited, in the end. -/
def unitOf (c : Compilation) (v : Visit) : Option CompiledCode :=
  v.job.bind fun job => (c.table.scope job.scope).code

/-- **The same became of the parts of two visits**: the same mistakes were found in all three
rounds, but for their places, and the same code was written. -/
structure SameOutcome (c : Compilation) (marks : Bool) (fileName : String) (p p' : Program)
    (v v' : Visit) : Prop where
  found : v'.found.map CompileError.cause = v.found.map CompileError.cause
  assignments : (assignmentErrors (c.context marks fileName p') v').map CompileError.cause =
    (assignmentErrors (c.context marks fileName p) v).map CompileError.cause
  code : (codeErrors (c.context marks fileName p') v').map CompileError.cause =
    (codeErrors (c.context marks fileName p) v).map CompileError.cause
  unit : (c.addFile marks fileName p').unitOf v' = (c.addFile marks fileName p).unitOf v

variable {c : Compilation} {marks : Bool} {fileName : String} {p p' : Program}

/-- Two programs do the same if both do the same as a third one. -/
theorem SameOutcome.trans {q : Program} {u : Visit} (h : SameOutcome c marks fileName q p u v)
    (h' : SameOutcome c marks fileName q p' u v') : SameOutcome c marks fileName p p' v v' :=
  ⟨h'.found.trans h.found.symm, h'.assignments.trans h.assignments.symm, h'.code.trans h.code.symm,
    h'.unit.trans h.unit.symm⟩

/-- What the methods of a program are written with mirrors what those of its skeleton are. -/
theorem context_mirrored (fileName : String) (hsound : c.table.Sound)
    (hembeds : Embeds r (c.declared (p.skeleton changed)).2.table (c.declared p).2.table) :
    CodeContext.Mirrored r (c.context false fileName (p.skeleton changed))
      (c.context false fileName p) :=
  ⟨hembeds, (declared_declares hsound _).sound, (declared_declares hsound _).sound, rfl, rfl⟩

/-- The scopes of a job are those that were there after it had been declared. -/
theorem scopes_of_visit (hsound : c.table.Sound) (hv : v ∈ c.visits p) (hjob : v.job = some job) :
    job.scope < v.after.table.scopes.size ∧
      ∀ b ∈ (statementsBlocks job.body.statements).map Prod.fst, b < v.after.table.scopes.size := by
  obtain ⟨body, hcodes, -⟩ := Program.codes_of_visit hsound hv hjob
  obtain ⟨count, hnoted⟩ := hcodes.noted .refl
  exact ⟨lt_size_of_isActivation (hnoted.isActivation (.inl rfl)),
    fun b hb => lt_size_of_isActivation (hnoted.isActivation (.inr hb))⟩

/-- The same code is written, or none for the same reason. -/
theorem code_cases {o o' : Except CompileError CompiledCode}
    (h : o'.mapError CompileError.cause = o.mapError CompileError.cause) :
    (∃ code, o = .ok code ∧ o' = .ok code) ∨
      ∃ e e', o = .error e ∧ o' = .error e' ∧ e'.cause = e.cause := by
  cases o <;> cases o'
  case error.error e e' => exact .inr ⟨e, e', rfl, rfl, Except.error.inj h⟩
  case ok.ok code code' => exact .inl ⟨code, rfl, congrArg _ (Except.ok.inj h)⟩
  all_goals cases h

/-- **The same becomes of a part and of its skeleton**, if it was not changed. -/
theorem sameOutcome_of_matches (hsound : c.table.Sound)
    (hembeds : Embeds r (c.declared (p.skeleton changed)).2.table (c.declared p).2.table)
    (hv : v ∈ c.visits (p.skeleton changed)) (hv' : v' ∈ c.visits p)
    (hmatches : Visit.Matches changed r v v') (hsame : changed v.part = false) :
    SameOutcome c false fileName (p.skeleton changed) p v v' := by
  obtain ⟨r₀, hextends, hjobs, hfound⟩ := hmatches.2 hsame
  have hmirrored := context_mirrored fileName hsound hembeds
  have hclean : v'.found = [] ↔ v.found = [] := by
    rw [← List.map_eq_nil_iff, hfound, List.map_eq_nil_iff]
  generalize hjob : v.job = o, hjob' : v'.job = o' at hjobs
  cases hjobs with
  | none =>
    refine ⟨hfound, ?_, ?_, ?_⟩ <;> simp [assignmentErrors, codeErrors, unitOf, hjob, hjob']
  | @some job job' htwins =>
    obtain ⟨hscope, hnotes⟩ := scopes_of_visit hsound hv hjob
    have hfollows := htwins.follows hscope hnotes hextends
    have hassignments := wrongAssignments_mirrors hmirrored hfollows
    rw [← assignmentErrors_eq hjob, ← assignmentErrors_eq hjob'] at hassignments
    have hright : assignmentErrors (c.context false fileName p) v' = [] ↔
        assignmentErrors (c.context false fileName (p.skeleton changed)) v = [] := by
      rw [← List.map_eq_nil_iff, hassignments, List.map_eq_nil_iff]
    have hcode := code_cases (CodeContext.methodCode_mirrors (hfollows.parallel hmirrored))
    refine ⟨hfound, hassignments, ?_, ?_⟩
    · rw [codeErrors, codeErrors, hjob, hjob', Option.toList_some, Option.toList_some,
        List.flatMap_singleton, List.flatMap_singleton, codeError?, codeError?]
      simp only [hclean, hright]
      obtain ⟨code, h, h'⟩ | ⟨e, e', h, h', hcause⟩ := hcode
      · rw [h, h']
      · rw [h, h']
        split
        · exact congrArg (fun cause => [cause]) hcause
        · rfl
    · rw [unitOf, unitOf, hjob, hjob', Option.bind_some, Option.bind_some,
        code_addFile hsound hv hjob, code_addFile hsound hv' hjob']
      simp only [hclean, hright]
      obtain ⟨code, h, h'⟩ | ⟨e, e', h, h', -⟩ := hcode <;> rw [h, h']
      rfl

/-! ### Two programs -/

theorem forall₂_of_common {β γ : Type} {R : α → β → Prop} {Q : α → γ → Prop} {l : List α}
    {m : List β} {n : List γ} (h : List.Forall₂ R l m) (h' : List.Forall₂ Q l n) :
    List.Forall₂ (fun b c => ∃ a, R a b ∧ Q a c) m n := by
  induction h generalizing n with
  | nil =>
    cases h'
    exact .nil
  | cons hR _ ih =>
    cases h' with
    | cons hQ hrest => exact .cons ⟨_, hR, hQ⟩ (ih hrest)

/-- The visits of a program and those of its skeleton, with what became of them. -/
theorem sameOutcome_skeleton (fileName : String) (hsound : c.table.Sound)
    (hclosed : c.table.Closed) (changed : Part → Bool) (p : Program) :
    List.Forall₂ (fun v v' => v'.part = v.part ∧ (changed v.part = false →
      SameOutcome c false fileName (p.skeleton changed) p v v'))
      (c.visits (p.skeleton changed)) (c.visits p) := by
  obtain ⟨r, hembeds, hmatches⟩ :=
    p.visits_match changed (s := ⟨c.table, c.errors, []⟩) hsound hclosed
  obtain ⟨hlength, hmatches⟩ := List.forall₂_iff_zip.1 hmatches
  refine List.forall₂_iff_zip.2 ⟨hlength, fun {v v'} hmem => ?_⟩
  obtain ⟨hv, hv'⟩ := List.of_mem_zip hmem
  exact ⟨(hmatches hmem).1, sameOutcome_of_matches hsound hembeds hv hv' (hmatches hmem)⟩

/-- The mistakes of the parts that were not changed, with their causes. -/
def unchanged (changed : Part → Bool) (log : List (Part × CompileError)) :
    List (Part × CompileError.Cause) :=
  (log.filter fun entry => !changed entry.1).map fun entry => (entry.1, entry.2.cause)

theorem unchanged_append (changed : Part → Bool) (l l' : List (Part × CompileError)) :
    unchanged changed (l ++ l') = unchanged changed l ++ unchanged changed l' := by
  rw [unchanged, List.filter_append, List.map_append]
  rfl

/-- A round that finds the same mistakes in visits that were not changed. -/
theorem unchanged_tagged {f f' : Visit → List CompileError} {vs vs' : List Visit}
    (h : List.Forall₂ (fun v v' => v'.part = v.part ∧ (changed v.part = false →
      (f' v').map CompileError.cause = (f v).map CompileError.cause)) vs vs') :
    unchanged changed (tagged f' vs') = unchanged changed (tagged f vs) := by
  induction h with
  | nil => rfl
  | @cons v v' vs vs' hv _ ih =>
    obtain ⟨hpart, hcauses⟩ := hv
    rw [tagged, tagged, List.flatMap_cons, List.flatMap_cons, unchanged_append, unchanged_append]
    congr 1
    rw [unchanged, unchanged, List.filter_map, List.filter_map, hpart]
    cases hchanged : changed v.part with
    | true => simp [Function.comp_def, hchanged]
    | false =>
      have h := congrArg (List.map fun cause => (v.part, cause)) (hcauses hchanged)
      simpa [Function.comp_def, hchanged] using h

/-- The code of older methods is left alone. -/
theorem code_addFile_of_lt (hsound : c.table.Sound) {scope : ScopeId}
    (hlt : scope < c.table.scopes.size) :
    ((c.addFile marks fileName p).table.scope scope).code = (c.table.scope scope).code :=
  code_addFile_of_ne hsound fun _ hjob =>
    Nat.ne_of_gt (Nat.lt_of_lt_of_le hlt ((declared_declares hsound p).fresh hjob).1)

theorem ofPrograms_closed (options : CompileOptions) (ps : List Program) :
    (ofPrograms options ps).table.Closed := by
  refine ofPrograms_keeps options ps new_closed (fun t t' h hclosed => ?_)
    fun _ _ hsound hrun => hrun.closed hsound
  have hsize := size_eq_of_withoutCode h
  have hsymbol := symbol_eq_of_withoutCode h
  refine ⟨fun id => ?_, fun {id body} hbody => ?_, fun {s name id} hid => ?_⟩
  · rw [← hsymbol, ← hsize]
    exact hclosed.scope id
  · rw [← hsymbol] at hbody
    rw [← hsize]
    exact hclosed.body hbody
  · rw [names_of_withoutCode h] at hid
    rw [symbols_of_withoutCode h]
    exact hclosed.names hid

/-- **Changing some bodies changes nothing else.**  Two programs that are the same but for places
and for the bodies of some methods with code, for example of one, are compiled after the same
programs, without a record of places. Then the same parts are visited, and the code of every method
that was not changed is the same, or missing in both; so is that of all older methods. Each list of
new mistakes is that of its log, and without those of the changed methods the logs have the same
causes, part by part and in the same order. -/
theorem bodies_independent (options : CompileOptions) (hmarks : options.marks = false)
    (ps : List Program) (p p' : Program) (changed : Part → Bool)
    (h : p'.skeleton changed = p.skeleton changed) :
    List.Forall₂ (fun v v' => v'.part = v.part ∧ (changed v.part = false →
        (ofPrograms options (ps ++ [p'])).unitOf v' = (ofPrograms options (ps ++ [p])).unitOf v))
      ((ofPrograms options ps).visits p) ((ofPrograms options ps).visits p') ∧
    (∀ scope < (ofPrograms options ps).table.scopes.size,
      ((ofPrograms options (ps ++ [p'])).table.scope scope).code =
        ((ofPrograms options (ps ++ [p])).table.scope scope).code) ∧
    (∀ q ∈ [p, p'], (ofPrograms options (ps ++ [q])).errors.toList =
      (ofPrograms options ps).errors.toList ++
        ((ofPrograms options ps).log options.marks options.fileName q).map Prod.snd) ∧
    unchanged changed ((ofPrograms options ps).log options.marks options.fileName p') =
      unchanged changed ((ofPrograms options ps).log options.marks options.fileName p) := by
  have hsound := (ofPrograms_sound options ps).1
  have hclosed := ofPrograms_closed options ps
  simp only [ofPrograms_append_singleton]
  generalize ofPrograms options ps = c at hsound hclosed ⊢
  rw [hmarks]
  have hp := sameOutcome_skeleton options.fileName hsound hclosed changed p
  have hp' := sameOutcome_skeleton options.fileName hsound hclosed changed p'
  rw [h] at hp'
  have hboth : List.Forall₂ (fun v v' => v'.part = v.part ∧ (changed v.part = false →
      SameOutcome c false options.fileName p p' v v')) (c.visits p) (c.visits p') := by
    refine (forall₂_of_common hp hp').imp fun v v' hcommon => ?_
    obtain ⟨u, ⟨hpart, hsame⟩, ⟨hpart', hsame'⟩⟩ := hcommon
    refine ⟨hpart'.trans hpart.symm, fun hunchanged => ?_⟩
    rw [hpart] at hunchanged
    exact (hsame hunchanged).trans (hsame' hunchanged)
  refine ⟨hboth.imp fun v v' hv => ⟨hv.1, fun hsame => (hv.2 hsame).unit⟩, fun scope hlt => ?_,
    fun q _ => errors_addFile hsound, ?_⟩
  · rw [code_addFile_of_lt hsound hlt, code_addFile_of_lt hsound hlt]
  · rw [log, log, unchanged_append, unchanged_append, unchanged_append, unchanged_append,
      unchanged_tagged (hboth.imp fun v v' hv => ⟨hv.1, fun hsame => (hv.2 hsame).found⟩),
      unchanged_tagged (hboth.imp fun v v' hv => ⟨hv.1, fun hsame => (hv.2 hsame).assignments⟩),
      unchanged_tagged (hboth.imp fun v v' hv => ⟨hv.1, fun hsame => (hv.2 hsame).code⟩)]

/-- A name at some place of a source. -/
def nameAt (place : Nat) (text : String) : Token := ⟨.identifier, place, text⟩

/-- A class with a field `x`, a method `a` that has the given body, and a method `b` that comes
later and answers a block that reads the field. -/
def twoMethods (place : Nat) (body : Body Unit) : Program :=
  let block := .block (nameAt place "[") [] [] [.expression (.variable (nameAt place "x"))] none ()
  ⟨"", [], [⟨nameAt 0 "class", nameAt 6 "A", none, [nameAt 10 "x"],
    [⟨none, .unary (nameAt 13 "a"), .code body⟩,
      ⟨none, .unary (nameAt place "b"), .code ⟨[], [.answer (nameAt place "^") block]⟩⟩],
    none⟩], ⟨[], []⟩, []⟩

/-- A body with a local variable and a block in which something unknown is assigned to. -/
def wrongBody : Body Unit :=
  ⟨[nameAt 17 "y"], [.expression (.block (nameAt 20 "[") [nameAt 21 "x"] []
    [.assignment (nameAt 24 "u") (.variable (nameAt 28 "y"))] none ())]⟩

/-- The mistake in the one method has nothing to do with the code of the other. -/
theorem wrongBody_independent :
    (twoMethods 40 wrongBody).skeleton (· == .method 0 0) =
        (twoMethods 20 ⟨[], []⟩).skeleton (· == .method 0 0) ∧
      ((start ⟨"main.st", false, false⟩).log false "main.st" (twoMethods 20 ⟨[], []⟩)) = [] ∧
      ((start ⟨"main.st", false, false⟩).log false "main.st" (twoMethods 40 wrongBody)).map
        (fun entry => (entry.1, entry.2.cause)) =
          [(.method 0 0, .unknownVariable "u" "A>>a>>block0")] ∧
      ∃ v ∈ (start ⟨"main.st", false, false⟩).visits (twoMethods 20 ⟨[], []⟩),
        ∃ v' ∈ (start ⟨"main.st", false, false⟩).visits (twoMethods 40 wrongBody), ∃ code,
          v.part = .method 0 1 ∧ v'.part = .method 0 1 ∧
          (ofPrograms ⟨"main.st", false, false⟩ [twoMethods 20 ⟨[], []⟩]).unitOf v = some code ∧
          (ofPrograms ⟨"main.st", false, false⟩ [twoMethods 40 wrongBody]).unitOf v' =
            some code := by
  have hskeleton : (twoMethods 40 wrongBody).skeleton (· == .method 0 0) =
      (twoMethods 20 ⟨[], []⟩).skeleton (· == .method 0 0) := rfl
  have hboth := (bodies_independent ⟨"main.st", false, false⟩ rfl [] (twoMethods 20 ⟨[], []⟩)
    (twoMethods 40 wrongBody) (· == .method 0 0) hskeleton).1
  have hpart : ((start ⟨"main.st", false, false⟩).visits (twoMethods 20 ⟨[], []⟩))[2]?.map
      (fun v => (v.part, ((ofPrograms ⟨"main.st", false, false⟩
        [twoMethods 20 ⟨[], []⟩]).unitOf v).isSome)) = some (.method 0 1, true) := by
    decide +kernel
  obtain ⟨v, hv, heq⟩ := Option.map_eq_some_iff.1 hpart
  obtain ⟨hvpart, hsome⟩ := Prod.mk.inj heq
  obtain ⟨code, hcode⟩ := Option.isSome_iff_exists.1 hsome
  obtain ⟨hlength, hzip⟩ := List.forall₂_iff_zip.1 hboth
  obtain ⟨v', hv'⟩ : ∃ v',
      ((start ⟨"main.st", false, false⟩).visits (twoMethods 40 wrongBody))[2]? = some v' :=
    ⟨_, List.getElem?_eq_getElem (hlength ▸ (List.getElem?_eq_some_iff.1 hv).1)⟩
  obtain ⟨hsame, hunit⟩ := hzip (List.mem_of_getElem? (List.getElem?_zip_eq_some.2 ⟨hv, hv'⟩))
  refine ⟨hskeleton, by decide +kernel, by decide +kernel, v, List.mem_of_getElem? hv, v',
    List.mem_of_getElem? hv', code, hvpart, hsame.trans hvpart, hcode, ?_⟩
  rw [← hcode]
  exact hunit (by rw [hvpart]; decide)

end Compilation

end Smalltalk
