/-
**The rounds of compiling agree.**

The names of a program are declared in one round, its assignments are checked in the next, and its
code is written in the last. Each round walks through the tree again and relies on what the ones
before have left: the scopes that are noted at the blocks, the distance to every variable, and one
number for each block of a method. For programs that were read without mistakes nothing of this is
ever missing, even if other mistakes are found in them, and so no round complains about the tree.

* `Compilation.Agrees` — **what the last round relies on**;
* `Compilation.rounds_agree` — **no round complains about a tree without mistakes**.
-/

import Smalltalk.Proofs.Nesting
import Smalltalk.Proofs.Methods

namespace Smalltalk

variable {job : Job} {t : SymbolTable} {target : Token} {count i : Nat}
  {b : OpenedBlock} {ss : List (Statement ScopeId)} {e : CompileError}
  {c : CodeContext} {blocks : Array (Option CompiledCode)} {p : Program} {scope s : ScopeId}
  {bs bs' : List OpenedBlock}

open Declaring SymbolTable

theorem exprTargets_subset_statements {s : Statement ScopeId} (scope : ScopeId) (hs : s ∈ ss) :
    exprTargets scope s.value ⊆ statementsTargets scope ss := by
  intro a ha
  rw [statementsTargets_eq]
  refine List.mem_flatMap.2 ⟨s, hs, ?_⟩
  cases s with
  | assignment => exact List.mem_append_left _ ha
  | _ => exact ha

/-- The assignments of a part of an expression are among those of the expression. -/
theorem exprTargets_subset {e d : Expr ScopeId} (scope : ScopeId) (hd : d ∈ e.children) :
    ∃ scope', exprTargets scope' d ⊆ exprTargets scope e := by
  cases hb : e.body? with
  | none =>
    rw [exprTargets_of_none hb, exprsTargets_eq]
    exact ⟨scope, fun a ha => List.mem_flatMap.2 ⟨d, hd, ha⟩⟩
  | some b =>
    rw [exprTargets_of_some hb]
    rw [Expr.children_of_body? hb] at hd
    obtain ⟨s, hs, rfl⟩ := List.mem_map.1 hd
    exact ⟨b.1, exprTargets_subset_statements b.1 hs⟩

/-! ### Writing without a complaint about the tree -/

theorem exprRegular_bare_of_mem {e d : Expr ScopeId} (h : exprRegular e.bare)
    (hd : d ∈ e.children) : exprRegular d.bare := by
  refine exprRegular_of_mem h ?_
  rw [Expr.children_map]
  exact List.mem_map_of_mem hd

theorem exprBlocks_regular (e : Expr ScopeId) : ∀ scope, exprRegular e.bare →
    ∀ b ∈ exprBlocks e, (∀ s ∈ b.2, exprRegular s.value.bare) ∧
      statementsTargets b.1 b.2 ⊆ exprTargets scope e := by
  induction e using Expr.byChildren with
  | _ e ih =>
    intro scope h b hb
    rw [exprBlocks_eq] at hb
    rcases List.mem_append.1 hb with hb | hb
    · obtain ⟨d, hd, hb⟩ := List.mem_flatMap.1 hb
      obtain ⟨scope', hsub⟩ := exprTargets_subset scope hd
      exact (ih d hd scope' (exprRegular_bare_of_mem h hd) b hb).imp_right
        fun hsub' => List.Subset.trans hsub' hsub
    · replace hb := Option.mem_toList.1 hb
      rw [exprTargets_of_some hb]
      refine ⟨fun s hs => exprRegular_bare_of_mem h ?_, List.Subset.refl _⟩
      rw [Expr.children_of_body? hb]
      exact List.mem_map_of_mem hs

namespace CodeContext

theorem invalid_not_mem_markOps (span : Span) : .invalid ∉ c.markOps span := by
  rw [markOps]
  split <;> simp

theorem exprsOps_eq (es : List (Expr ScopeId)) :
    c.exprsOps scope es = es.flatMap (c.exprOps scope) := by
  induction es with
  | nil => rfl
  | cons e es ih => rw [exprsOps, ih, List.flatMap_cons]

/-- **A regular expression can be written.** -/
theorem invalid_not_mem_exprOps (e : Expr ScopeId) (h : exprRegular e.bare) :
    .invalid ∉ c.exprOps scope e := by
  induction e using Expr.byChildren with
  | _ e ih =>
    have hparts (d : Expr ScopeId) (hd : d ∈ e.children) := ih d hd (exprRegular_bare_of_mem h hd)
    cases e with
    | invalid => exact h.elim
    | literal _ _ value => cases value <;> simp [exprOps, literalOp]
    | _ =>
      simp_all [exprOps, exprsOps_eq, variableOps, Expr.children, invalid_not_mem_markOps]
      try split <;> simp [invalid_not_mem_markOps]

/-- Regular statements can be written if the variables that they assign to are found. -/
theorem invalid_not_mem_statementsOps (h : ∀ s ∈ ss, exprRegular s.value.bare)
    (hplaces : ∀ a ∈ statementsTargets scope ss, (c.place? a.1 a.2.name).isSome = true) :
    .invalid ∉ c.statementsOps scope ss := by
  induction ss with
  | nil => exact List.not_mem_nil
  | cons s ss ih =>
    obtain ⟨hs, hss⟩ := List.forall_mem_cons.1 h
    obtain ⟨hplace, hrest⟩ := List.forall_mem_append.1 hplaces
    have hfirst : .invalid ∉ c.statementOps scope s := by
      have hvalue : .invalid ∉ c.exprOps scope s.value := invalid_not_mem_exprOps s.value hs
      cases s with
      | assignment target value =>
        have hfound := hplace (scope, target) (by simp [statementTargets])
        rw [statementOps, storeOps]
        split <;> simp_all [Statement.value, invalid_not_mem_markOps]
      | _ => simp_all [Statement.value, statementOps, invalid_not_mem_markOps]
    cases ss with
    | nil => exact hfirst
    | cons => simp [statementsOps_cons_cons, hfirst, ih hss hrest]

/-- **A regular method can be written**, if its blocks have the scopes of blocks and its assignments
are to variables that are found. -/
theorem not_lacks_methodOps (h : ∀ s ∈ job.body.statements, exprRegular s.value.bare)
    (hblocks : ∀ b ∈ statementsBlocks job.body.statements,
      (c.table.scope b.1).kind.isBlock = true)
    (hplaces : ∀ a ∈ statementsTargets job.scope job.body.statements,
      (c.place? a.1 a.2.name).isSome = true) :
    ¬ c.Lacks (c.methodOps job) (statementsBlocks job.body.statements) := by
  rintro (hops | ⟨b, hb, hkind | hops⟩)
  · have hstatements := invalid_not_mem_statementsOps h hplaces
    rw [methodOps] at hops
    split at hops <;> simp_all [answerSelfOps, invalid_not_mem_markOps]
  · rw [hblocks b hb] at hkind
    cases hkind
  · rw [statementsBlocks_eq] at hb
    obtain ⟨e, he, hb⟩ := List.mem_flatMap.1 hb
    obtain ⟨s, hs, rfl⟩ := List.mem_map.1 he
    obtain ⟨hregular, htargets⟩ := exprBlocks_regular s.value job.scope (h s hs) b hb
    have hstatements := invalid_not_mem_statementsOps (c := c) hregular fun a ha =>
      hplaces a (exprTargets_subset_statements _ hs (htargets ha))
    rw [blockOps] at hops
    grind

end CodeContext

/-! ### Blocks that are noted -/

/-- **The blocks of a method are noted in its tree.**  Their scopes come right after that of the
method, and they are numbered in this order up to the largest number. -/
@[grind cases]
structure Job.Noted (t : SymbolTable) (job : Job) (count : Nat) : Prop where
  isMethod : (t.scope job.scope).kind.isMethod = true
  mem_iff (b : Nat) : b ∈ (statementsBlocks job.body.statements).map Prod.fst ↔
    job.scope + 1 ≤ b ∧ b < job.scope + 1 + count
  kind {i : Nat} : i < count → (t.scope (job.scope + 1 + i)).kind = .block (min i capacity)

namespace Job.Noted

/-- A block that is noted has its place after the method. -/
theorem exists_eq_add (h : job.Noted t count) {b : ScopeId}
    (hb : b ∈ (statementsBlocks job.body.statements).map Prod.fst) :
    ∃ i < count, b = job.scope + 1 + i ∧ (t.scope b).kind = .block (min i capacity) := by
  obtain ⟨hle, hlt⟩ := (h.mem_iff b).1 hb
  obtain ⟨i, rfl⟩ := Nat.exists_eq_add_of_le hle
  grind

theorem isBlock (h : job.Noted t count) (hb : b ∈ statementsBlocks job.body.statements) :
    (t.scope b.1).kind.isBlock = true := by
  obtain ⟨i, -, -, hkind⟩ := h.exists_eq_add (List.mem_map_of_mem hb)
  rw [hkind]
  rfl

theorem isActivation (h : job.Noted t count)
    (hs : IsScopeOf job.scope (statementsBlocks job.body.statements) s) :
    (t.scope s).kind.isActivation = true := by
  rcases hs with rfl | hs
  · rw [ScopeKind.isActivation, h.isMethod, Bool.true_or]
  · obtain ⟨i, -, -, hkind⟩ := h.exists_eq_add hs
    rw [hkind]
    rfl

end Job.Noted

namespace Emission

theorem size_putBlock (blocks : Array (Option CompiledCode)) (index : Nat) (code : CompiledCode) :
    (putBlock blocks index code).size = max blocks.size (index + 1) := by
  rw [putBlock, Array.size_setIfInBounds, Array.size_append, Array.size_replicate]
  omega

/-- A table of blocks is complete if there is a block under each of its numbers. -/
theorem isSome_allBlocks? (h : ∀ i < blocks.size, (blockAt? blocks i).isSome = true) :
    (allBlocks? blocks).isSome = true := by
  rw [allBlocks?, if_pos]
  · rfl
  · rw [Array.all_eq_true]
    intro i hi
    have hat := h i hi
    rw [blockAt?, Array.getElem?_eq_getElem hi] at hat
    exact hat

end Emission

namespace CodeContext

variable {codes : List (Nat × CompiledCode)}

/-- A table of blocks is as large as the largest number in it asks for. -/
theorem exists_of_lt_size_putBlocks (h : i < (putBlocks blocks codes).size) :
    i < blocks.size ∨ ∃ numbered ∈ codes, i ≤ numbered.1 := by
  induction codes generalizing blocks with
  | nil => exact .inl h
  | cons numbered codes ih =>
    obtain hlt | ⟨later, hmem, hle⟩ := ih h
    · rw [Emission.size_putBlock] at hlt
      grind
    · exact .inr ⟨later, List.mem_cons_of_mem _ hmem, hle⟩

/-- **Every number of a block is used**, if the blocks are noted. -/
theorem Noted.isSome_allBlocks? (h : job.Noted c.table count)
    (hcodes : List.Forall₂ c.IsBlockCode (statementsBlocks job.body.statements) codes) :
    (Emission.allBlocks? (putBlocks #[] codes)).isSome = true := by
  refine Emission.isSome_allBlocks? fun i hi => ?_
  obtain hlt | ⟨numbered, hmem, hle⟩ := exists_of_lt_size_putBlocks hi
  · exact absurd hlt (Nat.not_lt_zero i)
  -- A block with a number is noted, and so is the one that has the smaller number.
  obtain ⟨b, hb, hkind, -⟩ := Forall₂.exists_left hcodes hmem
  obtain ⟨j, hj, -, hkind'⟩ := h.exists_eq_add (List.mem_map_of_mem hb)
  rw [hkind] at hkind'
  have hnumber : numbered.1 = min j capacity := ScopeKind.block.inj hkind'
  have hij : i < count := by omega
  have hnoted : job.scope + 1 + i ∈ (statementsBlocks job.body.statements).map Prod.fst :=
    (h.mem_iff _).2 ⟨Nat.le_add_right _ _, Nat.add_lt_add_left hij _⟩
  obtain ⟨b', hb', hscope⟩ := List.mem_map.1 hnoted
  obtain ⟨⟨i', code⟩, hmem', hkind', -⟩ :=
    Forall₂.exists_left (R := flip c.IsBlockCode) (List.Forall₂.flip hcodes) hb'
  obtain rfl : i' = i := by
    grind
  exact isSome_blockAt?_putBlocks hmem' #[]

end CodeContext

/-! ### The jobs of a program -/

variable {v : Visit} {body : Body Unit}

/-- The tree of a job is that of the source, but for the notes. -/
theorem Visit.Codes.bare (h : v.Codes job body) :
    Statement.mapAll (fun _ => ()) id job.body.statements = body.statements := by
  obtain ⟨s, C, selector, classSide, parameters, span, -, -, heq⟩ := h
  have hbare := declareCode_bare C selector classSide parameters body span s
  rw [heq] at hbare
  exact congrArg Body.statements hbare

/-- The blocks of a job are noted, and stay so when something else is declared. -/
theorem Visit.Codes.noted (h : v.Codes job body) (hlater : Run 0 v.after.table t) :
    ∃ count, job.Noted t count := by
  obtain ⟨hsound, hcounted, hle, hmem⟩ := h.counted
  have hgrows := hlater.grows hsound (Nat.zero_le _)
  refine ⟨v.after.table.scopes.size - (job.scope + 1), ?_, fun b => ?_, fun {i} hi => ?_⟩
  · exact (hgrows.alike hcounted.lt_size).isMethod.trans hcounted.isMethod
  · rw [hmem b, Nat.add_sub_cancel' hle]
  · have hlt : job.scope + 1 + i < v.after.table.scopes.size := Nat.add_lt_of_lt_sub' hi
    exact ScopeKind.eq_block ((hgrows.alike hlt).kind.trans (by rw [(hcounted.block hlt).1]))

/-! ### All rounds -/

namespace Compilation

variable {context : CodeContext}

theorem ofPrograms_nested (options : CompileOptions) (ps : List Program) :
    (ofPrograms options ps).table.Nested := by
  refine ofPrograms_keeps options ps new_nested (fun t t' h hnested => ?_)
    fun _ _ hsound hrun => hrun.nested hsound
  have hkind := kind_of_withoutCode h
  have henclosing := enclosing_of_withoutCode h
  have hnames := names_of_withoutCode h
  have hsymbols := symbols_of_withoutCode h
  have hsymbol := symbol_eq_of_withoutCode h
  refine ⟨fun {s} hs => ?_, fun {s} hs => ?_, fun {s name id} hs hid => ?_⟩
  · grind
  · grind
  · grind

/-- **What the last round relies on** when the code of a method is written: the scopes that are
noted at the blocks are those of blocks, the distance to every argument and local variable is known,
all assignments are to variables unless a wrong one was reported, and every number of a block is
used. -/
structure Agrees (context : CodeContext) (job : Job) : Prop where
  blocks : ∀ b ∈ statementsBlocks job.body.statements,
    (context.table.scope b.1).kind.isBlock = true
  depths : ∀ scope ∈ job.scope :: (statementsBlocks job.body.statements).map Prod.fst,
    ∀ name id, context.table.resolve? scope name = some id →
      IsSlotKind (context.table.symbol id).kind →
        (context.table.depth? scope (context.table.symbol id).scope).isSome = true
  assignments : context.table.wrongAssignments job = #[] →
    ∀ a ∈ statementsTargets job.scope job.body.statements,
      (context.place? a.1 a.2.name).isSome = true
  table : ∀ s, (context.emitMethod job).run ⟨context.newBuffer, #[]⟩ = .ok ((), s) →
    (Emission.allBlocks? s.blocks).isSome = true

/-- An assignment that is not wrong is to a variable that is found. -/
theorem isSome_place?
    (hdepth : ∀ name id, context.table.resolve? scope name = some id →
      IsSlotKind (context.table.symbol id).kind →
        (context.table.depth? scope (context.table.symbol id).scope).isSome = true)
    (h : context.table.assignmentError? scope target = none) :
    (context.place? scope target.name).isSome = true := by
  rw [assignmentError?] at h
  rw [CodeContext.place?]
  cases hid : context.table.resolve? scope target.name with
  | none => rw [hid] at h; cases h
  | some id =>
    rw [hid] at h
    dsimp only at h ⊢
    have hsome := hdepth target.name id hid
    cases hkind : (context.table.symbol id).kind with
    | field => rfl
    | argument =>
      rw [hkind] at hsome
      rw [Option.isSome_map]
      exact hsome (.inl rfl)
    | localVariable =>
      rw [hkind] at hsome
      rw [Option.isSome_map]
      exact hsome (.inr rfl)
    | _ => rw [hkind] at h; cases h

/-- **The rounds agree on a method** whose blocks are noted. -/
theorem Agrees.of_noted (hsound : context.table.Sound) (hnested : context.table.Nested)
    (h : job.Noted context.table count) : Agrees context job := by
  have hdepths (scope : ScopeId)
      (hscope : IsScopeOf job.scope (statementsBlocks job.body.statements) scope) (name : String)
      (id : SymbolId) (hid : context.table.resolve? scope name = some id)
      (hkind : IsSlotKind (context.table.symbol id).kind) :=
    hnested.isSome_depth? hsound (h.isActivation hscope) hid hkind
  refine ⟨fun b hb => h.isBlock hb, fun scope hscope => hdepths scope (List.mem_cons.1 hscope),
    fun hclean a ha => ?_, fun s hs => ?_⟩
  · refine isSome_place? (hdepths a.1 (statementsTargets_scope _ _ a ha)) ?_
    rw [wrongAssignments_eq] at hclean
    exact List.filterMap_eq_nil_iff.1 (congrArg Array.toList hclean) a ha
  · obtain ⟨codes, hcodes, hblocks⟩ :=
      ((CodeContext.emitMethod_writes job).wrote hs (CodeContext.newBuffer_valid context).1).blocks
    rw [hblocks]
    exact CodeContext.Noted.isSome_allBlocks? h hcodes

/-- A method on which the rounds agree is written without a complaint about the tree. -/
theorem Agrees.methodCode (h : Agrees context job)
    (hregular : statementsRegular (Statement.mapAll (fun _ => ()) id job.body.statements))
    (hclean : context.table.wrongAssignments job = #[]) (he : context.methodCode job = .error e) :
    e.cause.isInvalidTree = false := by
  have hstatements : ∀ s ∈ job.body.statements, exprRegular s.value.bare := by
    simpa [Statement.mapAll_eq, statementsRegular_iff, Statement.value_map] using hregular
  have hwritable := CodeContext.not_lacks_methodOps hstatements h.blocks (h.assignments hclean)
  cases hemit : (context.emitMethod job).run ⟨context.newBuffer, #[]⟩ with
  | error e' =>
    rw [CodeContext.methodCode, hemit] at he
    obtain rfl := Except.error.inj he
    exact Bool.eq_false_iff.2 fun hcause =>
      hwritable ((CodeContext.emitMethod_writes job).lacks hemit hcause)
  | ok result =>
    obtain ⟨⟨⟩, s⟩ := result
    obtain ⟨blocks, hblocks⟩ := Option.isSome_iff_exists.1 (h.table s hemit)
    rw [CodeContext.methodCode_of_emitMethod hemit, hblocks] at he
    cases he

variable {c : Compilation}

/-- The rounds agree on every method of a program, with or without mistakes. -/
theorem agrees_of_visit (hsound : c.table.Sound) (hnested : c.table.Nested) (marks : Bool)
    (fileName : String) (hv : v ∈ c.visits p) (hjob : v.job = some job) :
    Agrees (c.context marks fileName p) job := by
  have hleads := visits_leads hsound p
  obtain ⟨body, hcodes, -⟩ := Program.codes_of_visit hsound hv hjob
  obtain ⟨count, hnoted⟩ := hcodes.noted (hleads.later hsound hv).2.1
  exact .of_noted (hleads.run.sound hsound)
    (hleads.run.nested hsound hnested) hnoted

/-- **A program without parts that could not be read** adds no complaint about the tree. -/
theorem addFile_accepts (hsound : c.table.Sound) (hnested : c.table.Nested) (hregular : p.IsRegular)
    (marks : Bool) (fileName : String) (he : e ∈ (c.addFile marks fileName p).errors) :
    e ∈ c.errors ∨ e.cause.isInvalidTree = false := by
  rw [← Array.mem_toList_iff, errors_addFile hsound, List.mem_append, log, List.map_append,
    List.map_append, List.mem_append, List.mem_append, map_snd_tagged, map_snd_tagged,
    map_snd_tagged] at he
  rcases he with he | (he | he) | he
  · exact .inl (Array.mem_toList_iff.1 he)
  · -- the first round has nothing to say about the tree
    have hdeclared : e ∈ (c.declared p).2.errors := by
      rw [← Array.mem_toList_iff, (visits_leads hsound p).errors]
      exact List.mem_append_right _ he
    exact (declareProgram_blind p).causes hdeclared
  · obtain ⟨v, -, he⟩ := List.mem_flatMap.1 he
    obtain ⟨job, -, he⟩ := List.mem_flatMap.1 he
    rw [wrongAssignments_eq] at he
    obtain ⟨a, -, ha⟩ := List.mem_filterMap.1 he
    exact .inr (assignmentError?_cause ha)
  · obtain ⟨v, hv, he⟩ := List.mem_flatMap.1 he
    rw [codeErrors, List.mem_ite_nil_right] at he
    obtain ⟨⟨-, hclean⟩, he⟩ := he
    obtain ⟨job, hjob, he⟩ := List.mem_flatMap.1 he
    rw [Option.mem_toList] at hjob
    rw [assignmentErrors_eq hjob, Array.toList_eq_nil_iff] at hclean
    obtain ⟨body, hcodes, r, hr, hstatements⟩ := Program.codes_of_visit hsound hv hjob
    have hbody : statementsRegular (Statement.mapAll (fun _ => ()) id job.body.statements) := by
      rw [hcodes.bare, ← hstatements]
      exact (hregular r hr).statements
    have hagrees := agrees_of_visit hsound hnested marks fileName hv hjob
    refine .inr ?_
    rw [Option.mem_toList, codeError?] at he
    split at he
    case h_1 => cases he
    case h_2 e' hcode =>
      obtain rfl := Option.some.inj he
      exact hagrees.methodCode hbody hclean hcode

theorem Standard.program_isRegular : Standard.program.IsRegular :=
  fun r hr => (Standard.isFit_of_mem_routines r hr).isRegular

theorem start_accepts (options : CompileOptions) (he : e ∈ (start options).errors) :
    e.cause.isInvalidTree = false := by
  rw [start] at he
  split at he
  · exact (addFile_accepts (c := ⟨SymbolTable.new, #[]⟩) SymbolTable.new_sound new_nested
      Standard.program_isRegular _ _ he).resolve_left (Array.not_mem_empty e)
  · exact absurd he (Array.not_mem_empty e)

/-- **No round complains about a tree without mistakes.**  For all sources that can be read without
mistakes and any options: whatever mistakes are found when they are compiled one after the other,
none of them is about the tree; and when the code of a method of one of them is written, the rounds
agree on it. -/
theorem rounds_agree (options : CompileOptions) {sources : List String}
    (hvalid : ∀ source ∈ sources, (Program.parse source).isValid = true) :
    (∀ e ∈ (ofPrograms options (sources.map Program.parse)).errors,
        e.cause.isInvalidTree = false) ∧
      ∀ (front rest : List String) (source : String), sources = front ++ source :: rest →
        ∀ job ∈ ((ofPrograms options (front.map Program.parse)).declared
            (Program.parse source)).1.toList,
          Agrees ((ofPrograms options (front.map Program.parse)).context options.marks
            options.fileName (Program.parse source)) job := by
  constructor
  · induction sources using List.reverseRecOn with
    | nil => exact fun e he => start_accepts options he
    | append_singleton sources source ih =>
      obtain ⟨hfront, hsource⟩ := List.forall_mem_append.1 hvalid
      intro e he
      rw [List.map_append, List.map_singleton, ofPrograms_append_singleton] at he
      exact (addFile_accepts (ofPrograms_sound _ _).1 (ofPrograms_nested _ _)
        (Program.isRegular_of_isValid (hsource source (List.mem_singleton_self _))) _ _
        he).elim (ih hfront e) id
  · intro front rest source _ job hjob
    obtain ⟨v, hv, hjob⟩ := exists_visit_of_mem_declared hjob
    exact agrees_of_visit (ofPrograms_sound _ _).1 (ofPrograms_nested _ _) _ _ hv hjob

/-- A class with assignments in blocks, to a field, to local variables and to an argument, and with
a method that is wrong. -/
def nestedAssignments : String :=
  "class A [| x | run: n [| y | ^[x := y. [y := n. n := x]]] wrong [u := 1]]"

/-- What is wrong is reported, and the rounds agree on the methods all the same. -/
theorem nestedAssignments_agree :
    (∀ source ∈ [nestedAssignments, "A new run: 3"], (Program.parse source).isValid = true) ∧
      (ofPrograms ⟨"main.st", false, false⟩
        ([nestedAssignments, "A new run: 3"].map Program.parse)).errors.size = 1 ∧
      (∀ e ∈ (ofPrograms ⟨"main.st", false, false⟩
        ([nestedAssignments, "A new run: 3"].map Program.parse)).errors,
        e.cause.isInvalidTree = false) ∧
      ∃ job ∈ ((start ⟨"main.st", false, false⟩).declared
          (Program.parse nestedAssignments)).1.toList,
        (statementsTargets job.scope job.body.statements).length = 3 ∧
          Agrees ((start ⟨"main.st", false, false⟩).context false "main.st"
            (Program.parse nestedAssignments)) job := by
  have hvalid : ∀ source ∈ [nestedAssignments, "A new run: 3"],
      (Program.parse source).isValid = true := by decide +kernel
  obtain ⟨hcauses, hagrees⟩ := rounds_agree ⟨"main.st", false, false⟩ hvalid
  have hfirst : ((start ⟨"main.st", false, false⟩).declared
      (Program.parse nestedAssignments)).1.toList[0]?.map
        (fun job => (statementsTargets job.scope job.body.statements).length) = some 3 := by
    decide +kernel
  obtain ⟨job, hjob, hlength⟩ := Option.map_eq_some_iff.1 hfirst
  have hmem := List.mem_of_getElem? hjob
  have hjobs := hagrees [] ["A new run: 3"] nestedAssignments rfl
  rw [List.map_nil, ofPrograms_nil] at hjobs
  exact ⟨hvalid, by decide +kernel, hcauses, job, hmem, hlength, hjobs job hmem⟩

end Compilation

end Smalltalk
