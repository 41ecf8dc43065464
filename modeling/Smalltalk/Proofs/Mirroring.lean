/-
**Writing two methods side by side.**

Two methods that are the same but for the numbers of their scopes and the places of their tokens get
the very same code, if the table of one is embedded in that of the other and no places are recorded.
Where one of them cannot be written, the other fails for the same reason. Their assignments are
wrong for the same reasons, too.

* `CodeContext.Mirrors` — **two ways of writing that do the same**;
* `Compilation.wrongAssignments_mirrors` — **the same is wrong with both methods**.
-/

import Smalltalk.Proofs.Agreement
import Smalltalk.Proofs.Widening

namespace Smalltalk

open Declaring SymbolTable

variable {scope : ScopeId} {r : Renaming} {c c' : CodeContext} {f : ScopeId → ScopeId}
  {job job' : Job}

/-! ### Trees -/

section

variable (f : ScopeId → ScopeId) (g : Token → Token)

theorem isSuper_map (e : Expr ScopeId) : (e.map f g).isSuper = e.isSuper := by
  cases e <;> rfl

theorem isAnswer_map (s : Statement ScopeId) : (s.map f g).isAnswer = s.isAnswer := by
  cases s <;> rfl

theorem endsWithAnswer_mapAll (ss : List (Statement ScopeId)) :
    endsWithAnswer (Statement.mapAll f g ss) = endsWithAnswer ss := by
  rw [endsWithAnswer, endsWithAnswer, Statement.mapAll_eq, List.getLast?_map, Option.any_map]
  congr 1
  funext s
  exact isAnswer_map f g s

end

/-! ### Writing -/

namespace CodeContext

variable {α β : Type}

/-- **Two contexts in which the same is written.** -/
structure Mirrored (r : Renaming) (c c' : CodeContext) : Prop where
  embeds : Embeds r c.table c'.table
  sound : c.table.Sound
  sound' : c'.table.Sound
  marks : c.marks = false
  marks' : c'.marks = false

/-- **Two ways of writing that do the same**, or fail for the same reason. -/
def Mirrors (x x' : Emitting α) : Prop :=
  ∀ s, (x' s).mapError CompileError.cause = (x s).mapError CompileError.cause

theorem Mirrors.refl (x : Emitting α) : Mirrors x x := fun _ => rfl

theorem Mirrors.bind {x x' : Emitting α} {f f' : α → Emitting β} (hx : Mirrors x x')
    (hf : ∀ a, Mirrors (f a) (f' a)) : Mirrors (x >>= f) (x' >>= f') := by
  intro s
  have h := hx s
  change Except.mapError _ (x' s >>= fun r => f' r.1 r.2) =
    Except.mapError _ (x s >>= fun r => f r.1 r.2)
  cases hs : x s with
  | error e =>
    cases hs' : x' s with
    | error e' =>
      rw [hs, hs'] at h
      exact congrArg Except.error (Except.error.inj h)
    | ok r =>
      rw [hs, hs'] at h
      cases h
  | ok r =>
    cases hs' : x' s with
    | error e' =>
      rw [hs, hs'] at h
      cases h
    | ok r' =>
      rw [hs, hs'] at h
      obtain rfl : r' = r := Except.ok.inj h
      exact hf r'.1 r'.2

/-- **Two parallel scopes**: what is written in the one is written in the other, as no places are
recorded. -/
structure Parallel (c c' : CodeContext) (scope scope' : ScopeId) : Prop where
  marks : c.marks = false
  marks' : c'.marks = false
  qualifiedName : c'.table.qualifiedName scope' = c.table.qualifiedName scope
  classNameOf : c'.classNameOf scope' = c.classNameOf scope
  place? (name : String) : c'.place? scope' name = c.place? scope name
  block (index : Nat) : (c'.table.scope scope').kind = .block index ↔
    (c.table.scope scope).kind = .block index
  isClassSide : c'.isClassSide scope' = c.isClassSide scope
  argumentCount : (c'.table.scope scope').argumentCount = (c.table.scope scope).argumentCount
  localCount : (c'.table.scope scope').localCount = (c.table.scope scope).localCount

namespace Parallel

variable {scope' : ScopeId} (h : Parallel c c' scope scope')

include h

theorem fail_mirrors (cause : String → CompileError.Cause) (span span' : Span) :
    Mirrors (c.fail scope cause span : Emitting α) (c'.fail scope' cause span') :=
  fun _ => congrArg (fun place => Except.error (cause place)) h.qualifiedName

theorem mark_mirrors (span span' : Span) : Mirrors (c.mark span) (c'.mark span') := by
  rw [mark, mark, h.marks, h.marks']
  exact .refl _

theorem literal_mirrors (text : String) (span span' : Span) :
    Mirrors (c.literal scope text span) (c'.literal scope' text span') := by
  rintro ⟨⟨instructions, literals⟩, blocks⟩
  rw [literal, literal]
  cases literals.intern text with
  | mk position pool =>
    cases position with
    | some position => rfl
    | none =>
      exact congrArg (Except.error <| CompileError.Cause.tooManyLiterals ·) h.qualifiedName

theorem countOf_mirrors (count : Nat) (span span' : Span) :
    Mirrors (c.countOf scope count span) (c'.countOf scope' count span') := by
  rw [countOf, countOf]
  split
  · exact .refl _
  · exact h.fail_mirrors _ span span'

theorem emitLiteral_mirrors (value : Literal) (span span' : Span) :
    Mirrors (c.emitLiteral scope value span) (c'.emitLiteral scope' value span') := by
  cases value with
  | string value | symbol value =>
    exact (h.literal_mirrors value span span').bind fun _ => .refl _
  | _ => exact .refl _

theorem emitVariable_mirrors {name name' : Token} (htext : name'.text = name.text) :
    Mirrors (c.emitVariable scope name) (c'.emitVariable scope' name') := by
  rw [emitVariable, emitVariable, htext, h.place?]
  split
  · exact .refl _
  · exact .refl _
  · exact (h.mark_mirrors _ _).bind fun _ => (h.literal_mirrors _ _ _).bind fun _ => .refl _

theorem emitStore_mirrors {target target' : Token} (htext : target'.text = target.text) :
    Mirrors (c.emitStore scope target) (c'.emitStore scope' target') := by
  rw [emitStore, emitStore, Token.name_of_text htext, h.place?]
  split
  · exact .refl _
  · exact .refl _
  · exact h.fail_mirrors _ _ _

theorem emitSend_mirrors (toSuper : Bool) (selector : String) (count : Nat) (span span' : Span) :
    Mirrors (c.emitSend scope toSuper selector count span)
      (c'.emitSend scope' toSuper selector count span') :=
  (h.countOf_mirrors count span span').bind fun _ => (h.mark_mirrors span span').bind fun _ =>
    (h.literal_mirrors selector span span').bind fun _ => .refl _

theorem newBuffer_eq : c'.newBuffer = c.newBuffer := by
  rw [newBuffer, newBuffer, h.marks, h.marks']
  rfl

/-- Finished code is the same. -/
theorem code_eq (buffer : CodeBuffer) (blocks : Array CompiledCode) (isClassMethod : Bool) :
    c'.code scope' buffer blocks isClassMethod = c.code scope buffer blocks isClassMethod := by
  rw [code, code, h.classNameOf, h.qualifiedName, h.argumentCount, h.localCount]

theorem openBlock_mirrors : Mirrors c.openBlock c'.openBlock := by
  intro s
  rw [openBlock, openBlock, h.newBuffer_eq]

theorem closeBlock_mirrors (index : Nat) (outer : CodeBuffer) :
    Mirrors (c.closeBlock scope index outer) (c'.closeBlock scope' index outer) := by
  intro s
  have hcode := h.code_eq s.buffer #[] false
  exact congrArg (fun code => Except.ok ((), (⟨outer.emit (.block (UInt16.ofNat index)),
    Emission.putBlock s.blocks index code⟩ : Emission))) hcode

end Parallel

/-- The blocks of a tree are parallel to those that its notes will be replaced by. -/
def BlocksParallel (c c' : CodeContext) (f : ScopeId → ScopeId)
    (bs : List OpenedBlock) : Prop :=
  ∀ b ∈ bs, Parallel c c' b.1 (f b.1)

theorem BlocksParallel.append {bs bs' : List OpenedBlock}
    (h : BlocksParallel c c' f (bs ++ bs')) :
    BlocksParallel c c' f bs ∧ BlocksParallel c c' f bs' :=
  List.forall_mem_append.1 h

/-- A block that is noted with another scope is not written. -/
theorem emitExpr_block_of_not {body : ScopeId}
    (h : ¬∃ index, (c.table.scope body).kind = .block index) {opening : Token}
    {parameters locals : List Token} {statements : List (Statement ScopeId)}
    {closing : Option Token} :
    ∃ span, emitExpr c scope (.block opening parameters locals statements closing body) =
      c.fail scope .invalidTree span := by
  rw [emitExpr.eq_def]
  dsimp only
  split
  case h_1 index hindex => exact absurd ⟨index, hindex⟩ h
  case h_2 => exact ⟨_, rfl⟩

variable {g g' : Token → Token}

mutual

/-- **An expression is written on both sides.** -/
theorem emitExpr_mirrors (hg : ∀ t, (g' t).text = (g t).text) {scope scope' : ScopeId}
    (h : Parallel c c' scope scope') : ∀ e : Expr ScopeId, BlocksParallel c c' f (exprBlocks e) →
      Mirrors (emitExpr c scope (e.map id g)) (emitExpr c' scope' (e.map f g'))
  | .array _ items _, hblocks => by
    rw [exprBlocks] at hblocks
    rw [Expr.map, Expr.map, emitExpr, emitExpr, Expr.mapAll_eq, List.length_map,
      ← Expr.mapAll_eq, Expr.mapAll_eq f, List.length_map, ← Expr.mapAll_eq]
    exact (emitExprs_mirrors hg h items hblocks).bind fun _ =>
      (h.countOf_mirrors _ _ _).bind fun _ => .refl _
  | .block opening parameters locals statements closing body, hblocks => by
    rw [exprBlocks] at hblocks
    obtain ⟨hinner, hsingle⟩ := hblocks.append
    have hbody : Parallel c c' body (f body) := hsingle _ (List.mem_singleton_self _)
    rw [Expr.map, Expr.map, id]
    by_cases hblock : ∃ index, (c.table.scope body).kind = .block index
    · obtain ⟨index, hindex⟩ := hblock
      rw [emitExpr_block scope _ _ _ _ _ hindex,
        emitExpr_block _ _ _ _ _ _ ((hbody.block index).2 hindex)]
      exact h.openBlock_mirrors.bind fun outer =>
        (emitBlock_mirrors hg hbody statements hinner).bind fun _ =>
          hbody.closeBlock_mirrors index outer
    · have hblock' : ¬∃ index, (c'.table.scope (f body)).kind = .block index :=
        fun ⟨index, hindex⟩ => hblock ⟨index, (hbody.block index).1 hindex⟩
      obtain ⟨span, hfail⟩ := emitExpr_block_of_not (c := c) hblock
      obtain ⟨span', hfail'⟩ := emitExpr_block_of_not (c := c') hblock'
      rw [hfail, hfail']
      exact h.fail_mirrors _ span span'
  | .group _ inner _, hblocks => by
    rw [exprBlocks] at hblocks
    exact emitExpr_mirrors hg h inner hblocks
  | .literal _ _ value, _ => by
    exact h.emitLiteral_mirrors value _ _
  | .unary receiver selector, hblocks => by
    rw [exprBlocks] at hblocks
    rw [Expr.map, Expr.map, emitExpr, emitExpr, isSuper_map, isSuper_map, hg]
    exact (emitExpr_mirrors hg h receiver hblocks).bind fun _ => h.emitSend_mirrors _ _ _ _ _
  | .binary receiver operator argument, hblocks => by
    rw [exprBlocks] at hblocks
    rw [Expr.map, Expr.map, emitExpr, emitExpr, isSuper_map, isSuper_map, hg]
    exact (emitExpr_mirrors hg h receiver hblocks.append.1).bind fun _ =>
      (emitExpr_mirrors hg h argument hblocks.append.2).bind fun _ =>
        h.emitSend_mirrors _ _ _ _ _
  | .keyword receiver keywords arguments, hblocks => by
    rw [exprBlocks] at hblocks
    rw [Expr.map, Expr.map, emitExpr, emitExpr, isSuper_map, isSuper_map, joinTexts_congr hg,
      Expr.mapAll_eq, List.length_map, ← Expr.mapAll_eq, Expr.mapAll_eq f, List.length_map,
      ← Expr.mapAll_eq]
    exact (emitExpr_mirrors hg h receiver hblocks.append.1).bind fun _ =>
      (emitExprs_mirrors hg h arguments hblocks.append.2).bind fun _ =>
        h.emitSend_mirrors _ _ _ _ _
  | .super _, _ => by
    exact .refl _
  | .variable name, _ => by
    exact h.emitVariable_mirrors (hg name)
  | .invalid _, _ => by
    exact h.fail_mirrors _ _ _

theorem emitExprs_mirrors (hg : ∀ t, (g' t).text = (g t).text) {scope scope' : ScopeId}
    (h : Parallel c c' scope scope') :
    ∀ es : List (Expr ScopeId), BlocksParallel c c' f (exprsBlocks es) →
      Mirrors (emitExprs c scope (Expr.mapAll id g es)) (emitExprs c' scope' (Expr.mapAll f g' es))
  | [], _ => by
    exact .refl _
  | e :: es, hblocks => by
    rw [exprsBlocks] at hblocks
    exact (emitExpr_mirrors hg h e hblocks.append.1).bind fun _ =>
      emitExprs_mirrors hg h es hblocks.append.2

theorem emitStatement_mirrors (hg : ∀ t, (g' t).text = (g t).text) {scope scope' : ScopeId}
    (h : Parallel c c' scope scope') :
    ∀ s : Statement ScopeId, BlocksParallel c c' f (statementBlocks s) →
      Mirrors (emitStatement c scope (s.map id g)) (emitStatement c' scope' (s.map f g'))
  | .assignment target value, hblocks => by
    rw [statementBlocks] at hblocks
    exact (emitExpr_mirrors hg h value hblocks).bind fun _ =>
      (h.mark_mirrors _ _).bind fun _ => h.emitStore_mirrors (hg target)
  | .answer _ value, hblocks => by
    rw [statementBlocks] at hblocks
    exact (emitExpr_mirrors hg h value hblocks).bind fun _ =>
      (h.mark_mirrors _ _).bind fun _ => .refl _
  | .expression value, hblocks => by
    rw [statementBlocks] at hblocks
    exact emitExpr_mirrors hg h value hblocks

theorem emitStatements_mirrors (hg : ∀ t, (g' t).text = (g t).text) {scope scope' : ScopeId}
    (h : Parallel c c' scope scope') :
    ∀ ss : List (Statement ScopeId), BlocksParallel c c' f (statementsBlocks ss) →
      Mirrors (emitStatements c scope (Statement.mapAll id g ss))
        (emitStatements c' scope' (Statement.mapAll f g' ss))
  | [], _ => by
    exact .refl _
  | s :: ss, hblocks => by
    rw [statementsBlocks] at hblocks
    refine (emitStatement_mirrors hg h s hblocks.append.1).bind fun _ => ?_
    have hrest := emitStatements_mirrors hg h ss hblocks.append.2
    cases ss with
    | nil => exact hrest
    | cons => exact (Mirrors.refl _).bind fun _ => hrest

theorem emitBlock_mirrors (hg : ∀ t, (g' t).text = (g t).text) {body body' : ScopeId}
    (h : Parallel c c' body body') (statements : List (Statement ScopeId))
    (hblocks : BlocksParallel c c' f (statementsBlocks statements)) :
    Mirrors (c.emitBlock body (Statement.mapAll id g statements))
      (c'.emitBlock body' (Statement.mapAll f g' statements)) := by
  rw [emitBlock, emitBlock, endsWithAnswer_mapAll, endsWithAnswer_mapAll]
  refine Mirrors.bind ?_ fun _ => .refl _
  have hinner := emitStatements_mirrors hg h statements hblocks
  cases statements with
  | nil => exact .refl _
  | cons => exact hinner

end

end CodeContext

open CodeContext

/-! ### Methods -/

/-- **Two methods that will be written in the same way.** -/
structure Job.Parallel (c c' : CodeContext) (job job' : Job) : Prop where
  scope : c.Parallel c' job.scope job'.scope
  body : ∃ (f : ScopeId → ScopeId) (g g' : Token → Token) (as : List (Statement ScopeId)),
    (∀ t, (g' t).text = (g t).text) ∧ job.body.statements = Statement.mapAll id g as ∧
      job'.body.statements = Statement.mapAll f g' as ∧
        CodeContext.BlocksParallel c c' f (statementsBlocks as)

namespace CodeContext

theorem emitMethod_mirrors (h : Job.Parallel c c' job job') :
    Mirrors (c.emitMethod job) (c'.emitMethod job') := by
  obtain ⟨f, g, g', as, hg, has, has', hblocks⟩ := h.body
  have hself (span span' : Span) : Mirrors (c.emitAnswerSelf span) (c'.emitAnswerSelf span') :=
    (h.scope.mark_mirrors span span').bind fun _ => .refl _
  rw [emitMethod, emitMethod, has, has']
  refine (emitStatements_mirrors hg h.scope as hblocks).bind fun _ => ?_
  rw [Statement.mapAll_eq, Statement.mapAll_eq, List.getLast?_map, List.getLast?_map]
  cases as.getLast? with
  | none => exact hself _ _
  | some last =>
    simp only [Option.map_some, isAnswer_map]
    split
    · exact .refl _
    · exact (Mirrors.refl _).bind fun _ => hself _ _

/-- **The same code is written for both methods**, or for none. -/
theorem methodCode_mirrors (h : Job.Parallel c c' job job') :
    (c'.methodCode job').mapError CompileError.cause =
      (c.methodCode job).mapError CompileError.cause := by
  have hwritten := emitMethod_mirrors h ⟨c.newBuffer, #[]⟩
  rw [methodCode, methodCode, h.scope.newBuffer_eq]
  simp only [StateT.run, bind, Except.bind, h.scope.qualifiedName]
  cases hs : c.emitMethod job ⟨c.newBuffer, #[]⟩ with
  | error e =>
    cases hs' : c'.emitMethod job' ⟨c.newBuffer, #[]⟩ with
    | error e' =>
      rw [hs, hs'] at hwritten
      exact congrArg Except.error (Except.error.inj hwritten)
    | ok result =>
      rw [hs, hs'] at hwritten
      cases hwritten
  | ok result =>
    cases hs' : c'.emitMethod job' ⟨c.newBuffer, #[]⟩ with
    | error e' =>
      rw [hs, hs'] at hwritten
      cases hwritten
    | ok result' =>
      rw [hs, hs'] at hwritten
      obtain rfl : result' = result := Except.ok.inj hwritten
      simp only
      cases Emission.allBlocks? result'.2.blocks with
      | none => rfl
      | some blocks =>
        exact congrArg Except.ok ((h.scope.code_eq _ _ _).trans
          (congrArg (c.code job.scope result'.2.buffer blocks) h.scope.isClassSide))

/-! ### Embedded tables -/

namespace Mirrored

variable (h : Mirrored r c c')

include h

theorem place?_eq (hseen : r.seen scope) (name : String) :
    c'.place? (r.scope scope) name = c.place? scope name := by
  rw [place?, place?, h.embeds.resolve?_eq h.sound h.sound' hseen]
  cases c.table.resolve? scope name with
  | none => rfl
  | some id =>
    simp only [Option.map_some, h.embeds.symbol, Symbol.rename]
    cases (c.table.symbol id).kind with
    | argument | localVariable =>
      simp only [SymbolKind.rename, h.embeds.depth?_eq h.sound h.sound']
    | _ => rfl

theorem classNameOf_eq (scope : ScopeId) :
    c'.classNameOf (r.scope scope) = c.classNameOf scope := by
  rw [classNameOf, classNameOf, h.embeds.enclosingClass?_eq h.sound h.sound', Option.map_map]
  congr 2
  funext s
  exact (h.embeds.scope s).name

/-- A scope in sight is parallel to what it is embedded as. -/
theorem parallel (hseen : r.seen scope) : Parallel c c' scope (r.scope scope) where
  marks := h.marks
  marks' := h.marks'
  qualifiedName := h.embeds.qualifiedName_eq h.sound h.sound' scope
  classNameOf := h.classNameOf_eq scope
  place? := h.place?_eq hseen
  block index := by
    have hkind := (h.embeds.scope scope).kind
    generalize (c.table.scope scope).kind = k at hkind ⊢
    generalize (c'.table.scope (r.scope scope)).kind = k' at hkind ⊢
    cases hkind <;> simp
  isClassSide := by
    have hkind := (h.embeds.scope scope).kind
    rw [isClassSide, isClassSide]
    generalize (c.table.scope scope).kind = k at hkind ⊢
    generalize (c'.table.scope (r.scope scope)).kind = k' at hkind ⊢
    cases hkind <;> rfl
  argumentCount := (h.embeds.content hseen).argumentCount
  localCount := by
    have hcontent := h.embeds.content hseen
    rw [Scope.localCount, Scope.localCount, hcontent.slotCount, hcontent.argumentCount]

end Mirrored

/-- The blocks of a tree are in sight, and have the numbers that the notes will be replaced by. -/
def Follows (r : Renaming) (f : ScopeId → ScopeId)
    (bs : List OpenedBlock) : Prop :=
  ∀ b ∈ bs, r.seen b.1 ∧ f b.1 = r.scope b.1

end CodeContext

/-- **Two methods that will be written in the same way**, in contexts that mirror each other. -/
structure Job.Follows (r : Renaming) (job job' : Job) : Prop where
  scope : job'.scope = r.scope job.scope
  seen : r.seen job.scope
  body : ∃ (f : ScopeId → ScopeId) (as : List (Statement ScopeId)),
    job.body.statements = Statement.mapAll id Token.unplaced as ∧
      job'.body.statements = Statement.mapAll f id as ∧
        CodeContext.Follows r f (statementsBlocks as)

theorem Job.Follows.parallel (hjob : Job.Follows r job job') (h : Mirrored r c c') :
    Job.Parallel c c' job job' := by
  obtain ⟨f, as, has, has', hblocks⟩ := hjob.body
  refine ⟨?_, f, Token.unplaced, id, as, fun _ => rfl, has, has', fun b hb => ?_⟩
  · rw [hjob.scope]
    exact h.parallel hjob.seen
  · obtain ⟨hseen, heq⟩ := hblocks b hb
    rw [heq]
    exact h.parallel hseen

/-! ### Assignments -/

section Targets

variable {F : ScopeId → ScopeId} (g : Token → Token)

theorem statementsTargets_map_of {ss : List (Statement ScopeId)}
    (h : ∀ s ∈ ss, exprTargets (F scope) (s.value.map f g) =
      (exprTargets scope s.value).map fun a => (F a.1, g a.2)) :
    statementsTargets (F scope) (Statement.mapAll f g ss) =
      (statementsTargets scope ss).map fun a => (F a.1, g a.2) := by
  rw [Statement.mapAll_eq, statementsTargets_eq, statementsTargets_eq, List.flatMap_map,
    List.map_flatMap]
  refine List.flatMap_congr fun s hs => ?_
  have hvalue := h s hs
  cases s with
  | assignment target value =>
    rw [Statement.map, statementTargets, statementTargets, List.map_append]
    exact congrArg (· ++ _) hvalue
  | _ => exact hvalue

theorem exprTargets_map (e : Expr ScopeId) (scope : ScopeId)
    (h : ∀ b ∈ exprBlocks e, f b.1 = F b.1) :
    exprTargets (F scope) (e.map f g) = (exprTargets scope e).map fun a => (F a.1, g a.2) := by
  induction e using Expr.byChildren generalizing scope with
  | _ e ih =>
    rw [exprBlocks_eq, List.forall_mem_append, List.forall_mem_flatMap] at h
    have hbody := Expr.body?_map f g e
    cases hb : e.body? with
    | none =>
      rw [hb] at hbody
      rw [exprTargets_of_none hb, exprTargets_of_none hbody, exprsTargets_eq, exprsTargets_eq,
        Expr.children_map, List.flatMap_map, List.map_flatMap]
      exact List.flatMap_congr fun d hd => ih d hd scope (h.1 d hd)
    | some b =>
      rw [hb] at hbody h
      rw [Expr.children_of_body? hb] at ih h
      rw [exprTargets_of_some hb, exprTargets_of_some hbody]
      dsimp only
      rw [h.2 b (List.mem_singleton_self b)]
      refine statementsTargets_map_of g fun s hs => ?_
      exact ih _ (List.mem_map_of_mem hs) b.1 (h.1 _ (List.mem_map_of_mem hs))

/-- **The assignments of a tree with other notes and tokens.** -/
theorem statementsTargets_map (scope : ScopeId) (ss : List (Statement ScopeId))
    (h : ∀ b ∈ statementsBlocks ss, f b.1 = F b.1) :
    statementsTargets (F scope) (Statement.mapAll f g ss) =
      (statementsTargets scope ss).map fun a => (F a.1, g a.2) := by
  rw [statementsBlocks_eq, List.forall_mem_flatMap] at h
  exact statementsTargets_map_of g fun s hs =>
    exprTargets_map g s.value scope (h _ (List.mem_map_of_mem hs))

end Targets

/-- An assignment is wrong on both sides, or on none. -/
theorem Embeds.assignmentError?_cause {t t' : SymbolTable} (h : Embeds r t t') (hsound : t.Sound)
    (hsound' : t'.Sound) (hseen : r.seen scope) (target : Token) :
    (t'.assignmentError? (r.scope scope) target).map CompileError.cause =
      (t.assignmentError? scope target.unplaced).map CompileError.cause := by
  have hname : target.unplaced.name = target.name := rfl
  rw [assignmentError?, assignmentError?, hname, h.resolve?_eq hsound hsound' hseen,
    h.qualifiedName_eq hsound hsound']
  cases t.resolve? scope target.name with
  | none => rfl
  | some id =>
    simp only [Option.map_some, h.symbol, Symbol.rename, SymbolKind.isVariable_rename]
    split <;> rfl

namespace Compilation

/-- **The same becomes of both methods.**  Their assignments are wrong for the same reasons, and
they get the same code, or none for the same reason. -/
theorem wrongAssignments_mirrors (h : Mirrored r c c') (hjob : Job.Follows r job job') :
    (c'.table.wrongAssignments job').toList.map CompileError.cause =
      (c.table.wrongAssignments job).toList.map CompileError.cause := by
  obtain ⟨f, as, has, has', hblocks⟩ := hjob.body
  have htargets := statementsTargets_map (F := id) (f := id) Token.unplaced job.scope as
    fun _ _ => rfl
  have htargets' := statementsTargets_map (F := r.scope) id job.scope as
    fun b hb => (hblocks b hb).2
  rw [wrongAssignments_eq, wrongAssignments_eq, has, has', hjob.scope, htargets']
  change _ = List.map _ (List.filterMap _ (statementsTargets (id job.scope) _))
  rw [htargets]
  simp only [List.filterMap_map, List.map_filterMap]
  refine List.filterMap_congr fun a ha => ?_
  have hseen : r.seen a.1 := by
    rcases statementsTargets_scope job.scope as a ha with heq | hmem
    · exact heq ▸ hjob.seen
    · obtain ⟨b, hb, heq⟩ := List.mem_map.1 hmem
      exact heq ▸ (hblocks b hb).1
  exact h.embeds.assignmentError?_cause h.sound h.sound' hseen a.2

end Compilation

end Smalltalk
