/-
**What is written for a tree.**

Code is written instruction by instruction into a buffer, next to a pool of literals that the
instructions refer to by position, and the code of blocks is put aside by number. What is written
can be said without buffer and pool: a tree stands for a list of operations that name their
literals, and for the blocks inside of it, in the order in which they are finished. If writing
succeeds, the instructions in the buffer are those operations, with the positions that the names
have in the finished pool.

* `CodeContext.exprOps`, `statementsOps`, `blockOps`, `methodOps` — **the operations of a
  tree**;
* `CodeContext.emitExpr_writes` — **what is written for an expression**;
* `CodeContext.methodCode_isCode` — **the code of a method**.
-/

import Mathlib.Data.List.Forall2
import Smalltalk.Compile.Emit
import Smalltalk.Proofs.Action
import Smalltalk.Proofs.Encoding
import Smalltalk.Proofs.Interning

namespace Smalltalk

variable {blocks : Array (Option CompiledCode)} {code : CompiledCode} {literals : Array String}
  {i : Instruction} {ops : List Op} {scope : ScopeId} {text : String} {β : Type} {op : Op}

/-- Is it the mistake of a tree with a part that could not be read? -/
def CompileError.Cause.isInvalidTree : CompileError.Cause → Bool
  | invalidTree _ => true
  | _ => false

/-! ### Operations -/

/-- **An instruction that names its literal.** -/
inductive Op where
  /-- An instruction without literal. -/
  | plain (i : Instruction)
  /-- Put the top operands in an array. -/
  | array (count : Nat)
  | literal (text : String)
  | global (name : String)
  | send (toSuper : Bool) (count : Nat) (selector : String)
  /-- What there is no instruction for. -/
  | invalid

/-- The instruction that an operation is written as, with some literals. -/
inductive Op.Written (literals : Array String) : Op → Instruction → Prop
  | plain {i : Instruction} (h : i.usesLiteral = false) : Op.Written literals (.plain i) i
  | array {count : Nat} {c : UInt16} (hc : c.toNat = count) :
      Op.Written literals (.array count) (.pushArray c)
  | literal {text : String} {a : UInt16} (h : literals[a.toNat]? = some text) :
      Op.Written literals (.literal text) (.pushLiteral a)
  | global {name : String} {a : UInt16} (h : literals[a.toNat]? = some name) :
      Op.Written literals (.global name) (.pushGlobal a)
  | send {count : Nat} {selector : String} {c a : UInt16} (hc : c.toNat = count)
      (h : literals[a.toNat]? = some selector) :
      Op.Written literals (.send false count selector) (.send c a)
  | sendSuper {count : Nat} {selector : String} {c a : UInt16} (hc : c.toNat = count)
      (h : literals[a.toNat]? = some selector) :
      Op.Written literals (.send true count selector) (.sendSuper c a)

theorem getElem?_grows {texts texts' : Array String} (h : texts.toList <+: texts'.toList) {n : Nat}
    (hn : texts[n]? = some text) : texts'[n]? = some text := by
  obtain ⟨more, hmore⟩ := h
  rw [← Array.getElem?_toList] at hn ⊢
  grind

/-- What was written stays right when literals are added. -/
theorem Op.Written.mono {literals' : Array String} (h : literals.toList <+: literals'.toList)
    (hop : op.Written literals i) : op.Written literals' i := by
  cases hop with
  | plain hi => exact .plain hi
  | array hc => exact .array hc
  | literal ha => exact .literal (getElem?_grows h ha)
  | global ha => exact .global (getElem?_grows h ha)
  | send hc ha => exact .send hc (getElem?_grows h ha)
  | sendSuper hc ha => exact .sendSuper hc (getElem?_grows h ha)

namespace CodeContext

variable (c : CodeContext)

/-! ### The operations of a tree -/

/-- The operation that records a place. -/
def markOps (span : Span) : List Op :=
  if c.marks then
    let place := c.lines.location span.start
    [.plain (.mark 0 (clamp place.line) (clamp place.column))]
  else []

/-- The operation of a literal. -/
def literalOp : Literal → Op
  | .nil => .plain .pushNil
  | .boolean value => .plain (if value then .pushTrue else .pushFalse)
  | .receiver => .plain .pushSelf
  | .integer value => .plain (.pushInteger value.toUInt32)
  | .float value => .plain (.pushFloat value.bits)
  | .character value => .plain (.pushCharacter value.val)
  | .string value | .symbol value => .literal value

/-- The operations that push a variable or a global. -/
def variableOps (scope : ScopeId) (name : Token) : List Op :=
  match c.place? scope name.text with
  | some (.field index) => [.plain (.pushField (UInt16.ofNat index))]
  | some (.slot depth index) =>
    [.plain (.pushLocal (UInt16.ofNat depth) (UInt16.ofNat index))]
  | none => c.markOps name.span ++ [.global name.text]

/-- The operations that store in a variable. -/
def storeOps (scope : ScopeId) (target : Token) : List Op :=
  match c.place? scope target.name with
  | some (.field index) => [.plain (.storeField (UInt16.ofNat index))]
  | some (.slot depth index) =>
    [.plain (.storeLocal (UInt16.ofNat depth) (UInt16.ofNat index))]
  | none => [.invalid]

/-- The number of the block with a scope. -/
def blockNumber (body : ScopeId) : Nat :=
  match (c.table.scope body).kind with
  | .block index => index
  | _ => 0

mutual

/-- **The operations of an expression.** -/
def exprOps (scope : ScopeId) : Expr ScopeId → List Op
  | .array _ items _ => exprsOps scope items ++ [.array items.length]
  | .block _ _ _ _ _ body => [.plain (.block (UInt16.ofNat (c.blockNumber body)))]
  | .group _ inner _ => exprOps scope inner
  | .literal _ _ value => [literalOp value]
  | .unary receiver selector =>
    exprOps scope receiver ++ c.markOps selector.span ++ [.send receiver.isSuper 0 selector.text]
  | .binary receiver operator argument =>
    exprOps scope receiver ++ exprOps scope argument ++ c.markOps operator.span
      ++ [.send receiver.isSuper 1 operator.text]
  | .keyword receiver keywords arguments =>
    exprOps scope receiver ++ exprsOps scope arguments ++ c.markOps (firstSpan keywords)
      ++ [.send receiver.isSuper arguments.length (joinTexts keywords)]
  | .super _ => [.plain .pushSelf]
  | .variable name => c.variableOps scope name
  | .invalid _ => [.invalid]

/-- The operations of some expressions. -/
def exprsOps (scope : ScopeId) : List (Expr ScopeId) → List Op
  | [] => []
  | e :: es => exprOps scope e ++ exprsOps scope es

end

/-- **The operations of a statement.** -/
def statementOps (scope : ScopeId) : Statement ScopeId → List Op
  | .assignment target value =>
    c.exprOps scope value ++ c.markOps (target.span.merge value.span) ++ c.storeOps scope target
  | .answer caret value => c.exprOps scope value ++ c.markOps caret.span ++ [.plain .methodReturn]
  | .expression value => c.exprOps scope value

/-- The operations of some statements. -/
def statementsOps (scope : ScopeId) : List (Statement ScopeId) → List Op
  | [] => []
  | [s] => c.statementOps scope s
  | s :: ss => c.statementOps scope s ++ .plain .pop :: statementsOps scope ss

theorem statementsOps_cons_cons (scope : ScopeId) (s s' : Statement ScopeId)
    (ss : List (Statement ScopeId)) :
    c.statementsOps scope (s :: s' :: ss)
      = c.statementOps scope s ++ .plain .pop :: c.statementsOps scope (s' :: ss) := rfl

/-- **The operations of a block.** -/
def blockOps (body : ScopeId) (statements : List (Statement ScopeId)) : List Op :=
  (if statements.isEmpty then [.plain .pushNil] else c.statementsOps body statements)
    ++ if endsWithAnswer statements then [] else [.plain .blockReturn]

/-- The operations that answer the receiver. -/
def answerSelfOps (span : Span) : List Op :=
  c.markOps span ++ [.plain .pushSelf, .plain .methodReturn]

/-- **The operations of a method.** -/
def methodOps (job : Job) : List Op :=
  c.statementsOps job.scope job.body.statements ++
    match job.body.statements.getLast? with
    | none => c.answerSelfOps job.span
    | some last => if last.isAnswer then [] else .plain .pop :: c.answerSelfOps last.span

end CodeContext

/-! ### The parts of a tree -/

section Parts

/-- The expressions right inside of an expression. -/
def Expr.children : Expr β → List (Expr β)
  | .array _ items _ => items
  | .block _ _ _ statements _ _ => statements.map Statement.value
  | .group _ inner _ => [inner]
  | .unary receiver _ => [receiver]
  | .binary receiver _ argument => [receiver, argument]
  | .keyword receiver _ arguments => receiver :: arguments
  | .literal _ _ _ | .super _ | .variable _ | .invalid _ => []

/-- The note of a block, with its statements. -/
def Expr.body? : Expr β → Option (β × List (Statement β))
  | .block _ _ _ statements _ note => some (note, statements)
  | _ => none

theorem Expr.children_of_body? {e : Expr β} {b : β × List (Statement β)} (h : e.body? = some b) :
    e.children = b.2.map Statement.value := by
  cases e <;> cases h
  rfl

mutual

/-- **What holds of a tree if it holds of its parts** holds of every tree. -/
theorem Expr.byChildren {P : Expr β → Prop} (h : ∀ e, (∀ d ∈ e.children, P d) → P e) :
    ∀ e : Expr β, P e
  | .array _ items _ => h _ (Expr.allByChildren h items)
  | .block _ _ _ statements _ _ =>
    h _ (List.forall_mem_map.2 (Statement.allByChildren h statements))
  | .group _ inner _ => h _ (List.forall_mem_singleton.2 (Expr.byChildren h inner))
  | .unary receiver _ => h _ (List.forall_mem_singleton.2 (Expr.byChildren h receiver))
  | .binary receiver _ argument => h _ (List.forall_mem_cons.2
      ⟨Expr.byChildren h receiver, List.forall_mem_singleton.2 (Expr.byChildren h argument)⟩)
  | .keyword receiver _ arguments =>
    h _ (List.forall_mem_cons.2 ⟨Expr.byChildren h receiver, Expr.allByChildren h arguments⟩)
  | .literal _ _ _ | .super _ | .variable _ | .invalid _ => h _ nofun

theorem Expr.allByChildren {P : Expr β → Prop} (h : ∀ e, (∀ d ∈ e.children, P d) → P e) :
    ∀ es : List (Expr β), ∀ e ∈ es, P e
  | [] => nofun
  | e :: es => List.forall_mem_cons.2 ⟨Expr.byChildren h e, Expr.allByChildren h es⟩

theorem Statement.allByChildren {P : Expr β → Prop} (h : ∀ e, (∀ d ∈ e.children, P d) → P e) :
    ∀ ss : List (Statement β), ∀ s ∈ ss, P s.value
  | [] => nofun
  | .assignment _ value :: ss | .answer _ value :: ss | .expression value :: ss =>
    List.forall_mem_cons.2 ⟨Expr.byChildren h value, Statement.allByChildren h ss⟩

end

end Parts

/-! ### The blocks of a tree -/

/-- A block: its scope and its statements. -/
abbrev OpenedBlock := ScopeId × List (Statement ScopeId)

mutual

/-- The blocks of an expression, those inside of a block before it, with their scopes. -/
def exprBlocks : Expr ScopeId → List OpenedBlock
  | .array _ items _ => exprsBlocks items
  | .block _ _ _ statements _ body => statementsBlocks statements ++ [(body, statements)]
  | .group _ inner _ => exprBlocks inner
  | .unary receiver _ => exprBlocks receiver
  | .binary receiver _ argument => exprBlocks receiver ++ exprBlocks argument
  | .keyword receiver _ arguments => exprBlocks receiver ++ exprsBlocks arguments
  | .literal _ _ _ | .super _ | .variable _ | .invalid _ => []

/-- The blocks of some expressions. -/
def exprsBlocks : List (Expr ScopeId) → List OpenedBlock
  | [] => []
  | e :: es => exprBlocks e ++ exprsBlocks es

/-- The blocks of a statement. -/
def statementBlocks : Statement ScopeId → List OpenedBlock
  | .assignment _ value | .answer _ value | .expression value => exprBlocks value

/-- The blocks of some statements. -/
def statementsBlocks : List (Statement ScopeId) → List OpenedBlock
  | [] => []
  | s :: ss => statementBlocks s ++ statementsBlocks ss

end

theorem exprsBlocks_eq (es : List (Expr ScopeId)) : exprsBlocks es = es.flatMap exprBlocks := by
  induction es with
  | nil => rfl
  | cons e es ih => rw [exprsBlocks, ih, List.flatMap_cons]

theorem statementsBlocks_eq (ss : List (Statement ScopeId)) :
    statementsBlocks ss = (ss.map Statement.value).flatMap exprBlocks := by
  induction ss with
  | nil => rfl
  | cons s ss ih =>
    rw [statementsBlocks, ih, List.map_cons, List.flatMap_cons]
    cases s <;> rfl

/-- The blocks of an expression are those of its parts, and itself. -/
theorem exprBlocks_eq (e : Expr ScopeId) :
    exprBlocks e = e.children.flatMap exprBlocks ++ e.body?.toList := by
  cases e <;> simp [exprBlocks, Expr.children, Expr.body?, exprsBlocks_eq, statementsBlocks_eq]

theorem exprBlocks_subset {e : Expr ScopeId} {es : List (Expr ScopeId)} (h : e ∈ es) :
    exprBlocks e ⊆ es.flatMap exprBlocks :=
  fun _ hb => List.mem_flatMap.2 ⟨e, h, hb⟩

/-! ### What has been written -/

namespace CodeContext

variable {c : CodeContext} {ops' : List Op} {bs bs' : List OpenedBlock}
  {s s' s'' : Emission} {α : Type} {x : Emitting α} {body : ScopeId} {index : Nat}
  {f : α → Emitting β}

/-- **Code that consists of some operations**, with a pool that holds each literal once, the name of
the file first if places are recorded. -/
def IsCode (c : CodeContext) (scope : ScopeId) (ops : List Op) (blocks : Array CompiledCode)
    (isClassMethod : Bool) (code : CompiledCode) : Prop :=
  ∃ buffer : CodeBuffer, code = c.code scope buffer blocks isClassMethod ∧
    buffer.literals.Valid ∧
    (c.marks = true → buffer.literals.texts[0]? = some c.fileName) ∧
    List.Forall₂ (Op.Written buffer.literals.texts) ops buffer.instructions.toList

/-- The number and the code of a block. -/
def IsBlockCode (c : CodeContext) (block : OpenedBlock)
    (numbered : Nat × CompiledCode) : Prop :=
  (c.table.scope block.1).kind = .block numbered.1 ∧
    c.IsCode block.1 (c.blockOps block.1 block.2) #[] false numbered.2

/-- Keep the code of some blocks. -/
def putBlocks (blocks : Array (Option CompiledCode)) (codes : List (Nat × CompiledCode)) :
    Array (Option CompiledCode) :=
  codes.foldl (fun blocks numbered => Emission.putBlock blocks numbered.1 numbered.2) blocks

/-- Some operations were written and some blocks were finished. -/
structure Wrote (c : CodeContext) (ops : List Op) (blocks : List OpenedBlock)
    (s s' : Emission) : Prop where
  valid : s'.buffer.literals.Valid
  grows : s.buffer.literals.texts.toList <+: s'.buffer.literals.texts.toList
  instructions : ∃ is, s'.buffer.instructions.toList = s.buffer.instructions.toList ++ is ∧
    List.Forall₂ (Op.Written s'.buffer.literals.texts) ops is
  blocks : ∃ codes, List.Forall₂ c.IsBlockCode blocks codes ∧
    s'.blocks = putBlocks s.blocks codes

/-- There is something among the operations and blocks that cannot be written. -/
def Lacks (c : CodeContext) (ops : List Op) (blocks : List OpenedBlock) :
    Prop :=
  .invalid ∈ ops ∨ ∃ b ∈ blocks,
    (c.table.scope b.1).kind.isBlock = false ∨ .invalid ∈ c.blockOps b.1 b.2

theorem Lacks.mono (h : c.Lacks ops bs) (hops : ops ⊆ ops') (hbs : bs ⊆ bs') : c.Lacks ops' bs' :=
  h.imp (hops ·) fun ⟨b, hb, hlacks⟩ => ⟨b, hbs hb, hlacks⟩

/-- **A way of writing** that, if it succeeds, writes some operations and finishes some blocks, and
complains about the tree only if one of them cannot be written. -/
structure Writes {α : Type} (c : CodeContext) (x : Emitting α) (ops : List Op)
    (blocks : List OpenedBlock) : Prop where
  wrote {s : Emission} {a : α} {s' : Emission} :
    x s = .ok (a, s') → s.buffer.literals.Valid → Wrote c ops blocks s s'
  lacks {s : Emission} {e : CompileError} :
    x s = .error e → e.cause.isInvalidTree = true → c.Lacks ops blocks

theorem Wrote.trans (h : Wrote c ops bs s s') (h' : Wrote c ops' bs' s' s'') :
    Wrote c (ops ++ ops') (bs ++ bs') s s'' := by
  refine ⟨h'.valid, h.grows.trans h'.grows, ?_, ?_⟩
  · obtain ⟨is, his, hops⟩ := h.instructions
    obtain ⟨is', his', hops'⟩ := h'.instructions
    refine ⟨is ++ is', ?_, List.rel_append (hops.imp fun _ _ => Op.Written.mono h'.grows) hops'⟩
    rw [his', his, List.append_assoc]
  · obtain ⟨codes, hcodes, hblocks⟩ := h.blocks
    obtain ⟨codes', hcodes', hblocks'⟩ := h'.blocks
    refine ⟨codes ++ codes', List.rel_append hcodes hcodes', ?_⟩
    rw [hblocks', hblocks, putBlocks, putBlocks, putBlocks, List.foldl_append]

theorem bind_eq_ok {b : β} (h : (x >>= f) s = .ok (b, s'')) :
    ∃ a s', x s = .ok (a, s') ∧ f a s' = .ok (b, s'') := by
  change (x s >>= fun r => f r.1 r.2) = .ok (b, s'') at h
  cases hx : x s with
  | error e => rw [hx] at h; cases h
  | ok r => rw [hx] at h; exact ⟨r.1, r.2, rfl, h⟩

theorem Writes.bind (hx : c.Writes x ops bs) (hf : ∀ a, c.Writes (f a) ops' bs') :
    c.Writes (x >>= f) (ops ++ ops') (bs ++ bs') where
  wrote h hs := by
    obtain ⟨a, s', hxs, hfs⟩ := bind_eq_ok h
    have hwrote := hx.wrote hxs hs
    exact hwrote.trans ((hf a).wrote hfs hwrote.valid)
  lacks {s} _ h he := by
    change (x s >>= fun r => f r.1 r.2) = _ at h
    cases hxs : x s with
    | error =>
      rw [hxs] at h
      obtain rfl := Except.error.inj h
      exact (hx.lacks hxs he).mono (List.subset_append_left _ _) (List.subset_append_left _ _)
    | ok r =>
      rw [hxs] at h
      exact ((hf r.1).lacks h he).mono (List.subset_append_right _ _)
        (List.subset_append_right _ _)

/-- What comes after may finish no blocks. -/
theorem Writes.andThen (hx : c.Writes x ops bs) (hf : ∀ a, c.Writes (f a) ops' []) :
    c.Writes (x >>= f) (ops ++ ops') bs := by
  rw [← List.append_nil bs]
  exact hx.bind hf

theorem Writes.pure (a : α) : c.Writes (Pure.pure a : Emitting α) [] [] where
  wrote h hs := by
    obtain ⟨rfl, rfl⟩ := Prod.mk.inj (Except.ok.inj h)
    exact ⟨hs, List.prefix_rfl, ⟨[], by simp, .nil⟩, [], .nil, rfl⟩
  lacks h := by cases h

/-- Ways of writing that fail write whatever is asked for. -/
theorem Writes.fail {cause : String → CompileError.Cause}
    (h : ∀ name, (cause name).isInvalidTree = true → c.Lacks ops bs) (scope : ScopeId)
    (span : Span) : c.Writes (c.fail scope cause span : Emitting α) ops bs where
  wrote h := by cases h
  lacks he := by
    obtain rfl := Except.error.inj he
    exact h _

theorem Writes.emit (h : ∀ literals, op.Written literals i) : c.Writes (emit i) [op] [] where
  wrote hs hvalid := by
    obtain ⟨-, rfl⟩ := Prod.mk.inj (Except.ok.inj hs)
    exact ⟨hvalid, List.prefix_rfl, ⟨[i], by simp [CodeBuffer.emit], .cons (h _) .nil⟩, [], .nil,
      rfl⟩
  lacks h := by cases h

theorem Writes.emit_plain (h : i.usesLiteral = false) :
    c.Writes (CodeContext.emit i) [.plain i] [] :=
  Writes.emit fun _ => .plain h

/-- A literal is looked up, and an instruction is written with its position. -/
theorem Writes.literal {i : UInt16 → Instruction} (scope : ScopeId) (span : Span)
    (h : ∀ (literals : Array String) (a : UInt16), literals[a.toNat]? = some text →
      op.Written literals (i a)) :
    c.Writes (c.literal scope text span >>= fun a => CodeContext.emit (i a)) [op] [] where
  wrote {s} _ _ hs hvalid := by
    obtain ⟨a, s', hliteral, hemit⟩ := bind_eq_ok hs
    obtain ⟨-, rfl⟩ := Prod.mk.inj (Except.ok.inj hemit)
    obtain ⟨⟨instructions, literals⟩, blocks⟩ := s
    rw [CodeContext.literal] at hliteral
    split at hliteral
    case h_2 => cases hliteral
    case h_1 position literals' hintern =>
      obtain ⟨rfl, rfl⟩ : UInt16.ofNat position = a ∧ ⟨⟨instructions, literals'⟩, blocks⟩ = s' := by
        grind
      obtain ⟨hvalid', hgrows, htext, hlt⟩ := LiteralPool.Valid.intern hvalid hintern
      have hposition : (UInt16.ofNat position).toNat = position := by
        rw [UInt16.toNat_ofNat']
        exact Nat.mod_eq_of_lt hlt
      refine ⟨hvalid', hgrows, ⟨[i (UInt16.ofNat position)], by simp [CodeBuffer.emit], ?_⟩,
        [], .nil, rfl⟩
      exact .cons (h _ _ (by rw [hposition]; exact htext)) .nil
  lacks {s} _ hs he := by
    change (c.literal scope text span s >>= fun r => CodeContext.emit (i r.1) r.2) = _ at hs
    rw [CodeContext.literal] at hs
    split at hs
    · cases hs
    · obtain rfl := Except.error.inj hs
      cases he

theorem mark_writes (span : Span) : c.Writes (c.mark span) (c.markOps span) [] := by
  rw [CodeContext.mark, markOps]
  split
  · exact Writes.emit_plain rfl
  · exact Writes.pure ()

section

variable (scope : ScopeId)

theorem emitLiteral_writes (value : Literal) (span : Span) :
    c.Writes (c.emitLiteral scope value span) [literalOp value] [] := by
  cases value with
  | nil | receiver | integer value | float value | character value => exact Writes.emit_plain rfl
  | boolean value => cases value <;> exact Writes.emit_plain rfl
  | string value | symbol value => exact Writes.literal scope span fun _ _ => .literal

theorem emitVariable_writes (name : Token) :
    c.Writes (c.emitVariable scope name) (c.variableOps scope name) [] := by
  rw [emitVariable, variableOps]
  cases c.place? scope name.text with
  | none =>
    exact (mark_writes name.span).bind fun _ => Writes.literal scope name.span fun _ _ => .global
  | some place =>
    cases place with
    | field index | slot depth index => exact Writes.emit_plain rfl

theorem emitStore_writes (target : Token) :
    c.Writes (c.emitStore scope target) (c.storeOps scope target) [] := by
  rw [emitStore, storeOps]
  cases c.place? scope target.name with
  | none => exact Writes.fail (fun _ _ => .inl (List.mem_singleton_self _)) scope target.span
  | some place =>
    cases place with
    | field index | slot depth index => exact Writes.emit_plain rfl

/-- What comes after a count may use that it is one that can be written. -/
theorem countOf_writes {f : UInt16 → Emitting β} (count : Nat) (span : Span)
    (hf : ∀ n : UInt16, n.toNat = count → c.Writes (f n) ops bs) :
    c.Writes (c.countOf scope count span >>= f) ops bs := by
  rw [CodeContext.countOf]
  split
  case isTrue hlt => exact hf _ (UInt16.toNat_ofNat_of_lt' hlt)
  case isFalse =>
    have hcause (name : String) (h : (CompileError.Cause.tooManyItems name).isInvalidTree = true) :
        c.Lacks ops bs := by cases h
    exact Writes.fail hcause scope span

theorem emitSend_writes (toSuper : Bool) (selector : String) (count : Nat) (span : Span) :
    c.Writes (c.emitSend scope toSuper selector count span)
      (c.markOps span ++ [.send toSuper count selector]) [] := by
  refine countOf_writes scope count span fun n hn => (mark_writes span).bind fun _ => ?_
  cases toSuper with
  | false => exact Writes.literal scope span fun _ _ => .send hn
  | true => exact Writes.literal scope span fun _ _ => .sendSuper hn

end

/-- Where the code of a method or block starts. -/
theorem newBuffer_valid (c : CodeContext) :
    c.newBuffer.literals.Valid ∧
      (c.marks = true → c.newBuffer.literals.texts[0]? = some c.fileName) := by
  have hpool : LiteralPool.empty.intern c.fileName
      = (some 0, (LiteralPool.empty.intern c.fileName).2) := by
    simp [LiteralPool.intern, LiteralPool.empty, LiteralPool.capacity]
  obtain ⟨hvalid, -, htext, -⟩ := LiteralPool.empty_valid.intern hpool
  rw [newBuffer]
  split
  case isTrue => exact ⟨hvalid, fun _ => htext⟩
  case isFalse hmarks => exact ⟨LiteralPool.empty_valid, fun h => absurd h hmarks⟩

theorem newBuffer_instructions (c : CodeContext) : c.newBuffer.instructions = #[] := by
  rw [newBuffer]
  split <;> rfl

/-- The code of what was written from the start. -/
theorem Wrote.isCode (h : Wrote c ops bs s s') (hs : s.buffer = c.newBuffer) (scope : ScopeId)
    (blocks : Array CompiledCode) (isClassMethod : Bool) :
    c.IsCode scope ops blocks isClassMethod (c.code scope s'.buffer blocks isClassMethod) := by
  obtain ⟨is, his, hops⟩ := h.instructions
  refine ⟨s'.buffer, rfl, h.valid, fun hmarks => ?_, ?_⟩
  · refine getElem?_grows h.grows ?_
    rw [hs]
    exact (newBuffer_valid c).2 hmarks
  · rw [his, hs, newBuffer_instructions]
    simpa using hops

/-- A block is written on its own, and an operation that makes it is written around it. -/
theorem block_writes {x : Emitting Unit} {statements : List (Statement ScopeId)}
    (hkind : (c.table.scope body).kind = .block index)
    (hx : c.Writes x (c.blockOps body statements) (statementsBlocks statements)) :
    c.Writes (c.openBlock >>= fun outer => x >>= fun _ => c.closeBlock body index outer)
      [.plain (.block (UInt16.ofNat (c.blockNumber body)))]
      (statementsBlocks statements ++ [(body, statements)]) where
  wrote h hvalid := by
    obtain ⟨outer, inside, hopen, hbody⟩ := bind_eq_ok h
    obtain ⟨rfl, rfl⟩ := Prod.mk.inj (Except.ok.inj hopen)
    obtain ⟨_, s', hxs, hclose⟩ := bind_eq_ok hbody
    obtain ⟨-, rfl⟩ := Prod.mk.inj (Except.ok.inj hclose)
    have hwrote := hx.wrote hxs (newBuffer_valid c).1
    have hnumber : c.blockNumber body = index := by rw [blockNumber, hkind]
    obtain ⟨codes, hcodes, hblocks⟩ := hwrote.blocks
    refine ⟨hvalid, List.prefix_rfl, ⟨[.block (UInt16.ofNat index)], by simp [CodeBuffer.emit], ?_⟩,
      codes ++ [(index, c.code body s'.buffer #[] false)], ?_, ?_⟩
    · rw [hnumber]
      exact .cons (.plain rfl) .nil
    · exact List.rel_append hcodes (.cons ⟨hkind, hwrote.isCode rfl body #[] false⟩ .nil)
    · rw [putBlocks, List.foldl_append]
      exact congrArg (Emission.putBlock · index _) hblocks
  lacks {s} _ h he := by
    change (x ⟨c.newBuffer, s.blocks⟩ >>= fun r => c.closeBlock body index s.buffer r.2) = _ at h
    cases hxs : x ⟨c.newBuffer, s.blocks⟩ with
    | ok r => rw [hxs] at h; cases h
    | error =>
      rw [hxs] at h
      obtain rfl := Except.error.inj h
      -- What is wrong inside of the block is now wrong with one of the blocks.
      refine (hx.lacks hxs he).elim (fun hops => .inr ⟨(body, statements), by simp, .inr hops⟩) ?_
      exact fun hblocks => Lacks.mono (.inr hblocks) (List.nil_subset _)
        (List.subset_append_left _ _)

/-- Write the statements of a block. -/
def emitBlock (c : CodeContext) (body : ScopeId) (statements : List (Statement ScopeId)) :
    Emitting Unit :=
  (if statements.isEmpty then emit .pushNil else emitStatements c body statements) >>= fun _ =>
    if endsWithAnswer statements then pure () else emit .blockReturn

/-- A block is written between the opening and the closing of its code. -/
theorem emitExpr_block (scope : ScopeId) (opening : Token) (parameters locals : List Token)
    (statements : List (Statement ScopeId)) (closing : Option Token)
    (hkind : (c.table.scope body).kind = .block index) :
    emitExpr c scope (.block opening parameters locals statements closing body)
      = c.openBlock >>= fun outer => c.emitBlock body statements >>= fun _ =>
          c.closeBlock body index outer := by
  rw [emitExpr.eq_def]
  simp only [hkind, emitBlock]
  congr 1
  funext outer
  cases statements.isEmpty <;> cases endsWithAnswer statements <;>
    simp only [bind_assoc, pure_bind, if_true, if_false, Bool.false_eq_true]

/-- Statements are written, and the value of each but the last is dropped. -/
theorem statements_cons_writes {x y : Emitting Unit} {s : Statement ScopeId}
    {ss : List (Statement ScopeId)} (hx : c.Writes x (c.statementOps scope s) bs)
    (hy : c.Writes y (c.statementsOps scope ss) bs') : c.Writes
      (do
        x
        unless ss.isEmpty do emit .pop
        y)
      (c.statementsOps scope (s :: ss)) (bs ++ bs') := by
  cases ss with
  | nil =>
    have h := hx.bind fun _ => hy
    rw [statementsOps, List.append_nil] at h
    exact h
  | cons s' ss =>
    exact hx.bind fun _ => (Writes.emit_plain (i := .pop) rfl).bind fun _ => hy

mutual

/-- **What is written for an expression.** -/
theorem emitExpr_writes (scope : ScopeId) :
    ∀ e : Expr ScopeId, c.Writes (emitExpr c scope e) (c.exprOps scope e) (exprBlocks e)
  | .array _ items _ => by
    rw [emitExpr, exprOps, exprBlocks]
    refine (emitExprs_writes scope items).andThen fun _ => ?_
    exact countOf_writes scope items.length _ fun _ hn => Writes.emit fun _ => .array hn
  | .block _ _ _ statements _ body => by
    rw [exprOps, exprBlocks]
    by_cases hkind : ∃ index, (c.table.scope body).kind = .block index
    · obtain ⟨index, hkind⟩ := hkind
      rw [emitExpr_block scope _ _ _ statements _ hkind]
      exact block_writes hkind (emitBlock_writes body statements)
    · rw [emitExpr.eq_def]
      dsimp only
      split
      case h_1 index hindex => exact absurd ⟨index, hindex⟩ hkind
      case h_2 =>
        refine Writes.fail (fun _ _ => .inr ⟨(body, statements), by simp, .inl ?_⟩) scope _
        revert hkind
        cases (c.table.scope body).kind <;> simp [ScopeKind.isBlock]
  | .group _ inner _ => by
    rw [emitExpr, exprOps, exprBlocks]
    exact emitExpr_writes scope inner
  | .literal _ _ value => by
    rw [emitExpr, exprOps, exprBlocks]
    exact emitLiteral_writes scope value _
  | .unary receiver selector => by
    rw [emitExpr, exprOps, exprBlocks, List.append_assoc]
    exact (emitExpr_writes scope receiver).andThen fun _ =>
      emitSend_writes scope receiver.isSuper selector.text 0 selector.span
  | .binary receiver operator argument => by
    rw [emitExpr, exprOps, exprBlocks, List.append_assoc, List.append_assoc]
    exact (emitExpr_writes scope receiver).bind fun _ =>
      (emitExpr_writes scope argument).andThen fun _ =>
        emitSend_writes scope receiver.isSuper operator.text 1 operator.span
  | .keyword receiver keywords arguments => by
    rw [emitExpr, exprOps, exprBlocks, List.append_assoc, List.append_assoc]
    exact (emitExpr_writes scope receiver).bind fun _ =>
      (emitExprs_writes scope arguments).andThen fun _ =>
        emitSend_writes scope receiver.isSuper (joinTexts keywords) arguments.length
          (firstSpan keywords)
  | .super _ => by
    rw [emitExpr, exprOps, exprBlocks]
    exact Writes.emit_plain rfl
  | .variable name => by
    rw [emitExpr, exprOps, exprBlocks]
    exact emitVariable_writes scope name
  | .invalid found => by
    rw [emitExpr, exprOps, exprBlocks]
    exact Writes.fail (fun _ _ => .inl (List.mem_singleton_self _)) scope found.span

/-- What is written for some expressions. -/
theorem emitExprs_writes (scope : ScopeId) :
    ∀ es : List (Expr ScopeId), c.Writes (emitExprs c scope es) (c.exprsOps scope es) (exprsBlocks es)
  | [] => by
    rw [emitExprs, exprsOps, exprsBlocks]
    exact Writes.pure ()
  | e :: es => by
    rw [emitExprs, exprsOps, exprsBlocks]
    exact (emitExpr_writes scope e).bind fun _ => emitExprs_writes scope es

/-- **What is written for a statement.** -/
theorem emitStatement_writes (scope : ScopeId) :
    ∀ s : Statement ScopeId,
      c.Writes (emitStatement c scope s) (c.statementOps scope s) (statementBlocks s)
  | .assignment target value => by
    rw [emitStatement, statementOps, statementBlocks, List.append_assoc]
    exact (emitExpr_writes scope value).andThen fun _ =>
      (mark_writes (target.span.merge value.span)).andThen fun _ => emitStore_writes scope target
  | .answer caret value => by
    rw [emitStatement, statementOps, statementBlocks, List.append_assoc]
    exact (emitExpr_writes scope value).andThen fun _ =>
      (mark_writes caret.span).andThen fun _ => Writes.emit_plain rfl
  | .expression value => by
    rw [emitStatement, statementOps, statementBlocks]
    exact emitExpr_writes scope value

/-- What is written for some statements. -/
theorem emitStatements_writes (scope : ScopeId) :
    ∀ ss : List (Statement ScopeId),
      c.Writes (emitStatements c scope ss) (c.statementsOps scope ss) (statementsBlocks ss)
  | [] => by
    rw [emitStatements, statementsOps, statementsBlocks]
    exact Writes.pure ()
  | s :: ss => by
    rw [emitStatements, statementsBlocks]
    exact statements_cons_writes (emitStatement_writes scope s) (emitStatements_writes scope ss)

/-- What is written for the statements of a block. -/
theorem emitBlock_writes (body : ScopeId) (statements : List (Statement ScopeId)) :
    c.Writes (c.emitBlock body statements) (c.blockOps body statements)
      (statementsBlocks statements) := by
  have hbody : c.Writes
      (if statements.isEmpty then emit .pushNil else emitStatements c body statements)
      (if statements.isEmpty then [.plain .pushNil] else c.statementsOps body statements)
      (statementsBlocks statements) := by
    split
    case isTrue h =>
      rw [List.isEmpty_iff.1 h, statementsBlocks]
      exact Writes.emit_plain rfl
    case isFalse => exact emitStatements_writes body statements
  have hend : c.Writes (if endsWithAnswer statements then pure () else emit .blockReturn)
      (if endsWithAnswer statements then [] else [.plain .blockReturn]) [] := by
    split
    case isTrue => exact Writes.pure _
    case isFalse => exact Writes.emit_plain rfl
  exact hbody.andThen fun _ => hend

end

/-! ### The code of a method -/

theorem emitAnswerSelf_writes (span : Span) :
    c.Writes (c.emitAnswerSelf span) (c.answerSelfOps span) [] :=
  (mark_writes span).andThen fun _ =>
    (Writes.emit_plain (i := .pushSelf) rfl).andThen fun _ => Writes.emit_plain rfl

theorem emitMethod_writes (job : Job) :
    c.Writes (c.emitMethod job) (c.methodOps job) (statementsBlocks job.body.statements) := by
  rw [emitMethod, methodOps]
  refine (emitStatements_writes job.scope job.body.statements).andThen fun _ => ?_
  cases job.body.statements.getLast? with
  | none => exact emitAnswerSelf_writes job.span
  | some last =>
    simp only
    split
    case isTrue => exact Writes.pure ()
    case isFalse =>
      exact (Writes.emit_plain (i := .pop) rfl).andThen fun _ => emitAnswerSelf_writes last.span

/-- Is the method with a scope one of the class itself? -/
def isClassSide (c : CodeContext) (scope : ScopeId) : Bool :=
  match (c.table.scope scope).kind with
  | .method classSide _ => classSide
  | _ => false

/-- What becomes of a method that has been written. -/
theorem methodCode_of_emitMethod {job : Job} {s : Emission}
    (h : (c.emitMethod job).run ⟨c.newBuffer, #[]⟩ = .ok ((), s)) :
    c.methodCode job = (Emission.allBlocks? s.blocks).elim
      (.error ⟨.invalidTree (c.table.qualifiedName job.scope), job.span⟩)
      fun blocks => .ok (c.code job.scope s.buffer blocks (c.isClassSide job.scope)) := by
  obtain ⟨buffer, blocks⟩ := s
  rw [methodCode, h]
  simp only [bind, Except.bind]
  cases Emission.allBlocks? blocks <;> rfl

/-- **The code of a method** consists of its operations, and its blocks are those that were
finished. -/
theorem methodCode_isCode {job : Job} (h : c.methodCode job = .ok code) :
    ∃ codes blocks, List.Forall₂ c.IsBlockCode (statementsBlocks job.body.statements) codes ∧
      Emission.allBlocks? (putBlocks #[] codes) = some blocks ∧
      c.IsCode job.scope (c.methodOps job) blocks (c.isClassSide job.scope) code := by
  cases hemit : (c.emitMethod job).run ⟨c.newBuffer, #[]⟩ with
  | error e => rw [methodCode, hemit] at h; cases h
  | ok result =>
    obtain ⟨⟨⟩, buffer, finished⟩ := result
    rw [methodCode_of_emitMethod hemit] at h
    have hwrote := (emitMethod_writes job).wrote hemit (newBuffer_valid c).1
    obtain ⟨codes, hcodes, rfl⟩ := hwrote.blocks
    cases hblocks : Emission.allBlocks? (putBlocks #[] codes) with
    | none => rw [hblocks] at h; cases h
    | some blocks =>
      rw [hblocks] at h
      obtain rfl := Except.ok.inj h
      exact ⟨codes, blocks, hcodes, hblocks, hwrote.isCode rfl job.scope blocks _⟩

end CodeContext

/-! ### Blocks by number -/

namespace Emission

/-- The code that is kept under a number. -/
def blockAt? (blocks : Array (Option CompiledCode)) (index : Nat) : Option CompiledCode :=
  blocks[index]?.join

theorem blockAt?_putBlock (blocks : Array (Option CompiledCode)) (index i : Nat)
    (code : CompiledCode) :
    blockAt? (putBlock blocks index code) i
      = if index = i then some code else blockAt? blocks i := by
  rw [putBlock, blockAt?, blockAt?, Array.getElem?_setIfInBounds]
  grind

theorem blockAt?_of_allBlocks? {all : Array CompiledCode} (h : allBlocks? blocks = some all)
    (i : Nat) : all[i]? = blockAt? blocks i := by
  rw [allBlocks?] at h
  split at h
  case isFalse => cases h
  case isTrue hall =>
    obtain rfl := Option.some.inj h
    obtain ⟨blocks⟩ := blocks
    rw [List.all_toArray] at hall
    rw [blockAt?, List.filterMap_toArray, List.getElem?_toArray, List.getElem?_toArray]
    induction blocks generalizing i with
    | nil => rfl
    | cons b blocks ih =>
      grind

end Emission

namespace CodeContext

variable {codes : List (Nat × CompiledCode)} {i : Nat}

/-- The code under a number is the code that was kept under this number. -/
theorem mem_of_blockAt?_putBlocks (h : Emission.blockAt? (putBlocks blocks codes) i = some code) :
    (i, code) ∈ codes ∨ Emission.blockAt? blocks i = some code := by
  induction codes generalizing blocks with
  | nil => exact .inr h
  | cons numbered codes ih =>
    obtain hmem | hput := ih h
    · exact .inl (List.mem_cons_of_mem _ hmem)
    · rw [Emission.blockAt?_putBlock] at hput
      grind

/-- Code that is kept under the same numbers is found under the same numbers. -/
theorem blockAt?_putBlocks_rel {R : CompiledCode → CompiledCode → Prop}
    {blocks' : Array (Option CompiledCode)} {codes' : List (Nat × CompiledCode)}
    (hblocks : ∀ i, Option.Rel R (Emission.blockAt? blocks i) (Emission.blockAt? blocks' i))
    (h : List.Forall₂ (fun a b => a.1 = b.1 ∧ R a.2 b.2) codes codes') (i : Nat) :
    Option.Rel R (Emission.blockAt? (putBlocks blocks codes) i)
      (Emission.blockAt? (putBlocks blocks' codes') i) := by
  induction h generalizing blocks blocks' with
  | nil => exact hblocks i
  | cons hnumbered _ ih =>
    refine ih fun i => ?_
    rw [Emission.blockAt?_putBlock, Emission.blockAt?_putBlock, hnumbered.1]
    split
    · exact .some hnumbered.2
    · exact hblocks i

/-- The blocks of a method are the blocks inside of it. -/
theorem block_of_methodCode {c : CodeContext} {bs : List OpenedBlock}
    {blocks : Array CompiledCode} (hcodes : List.Forall₂ c.IsBlockCode bs codes)
    (hblocks : Emission.allBlocks? (putBlocks #[] codes) = some blocks) (h : blocks[i]? = some code) :
    ∃ b ∈ bs, c.IsBlockCode b (i, code) := by
  rw [Emission.blockAt?_of_allBlocks? hblocks] at h
  obtain hmem | hnone := mem_of_blockAt?_putBlocks h
  · exact Forall₂.exists_left hcodes hmem
  · cases hnone

end CodeContext

/-! ### Bytes that spell operations -/

variable {bytes : List UInt8}

/-- The bytes are those of the instructions that some operations are written as. -/
def Spelled (literals : Array String) (bytes : List UInt8) (ops : List Op) : Prop :=
  ∃ is : List Instruction, bytes = is.flatMap Instruction.encode ∧
    List.Forall₂ (Op.Written literals) ops is

theorem Spelled.read?_nil (h : Spelled literals bytes []) : Instruction.read? bytes = none := by
  obtain ⟨is, rfl, hops⟩ := h
  cases hops
  rfl

/-- The next instruction is that of the next operation. -/
theorem Spelled.read?_cons (h : Spelled literals bytes (op :: ops)) :
    ∃ i rest, Instruction.read? bytes = some (i, rest) ∧ op.Written literals i ∧
      Spelled literals rest ops := by
  obtain ⟨is, rfl, hops⟩ := h
  cases hops with
  | @cons _ i _ is hop hops =>
    refine ⟨i, is.flatMap Instruction.encode, ?_, hop, is, rfl, hops⟩
    rw [List.flatMap_cons, Instruction.read?_encode_append]

theorem CodeContext.IsCode.spelled {c : CodeContext} {blocks : Array CompiledCode}
    {isClassMethod : Bool} (h : c.IsCode scope ops blocks isClassMethod code) :
    Spelled code.literals code.code ops := by
  obtain ⟨buffer, rfl, -, -, hops⟩ := h
  exact ⟨buffer.instructions.toList, rfl, hops⟩

end Smalltalk
