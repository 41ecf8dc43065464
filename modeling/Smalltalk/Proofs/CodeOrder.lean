/-
**What comes before an operation.**

The operations of an expression stand in the order in which they run, so that what holds whenever an
operation is reached can be read off from the operations before it: which of the operands are known
to be the receiver, and whether a place has been recorded. The operations of a tree are gone through
once, here; what is said elsewhere about the operations of a method or of a block is said about all
operations that are in order.

* `InOrder` — **operations of which each is written where it may be**;
* `CodeContext.methodOps_inOrder`, `CodeContext.blockOps_inOrder` — **the operations of a method, and
  those of a block, are in order**.
-/

import Smalltalk.Proofs.Trees

namespace Smalltalk

variable {ss : List (Statement ScopeId)} {g : Token → Token} {job : Job}

namespace Op

/-- What is known about the operands after an operation, the top one first: is it the receiver of
the running method? -/
def shape (s : List Bool) : Op → List Bool
  | .plain .pushSelf => true :: s
  | .plain .pop => s.tail
  | .plain (.pushArray count) => false :: s.drop count.toNat
  | .plain (.storeLocal _ _) | .plain (.storeField _) | .plain (.mark _ _ _)
  | .plain .methodReturn | .plain .blockReturn => s
  | .plain _ | .literal _ | .global _ | .invalid => false :: s
  | .array count => false :: s.drop count
  | .send _ count _ => false :: s.drop (count + 1)

/-- **What has to be so where an operation is written**, in the code of a scope with some blocks
inside: a field and a block have the number that they have in the scope, a message to `super` is sent
on behalf of the receiver, and what needs a place comes after a mark. -/
def Follows (c : CodeContext) (scope : ScopeId) (bs : List OpenedBlock)
    (marked : Bool) (s : List Bool) : Op → Prop
  | .plain (.mark _ _ _) => False
  | .plain (.pushField index) =>
    ∃ name i, c.place? scope name = some (.field i) ∧ index = UInt16.ofNat i
  | .plain (.storeField index) =>
    marked = true ∧ ∃ name i, c.place? scope name = some (.field i) ∧ index = UInt16.ofNat i
  | .plain (.block index) => ∃ b ∈ bs, index = UInt16.ofNat (c.blockNumber b.1)
  | .plain .methodReturn | .global _ => marked = true
  | .send toSuper count _ => marked = true ∧ (toSuper = true → s[count]? = some true)
  | _ => True

end Op

/-- **Operations of which each is written where it may be**, where the places are some of those in
`S`. There is nothing to say about what follows an operation that cannot be written. -/
inductive InOrder (S : Span → Prop) (c : CodeContext) (scope : ScopeId)
    (bs : List OpenedBlock) : Bool → List Bool → List Op → Prop
  | nil {marked : Bool} {s : List Bool} : InOrder S c scope bs marked s []
  | marks {span : Span} (hspan : S span) {marked : Bool} {s : List Bool} {rest : List Op}
      (h : InOrder S c scope bs true s rest) : InOrder S c scope bs marked s (c.markOps span ++ rest)
  | cons {marked : Bool} {s : List Bool} {op : Op} {rest : List Op}
      (hop : op.Follows c scope bs marked s) (h : InOrder S c scope bs marked (op.shape s) rest) :
      InOrder S c scope bs marked s (op :: rest)
  | invalid {marked : Bool} {s : List Bool} {rest : List Op} :
      InOrder S c scope bs marked s (.invalid :: rest)

/-- **What is written for such operations** is a mark, or an operation that is written where it may be. -/
theorem InOrder.exists_follows {S : Span → Prop} {c : CodeContext} {scope : ScopeId}
    {bs : List OpenedBlock} {marked : Bool} {s : List Bool} {ops : List Op}
    (h : InOrder S c scope bs marked s ops) {literals : Array String} {is : List Instruction}
    (hwritten : List.Forall₂ (Op.Written literals) ops is) {i : Instruction} (hi : i ∈ is) :
    (∃ span, S span ∧ c.marks = true ∧ i = .mark 0 (CodeContext.clamp (c.lines.location span.start).line)
        (CodeContext.clamp (c.lines.location span.start).column)) ∨
      ∃ (op : Op) (marked : Bool) (s : List Bool),
        op.Follows c scope bs marked s ∧ op.Written literals i := by
  induction h generalizing is with
  | nil => cases hwritten; cases hi
  | marks hspan _ ih =>
    rw [CodeContext.markOps] at hwritten
    split at hwritten
    case isFalse => exact ih hwritten hi
    case isTrue hmarks =>
      cases hwritten with
      | cons hfirst hrest =>
        cases hfirst
        rcases List.mem_cons.1 hi with rfl | hi
        · exact .inl ⟨_, hspan, hmarks, rfl⟩
        · exact ih hrest hi
  | cons hop _ ih =>
    cases hwritten with
    | cons hfirst hrest =>
      rcases List.mem_cons.1 hi with rfl | hi
      · exact .inr ⟨_, _, _, hop, hfirst⟩
      · exact ih hrest hi
  | invalid =>
    cases hwritten with
    | cons hfirst _ => cases hfirst

/-! ### The places of a tree -/

/-- Places that the tokens which others are replaced by have, and with them all that they enclose. -/
structure Span.Includes (S : Span → Prop) (g : Token → Token) : Prop where
  token (t : Token) : S (g t).span
  merge {a b : Span} : S a → S b → S (a.merge b)
  missing : S Span.missing

section Places

variable {S : Span → Prop}

mutual

/-- **The place of an expression** is among those of its tokens. -/
theorem Expr.span_map (hS : Span.Includes S g) : ∀ e : Expr ScopeId, S (e.map id g).span
  | .array _ items none => hS.merge (hS.token _) (Expr.lastSpan_map hS items hS.missing)
  | .group _ inner none => hS.merge (hS.token _) (Expr.span_map hS inner)
  | .array _ _ (some _) | .block _ _ _ _ (some _) _ | .group _ _ (some _) | .literal _ _ _ =>
    hS.merge (hS.token _) (hS.token _)
  | .unary receiver _ => hS.merge (Expr.span_map hS receiver) (hS.token _)
  | .binary receiver _ argument => hS.merge (Expr.span_map hS receiver) (Expr.span_map hS argument)
  | .keyword receiver _ arguments => Expr.mergeSpans_map hS arguments (Expr.span_map hS receiver)
  | .block _ _ _ _ none _ | .super _ | .variable _ | .invalid _ => hS.token _

theorem Expr.lastSpan_map (hS : Span.Includes S g) : ∀ (es : List (Expr ScopeId)) {given : Span},
    S given → S (Expr.lastSpan given (Expr.mapAll id g es))
  | [], _, h => h
  | e :: es, _, _ => Expr.lastSpan_map hS es (Expr.span_map hS e)

theorem Expr.mergeSpans_map (hS : Span.Includes S g) : ∀ (es : List (Expr ScopeId)) {span : Span},
    S span → S (Expr.mergeSpans span (Expr.mapAll id g es))
  | [], _, h => h
  | e :: es, _, h => Expr.mergeSpans_map hS es (hS.merge h (Expr.span_map hS e))

end

theorem Statement.span_map (hS : Span.Includes S g) (s : Statement ScopeId) :
    S (s.map id g).span := by
  cases s with
  | assignment _ value | answer _ value => exact hS.merge (hS.token _) (Expr.span_map hS value)
  | expression value => exact Expr.span_map hS value

end Places

/-! ### Operations in order -/

namespace CodeContext

variable {S : Span → Prop} {c : CodeContext} {scope : ScopeId}
  {bs : List OpenedBlock} {marked : Bool} {s : List Bool} {rest : List Op}

theorem variableOps_inOrder {name : Token} (hname : S name.span)
    (hrest : ∀ marked, InOrder S c scope bs marked (false :: s) rest) :
    InOrder S c scope bs marked s (c.variableOps scope name ++ rest) := by
  rw [variableOps]
  cases hplace : c.place? scope name.text with
  | none =>
    dsimp only
    rw [List.append_assoc]
    exact .marks hname (.cons rfl (hrest true))
  | some place =>
    cases place with
    | field index => exact .cons ⟨_, index, hplace, rfl⟩ (hrest marked)
    | slot depth index => exact .cons trivial (hrest marked)

theorem storeOps_inOrder (target : Token) (hrest : InOrder S c scope bs true s rest) :
    InOrder S c scope bs true s (c.storeOps scope target ++ rest) := by
  rw [storeOps]
  cases hplace : c.place? scope target.name with
  | none => exact .invalid
  | some place =>
    cases place with
    | field index => exact .cons ⟨rfl, _, index, hplace, rfl⟩ hrest
    | slot depth index => exact .cons trivial hrest

theorem literalOp_inOrder (value : Literal) (hrest : ∀ b, InOrder S c scope bs marked (b :: s) rest) :
    InOrder S c scope bs marked s (literalOp value :: rest) := by
  cases value with
  | boolean value => cases value <;> exact .cons trivial (hrest _)
  | _ => exact .cons trivial (hrest _)

/-- A message takes its arguments and its receiver, which is known if the message is to `super`. -/
theorem send_inOrder (given : List Bool) {span : Span} (hspan : S span) (toSuper : Bool)
    (selector : String) {b : Bool} (hsuper : toSuper = true → b = true)
    (hrest : InOrder S c scope bs true (false :: s) rest) :
    InOrder S c scope bs marked (given ++ b :: s)
      (c.markOps span ++ ([.send toSuper given.length selector] ++ rest)) := by
  refine .marks hspan (.cons ⟨rfl, fun h => ?_⟩ ?_)
  · rw [List.getElem?_append_right (Nat.le_refl _), Nat.sub_self, hsuper h]
    rfl
  · change InOrder S c scope bs true (false :: (given ++ b :: s).drop (given.length + 1)) rest
    rwa [← List.drop_drop, List.drop_left, List.drop_one, List.tail_cons]

theorem firstSpan_map (hS : Span.Includes S g) (keywords : List Token) :
    S (firstSpan (keywords.map g)) := by
  cases keywords with
  | nil => exact hS.missing
  | cons keyword keywords => exact hS.token keyword

mutual

/-- **An expression leaves one operand more**, which is the receiver if the expression is `super`. -/
theorem exprOps_inOrder (hS : Span.Includes S g) :
    ∀ (e : Expr ScopeId) {marked : Bool} {s : List Bool} {rest : List Op},
    exprBlocks (e.map id g) ⊆ bs →
      (∀ marked b, ((e.map id g).isSuper = true → b = true) →
        InOrder S c scope bs marked (b :: s) rest) →
        InOrder S c scope bs marked s (c.exprOps scope (e.map id g) ++ rest)
  | .array _ items _, marked, s, rest, hbs, hrest => by
    rw [Expr.map, exprOps, List.append_assoc]
    rw [Expr.map, exprBlocks] at hbs
    refine exprsOps_inOrder hS items hbs fun marked given hgiven => .cons trivial ?_
    change InOrder S c scope bs marked (false :: (given ++ s).drop (Expr.mapAll id g items).length) rest
    rw [← hgiven, List.drop_left]
    exact hrest marked false nofun
  | .block _ _ _ statements _ body, marked, s, rest, hbs, hrest => by
    rw [Expr.map, exprOps]
    rw [Expr.map, exprBlocks] at hbs
    have hbody := hbs (List.mem_append_right _ (List.mem_singleton_self _))
    exact .cons ⟨_, hbody, rfl⟩ (hrest marked false nofun)
  | .group _ inner _, marked, s, rest, hbs, hrest => by
    rw [Expr.map, exprOps]
    rw [Expr.map, exprBlocks] at hbs
    exact exprOps_inOrder hS inner hbs fun marked b _ => hrest marked b nofun
  | .literal _ _ value, marked, s, rest, _, hrest => by
    exact literalOp_inOrder value fun b => hrest marked b nofun
  | .unary receiver selector, marked, s, rest, hbs, hrest => by
    rw [Expr.map, exprOps, List.append_assoc, List.append_assoc]
    rw [Expr.map, exprBlocks] at hbs
    exact exprOps_inOrder hS receiver hbs fun _ b hb =>
      send_inOrder [] (hS.token selector) _ _ hb (hrest true false nofun)
  | .binary receiver operator argument, marked, s, rest, hbs, hrest => by
    rw [Expr.map, exprOps, List.append_assoc, List.append_assoc, List.append_assoc]
    rw [Expr.map, exprBlocks, List.append_subset] at hbs
    exact exprOps_inOrder hS receiver hbs.1 fun _ b hb => exprOps_inOrder hS argument hbs.2 fun _ b' _ =>
      send_inOrder [b'] (hS.token operator) _ _ hb (hrest true false nofun)
  | .keyword receiver keywords arguments, marked, s, rest, hbs, hrest => by
    rw [Expr.map, exprOps, List.append_assoc, List.append_assoc, List.append_assoc]
    rw [Expr.map, exprBlocks, List.append_subset] at hbs
    refine exprOps_inOrder hS receiver hbs.1 fun _ b hb =>
      exprsOps_inOrder hS arguments hbs.2 fun _ given hgiven => ?_
    rw [← hgiven]
    exact send_inOrder given (firstSpan_map hS keywords) _ _ hb (hrest true false nofun)
  | .super _, marked, s, rest, _, hrest => by
    exact .cons trivial (hrest marked true fun _ => rfl)
  | .variable name, marked, s, rest, _, hrest => by
    exact variableOps_inOrder (hS.token name) fun marked => hrest marked false nofun
  | .invalid _, marked, s, rest, _, _ => by
    exact .invalid

/-- Each of some expressions leaves an operand. -/
theorem exprsOps_inOrder (hS : Span.Includes S g) :
    ∀ (es : List (Expr ScopeId)) {marked : Bool} {s : List Bool} {rest : List Op},
    exprsBlocks (Expr.mapAll id g es) ⊆ bs →
      (∀ (marked : Bool) (given : List Bool), given.length = (Expr.mapAll id g es).length →
        InOrder S c scope bs marked (given ++ s) rest) →
        InOrder S c scope bs marked s (c.exprsOps scope (Expr.mapAll id g es) ++ rest)
  | [], marked, s, rest, _, hrest => by
    exact hrest marked [] rfl
  | e :: es, marked, s, rest, hbs, hrest => by
    rw [Expr.mapAll, exprsOps, List.append_assoc]
    rw [Expr.mapAll, exprsBlocks, List.append_subset] at hbs
    refine exprOps_inOrder hS e hbs.1 fun _ b _ =>
      exprsOps_inOrder hS es hbs.2 fun marked given hgiven => ?_
    have hall := hrest marked (given ++ [b]) (by rw [List.length_append, hgiven]; rfl)
    rwa [List.append_assoc] at hall

end

theorem statementOps_inOrder (hS : Span.Includes S g) (a : Statement ScopeId)
    (hbs : statementBlocks (a.map id g) ⊆ bs)
    (hrest : ∀ marked b, InOrder S c scope bs marked (b :: s) rest) :
    InOrder S c scope bs marked s (c.statementOps scope (a.map id g) ++ rest) := by
  cases a with
  | assignment target value =>
    rw [Statement.map, statementOps, List.append_assoc, List.append_assoc]
    rw [Statement.map, statementBlocks] at hbs
    exact exprOps_inOrder hS value hbs fun _ b _ => 
      .marks (hS.merge (hS.token target) (Expr.span_map hS value)) (storeOps_inOrder _ (hrest true b))
  | answer caret value =>
    rw [Statement.map, statementOps, List.append_assoc, List.append_assoc]
    rw [Statement.map, statementBlocks] at hbs
    exact exprOps_inOrder hS value hbs fun _ b _ => .marks (hS.token caret) (.cons rfl (hrest true b))
  | expression value =>
    rw [Statement.map, statementBlocks] at hbs
    exact exprOps_inOrder hS value hbs fun marked b _ => hrest marked b

/-- Statements leave one operand more, if there are any. -/
theorem statementsOps_inOrder (hS : Span.Includes S g) (ss : List (Statement ScopeId)) (hne : ss ≠ [])
    (hbs : statementsBlocks (Statement.mapAll id g ss) ⊆ bs)
    (hrest : ∀ marked b, InOrder S c scope bs marked (b :: s) rest) :
    InOrder S c scope bs marked s (c.statementsOps scope (Statement.mapAll id g ss) ++ rest) := by
  induction ss generalizing marked with
  | nil => exact absurd rfl hne
  | cons a ss ih =>
    rw [Statement.mapAll, statementsBlocks, List.append_subset] at hbs
    cases ss with
    | nil => exact statementOps_inOrder hS a hbs.1 hrest
    | cons a' ss =>
      rw [Statement.mapAll, Statement.mapAll, statementsOps_cons_cons, List.append_assoc]
      exact statementOps_inOrder hS a hbs.1 fun _ b => .cons trivial (ih (List.cons_ne_nil a' ss) hbs.2)

/-- **The operations of a block are in order.** -/
theorem blockOps_inOrder (hS : Span.Includes S g)
    (hbs : statementsBlocks (Statement.mapAll id g ss) ⊆ bs) :
    InOrder S c scope bs false [] (c.blockOps scope (Statement.mapAll id g ss)) := by
  have hend (marked b : Bool) : InOrder S c scope bs marked [b]
      (if endsWithAnswer (Statement.mapAll id g ss) then [] else [.plain .blockReturn]) := by
    split
    · exact .nil
    · exact .cons trivial .nil
  rw [blockOps]
  split
  · exact .cons trivial (hend false false)
  case isFalse hne =>
    exact statementsOps_inOrder hS ss (fun hnil => hne (by rw [hnil]; rfl)) hbs hend

/-- **The operations of a method are in order.** -/
theorem methodOps_inOrder (hS : Span.Includes S g) (hspan : S job.span)
    (hbody : job.body.statements = Statement.mapAll id g ss)
    (hbs : statementsBlocks job.body.statements ⊆ bs) :
    InOrder S c job.scope bs false [] (c.methodOps job) := by
  have hself {span : Span} (hspan : S span) (marked : Bool) (s : List Bool) :
      InOrder S c job.scope bs marked s (c.answerSelfOps span) :=
    .marks hspan (.cons trivial (.cons rfl .nil))
  rw [hbody] at hbs
  rw [methodOps, hbody, Statement.mapAll_eq, List.getLast?_map, ← Statement.mapAll_eq]
  cases hlast : ss.getLast? with
  | none =>
    rw [List.getLast?_eq_none_iff] at hlast
    rw [hlast]
    exact hself hspan _ _
  | some last =>
    refine statementsOps_inOrder hS _ (fun hnil => ?_) hbs fun marked b => ?_
    · rw [hnil] at hlast
      cases hlast
    · dsimp only [Option.map_some]
      split
      · exact .nil
      · exact .cons trivial (hself (Statement.span_map hS last) _ _)

end CodeContext

/-! ### Blocks inside of blocks -/

/-- The blocks of a block of an expression are blocks of the expression as well. -/
theorem subset_exprBlocks (e : Expr ScopeId) :
    ∀ b ∈ exprBlocks e, statementsBlocks b.2 ⊆ exprBlocks e := by
  induction e using Expr.byChildren with
  | _ e ih =>
    intro b hb
    rw [exprBlocks_eq, List.mem_append, List.mem_flatMap] at hb
    rw [exprBlocks_eq]
    rcases hb with ⟨d, hd, hb⟩ | hb
    · exact List.subset_append_of_subset_left _
        (List.Subset.trans (ih d hd b hb) (exprBlocks_subset hd))
    · rw [statementsBlocks_eq, ← Expr.children_of_body? (Option.mem_toList.1 hb)]
      exact List.subset_append_left _ _

variable {code : CompiledCode}

/-- The blocks of a block of some statements are blocks of the statements as well. -/
theorem subset_statementsBlocks {b : OpenedBlock}
    (hb : b ∈ statementsBlocks ss) : statementsBlocks b.2 ⊆ statementsBlocks ss := by
  rw [statementsBlocks_eq ss] at hb ⊢
  obtain ⟨e, he, hb⟩ := List.mem_flatMap.1 hb
  exact List.Subset.trans (subset_exprBlocks e b hb) (exprBlocks_subset he)

/-- A block with other notes and tokens. -/
def mapBlock (f : ScopeId → ScopeId) (g : Token → Token)
    (b : OpenedBlock) : OpenedBlock :=
  (f b.1, Statement.mapAll f g b.2)

/-- **The blocks of a tree with other notes and tokens.** -/
theorem exprBlocks_map (f : ScopeId → ScopeId) (g : Token → Token) (e : Expr ScopeId) :
    exprBlocks (e.map f g) = (exprBlocks e).map (mapBlock f g) := by
  induction e using Expr.byChildren with
  | _ e ih =>
    rw [exprBlocks_eq, exprBlocks_eq e, Expr.children_map, Expr.body?_map, List.map_append,
      List.flatMap_map, List.map_flatMap, List.flatMap_congr ih]
    cases e.body? <;> rfl

theorem statementsBlocks_map (f : ScopeId → ScopeId) (g : Token → Token)
    (ss : List (Statement ScopeId)) :
    statementsBlocks (Statement.mapAll f g ss) = (statementsBlocks ss).map (mapBlock f g) := by
  simp [statementsBlocks_eq, Statement.mapAll_eq, List.flatMap_map, Statement.value_map,
    exprBlocks_map, List.map_flatMap]

/-! ### The units of a method -/

/-- The units of a method: itself and its blocks. -/
def CompiledCode.units (code : CompiledCode) : List CompiledCode := code :: code.blocks.toList

/-- **The code of every unit of a method is in order**, in the scope of the method or of a block, and
its places are those of tokens. -/
theorem CodeContext.methodCode_places {c : CodeContext} {S : Span → Prop} (hS : Span.Includes S g)
    (hspan : S job.span) (hbody : job.body.statements = Statement.mapAll id g ss)
    (h : c.methodCode job = .ok code) : ∀ unit ∈ code.units,
      ∃ scope ∈ job.scope :: (statementsBlocks job.body.statements).map (·.1),
        ∃ ops blocks side, c.IsCode scope ops blocks side unit ∧
          InOrder S c scope (statementsBlocks job.body.statements) false [] ops := by
  obtain ⟨codes, blocks, hcodes, hall, hcode⟩ := methodCode_isCode h
  rw [CompiledCode.units, List.forall_mem_cons]
  refine ⟨⟨_, List.mem_cons_self, _, _, _, hcode,
    methodOps_inOrder hS hspan hbody (List.Subset.refl _)⟩, fun unit hunit => ?_⟩
  have hblocks : code.blocks = blocks := by
    obtain ⟨buffer, rfl, -⟩ := hcode
    rfl
  obtain ⟨i, hi⟩ := List.mem_iff_getElem?.1 hunit
  rw [hblocks, Array.getElem?_toList] at hi
  obtain ⟨b, hb, -, hblock⟩ := block_of_methodCode hcodes hall hi
  have hinside := subset_statementsBlocks hb
  refine ⟨b.1, List.mem_cons_of_mem _ (List.mem_map_of_mem hb), _, _, _, hblock, ?_⟩
  rw [hbody, statementsBlocks_map] at hb
  obtain ⟨b, -, rfl⟩ := List.mem_map.1 hb
  exact blockOps_inOrder hS hinside

theorem CodeContext.methodCode_inOrder {c : CodeContext} (h : c.methodCode job = .ok code) :
    ∀ unit ∈ code.units,
      ∃ scope ∈ job.scope :: (statementsBlocks job.body.statements).map (·.1),
        ∃ ops blocks side, c.IsCode scope ops blocks side unit ∧
          InOrder (fun _ => True) c scope (statementsBlocks job.body.statements) false [] ops :=
  methodCode_places ⟨fun _ => trivial, fun _ _ => trivial, trivial⟩ trivial
    (Statement.mapAll_id _).symm h

end Smalltalk
