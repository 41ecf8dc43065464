/-
**What a routine is declared as.**

Declaring a method opens a scope for it and one for each of its blocks, declares the variables of
each, and notes the scopes in the tree. If there are no mistakes, the scopes hold just the names
that are written down, the blocks are numbered in the order in which they start, and so the
operations of the tree with its scopes are those that were read off the source: the table says
nothing that the source does not say.

* `Declaring.Yields` — **what declaring a tree leads to**, in every table from then on;
* `CodeContext.ExprMatch`, `BlockMatch`, `JobMatch` — **a tree with scopes is one of the
  source**;
* `Declaring.declareExpr_yields`, `declareStatements_yields` — **the blocks that were
  declared**;
* `Declaring.declareCode_yields` — **the method that was declared**.
-/

import Smalltalk.Proofs.Addressing
import Smalltalk.Proofs.Declaring

namespace Smalltalk

open SymbolTable

variable {n : Nat} {scope C M : ScopeId} {s : Declarations} {c : CodeContext} {α β : Type}
  {t : SymbolTable} {r : Routine} {Q : CodeContext → α → Prop} {parameters : List Token}

namespace Declaring

/-! ### Variables -/

variable {kind : SymbolKind} {names : List String}

theorem kind_declare (hkind : IsSlotKind kind) (scope : ScopeId) (name : String) (s : ScopeId) :
    ((t.declare scope name kind).2.scope s).kind = (t.scope s).kind := by
  rw [declare_variable t scope name hkind]
  split
  · rfl
  · split
    · rw [addNamed_eq]
      dsimp only
      rw [scope_addSymbol]
      split <;> rfl
    · rfl

/-- Variables do not change what a scope belongs to. -/
theorem kind_declareVariables (hkind : IsSlotKind kind) (scope : ScopeId) (names : List Token)
    (s : Declarations) (i : ScopeId) :
    ((declareVariables scope kind names s).2.table.scope i).kind = (s.table.scope i).kind := by
  induction names generalizing s with
  | nil => rfl
  | cons name names ih =>
    rw [declareVariables, bind_apply, ih, table_declareVariable, kind_declare hkind]

/-- One more variable has the next number; arguments can only follow arguments. -/
theorem HasNames.addNamed (h : t.HasNames scope names) (hlt : scope < t.scopes.size) {name : String}
    (hnew : (t.scope scope).names.contains name = false) (hroom : names.length < capacity)
    (hkind : IsSlotKind kind) (harguments : (t.scope scope).argumentCount ≤ names.length)
    (hlast : kind = .argument → (t.scope scope).argumentCount = names.length) :
    HasNames (t.addNamed ⟨name, kind, scope, names.length⟩ (countSlot (kind = .argument))).2 scope
      (names ++ [name]) := by
  rw [addNamed_eq]
  dsimp only
  have hsymbol (id : SymbolId) := t.symbol_addSymbol ⟨name, kind, scope, names.length⟩
    (fun id s => countSlot (kind = .argument) { s with names := s.names.insert name id }) id
  have hscope := t.scope_addSymbol ⟨name, kind, scope, names.length⟩
    (fun id s => countSlot (kind = .argument) { s with names := s.names.insert name id }) scope
  have hsize := t.size_symbols_addSymbol ⟨name, kind, scope, names.length⟩
    (fun id s => countSlot (kind = .argument) { s with names := s.names.insert name id })
  rw [if_pos ⟨rfl, hlt⟩] at hscope
  generalize (t.addSymbol ⟨name, kind, scope, names.length⟩ _).2 = t' at hsymbol hscope hsize ⊢
  have hnames : (t'.scope scope).names = (t.scope scope).names.insert name t.symbols.size := by
    rw [hscope]
    rfl
  have hcount : (t'.scope scope).argumentCount =
      (t.scope scope).argumentCount + if kind = .argument then 1 else 0 := by
    rw [hscope, countSlot]
    by_cases hargument : kind = .argument <;> simp [hargument]
  -- The number of arguments grows only past all the variables there are.
  have hold {index : Nat} (hi : index < names.length) :
      slotKind (t'.scope scope).argumentCount index =
        slotKind (t.scope scope).argumentCount index := by
    rw [slotKind, slotKind, hcount]
    grind
  have hthis : slotKind (t'.scope scope).argumentCount names.length = kind := by
    rw [slotKind, hcount]
    rcases hkind with rfl | rfl
    · have := hlast rfl
      exact if_pos (by simp; omega)
    · exact if_neg (by simp; omega)
  have hfresh : name ∉ names := by
    intro hmem
    obtain ⟨i, hi⟩ := List.mem_iff_getElem?.1 hmem
    grind
  refine ⟨fun {found index} hfound => ?_, fun {found} hfound => ?_, ?_, ?_⟩
  · rw [hnames, Std.TreeMap.getElem?_insert, hsize]
    rcases Nat.lt_or_ge index names.length with hi | hi
    · grind
    · rw [List.getElem?_append_right hi, List.getElem?_singleton] at hfound
      split at hfound
      case isFalse => cases hfound
      case isTrue hlast =>
        obtain rfl := Option.some.inj hfound
        obtain rfl : index = names.length := by omega
        refine ⟨t.symbols.size, by simp, Nat.lt_succ_self _, ?_⟩
        rw [hsymbol, if_pos rfl, hthis]
  · grind
  · rw [hscope, List.length_append, List.length_singleton, ← h.count]
    rfl
  · rw [List.length_append, List.length_singleton]
    exact hroom

/-- **The variables that were declared** without a mistake are those that there were and the new
ones. -/
theorem declareVariables_hasNames (hkind : IsSlotKind kind) (tokens : List Token)
    (hnames : s.table.HasNames scope names) (hlt : scope < s.table.scopes.size)
    (harguments : (s.table.scope scope).argumentCount ≤ names.length)
    (hlast : kind = .argument → (s.table.scope scope).argumentCount = names.length)
    (herrors : (declareVariables scope kind tokens s).2.errors = #[]) :
    (declareVariables scope kind tokens s).2.table.HasNames scope (names ++ tokens.map Token.name) ∧
      ((declareVariables scope kind tokens s).2.table.scope scope).argumentCount =
        (s.table.scope scope).argumentCount + if kind = .argument then tokens.length else 0 := by
  induction tokens generalizing s names with
  | nil =>
    rw [List.map_nil, List.append_nil, List.length_nil, ite_self]
    exact ⟨hnames, rfl⟩
  | cons token tokens ih =>
    rw [declareVariables, bind_apply] at herrors ⊢
    have hfirst := (declareVariables_plain scope kind tokens).errors_eq_empty herrors
    have htable := table_declareVariable scope kind token s
    rw [declareVariable_eq, declare_variable _ _ _ hkind] at hfirst
    rw [declare_variable _ _ _ hkind] at htable
    by_cases hnew : (s.table.scope scope).names.contains token.name
    · rw [if_pos hnew] at hfirst
      exact absurd hfirst Array.push_ne_empty
    · rw [if_neg hnew] at hfirst htable
      by_cases hroom : (s.table.scope scope).slotCount < capacity
      · rw [if_pos hroom, hnames.count] at htable
        have hadded := HasNames.addNamed hnames hlt (Bool.eq_false_iff.2 hnew)
          (hnames.count ▸ hroom) hkind harguments hlast
        have hcount : ((declareVariable scope kind token s).2.table.scope scope).argumentCount =
            (s.table.scope scope).argumentCount + if kind = .argument then 1 else 0 := by
          rw [htable, addNamed_eq]
          dsimp only
          rw [scope_addSymbol, if_pos ⟨rfl, hlt⟩, countSlot]
          by_cases harg : kind = .argument <;> simp [harg]
        rw [← htable] at hadded
        have hsize : scope < (declareVariable scope kind token s).2.table.scopes.size := by
          rw [htable, size_scopes_addNamed]
          exact hlt
        have hle : ((declareVariable scope kind token s).2.table.scope scope).argumentCount ≤
            (names ++ [token.name]).length := by
          rw [hcount, List.length_append, List.length_singleton]
          split <;> omega
        have heq : kind = .argument →
            ((declareVariable scope kind token s).2.table.scope scope).argumentCount =
              (names ++ [token.name]).length := by
          grind
        obtain ⟨hmore, hargs⟩ := ih hadded hsize hle heq herrors
        rw [List.append_assoc] at hmore
        refine ⟨hmore, ?_⟩
        rw [hargs, hcount, List.length_cons]
        split <;> omega
      · rw [if_neg hroom] at hfirst
        exact absurd hfirst Array.push_ne_empty

/-- Variables open no scopes. -/
theorem size_declareVariables (hkind : IsSlotKind kind) (scope : ScopeId) (names : List Token)
    (s : Declarations) :
    (declareVariables scope kind names s).2.table.scopes.size = s.table.scopes.size := by
  induction names generalizing s with
  | nil => rfl
  | cons name names ih =>
    rw [declareVariables, bind_apply, ih, table_declareVariable, declare_variable _ _ _ hkind]
    split
    · rfl
    · split
      · exact size_scopes_addNamed ..
      · rfl

/-- **A new scope once its variables have been declared**: it has their names, and no scope belongs
to anything else. -/
structure Furnished (t : SymbolTable) (body : ScopeId) (parameters locals : List Token)
    (s : Declarations) : Prop where
  sound : s.table.Sound
  grows : Grows body t s.table
  names : s.table.HasNames body (parameters.map Token.name ++ locals.map Token.name)
  arguments : (s.table.scope body).argumentCount = parameters.length
  kind (i : ScopeId) : (s.table.scope i).kind = (t.scope i).kind
  size : s.table.scopes.size = t.scopes.size

theorem declareVariables_furnish {body outer : ScopeId} {name : String} {opened : ScopeKind}
    {errors : Array CompileError} {failed : List ScopeId} {locals : List Token} (hsound : t.Sound)
    (hopen : IsOpen t body) (hscope : t.scope body = Scope.new name opened (some outer))
    (herrors : (declareVariables body .localVariable locals
      (declareVariables body .argument parameters ⟨t, errors, failed⟩).2).2.errors = #[]) :
    Furnished t body parameters locals (declareVariables body .localVariable locals
      (declareVariables body .argument parameters ⟨t, errors, failed⟩).2).2 := by
  have hempty : t.HasNames body [] := by
    refine ⟨fun h => by simp at h, fun _ => ?_, ?_, Nat.zero_le _⟩
    · rw [hscope]
      exact Std.TreeMap.getElem?_emptyc
    · rw [hscope]
      rfl
  have hnone : (t.scope body).argumentCount = 0 := by
    rw [hscope]
    rfl
  have herrors' := (declareVariables_plain body .localVariable locals).errors_eq_empty herrors
  obtain ⟨hsound', hgrows⟩ := declareVariables_sound (Nat.le_refl body) (.inl rfl) parameters
    ⟨t, errors, failed⟩ hsound hopen
  obtain ⟨hnames, hargs⟩ := declareVariables_hasNames (.inl rfl) parameters hempty hopen.1
    (Nat.le_of_eq hnone) (fun _ => hnone) herrors'
  rw [if_pos rfl, hnone, Nat.zero_add] at hargs
  rw [List.nil_append] at hnames
  have hkind := kind_declareVariables (.inl rfl) body parameters ⟨t, errors, failed⟩
  have hsize := size_declareVariables (.inl rfl) body parameters ⟨t, errors, failed⟩
  generalize (declareVariables body .argument parameters ⟨t, errors, failed⟩).2 = s at *
  have hopen' := hopen.grows hgrows
  obtain ⟨hsound'', hgrows'⟩ := declareVariables_sound (Nat.le_refl body) (.inr rfl) locals s
    hsound' hopen'
  obtain ⟨hnames', hargs'⟩ := declareVariables_hasNames (.inr rfl) locals hnames hopen'.1
    (Nat.le_of_eq (hargs.trans (List.length_map _).symm)) (fun h => by cases h) herrors
  rw [if_neg (fun h => by cases h), Nat.add_zero] at hargs'
  exact ⟨hsound'', hgrows.trans hgrows', hnames', hargs'.trans hargs,
    fun i => (kind_declareVariables (.inr rfl) body locals s i).trans (hkind i),
    (size_declareVariables (.inr rfl) body locals s).trans hsize⟩

end Declaring

/-! ### Trees with scopes and trees of the source -/

namespace CodeContext

variable {q : Routine} {b : OpenedBlock}
  {bs : List OpenedBlock} {qs : List Routine} {ss : List (Statement Unit)}
  {ss' : List (Statement ScopeId)}

/-- What the operations of the routines of a class depend on. -/
def naming (c : CodeContext) (C : ScopeId) : Naming := ⟨c.markOps, c.table.fieldNames C⟩

/-- The scope of a routine in a finished table. -/
structure Locates (c : CodeContext) (C M scope : ScopeId) (r : Routine) : Prop where
  sound : c.table.Sound
  isClass : (c.table.scope C).kind.isClass = true
  className : (c.table.scope C).name = r.address.className
  selector : (c.table.scope M).name = r.address.selector
  located : c.table.Located C M scope r.scopes r.nest

/-- **A block with a scope is a routine of the source.** -/
structure BlockMatch (c : CodeContext) (C M : ScopeId) (b : OpenedBlock)
    (q : Routine) : Prop where
  isBlock : q.nest ≠ []
  locates : c.Locates C M b.1 q
  arity : (c.table.scope b.1).argumentCount = q.arity
  ops : c.blockOps b.1 b.2 = (c.naming C).blockCode q.scopes q.firstBlock q.statements

theorem BlockMatch.kind (h : c.BlockMatch C M b q) :
    ∃ m, q.block = some m ∧ b.1 = M + 1 + m ∧ (c.table.scope b.1).kind = .block m := by
  have hlocated := h.locates.located
  rw [Routine.block]
  generalize b.1 = scope at hlocated ⊢
  generalize q.scopes = scopes at hlocated
  generalize hnest : q.nest = nest at hlocated ⊢
  cases hlocated with
  | method => exact absurd hnest h.isBlock
  | @block number _ _ _ _ hkind => exact ⟨number, rfl, rfl, hkind⟩

/-- The blocks of a tree are those of the source, in whatever order. -/
structure BlocksMatch (c : CodeContext) (C M : ScopeId)
    (bs : List OpenedBlock) (qs : List Routine) : Prop where
  left : ∀ b ∈ bs, ∃ q ∈ qs, c.BlockMatch C M b q
  right : ∀ q ∈ qs, ∃ b ∈ bs, c.BlockMatch C M b q

theorem BlocksMatch.nil : c.BlocksMatch C M [] [] :=
  ⟨fun _ hb => absurd hb List.not_mem_nil, fun _ hq => absurd hq List.not_mem_nil⟩

theorem BlocksMatch.append {bs' : List OpenedBlock} {qs' : List Routine}
    (h : c.BlocksMatch C M bs qs) (h' : c.BlocksMatch C M bs' qs') :
    c.BlocksMatch C M (bs ++ bs') (qs ++ qs') := by
  refine ⟨fun b hb => ?_, fun q hq => ?_⟩
  · rcases List.mem_append.1 hb with hb | hb
    · obtain ⟨q, hq, hmatch⟩ := h.left b hb
      exact ⟨q, List.mem_append_left _ hq, hmatch⟩
    · obtain ⟨q, hq, hmatch⟩ := h'.left b hb
      exact ⟨q, List.mem_append_right _ hq, hmatch⟩
  · rcases List.mem_append.1 hq with hq | hq
    · obtain ⟨b, hb, hmatch⟩ := h.right q hq
      exact ⟨b, List.mem_append_left _ hb, hmatch⟩
    · obtain ⟨b, hb, hmatch⟩ := h'.right q hq
      exact ⟨b, List.mem_append_right _ hb, hmatch⟩

/-- A block is written after those inside of it, but starts before them. -/
theorem BlocksMatch.around (h : c.BlocksMatch C M bs qs) (hb : c.BlockMatch C M b q) :
    c.BlocksMatch C M (bs ++ [b]) (q :: qs) := by
  refine ⟨fun b' hb' => ?_, fun q' hq' => ?_⟩
  · rcases List.mem_append.1 hb' with hb' | hb'
    · obtain ⟨q', hq', hmatch⟩ := h.left b' hb'
      exact ⟨q', List.mem_cons_of_mem _ hq', hmatch⟩
    · obtain rfl := List.mem_singleton.1 hb'
      exact ⟨q, List.mem_cons_self, hb⟩
  · rcases List.mem_cons.1 hq' with rfl | hq'
    · exact ⟨b, List.mem_append_right _ (List.mem_singleton_self b), hb⟩
    · obtain ⟨b', hb', hmatch⟩ := h.right q' hq'
      exact ⟨b', List.mem_append_left _ hb', hmatch⟩

/-- **An expression with scopes is one of the source**, in a routine with a scope, with its blocks
numbered from `n` on. -/
structure ExprMatch (c : CodeContext) (C M scope : ScopeId) (r : Routine) (n : Nat) (e : Expr Unit)
    (e' : Expr ScopeId) : Prop where
  isSuper : e'.isSuper = e.isSuper
  span : e'.span = e.span
  ops : c.exprOps scope e' = (c.naming C).exprCode r.scopes n e
  blocks : c.BlocksMatch C M (exprBlocks e') (exprRoutines r n e)

/-- Expressions with scopes are those of the source. -/
structure ExprsMatch (c : CodeContext) (C M scope : ScopeId) (r : Routine) (n : Nat)
    (es : List (Expr Unit)) (es' : List (Expr ScopeId)) : Prop where
  length : es'.length = es.length
  lastSpan (span : Span) : Expr.lastSpan span es' = Expr.lastSpan span es
  mergeSpans (span : Span) : Expr.mergeSpans span es' = Expr.mergeSpans span es
  ops : c.exprsOps scope es' = (c.naming C).exprsCode r.scopes n es
  blocks : c.BlocksMatch C M (exprsBlocks es') (exprsRoutines r n es)

/-- A statement with scopes is one of the source. -/
structure StatementMatch (c : CodeContext) (C M scope : ScopeId) (r : Routine) (n : Nat)
    (s : Statement Unit) (s' : Statement ScopeId) : Prop where
  isAnswer : s'.isAnswer = s.isAnswer
  span : s'.span = s.span
  ops : c.statementOps scope s' = (c.naming C).statementCode r.scopes n s
  blocks : c.BlocksMatch C M (statementBlocks s') (statementRoutines r n s)

/-- Statements with scopes are those of the source. -/
structure StatementsMatch (c : CodeContext) (C M scope : ScopeId) (r : Routine) (n : Nat)
    (ss : List (Statement Unit)) (ss' : List (Statement ScopeId)) : Prop where
  shape : ss'.map (fun s => (s.isAnswer, s.span)) = ss.map fun s => (s.isAnswer, s.span)
  ops : c.statementsOps scope ss' = (c.naming C).statementsCode r.scopes n ss
  blocks : c.BlocksMatch C M (statementsBlocks ss') (statementsRoutines r n ss)

theorem Locates.variableOps_eq (h : c.Locates C M scope r) (name : Token) :
    c.variableOps scope name = (c.naming C).variableCode r.scopes name := by
  rw [variableOps, Naming.variableCode, h.located.place?_eq h.sound h.isClass]
  rfl

theorem Locates.storeOps_eq (h : c.Locates C M scope r) (target : Token) :
    c.storeOps scope target = (c.naming C).storeCode r.scopes target := by
  rw [storeOps, Naming.storeCode, h.located.place?_eq h.sound h.isClass]
  rfl

theorem StatementsMatch.cons {s : Statement Unit} {s' : Statement ScopeId}
    (hs : c.StatementMatch C M scope r n s s')
    (h : c.StatementsMatch C M scope r (n + statementBlockCount s) ss ss') :
    c.StatementsMatch C M scope r n (s :: ss) (s' :: ss') := by
  refine ⟨?_, ?_, ?_⟩
  · rw [List.map_cons, List.map_cons, h.shape, hs.isAnswer, hs.span]
  · have hshape := h.shape
    cases ss with
    | nil =>
      obtain rfl := List.map_eq_nil_iff.1 hshape
      exact hs.ops
    | cons next ss =>
      cases ss' with
      | nil => cases hshape
      | cons next' ss' =>
        rw [statementsOps_cons_cons, hs.ops, h.ops]
        rfl
  · exact hs.blocks.append h.blocks

section

variable (h : c.StatementsMatch C M scope r n ss ss')

include h

theorem StatementsMatch.getLast?_eq : ss'.getLast?.map (fun s => (s.isAnswer, s.span)) =
      ss.getLast?.map fun s => (s.isAnswer, s.span) := by
  rw [← List.getLast?_map, h.shape, List.getLast?_map]

theorem StatementsMatch.endsWithAnswer_eq : endsWithAnswer ss' = endsWithAnswer ss := by
  have hlast := h.getLast?_eq
  rw [endsWithAnswer, endsWithAnswer]
  cases hs : ss.getLast? <;> cases hs' : ss'.getLast? <;> rw [hs, hs'] at hlast
  · rfl
  · cases hlast
  · cases hlast
  · exact (Prod.mk.inj (Option.some.inj hlast)).1

theorem StatementsMatch.isEmpty_eq : ss'.isEmpty = ss.isEmpty := by
  have hshape := congrArg List.isEmpty h.shape
  rwa [List.isEmpty_map, List.isEmpty_map] at hshape

/-- The operations of a block with a scope. -/
theorem StatementsMatch.blockOps_eq :
    c.blockOps scope ss' = (c.naming C).blockCode r.scopes n ss := by
  rw [blockOps, Naming.blockCode, Naming.blockEnd, h.isEmpty_eq, h.endsWithAnswer_eq, h.ops]

end

/-- The operations of a method with a scope. -/
theorem StatementsMatch.methodOps_eq {job : Job}
    (h : c.StatementsMatch C M job.scope r 0 ss job.body.statements) :
    c.methodOps job = (c.naming C).methodCode r.scopes job.span ss := by
  rw [methodOps, Naming.methodCode, Naming.methodEnd, h.ops]
  refine congrArg _ ?_
  have hlast := h.getLast?_eq
  generalize job.body.statements.getLast? = last' at hlast ⊢
  generalize ss.getLast? = last at hlast ⊢
  cases last <;> cases last' <;> simp only [Option.map_some, Option.map_none, reduceCtorEq,
    Option.some.injEq, Prod.mk.injEq] at hlast
  · rfl
  · dsimp only
    rw [hlast.1, hlast.2]
    rfl

end CodeContext

/-! ### What declaring leads to -/

namespace Declaring

variable {k : Nat} {s' : Declarations} {x : Declaring α}

/-- The method counts a number of blocks, whose scopes are the only ones after its own. -/
structure Counted (t : SymbolTable) (M : ScopeId) (n : Nat) : Prop where
  kind : ∃ classSide, (t.scope M).kind = .method classSide n
  size : t.scopes.size = M + 1 + n

/-- **The scope of a routine**, when the method counts `n` blocks. -/
structure Placed (s : Declarations) (C M scope : ScopeId) (r : Routine) (n : Nat) : Prop where
  sound : s.table.Sound
  isClass : (s.table.scope C).kind.isClass = true
  className : (s.table.scope C).name = r.address.className
  selector : (s.table.scope M).name = r.address.selector
  lt : scope < s.table.scopes.size
  located : s.table.Located C M scope r.scopes r.nest
  counted : Counted s.table M n

/-- A context with all that was declared, and perhaps more. -/
structure Late (s : Declarations) (c : CodeContext) : Prop where
  sound : c.table.Sound
  grows : Grows s.table.scopes.size s.table c.table

theorem Late.earlier (h : Late s' c) (hgrows : Grows s.table.scopes.size s.table s'.table) :
    Late s c :=
  ⟨h.sound, hgrows.trans (h.grows.mono hgrows.scopes_size)⟩

section

variable (h : Placed s C M scope r n)

include h

theorem Placed.isOpen : IsOpen s.table scope :=
  ⟨h.lt, h.located.isActivation⟩

theorem Placed.class_lt : C < s.table.scopes.size :=
  Nat.lt_trans (h.located.class_lt h.sound) h.lt

theorem Placed.method_lt : M < s.table.scopes.size :=
  Nat.lt_of_le_of_lt h.located.method_le h.lt

theorem Placed.after (hsound : s'.table.Sound) (hgrows : Grows s.table.scopes.size s.table s'.table)
    (hcounted : Counted s'.table M k) : Placed s' C M scope r k where
  sound := hsound
  isClass := (hgrows.alike h.class_lt).isClass.trans h.isClass
  className := (hgrows.alike h.class_lt).name.trans h.className
  selector := (hgrows.alike h.method_lt).name.trans h.selector
  lt := Nat.lt_of_lt_of_le h.lt hgrows.scopes_size
  located := h.located.grows h.sound hgrows h.lt
  counted := hcounted

theorem Placed.locates (hc : Late s c) : c.Locates C M scope r where
  sound := hc.sound
  isClass := (hc.grows.alike h.class_lt).isClass.trans h.isClass
  className := (hc.grows.alike h.class_lt).name.trans h.className
  selector := (hc.grows.alike h.method_lt).name.trans h.selector
  located := h.located.grows h.sound hc.grows h.lt

end

/-- **What declaring something inside of a routine leads to**, if there are no mistakes: `k` blocks
are declared, and the result is as it should be in every table from then on. -/
def Yields (C M scope : ScopeId) (r : Routine) (n k : Nat) (x : Declaring α)
    (Q : CodeContext → α → Prop) : Prop :=
  ∀ s, Placed s C M scope r n → n + k ≤ capacity → (x s).2.errors = #[] →
    (x s).2.table.Sound ∧ Grows s.table.scopes.size s.table (x s).2.table ∧
      Counted (x s).2.table M (n + k) ∧ ∀ c, Late (x s).2 c → Q c (x s).1

theorem Yields.pure {a : α} (h : ∀ c, c.Locates C M scope r → Q c a) :
    Yields C M scope r n 0 (Pure.pure a) Q :=
  fun _ hs _ _ => ⟨hs.sound, .refl (Nat.le_refl _), hs.counted, fun c hc => h c (hs.locates hc)⟩

section

variable {Q' : CodeContext → β → Prop} (hx : Yields C M scope r n k x Q)

include hx

theorem Yields.map {f : α → β} (h : ∀ c a, c.Locates C M scope r → Q c a → Q' c (f a)) :
    Yields C M scope r n k (x >>= fun a => Pure.pure (f a)) Q' := by
  intro s hs hroom herrors
  obtain ⟨hsound, hgrows, hcounted, hQ⟩ := hx s hs hroom herrors
  exact ⟨hsound, hgrows, hcounted, fun c hc =>
    h c _ (hs.locates (hc.earlier hgrows)) (hQ c hc)⟩

theorem Yields.bind {f : α → Declaring β} {k' : Nat} (hplain : ∀ a, Plain (f a))
    (hf : ∀ a, Yields C M scope r (n + k) k' (f a) fun c b => Q c a → Q' c b) :
    Yields C M scope r n (k + k') (x >>= f) Q' := by
  intro s hs hroom herrors
  rw [bind_apply] at herrors ⊢
  obtain ⟨hsound, hgrows, hcounted, hQ⟩ :=
    hx s hs (by omega) ((hplain (x s).1).errors_eq_empty herrors)
  obtain ⟨hsound', hgrows', hcounted', hQ'⟩ :=
    hf (x s).1 (x s).2 (hs.after hsound hgrows hcounted) (by omega) herrors
  refine ⟨hsound', hgrows.trans (hgrows'.mono hgrows.scopes_size), ?_, fun c hc => ?_⟩
  · rw [← Nat.add_assoc]
    exact hcounted'
  · exact hQ' c hc (hQ c (hc.earlier hgrows'))

end

/-! ### Blocks -/

/-- The scope of a block that is about to get its variables. -/
theorem declareBlock_placed (hs : Placed s C M scope r n) (hroom : n < capacity) :
    (s.table.declareBlock scope).2.2.Sound ∧
      Grows s.table.scopes.size s.table (s.table.declareBlock scope).2.2 ∧
      Counted (s.table.declareBlock scope).2.2 M (n + 1) ∧
      (s.table.declareBlock scope).2.2.scope s.table.scopes.size =
        Scope.new ("block" ++ toString n) (.block n) (some scope) := by
  obtain ⟨hsound, hgrows⟩ := declareBlock_sound hs.sound (Nat.le_refl _) hs.lt hs.isOpen.2
  have hmethod := hs.located.blockMethod_eq hs.sound
  obtain ⟨⟨classSide, hkind⟩, hsize⟩ := hs.counted
  have hindex : s.table.blockIndex scope = n := by
    rw [blockIndex, hmethod, hkind]
    rfl
  have hM := hs.method_lt
  refine ⟨hsound, hgrows, ⟨⟨classSide, ?_⟩, ?_⟩, ?_⟩
  · have hopened : ((s.table.openBlock scope).scope M).kind = .method classSide (n + 1) := by
      rw [openBlock, scope_addScope_of_ne _ (by rw [size_modifyScope]; exact Nat.ne_of_lt hM),
        hmethod, scope_modifyScope, if_pos ⟨rfl, hM⟩, countBlock]
      dsimp only
      rw [hkind, ScopeKind.addBlock, Nat.min_eq_left hroom]
    rw [declareBlock_eq]
    dsimp only
    rw [scope_addSymbol]
    split
    · exact hopened
    · exact hopened
  · rw [size_declareBlock, hsize]
    rfl
  · rw [scope_declareBlock_self _ hs.lt, hindex]

/-- **What declaring a block leads to**: its scope has its variables, and whatever is declared
inside of it is declared inside of a routine. -/
theorem block_yields {locals : List Token} (statements : List (Statement Unit))
    {f : ScopeId → Declaring α} (Q : ScopeId → CodeContext → α → Prop) {Q' : CodeContext → α → Prop}
    (hplain : ∀ body, Plain (f body))
    (hf : ∀ body,
      Yields C M body (r.inner n parameters locals statements) (n + 1) k (f body) (Q body))
    (hQ : ∀ c body a, c.Locates C M body (r.inner n parameters locals statements) →
      (c.table.scope body).argumentCount = parameters.length → Q body c a → Q' c a) :
    Yields C M scope r n (k + 1) (inBlock scope parameters locals f) Q' := by
  intro s hs hroom herrors
  rw [block_apply] at herrors ⊢
  obtain ⟨hsound₁, hgrows₁, hcounted₁, hscope₁⟩ := declareBlock_placed hs (by omega)
  have hsize₁ := s.table.size_declareBlock scope
  generalize (s.table.declareBlock scope).2.2 = t₁ at hsound₁ hgrows₁ hcounted₁ hscope₁ hsize₁ herrors ⊢
  have hlt := hs.lt
  have hbody := hs.counted.size
  generalize s.table.scopes.size = body at hscope₁ hgrows₁ hsize₁ hlt hbody herrors ⊢
  have hlt₁ : body < t₁.scopes.size := by omega
  have hopen₁ : IsOpen t₁ body := ⟨hlt₁, by rw [hscope₁]; rfl⟩
  have hfurnished := declareVariables_furnish hsound₁ hopen₁ hscope₁
    ((hplain body).errors_eq_empty herrors)
  generalize (declareVariables body .localVariable locals
    (declareVariables body .argument parameters { s with table := t₁ }).2).2 = s₂
      at hfurnished herrors ⊢
  have hgrows := hgrows₁.trans hfurnished.grows
  have halike := hfurnished.grows.alike hlt₁
  rw [hscope₁] at halike
  have hcounted₂ : Counted s₂.table M (n + 1) := by
    obtain ⟨⟨classSide, hM⟩, hsize⟩ := hcounted₁
    exact ⟨⟨classSide, (hfurnished.kind M).trans hM⟩, hfurnished.size.trans hsize⟩
  have hlocated : s₂.table.Located C M body (r.inner n parameters locals statements).scopes
      (r.inner n parameters locals statements).nest := by
    have hkind : (s₂.table.scope body).kind = .block n := by
      rw [hfurnished.kind, hscope₁]
      rfl
    subst hbody
    exact .block hkind halike.name halike.enclosing hfurnished.names
      (hs.located.grows hs.sound hgrows hlt)
  have hplaced : Placed s₂ C M body (r.inner n parameters locals statements) (n + 1) := by
    have hC := hgrows.alike hs.class_lt
    have hM := hgrows.alike hs.method_lt
    exact ⟨hfurnished.sound, hC.isClass.trans hs.isClass, hC.name.trans hs.className,
      hM.name.trans hs.selector, (hopen₁.grows hfurnished.grows).1, hlocated, hcounted₂⟩
  obtain ⟨hsound₃, hgrows₃, hcounted₃, hQ₃⟩ := hf body s₂ hplaced (by omega) herrors
  refine ⟨hsound₃, hgrows.trans (hgrows₃.mono ?_), ?_, fun c hc => ?_⟩
  · exact Nat.le_of_lt hplaced.lt
  · rw [Nat.add_comm k 1, ← Nat.add_assoc]
    exact hcounted₃
  · have hlate := hc.earlier hgrows₃
    refine hQ c body _ (hplaced.locates hlate) ?_ (hQ₃ c hc)
    rw [(hlate.grows.settled hplaced.lt).argumentCount, hfurnished.arguments]

/-! ### Trees -/

mutual

/-- **The blocks of an expression are declared as they are written.** -/
theorem declareExpr_yields (scope : ScopeId) (r : Routine) (n : Nat) :
    ∀ e : Expr Unit, Yields C M scope r n (exprBlockCount e) (declareExpr scope e) fun c e' =>
      c.ExprMatch C M scope r n e e'
  | .array _ items closing => by
    refine (declareExprs_yields scope r n [] items).map fun c es _ ⟨new, hnew, h⟩ => ?_
    rw [List.reverse_nil, List.nil_append] at hnew
    subst hnew
    refine ⟨rfl, ?_, ?_, ?_⟩
    · cases closing with
      | none => simp only [Expr.span, h.lastSpan]
      | some closing => simp only [Expr.span]
    · rw [CodeContext.exprOps, Naming.exprCode, h.ops, h.length]
    · exact h.blocks
  | .block opening parameters locals statements closing _ => by
    refine block_yields statements
      (fun body c e' => ∃ ss, e' = .block opening parameters locals ss closing body ∧
        c.StatementsMatch C M body (r.inner n parameters locals statements) (n + 1) statements ss)
      (fun body => (plain_composes.statements body [] statements).bind fun _ => .pure _)
      (fun body => (declareStatements_yields body _ (n + 1) [] statements).map ?_) ?_
    · grind
    · rintro c body _ hlocates hargs ⟨ss, rfl, h⟩
      have hblock : c.BlockMatch C M (body, ss) (r.inner n parameters locals statements) :=
        ⟨List.cons_ne_nil _ _, hlocates, hargs, h.blockOps_eq⟩
      refine ⟨rfl, ?_, ?_, ?_⟩
      · rw [Expr.span.eq_def, Expr.span.eq_def]
      · obtain ⟨number, hnumber, -, hkind⟩ := hblock.kind
        obtain rfl : n = number := Option.some.inj hnumber
        rw [CodeContext.exprOps, Naming.exprCode, CodeContext.blockNumber, hkind]
      · exact h.blocks.around hblock
  | .group _ inner closing => by
    refine (declareExpr_yields scope r n inner).map fun c e _ h => ⟨rfl, ?_, ?_, ?_⟩
    · cases closing with
      | none => simp only [Expr.span, h.span]
      | some closing => simp only [Expr.span]
    · rw [CodeContext.exprOps, Naming.exprCode, h.ops]
    · exact h.blocks
  | .literal _ _ _ | .super _ | .invalid _ => .pure fun _ _ => ⟨rfl, rfl, rfl, .nil⟩
  | .unary receiver _ => by
    refine (declareExpr_yields scope r n receiver).map fun c e _ h => ⟨rfl, ?_, ?_, ?_⟩
    · rw [Expr.span, Expr.span, h.span]
    · rw [CodeContext.exprOps, Naming.exprCode, h.ops, h.isSuper]
      rfl
    · exact h.blocks
  | .binary receiver _ argument => by
    refine (declareExpr_yields scope r n receiver).bind
      (fun _ => (plain_composes.expr scope argument).bind fun _ => .pure _) fun e =>
        (declareExpr_yields scope r _ argument).map fun c e' _ h' h => ⟨rfl, ?_, ?_, ?_⟩
    · rw [Expr.span, Expr.span, h.span, h'.span]
    · rw [CodeContext.exprOps, Naming.exprCode, h.ops, h'.ops, h.isSuper]
      rfl
    · exact h.blocks.append h'.blocks
  | .keyword receiver _ arguments => by
    refine (declareExpr_yields scope r n receiver).bind
      (fun _ => (plain_composes.exprs scope [] arguments).bind fun _ => .pure _) fun e =>
        (declareExprs_yields scope r _ [] arguments).map fun c es _ ⟨new, hnew, h'⟩ h => ?_
    rw [List.reverse_nil, List.nil_append] at hnew
    subst hnew
    refine ⟨rfl, ?_, ?_, ?_⟩
    · rw [Expr.span, Expr.span, h.span, h'.mergeSpans]
    · rw [CodeContext.exprOps, Naming.exprCode, h.ops, h'.ops, h.isSuper, h'.length]
      rfl
    · exact h.blocks.append h'.blocks
  | .variable name => .pure fun _ hc => ⟨rfl, rfl, hc.variableOps_eq name, .nil⟩

theorem declareExprs_yields (scope : ScopeId) (r : Routine) (n : Nat) (done : List (Expr ScopeId)) :
    ∀ es : List (Expr Unit), Yields C M scope r n (exprsBlockCount es)
      (declareExprs scope done es) fun c all =>
        ∃ es', all = done.reverse ++ es' ∧ c.ExprsMatch C M scope r n es es'
  | [] => .pure fun _ _ =>
    ⟨[], (List.append_nil _).symm, rfl, fun _ => rfl, fun _ => rfl, rfl, .nil⟩
  | e :: es => by
    refine (declareExpr_yields scope r n e).bind (fun e' => plain_composes.exprs scope _ es) fun e' =>
      fun s hs hroom herrors => ?_
    obtain ⟨hsound, hgrows, hcounted, hQ⟩ :=
      declareExprs_yields scope r (n + exprBlockCount e) (e' :: done) es s hs hroom herrors
    refine ⟨hsound, hgrows, hcounted, fun c hc h => ?_⟩
    obtain ⟨new, hnew, h'⟩ := hQ c hc
    refine ⟨e' :: new, ?_, ?_, fun span => ?_, fun span => ?_, ?_, ?_⟩
    · rw [hnew, List.reverse_cons, List.append_assoc]
      rfl
    · rw [List.length_cons, List.length_cons, h'.length]
    · rw [Expr.lastSpan, Expr.lastSpan, h.span, h'.lastSpan]
    · rw [Expr.mergeSpans, Expr.mergeSpans, h.span, h'.mergeSpans]
    · rw [CodeContext.exprsOps, Naming.exprsCode, h.ops, h'.ops]
    · exact h.blocks.append h'.blocks

theorem declareStatement_yields (scope : ScopeId) (r : Routine) (n : Nat) :
    ∀ s : Statement Unit, Yields C M scope r n (statementBlockCount s) (declareStatement scope s)
      fun c s' => c.StatementMatch C M scope r n s s'
  | .assignment target value => by
    refine (declareExpr_yields scope r n value).map fun c e hc h => ⟨rfl, ?_, ?_, ?_⟩
    · rw [Statement.span, Statement.span, h.span]
    · rw [CodeContext.statementOps, Naming.statementCode, h.ops, h.span, hc.storeOps_eq]
      rfl
    · exact h.blocks
  | .answer _ value => by
    refine (declareExpr_yields scope r n value).map fun c e _ h => ⟨rfl, ?_, ?_, ?_⟩
    · rw [Statement.span, Statement.span, h.span]
    · rw [CodeContext.statementOps, Naming.statementCode, h.ops]
      rfl
    · exact h.blocks
  | .expression value => by
    refine (declareExpr_yields scope r n value).map fun c e _ h => ⟨rfl, ?_, ?_, ?_⟩
    · rw [Statement.span, Statement.span, h.span]
    · rw [CodeContext.statementOps, Naming.statementCode, h.ops]
    · exact h.blocks

theorem declareStatements_yields (scope : ScopeId) (r : Routine) (n : Nat)
    (done : List (Statement ScopeId)) :
    ∀ ss : List (Statement Unit), Yields C M scope r n (statementsBlockCount ss)
      (declareStatements scope done ss) fun c all =>
        ∃ ss', all = done.reverse ++ ss' ∧ c.StatementsMatch C M scope r n ss ss'
  | [] => .pure fun _ _ => ⟨[], (List.append_nil _).symm, rfl, rfl, .nil⟩
  | s :: ss => by
    refine (declareStatement_yields scope r n s).bind (fun s' => plain_composes.statements scope _ ss)
      fun s' => fun d hd hroom herrors => ?_
    obtain ⟨hsound, hgrows, hcounted, hQ⟩ := declareStatements_yields scope r
      (n + statementBlockCount s) (s' :: done) ss d hd hroom herrors
    refine ⟨hsound, hgrows, hcounted, fun c hc h => ?_⟩
    obtain ⟨new, hnew, h'⟩ := hQ c hc
    refine ⟨s' :: new, ?_, h'.cons h⟩
    rw [hnew, List.reverse_cons, List.append_assoc]
    rfl

end

end Declaring

/-! ### Methods -/

/-- **A method with a scope is a routine of the source.** -/
structure CodeContext.JobMatch (c : CodeContext) (C : ScopeId) (r : Routine) (job : Job) : Prop where
  locates : c.Locates C job.scope job.scope r
  arity : (c.table.scope job.scope).argumentCount = r.arity
  ops : c.methodOps job = (c.naming C).methodCode r.scopes job.span r.statements
  blocks : c.BlocksMatch C job.scope (statementsBlocks job.body.statements) r.blocks

namespace Declaring

/-- The scope of a method that has just been opened. -/
theorem scope_withMethod (hC : C < t.scopes.size) (selector : String) (classSide : Bool) :
    (withMethod t C selector classSide).scope t.scopes.size =
      Scope.new selector (.method classSide 0) (some C) := by
  have hopen := t.scope_addScope_self selector (.method classSide 0) C
  rw [withMethod]
  obtain h | ⟨-, index, h⟩ := (t.addScope selector (.method classSide 0) C).2.declareMethod_cases C
    selector (.method t.scopes.size classSide)
  · rw [h]
    exact hopen
  · rw [h, scope_addSymbol_of_ne _ (Nat.ne_of_gt hC)]
    exact hopen

theorem size_withMethod (t : SymbolTable) (C : ScopeId) (selector : String) (classSide : Bool) :
    (withMethod t C selector classSide).scopes.size = t.scopes.size + 1 := by
  rw [withMethod]
  obtain h | ⟨-, index, h⟩ := (t.addScope selector (.method classSide 0) C).2.declareMethod_cases C
    selector (.method t.scopes.size classSide)
  · rw [h, size_addScope]
  · rw [h, size_scopes_addSymbol, size_addScope]

/-- **What declaring a method leads to**, if there are no mistakes. -/
theorem declareCode_yields (hsound : s.table.Sound) (hclass : (s.table.scope C).kind.isClass = true)
    (hC : C < s.table.scopes.size) {address : MethodAddress}
    (hname : (s.table.scope C).name = address.className) {body : Body Unit} {span : Span}
    (hroom : statementsBlockCount body.statements ≤ capacity)
    (herrors : (declareCode C address.selector address.classSide parameters body span s).2.errors =
      #[])
    (hc : Late (declareCode C address.selector address.classSide parameters body span s).2 c) :
    c.JobMatch C (.ofMethod address parameters body)
      (declareCode C address.selector address.classSide parameters body span s).1 := by
  rw [declareCode_apply] at herrors hc ⊢
  dsimp only at herrors hc ⊢
  obtain ⟨hsound₁, hgrows₁, hopen₁⟩ :=
    withMethod_sound hsound (Nat.le_refl _) hC address.selector address.classSide
  have hscope₁ := scope_withMethod hC address.selector address.classSide
  have hsize₁ := size_withMethod s.table C address.selector address.classSide
  generalize withMethod s.table C address.selector address.classSide = t₁
    at hsound₁ hgrows₁ hopen₁ hscope₁ hsize₁ herrors hc ⊢
  generalize s.table.scopes.size = M at hC hgrows₁ hopen₁ hscope₁ hsize₁ herrors hc ⊢
  rw [declareBody, bind_apply] at herrors hc ⊢
  have hfurnished := declareVariables_furnish hsound₁ hopen₁ hscope₁
    (((plain_composes.statements M [] body.statements).bind
      fun ss => .pure (Body.mk body.locals ss)).errors_eq_empty herrors)
  generalize (declareVariables M .localVariable body.locals
    (declareVariables M .argument parameters { s with table := t₁ }).2).2 = s₂
      at hfurnished herrors hc ⊢
  have halike := hfurnished.grows.alike hopen₁.1
  rw [hscope₁] at halike
  have hplaced : Placed s₂ C M M (.ofMethod address parameters body) 0 := by
    have hkind : (s₂.table.scope M).kind = .method address.classSide 0 := by
      rw [hfurnished.kind, hscope₁]
      rfl
    have hclass₂ := (hgrows₁.trans hfurnished.grows).alike (Nat.lt_of_lt_of_le hC hgrows₁.bound)
    exact ⟨hfurnished.sound, hclass₂.isClass.trans hclass, hclass₂.name.trans hname, halike.name,
      (hopen₁.grows hfurnished.grows).1,
      .method (by rw [hkind]; rfl) halike.enclosing hfurnished.names,
      ⟨address.classSide, hkind⟩, hfurnished.size.trans hsize₁⟩
  -- the statements
  obtain ⟨-, hgrows₄, -, hQ⟩ := declareStatements_yields M (.ofMethod address parameters body) 0 []
    body.statements s₂ hplaced (by omega) herrors
  obtain ⟨ss, hss, hmatch⟩ := hQ c hc
  rw [List.reverse_nil, List.nil_append] at hss
  rw [bind_apply, hss]
  have hlate := hc.earlier hgrows₄
  refine ⟨hplaced.locates hlate, ?_, ?_, hmatch.blocks⟩
  · rw [(hlate.grows.settled hplaced.lt).argumentCount, hfurnished.arguments]
    rfl
  · exact CodeContext.StatementsMatch.methodOps_eq hmatch

end Declaring

end Smalltalk
