/-
**Trees with other notes and other tokens.**

Declaring the names of a method gives every block of its tree a note, and leaves the tree as it is
otherwise. To say so, and to compare trees that stand in different places of a source, the notes
and the tokens of a tree are replaced throughout.

Two ways of declaring trees are compared part by part. A relation between ways of declaring that
is kept when they are put together, and when a block is opened around them, relates what is declared
for two trees that differ in their tokens only.

* `Expr.map`, `Statement.map`, `Body.map` — **replace all notes and
  all tokens**;
* `Declaring.Compares`, `Composes` — **relations and properties that are kept** when ways
  of declaring are put together;
* `Declaring.Compares.expr`, `Compares.statements` — **trees that differ in their tokens
  are related**.
-/

import Smalltalk.Proofs.Emission

namespace Smalltalk

variable {β γ δ : Type}

mutual

/-- **Replace all notes and tokens** of an expression. -/
def Expr.map (f : β → γ) (g : Token → Token) : Expr β → Expr γ
  | .array opening items closing => .array (g opening) (Expr.mapAll f g items) (closing.map g)
  | .block opening parameters locals statements closing note =>
    .block (g opening) (parameters.map g) (locals.map g) (Statement.mapAll f g statements)
      (closing.map g) (f note)
  | .group opening inner closing => .group (g opening) (inner.map f g) (closing.map g)
  | .literal first last value => .literal (g first) (g last) value
  | .unary receiver selector => .unary (receiver.map f g) (g selector)
  | .binary receiver operator argument =>
    .binary (receiver.map f g) (g operator) (argument.map f g)
  | .keyword receiver keywords arguments =>
    .keyword (receiver.map f g) (keywords.map g) (Expr.mapAll f g arguments)
  | .super word => .super (g word)
  | .variable name => .variable (g name)
  | .invalid found => .invalid (g found)

/-- Replace all notes and tokens of some expressions. -/
def Expr.mapAll (f : β → γ) (g : Token → Token) : List (Expr β) → List (Expr γ)
  | [] => []
  | e :: es => e.map f g :: Expr.mapAll f g es

/-- Replace all notes and tokens of a statement. -/
def Statement.map (f : β → γ) (g : Token → Token) : Statement β → Statement γ
  | .assignment target value => .assignment (g target) (value.map f g)
  | .answer caret value => .answer (g caret) (value.map f g)
  | .expression value => .expression (value.map f g)

/-- Replace all notes and tokens of some statements. -/
def Statement.mapAll (f : β → γ) (g : Token → Token) : List (Statement β) → List (Statement γ)
  | [] => []
  | s :: ss => s.map f g :: Statement.mapAll f g ss

end

/-- Replace all notes and tokens of a body. -/
def Body.map (f : β → γ) (g : Token → Token) (body : Body β) : Body γ :=
  ⟨body.locals.map g, Statement.mapAll f g body.statements⟩

theorem Expr.mapAll_eq (f : β → γ) (g : Token → Token) (es : List (Expr β)) :
    Expr.mapAll f g es = es.map (Expr.map f g) := by
  induction es with
  | nil => rfl
  | cons e es ih => rw [Expr.mapAll, List.map_cons, ih]

theorem Statement.mapAll_eq (f : β → γ) (g : Token → Token) (ss : List (Statement β)) :
    Statement.mapAll f g ss = ss.map (Statement.map f g) := by
  induction ss with
  | nil => rfl
  | cons s ss ih => rw [Statement.mapAll, List.map_cons, ih]

mutual

/-- A tree with its own notes and tokens. -/
theorem Expr.map_id : ∀ e : Expr β, e.map id id = e
  | .array _ items _ => by rw [Expr.map, Expr.mapAll_id items, Option.map_id, id, id]
  | .block _ _ _ statements _ _ => by
    rw [Expr.map, Statement.mapAll_id statements, List.map_id, List.map_id, Option.map_id, id, id,
      id]
  | .group _ inner _ => by rw [Expr.map, Expr.map_id inner, Option.map_id, id, id]
  | .literal _ _ _ | .super _ | .variable _ | .invalid _ => rfl
  | .unary receiver _ => by rw [Expr.map, Expr.map_id receiver, id]
  | .binary receiver _ argument => by
    rw [Expr.map, Expr.map_id receiver, Expr.map_id argument, id]
  | .keyword receiver _ arguments => by
    rw [Expr.map, Expr.map_id receiver, Expr.mapAll_id arguments, List.map_id]

theorem Expr.mapAll_id : ∀ es : List (Expr β), Expr.mapAll id id es = es
  | [] => rfl
  | e :: es => by rw [Expr.mapAll, Expr.map_id e, Expr.mapAll_id es]

theorem Statement.map_id : ∀ s : Statement β, s.map id id = s
  | .assignment _ value | .answer _ value => by rw [Statement.map, Expr.map_id value, id]
  | .expression value => by rw [Statement.map, Expr.map_id value]

theorem Statement.mapAll_id : ∀ ss : List (Statement β), Statement.mapAll id id ss = ss
  | [] => rfl
  | s :: ss => by rw [Statement.mapAll, Statement.map_id s, Statement.mapAll_id ss]

end

section

variable (f : β → γ) (g : Token → Token)

theorem Statement.value_map (s : Statement β) : (s.map f g).value = s.value.map f g := by
  cases s <;> rfl

theorem Expr.children_map (e : Expr β) : (e.map f g).children = e.children.map (Expr.map f g) := by
  cases e <;> simp [Expr.map, children, mapAll_eq, Statement.mapAll_eq, Statement.value_map]

theorem Expr.body?_map (e : Expr β) :
    (e.map f g).body? = e.body?.map fun b => (f b.1, Statement.mapAll f g b.2) := by
  cases e <;> rfl

end

/-- The tree without its notes. -/
abbrev Expr.bare (e : Expr β) : Expr Unit := e.map (fun _ => ()) id

/-- The statement without its notes. -/
abbrev Statement.bare (s : Statement β) : Statement Unit := s.map (fun _ => ()) id

/-! ### Definitions -/

/-- The header of a method with other tokens. -/
def Signature.map (g : Token → Token) : Signature → Signature
  | .unary name => .unary (g name)
  | .binary operator parameter => .binary (g operator) (g parameter)
  | .keyword parts => .keyword (parts.map fun part => (g part.1, g part.2))

/-- What a method does, with other tokens. -/
def MethodBody.map (g : Token → Token) : MethodBody Unit → MethodBody Unit
  | .code body => .code (body.map id g)
  | .primitive name => .primitive (g name)

/-- A method with other tokens. -/
def MethodDef.map (g : Token → Token) (m : MethodDef Unit) : MethodDef Unit :=
  ⟨m.classWord.map g, m.signature.map g, m.body.map g⟩

/-- A class with other tokens. -/
def ClassDef.map (g : Token → Token) (c : ClassDef Unit) : ClassDef Unit :=
  ⟨g c.word, g c.nameToken, c.superclass.map g, c.fields.map g, c.methods.map (MethodDef.map g),
    c.closing.map g⟩

theorem Token.name_of_text {t t' : Token} (h : t'.text = t.text) : t'.name = t.name := by
  rw [name, name, h]

theorem joinTexts_congr {g g' : Token → Token} (hg : ∀ t, (g' t).text = (g t).text)
    (tokens : List Token) : joinTexts (tokens.map g') = joinTexts (tokens.map g) := by
  rw [joinTexts, joinTexts, List.foldl_map, List.foldl_map]
  simp only [hg]

theorem MethodDef.selector_map {g : Token → Token} (hg : ∀ t, (g t).text = t.text)
    (m : MethodDef Unit) : (m.map g).selector = m.selector := by
  obtain ⟨word, signature, body⟩ := m
  cases signature with
  | unary name => exact Token.name_of_text (hg name)
  | binary operator => exact hg operator
  | keyword parts =>
    have h := joinTexts_congr (g := id) hg (parts.map Prod.fst)
    rw [List.map_map, List.map_id] at h
    rw [selector, selector, map, Signature.map, Signature.selector, Signature.selector, ← h,
      List.map_map]
    rfl

theorem MethodDef.parameters_map (g : Token → Token) (m : MethodDef Unit) :
    (m.map g).parameters = m.parameters.map g := by
  obtain ⟨word, signature, body⟩ := m
  cases signature with
  | unary | binary => rfl
  | keyword parts =>
    rw [parameters, parameters, map, Signature.map, Signature.parameters, Signature.parameters,
      List.map_map, List.map_map]
    rfl

theorem MethodDef.isClassSide_map (g : Token → Token) (m : MethodDef Unit) :
    (m.map g).isClassSide = m.isClassSide := Option.isSome_map

/-! ### Declared trees -/

namespace Declaring

variable {α α' β β' : Type}

theorem pure_apply (a : α) (s : Declarations) : (pure a : Declaring α) s = (a, s) := rfl

theorem bind_apply (x : Declaring α) (f : α → Declaring β) (s : Declarations) :
    (x >>= f) s = f (x s).1 (x s).2 := rfl

/-- Declare a block with its variables, and then what is in it. -/
def inBlock (scope : ScopeId) (parameters locals : List Token) (f : ScopeId → Declaring α) :
    Declaring α := do
  let body ← declareBlock scope
  declareVariables body .argument parameters
  declareVariables body .localVariable locals
  f body

/-- How two trees differ that are declared side by side: in the tokens, and in the notes, which are
numbers of scopes of some kind. -/
structure Difference where
  notes : ScopeId → ScopeId
  seen : ScopeId → Prop
  left : Token → Token
  right : Token → Token

variable {w : Difference}

/-- Two expressions that are `e₀` but for notes and tokens. -/
def ExprTwins (w : Difference) (e₀ : Expr Unit) (e e' : Expr ScopeId) : Prop :=
  ∃ a : Expr ScopeId, a.bare = e₀ ∧ e = a.map id w.left ∧ e' = a.map w.notes w.right ∧
    ∀ b ∈ exprBlocks a, w.seen b.1

/-- Some expressions that are `es₀` but for notes and tokens. -/
def ExprsTwins (w : Difference) (es₀ : List (Expr Unit)) (es es' : List (Expr ScopeId)) : Prop :=
  ∃ as : List (Expr ScopeId), Expr.mapAll (fun _ => ()) id as = es₀ ∧
    es = Expr.mapAll id w.left as ∧ es' = Expr.mapAll w.notes w.right as ∧
    ∀ b ∈ exprsBlocks as, w.seen b.1

/-- Two statements that are `s₀` but for notes and tokens. -/
def StatementTwins (w : Difference) (s₀ : Statement Unit) (s s' : Statement ScopeId) : Prop :=
  ∃ a : Statement ScopeId, a.bare = s₀ ∧ s = a.map id w.left ∧ s' = a.map w.notes w.right ∧
    ∀ b ∈ statementBlocks a, w.seen b.1

/-- Some statements that are `ss₀` but for notes and tokens. -/
def StatementsTwins (w : Difference) (ss₀ : List (Statement Unit))
    (ss ss' : List (Statement ScopeId)) : Prop :=
  ∃ as : List (Statement ScopeId), Statement.mapAll (fun _ => ()) id as = ss₀ ∧
    ss = Statement.mapAll id w.left as ∧ ss' = Statement.mapAll w.notes w.right as ∧
    ∀ b ∈ statementsBlocks as, w.seen b.1

theorem exprsBlocks_concat (es : List (Expr ScopeId)) (e : Expr ScopeId) :
    exprsBlocks (es ++ [e]) = exprsBlocks es ++ exprBlocks e := by
  simp [exprsBlocks_eq]

theorem statementsBlocks_concat (ss : List (Statement ScopeId)) (s : Statement ScopeId) :
    statementsBlocks (ss ++ [s]) = statementsBlocks ss ++ statementBlocks s := by
  cases s <;> simp [statementsBlocks_eq, statementBlocks, Statement.value]

theorem ExprsTwins.nil : ExprsTwins w [] (List.reverse []) (List.reverse []) :=
  ⟨[], rfl, rfl, rfl, nofun⟩

theorem StatementsTwins.nil : StatementsTwins w [] (List.reverse []) (List.reverse []) :=
  ⟨[], rfl, rfl, rfl, nofun⟩

/-- **A relation that is kept** when ways of declaring are put together. `Rel scope R x x'` says
that what `x` declares inside of `scope` is related to what `x'` declares inside of its counterpart,
with answers that are related by `R`. -/
structure Compares (w : Difference) (Rel : ∀ α α' : Type, ScopeId → (α → α' → Prop) →
    Declaring α → Declaring α' → Prop) : Prop where
  pure {α α' : Type} {scope : ScopeId} {R : α → α' → Prop} {a : α} {a' : α'} :
    R a a' → Rel α α' scope R (Pure.pure a) (Pure.pure a')
  bind {α α' β β' : Type} {scope : ScopeId} {R : α → α' → Prop} {Q : β → β' → Prop}
    {x : Declaring α} {x' : Declaring α'} {f : α → Declaring β} {f' : α' → Declaring β'} :
    Rel α α' scope R x x' → (∀ a a', R a a' → Rel β β' scope Q (f a) (f' a')) →
      Rel β β' scope Q (x >>= f) (x' >>= f')
  block {α α' : Type} {scope : ScopeId} {R : α → α' → Prop} {f : ScopeId → Declaring α}
    {f' : ScopeId → Declaring α'} (parameters locals : List Token) :
    (∀ body, w.seen body → Rel α α' body R (f body) (f' (w.notes body))) →
      Rel α α' scope R (inBlock scope (parameters.map w.left) (locals.map w.left) f)
        (inBlock (w.notes scope) (parameters.map w.right) (locals.map w.right) f')

namespace Compares

variable {Rel : ∀ α α' : Type, ScopeId → (α → α' → Prop) → Declaring α → Declaring α' → Prop}

-- What has been declared of a list stands in reverse, so it is compared in the order of the list.
mutual

theorem expr (h : Compares w Rel) (scope : ScopeId) : ∀ e : Expr Unit,
    Rel _ _ scope (ExprTwins w e) (declareExpr scope (e.map id w.left))
      (declareExpr (w.notes scope) (e.map id w.right))
  | .array opening items closing => by
    refine h.bind (h.exprs scope .nil items) fun _ _ hes => ?_
    obtain ⟨as, rfl, rfl, rfl, hseen⟩ := hes
    exact h.pure ⟨.array opening as closing, by simp [Expr.map], rfl, rfl, hseen⟩
  | .block opening parameters locals statements closing _ => by
    refine h.block parameters locals fun body hbody => ?_
    refine h.bind (h.statements body .nil statements) fun _ _ hss => ?_
    obtain ⟨as, rfl, rfl, rfl, hseen⟩ := hss
    refine h.pure ⟨.block opening parameters locals as closing body, by simp [Expr.map], rfl, rfl, ?_⟩
    exact List.forall_mem_append.2 ⟨hseen, List.forall_mem_singleton.2 hbody⟩
  | .group opening inner closing => by
    refine h.bind (h.expr scope inner) fun _ _ he => ?_
    obtain ⟨a, rfl, rfl, rfl, hseen⟩ := he
    exact h.pure ⟨.group opening a closing, by simp [Expr.map], rfl, rfl, hseen⟩
  | .literal first last value => h.pure ⟨.literal first last value, rfl, rfl, rfl, nofun⟩
  | .unary receiver selector => by
    refine h.bind (h.expr scope receiver) fun _ _ he => ?_
    obtain ⟨a, rfl, rfl, rfl, hseen⟩ := he
    exact h.pure ⟨.unary a selector, rfl, rfl, rfl, hseen⟩
  | .binary receiver operator argument => by
    refine h.bind (h.expr scope receiver) fun _ _ he => ?_
    refine h.bind (h.expr scope argument) fun _ _ hd => ?_
    obtain ⟨a, rfl, rfl, rfl, hseen⟩ := he
    obtain ⟨b, rfl, rfl, rfl, hseen'⟩ := hd
    exact h.pure ⟨.binary a operator b, rfl, rfl, rfl, List.forall_mem_append.2 ⟨hseen, hseen'⟩⟩
  | .keyword receiver keywords arguments => by
    refine h.bind (h.expr scope receiver) fun _ _ he => ?_
    refine h.bind (h.exprs scope .nil arguments) fun _ _ hes => ?_
    obtain ⟨a, rfl, rfl, rfl, hseen⟩ := he
    obtain ⟨as, rfl, rfl, rfl, hseen'⟩ := hes
    exact h.pure ⟨.keyword a keywords as, by simp [Expr.map], rfl, rfl,
      List.forall_mem_append.2 ⟨hseen, hseen'⟩⟩
  | .super word => h.pure ⟨.super word, rfl, rfl, rfl, nofun⟩
  | .variable name => h.pure ⟨.variable name, rfl, rfl, rfl, nofun⟩
  | .invalid found => h.pure ⟨.invalid found, rfl, rfl, rfl, nofun⟩

theorem exprs (h : Compares w Rel) (scope : ScopeId) {ds : List (Expr Unit)}
    {done done' : List (Expr ScopeId)} (hdone : ExprsTwins w ds done.reverse done'.reverse) :
    ∀ es : List (Expr Unit), Rel _ _ scope (ExprsTwins w (ds ++ es))
      (declareExprs scope done (Expr.mapAll id w.left es))
      (declareExprs (w.notes scope) done' (Expr.mapAll id w.right es))
  | [] => by
    rw [List.append_nil]
    exact h.pure hdone
  | e :: es => by
    rw [List.append_cons ds]
    refine h.bind (h.expr scope e) fun _ _ hd => h.exprs scope ?_ es
    obtain ⟨as, rfl, has, has', hseen⟩ := hdone
    obtain ⟨a, rfl, rfl, rfl, hseen'⟩ := hd
    refine ⟨as ++ [a], by simp [Expr.mapAll_eq], ?_, ?_, ?_⟩
    · simp [has, Expr.mapAll_eq]
    · simp [has', Expr.mapAll_eq]
    · rw [exprsBlocks_concat]
      exact List.forall_mem_append.2 ⟨hseen, hseen'⟩

theorem statement (h : Compares w Rel) (scope : ScopeId) : ∀ s : Statement Unit,
    Rel _ _ scope (StatementTwins w s) (declareStatement scope (s.map id w.left))
      (declareStatement (w.notes scope) (s.map id w.right))
  | .assignment target value => by
    refine h.bind (h.expr scope value) fun _ _ he => ?_
    obtain ⟨a, rfl, rfl, rfl, hseen⟩ := he
    exact h.pure ⟨.assignment target a, rfl, rfl, rfl, hseen⟩
  | .answer caret value => by
    refine h.bind (h.expr scope value) fun _ _ he => ?_
    obtain ⟨a, rfl, rfl, rfl, hseen⟩ := he
    exact h.pure ⟨.answer caret a, rfl, rfl, rfl, hseen⟩
  | .expression value => by
    refine h.bind (h.expr scope value) fun _ _ he => ?_
    obtain ⟨a, rfl, rfl, rfl, hseen⟩ := he
    exact h.pure ⟨.expression a, rfl, rfl, rfl, hseen⟩

theorem statements (h : Compares w Rel) (scope : ScopeId) {ds : List (Statement Unit)}
    {done done' : List (Statement ScopeId)}
    (hdone : StatementsTwins w ds done.reverse done'.reverse) :
    ∀ ss : List (Statement Unit), Rel _ _ scope (StatementsTwins w (ds ++ ss))
      (declareStatements scope done (Statement.mapAll id w.left ss))
      (declareStatements (w.notes scope) done' (Statement.mapAll id w.right ss))
  | [] => by
    rw [List.append_nil]
    exact h.pure hdone
  | s :: ss => by
    rw [List.append_cons ds]
    refine h.bind (h.statement scope s) fun _ _ hd => h.statements scope ?_ ss
    obtain ⟨as, rfl, has, has', hseen⟩ := hdone
    obtain ⟨a, rfl, rfl, rfl, hseen'⟩ := hd
    refine ⟨as ++ [a], by simp [Statement.mapAll_eq], ?_, ?_, ?_⟩
    · simp [has, Statement.mapAll_eq]
    · simp [has', Statement.mapAll_eq]
    · rw [statementsBlocks_concat]
      exact List.forall_mem_append.2 ⟨hseen, hseen'⟩

end

end Compares

/-- **A property that is kept** when ways of declaring are put together. -/
structure Composes (P : ∀ α : Type, ScopeId → Declaring α → Prop) : Prop where
  pure {α : Type} {scope : ScopeId} (a : α) : P α scope (Pure.pure a)
  bind {α β : Type} {scope : ScopeId} {x : Declaring α} {f : α → Declaring β} :
    P α scope x → (∀ s, P β scope (f (x s).1)) → P β scope (x >>= f)
  block {α : Type} {scope : ScopeId} {f : ScopeId → Declaring α} (parameters locals : List Token) :
    (∀ body, P α body (f body)) → P α scope (inBlock scope parameters locals f)

namespace Composes

variable {P : ∀ α : Type, ScopeId → Declaring α → Prop}

/-- A property of ways of declaring, together with what is known of the answers. -/
theorem compares (h : Composes P) : Compares ⟨id, fun _ => True, id, id⟩
    fun α _ scope R x _ => P α scope x ∧ ∀ s, ∃ a', R (x s).1 a' where
  pure ha := ⟨h.pure _, fun _ => ⟨_, ha⟩⟩
  bind hx hf := by
    refine ⟨h.bind hx.1 fun s => ?_, fun s => ?_⟩
    · obtain ⟨a', ha⟩ := hx.2 s
      exact (hf _ a' ha).1
    · obtain ⟨a', ha⟩ := hx.2 s
      exact (hf _ a' ha).2 _
  block parameters locals hf := by
    rw [List.map_id, List.map_id]
    exact ⟨h.block parameters locals fun body => (hf body trivial).1, fun s => (hf _ trivial).2 _⟩

theorem expr (h : Composes P) (scope : ScopeId) (e : Expr Unit) :
    P _ scope (declareExpr scope e) := by
  have he := (h.compares.expr scope e).1
  rwa [Expr.map_id] at he

theorem exprs (h : Composes P) (scope : ScopeId) (done : List (Expr ScopeId))
    (es : List (Expr Unit)) : P _ scope (declareExprs scope done es) := by
  have hdone : ExprsTwins ⟨id, fun _ => True, id, id⟩ _ done.reverse done.reverse :=
    ⟨_, rfl, (Expr.mapAll_id _).symm, (Expr.mapAll_id _).symm, fun _ _ => trivial⟩
  have hes := (h.compares.exprs scope hdone es).1
  rwa [Expr.mapAll_id] at hes

theorem statements (h : Composes P) (scope : ScopeId) (done : List (Statement ScopeId))
    (ss : List (Statement Unit)) : P _ scope (declareStatements scope done ss) := by
  have hdone : StatementsTwins ⟨id, fun _ => True, id, id⟩ _ done.reverse done.reverse :=
    ⟨_, rfl, (Statement.mapAll_id _).symm, (Statement.mapAll_id _).symm, fun _ _ => trivial⟩
  have hss := (h.compares.statements scope hdone ss).1
  rwa [Statement.mapAll_id] at hss

end Composes

/-- The statements of a job are those that were declared, but for the notes. -/
theorem declareStatements_bare (scope : ScopeId) (ss : List (Statement Unit)) (s : Declarations) :
    Statement.mapAll (fun _ => ()) id (declareStatements scope [] ss s).1 = ss := by
  have h : Composes fun _ _ _ => True := ⟨fun _ => trivial, fun _ _ => trivial, fun _ _ _ => trivial⟩
  have hss := (h.compares.statements scope .nil ss).2 s
  rw [Statement.mapAll_id] at hss
  obtain ⟨_, as, rfl, hleft, -⟩ := hss
  rw [hleft, Statement.mapAll_id]

/-- **The body of a job is the body that was declared**, but for the notes. -/
theorem declareBody_bare (scope : ScopeId) (body : Body Unit) (s : Declarations) :
    (declareBody scope body s).1.map (fun _ => ()) id = body := by
  rw [declareBody, bind_apply, bind_apply]
  obtain ⟨locals, statements⟩ := body
  exact congr (congrArg Body.mk (List.map_id _)) (declareStatements_bare scope statements _)

theorem declareCode_bare (scope : ScopeId) (selector : String) (classSide : Bool)
    (parameters : List Token) (body : Body Unit) (span : Span) (s : Declarations) :
    (declareCode scope selector classSide parameters body span s).1.body.map (fun _ => ()) id =
      body :=
  declareBody_bare _ body _

end Declaring

end Smalltalk
