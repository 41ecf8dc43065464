/-
**Definitions that stand elsewhere.**

Where a token stands is kept for the mistakes that are reported, and for nothing else: if all tokens
of some definitions are moved, the same scopes and symbols are declared, and the same mistakes are
found in other places. The methods that are left to compile are the same but for their tokens. Nor
does it matter which code was written before, so what two compilations declare can only differ if
they declare different programs.

* `Declaring.Alike` — **two ways of declaring that do the same** to tables that differ in code only;
* `Declaring.declareClasses_alike`, `declareProgram_alike` — **the same is declared** by classes and
  programs that stand elsewhere.
-/

import Smalltalk.Proofs.CodeBlind

namespace Smalltalk

variable {n : Nat} {g : Token → Token} {S : Span → Span → Prop}

/-- **A method whose tokens stand elsewhere**: the same scopes are noted in it. How the places of
the two are related is left open. -/
structure Job.Moved (g : Token → Token) (S : Span → Span → Prop) (job job' : Job) : Prop where
  scope : job'.scope = job.scope
  body : job'.body = job.body.map id g
  span : S job.span job'.span

theorem Body.map_id {β : Type} (body : Body β) : body.map id id = body := by
  rw [Body.map, List.map_id, Statement.mapAll_id]

theorem Job.moved_id : Job.Moved id Eq = Eq := by
  funext ⟨scope, body, span⟩ ⟨scope', body', span'⟩
  refine propext ⟨fun ⟨hscope, hbody, hspan⟩ => ?_, fun h => ?_⟩
  · rw [Body.map_id] at hbody
    exact congr (congr (congrArg Job.mk hscope.symm) hbody.symm) hspan
  · cases h
    exact ⟨rfl, body.map_id.symm, rfl⟩

/-- **A way of moving tokens** that leaves their texts alone, and what it does to the places of
methods. -/
structure Relocates (g : Token → Token) (S : Span → Span → Prop) : Prop where
  text (t : Token) : (g t).text = t.text
  header (m : MethodDef Unit) : S m.headerSpan (m.map g).headerSpan
  missing : S .missing .missing

theorem MethodDef.map_id (m : MethodDef Unit) : m.map id = m := by
  obtain ⟨word, signature, body⟩ := m
  cases signature <;> cases body <;>
    simp [map, Signature.map, MethodBody.map, Body.map_id]

/-- Tokens that stay where they are. -/
theorem Relocates.refl : Relocates id Eq := ⟨fun _ => rfl, fun m => by rw [m.map_id], rfl⟩

theorem Span.start_merge_le {a b : Span} (ha : a.start ≤ n) (hb : b.start ≤ n) :
    (a.merge b).start ≤ n := by
  rw [merge]
  split
  · exact hb
  · split
    · exact ha
    · exact Nat.le_trans (Nat.min_le_left _ _) ha

/-- A header is where its tokens are. -/
theorem MethodDef.start_headerSpan_le (hg : ∀ t, (g t).start ≤ n) (m : MethodDef Unit) :
    (m.map g).headerSpan.start ≤ n := by
  obtain ⟨word, signature, body⟩ := m
  have hparts (parts : List (Token × Token)) {span : Span} (hspan : span.start ≤ n) :
      ((parts.map fun part => (g part.1, g part.2)).foldl
        (fun span part => (span.merge part.1.span).merge part.2.span) span).start ≤ n := by
    induction parts generalizing span with
    | nil => exact hspan
    | cons part parts ih => exact ih (Span.start_merge_le (Span.start_merge_le hspan (hg _)) (hg _))
  have hsignature : (MethodDef.headerSpan ⟨none, signature.map g, body.map g⟩).start ≤ n := by
    cases signature with
    | unary name => exact hg name
    | binary operator parameter => exact Span.start_merge_le (hg _) (hg _)
    | keyword parts => exact hparts parts (Nat.zero_le n)
  cases word with
  | none => exact hsignature
  | some word => exact Span.start_merge_le (hg word) hsignature

/-- Tokens that are moved to the front. -/
theorem Relocates.within (htext : ∀ t, (g t).text = t.text) (hg : ∀ t, (g t).start ≤ n) :
    Relocates g fun _ span => span.start ≤ n :=
  ⟨htext, fun m => m.start_headerSpan_le hg, Nat.zero_le n⟩

namespace Declaring

variable {α α' β β' : Type}

/-! ### Mistakes -/

/-- **The mistakes that were added on both sides** have the same causes, and none of them says that
a tree could not be read. -/
def SameMistakes (s s₁ s' s₁' : Declarations) : Prop :=
  ∃ new new' : List CompileError, s₁.errors.toList = s.errors.toList ++ new ∧
    s₁'.errors.toList = s'.errors.toList ++ new' ∧
      new'.map CompileError.cause = new.map CompileError.cause ∧
        ∀ e ∈ new, e.cause.isInvalidTree = false

namespace SameMistakes

variable {s s' s₁ s₂ s₁' s₂' : Declarations}

theorem refl (s s' : Declarations) : SameMistakes s s s' s' :=
  ⟨[], [], by simp, by simp, rfl, by simp⟩

theorem trans (h : SameMistakes s s₁ s' s₁') (h' : SameMistakes s₁ s₂ s₁' s₂') :
    SameMistakes s s₂ s' s₂' := by
  obtain ⟨new, new', hnew, hnew', hcauses, hvalid⟩ := h
  obtain ⟨more, more', hmore, hmore', hcauses', hvalid'⟩ := h'
  refine ⟨new ++ more, new' ++ more', ?_, ?_, ?_, List.forall_mem_append.2 ⟨hvalid, hvalid'⟩⟩
  · rw [hmore, hnew, List.append_assoc]
  · rw [hmore', hnew', List.append_assoc]
  · rw [List.map_append, List.map_append, hcauses, hcauses']

/-- One mistake is reported on both sides. -/
theorem report {cause cause' : CompileError.Cause} (hcause : cause' = cause)
    (hvalid : cause.isInvalidTree = false) {span span' : Span}
    (h : s₁.errors = s.errors.push ⟨cause, span⟩) (h' : s₁'.errors = s'.errors.push ⟨cause', span'⟩) :
    SameMistakes s s₁ s' s₁' :=
  ⟨[⟨cause, span⟩], [⟨cause', span'⟩], by simp [h], by simp [h'], by rw [hcause]; rfl,
    List.forall_mem_singleton.2 hvalid⟩

end SameMistakes

theorem isInvalidTree_causeOf (name scope : String) (e : DeclarationError) :
    (causeOf name scope e).isInvalidTree = false := by
  cases e <;> rfl

/-- A way of declaring that takes no mistake back. -/
def Plain (x : Declaring α) : Prop :=
  ∀ s : Declarations, s.errors.toList <+: (x s).2.errors.toList

section

variable {x : Declaring α} {f : α → Declaring β}

theorem Plain.pure (a : α) : Plain (Pure.pure a : Declaring α) := fun _ => List.prefix_rfl

theorem Plain.then (hx : Plain x) (hf : ∀ s, Plain (f (x s).1)) : Plain (x >>= f) :=
  fun s => (hx s).trans (hf s _)

theorem Plain.bind (hx : Plain x) (hf : ∀ a, Plain (f a)) : Plain (x >>= f) :=
  hx.then fun _ => hf _

/-- If there is no mistake in the end, there was none before. -/
theorem Plain.errors_eq_empty (hx : Plain x) {s : Declarations} (h : (x s).2.errors = #[]) :
    s.errors = #[] := by
  have hprefix := hx s
  grind

end

/-! ### The same from the same table -/

/-- **Two ways of declaring that do the same** to tables that differ in code at most, and find the
same mistakes. -/
def Alike (R : α → α' → Prop) (x : Declaring α) (x' : Declaring α') : Prop :=
  ∀ s s' : Declarations, s'.table.withoutCode = s.table.withoutCode →
    R (x s).1 (x' s').1 ∧ (x' s').2.table.withoutCode = (x s).2.table.withoutCode ∧
      SameMistakes s (x s).2 s' (x' s').2

namespace Alike

variable {R : α → α' → Prop} {Q : β → β' → Prop} {x : Declaring α} {x' : Declaring α'}
  {f : α → Declaring β}

theorem pure {a : α} {a' : α'} (h : R a a') : Alike R (Pure.pure a) (Pure.pure a') :=
  fun s s' htable => ⟨h, htable, .refl s s'⟩

theorem bind {f' : α' → Declaring β'} (hx : Alike R x x')
    (hf : ∀ a a', R a a' → Alike Q (f a) (f' a')) : Alike Q (x >>= f) (x' >>= f') := by
  intro s s' htable
  obtain ⟨hresult, htable', hmistakes⟩ := hx s s' htable
  obtain ⟨hresult', htable'', hmistakes'⟩ := hf _ _ hresult _ _ htable'
  exact ⟨hresult', htable'', hmistakes.trans hmistakes'⟩

/-- Two ways of declaring with one and the same answer. -/
theorem bind_same {x x' : Declaring α} {f' : α → Declaring β'}
    (hx : Alike (fun a a' => a' = a) x x') (hf : ∀ a, Alike Q (f a) (f' a)) :
    Alike Q (x >>= f) (x' >>= f') :=
  hx.bind fun a _ h => h ▸ hf a

theorem ask {f : SymbolTable → α} (hf : ∀ t, f t.withoutCode = f t) :
    Alike (fun a a' => a' = a) (ask f) (ask f) :=
  fun s s' htable => ⟨(hf _).symm.trans ((congrArg f htable).trans (hf _)), htable, .refl s s'⟩

theorem change {f : SymbolTable → α × SymbolTable}
    (hf : ∀ t, f t.withoutCode = ((f t).1, (f t).2.withoutCode)) :
    Alike (fun a a' => a' = a) (change f) (change f) := by
  intro s s' htable
  have h := (hf s'.table).symm.trans ((congrArg f htable).trans (hf s.table))
  exact ⟨(Prod.mk.inj h).1, (Prod.mk.inj h).2, .refl s s'⟩

theorem report {cause : CompileError.Cause} (hvalid : cause.isInvalidTree = false)
    (span span' : Span) : Alike (fun _ _ => True) (report cause span) (report cause span') :=
  fun _ _ htable => ⟨trivial, htable, .report rfl hvalid rfl rfl⟩

theorem fail (scope : ScopeId) : Alike (fun _ _ => True) (fail scope) (fail scope) :=
  fun s s' htable => ⟨trivial, htable, .refl s s'⟩

/-- No mistake is taken back. -/
theorem plain (hx : Alike R x x') : Plain x := by
  intro s
  obtain ⟨-, -, new, -, hnew, -⟩ := hx s s rfl
  exact ⟨new, hnew.symm⟩

theorem causes (hx : Alike R x x') {s : Declarations} {e : CompileError}
    (he : e ∈ (x s).2.errors) : e ∈ s.errors ∨ e.cause.isInvalidTree = false := by
  obtain ⟨-, -, new, -, hnew, -, -, hvalid⟩ := hx s s rfl
  rw [← Array.mem_toList_iff, hnew, List.mem_append, Array.mem_toList_iff] at he
  exact he.imp_right (hvalid e)

end Alike

/-! ### Trees -/

variable {jobs jobs' : Array Job}

section

variable (hg : ∀ t, (g t).text = t.text)

include hg

theorem declareVariable_alike (scope : ScopeId) (kind : SymbolKind) (name : Token) :
    Alike (fun _ _ => True) (declareVariable scope kind name)
      (declareVariable scope kind (g name)) := by
  rw [declareVariable, declareVariable, Token.name_of_text (hg name)]
  refine (Alike.change fun t => t.declare_withoutCode _ _ _).bind_same fun result => ?_
  cases result with
  | ok id => exact .pure trivial
  | error e =>
    exact (Alike.ask fun t => t.qualifiedName_withoutCode _).bind_same fun place =>
      (Alike.report (isInvalidTree_causeOf _ _ _) _ _).bind fun _ _ _ => .fail scope

theorem declareVariables_alike (scope : ScopeId) (kind : SymbolKind) (names : List Token) :
    Alike (fun _ _ => True) (declareVariables scope kind names)
      (declareVariables scope kind (names.map g)) := by
  induction names with
  | nil => exact .pure trivial
  | cons name names ih =>
    rw [List.map_cons, declareVariables, declareVariables]
    exact (declareVariable_alike hg scope kind name).bind fun _ _ _ => ih

omit hg in
theorem declareBlock_alike (scope : ScopeId) :
    Alike (fun a a' => a' = a) (declareBlock scope) (declareBlock scope) :=
  .change fun t => by simp only [t.declareBlock_withoutCode]

/-- **Trees are declared in the same way** wherever they stand. -/
theorem alike_compares : Compares ⟨id, fun _ => True, id, g⟩
    fun _ _ _ R x x' => Alike R x x' where
  pure := Alike.pure
  bind := Alike.bind
  block parameters locals hf := by
    rw [List.map_id, List.map_id]
    exact (declareBlock_alike _).bind_same fun body =>
      (declareVariables_alike hg body .argument parameters).bind fun _ _ _ =>
        (declareVariables_alike hg body .localVariable locals).bind fun _ _ _ => hf body trivial

theorem declareStatements_alike (scope : ScopeId) (ss : List (Statement Unit)) :
    Alike (fun as as' => as' = Statement.mapAll id g as)
      (declareStatements scope [] ss) (declareStatements scope [] (Statement.mapAll id g ss)) := by
  have h := (alike_compares hg).statements scope .nil ss
  rw [Statement.mapAll_id] at h
  intro s s' htable
  obtain ⟨⟨as, -, hleft, hright, -⟩, hrest⟩ := h s s' htable
  rw [Statement.mapAll_id] at hleft
  exact ⟨hleft ▸ hright, hrest⟩

/-! ### Methods -/

theorem declareCode_alike (scope : ScopeId) (selector : String) (classSide : Bool)
    (parameters : List Token) (body : Body Unit) {span span' : Span} (hspan : S span span') :
    Alike (Job.Moved g S) (declareCode scope selector classSide parameters body span)
      (declareCode scope selector classSide (parameters.map g) (body.map id g) span') := by
  have hopen (t : SymbolTable) := t.addScope_withoutCode selector (.method classSide 0) scope
  refine (Alike.change fun t => by
    simp only [hopen, SymbolTable.declareMethod_withoutCode]).bind_same fun method => ?_
  have hbody : Alike (fun b b' => b' = b.map id g) (declareBody method body)
      (declareBody method (body.map id g)) :=
    (declareVariables_alike hg method .localVariable body.locals).bind fun _ _ _ =>
      (declareStatements_alike hg method body.statements).bind fun _ _ h =>
        .pure (congrArg (Body.mk _) h)
  exact (declareVariables_alike hg method .argument parameters).bind fun _ _ _ =>
    hbody.bind fun _ _ h => .pure ⟨rfl, h, hspan⟩

theorem declarePrimitive_alike (scope : ScopeId) (m : MethodDef Unit) (name : Token) :
    Alike (fun _ _ => True) (declarePrimitive scope m name)
      (declarePrimitive scope (m.map g) (g name)) := by
  have hname : (g name).symbolText = name.symbolText := by
    rw [Token.symbolText, Token.symbolText, hg]
  rw [declarePrimitive, declarePrimitive, hname, m.selector_map hg, m.isClassSide_map,
    m.parameters_map, List.length_map]
  cases Primitive.ofName? name.symbolText with
  | none =>
    exact (Alike.ask fun t => t.qualifiedName_withoutCode _).bind_same fun place =>
      .report rfl _ _
  | some operation =>
    intro s s' htable
    exact ⟨trivial, (Alike.change (fun t => by
      simp only [t.declareMethod_withoutCode]) s s' htable).2⟩

end

/-- Some methods that are left to compile, and those that stand elsewhere. -/
abbrev JobsMoved (g : Token → Token) (S : Span → Span → Prop) (jobs jobs' : Array Job) : Prop :=
  List.Forall₂ (Job.Moved g S) jobs.toList jobs'.toList

section

variable (hg : Relocates g S)

include hg

/-- **A method that stands elsewhere.** -/
theorem declareMethod_alike (scope : ScopeId) (m : MethodDef Unit) :
    Alike (Option.Rel (Job.Moved g S)) (declareMethod scope m)
      (declareMethod scope (m.map g)) := by
  rw [declareMethod, declareMethod, m.selector_map hg.text, m.isClassSide_map, m.parameters_map]
  refine (Alike.ask fun t => t.hasMethod_withoutCode _ _ _).bind_same fun exists? => ?_
  cases exists? with
  | true =>
    have hname (t : SymbolTable) : (t.withoutCode.scope scope).name = (t.scope scope).name := by
      rw [t.scope_withoutCode]
      rfl
    exact (Alike.ask hname).bind_same fun className => (Alike.report rfl _ _).bind fun _ _ _ =>
      .pure .none
  | false =>
    cases hbody : m.body with
    | primitive name =>
      have hbody' : (m.map g).body = .primitive (g name) := by
        rw [MethodDef.map, hbody, MethodBody.map]
      simp only [hbody']
      exact (declarePrimitive_alike hg.text scope m name).bind fun _ _ _ => .pure .none
    | code body =>
      have hbody' : (m.map g).body = .code (body.map id g) := by
        rw [MethodDef.map, hbody, MethodBody.map]
      simp only [hbody']
      exact (declareCode_alike hg.text scope _ _ _ body (hg.header m)).bind fun _ _ h =>
        .pure (.some h)

theorem declareMethods_alike (scope : ScopeId) (ms : List (MethodDef Unit))
    (hjobs : JobsMoved g S jobs jobs') : Alike (JobsMoved g S) (declareMethods scope jobs ms)
      (declareMethods scope jobs' (ms.map (MethodDef.map g))) := by
  induction ms generalizing jobs jobs' with
  | nil => exact .pure hjobs
  | cons m ms ih =>
    rw [List.map_cons, declareMethods, declareMethods]
    refine (declareMethod_alike hg scope m).bind fun job job' h => ?_
    cases h with
    | none => exact ih hjobs
    | some h =>
      refine ih ?_
      rw [JobsMoved, Array.toList_push, Array.toList_push]
      exact List.rel_append hjobs (.cons h .nil)

/-! ### Classes -/

omit hg in
theorem defaultSuperclass_alike (name : String) :
    Alike (fun a a' => a' = a) (defaultSuperclass name) (defaultSuperclass name) :=
  .ask fun t => by simp

omit hg in
theorem openClass_alike (name : String) (superclass : Option ScopeId) :
    Alike (fun a a' => a' = a) (openClass name superclass) (openClass name superclass) :=
  .change fun t => by
    have hinherited : (superclass.map fun s => (t.withoutCode.scope s).kind.fieldCount) =
        superclass.map fun s => (t.scope s).kind.fieldCount := by
      simp only [t.scope_withoutCode]
      rfl
    simp only [hinherited, t.addScope_withoutCode, SymbolTable.declare_withoutCode]

theorem findSuperclass_alike (c : ClassDef Unit) :
    Alike (fun a a' => a' = a) (findSuperclass c) (findSuperclass (c.map g)) := by
  have hname : (c.map g).name = c.name := Token.name_of_text (hg.text c.nameToken)
  have hsuper : (c.map g).superclass = c.superclass.map g := rfl
  rw [findSuperclass, findSuperclass, hname, hsuper]
  cases c.superclass with
  | none => exact defaultSuperclass_alike c.name
  | some superclass =>
    simp only [Option.map_some, Token.name_of_text (hg.text superclass)]
    refine (Alike.ask fun t => t.classNamed?_withoutCode _).bind_same fun found => ?_
    cases found with
    | some scope => exact .pure rfl
    | none => exact (Alike.report rfl _ _).bind fun _ _ _ => defaultSuperclass_alike c.name

/-- Declare a class with its fields, and answer its scope, unless its name is taken. -/
def declareHeader (c : ClassDef Unit) : Declaring (Option ScopeId) := do
  if c.name = mainClass then
    report .reservedClassName c.nameToken.span
    return none
  else if (← ask fun table => table.classNamed? c.name).isSome then
    report (.classRedefinition c.name) c.nameToken.span
    return none
  else
    let scope ← openClass c.name (← findSuperclass c)
    declareVariables scope .field c.fields
    return some scope

omit hg in
/-- The methods of a class are declared after its header. -/
theorem declareClass_eq (jobs : Array Job) (c : ClassDef Unit) (s : Declarations) :
    declareClass jobs c s =
      match (declareHeader c s).1 with
      | none => (jobs, (declareHeader c s).2)
      | some scope => declareMethods scope jobs c.methods (declareHeader c s).2 := by
  rw [declareClass, declareHeader]
  split
  · rfl
  · simp only [bind, StateT.bind, ask]
    split <;> rfl

theorem declareHeader_alike (c : ClassDef Unit) :
    Alike (fun a a' => a' = a) (declareHeader c) (declareHeader (c.map g)) := by
  have hname : (c.map g).name = c.name := Token.name_of_text (hg.text c.nameToken)
  rw [declareHeader, declareHeader, hname]
  split
  · exact (Alike.report rfl _ _).bind fun _ _ _ => .pure rfl
  · refine (Alike.ask fun t => t.classNamed?_withoutCode _).bind_same fun found => ?_
    split
    · exact (Alike.report rfl _ _).bind fun _ _ _ => .pure rfl
    · exact (findSuperclass_alike hg c).bind_same fun superclass =>
        (openClass_alike c.name superclass).bind_same fun scope =>
          (declareVariables_alike hg.text scope .field c.fields).bind fun _ _ _ => .pure rfl

theorem declareClass_alike (c : ClassDef Unit) (hjobs : JobsMoved g S jobs jobs') :
    Alike (JobsMoved g S) (declareClass jobs c) (declareClass jobs' (c.map g)) := by
  have heq (jobs : Array Job) (c : ClassDef Unit) : declareClass jobs c = declareHeader c >>= fun
      | none => pure jobs
      | some scope => declareMethods scope jobs c.methods := by
    funext s
    rw [declareClass_eq, bind_apply]
    cases (declareHeader c s).1 <;> rfl
  rw [heq, heq]
  refine (declareHeader_alike hg c).bind_same fun scope => ?_
  cases scope with
  | none => exact .pure hjobs
  | some scope => exact declareMethods_alike hg scope c.methods hjobs

/-- **Classes that stand elsewhere declare the same.** -/
theorem declareClasses_alike (cs : List (ClassDef Unit)) (hjobs : JobsMoved g S jobs jobs') :
    Alike (JobsMoved g S) (declareClasses jobs cs)
      (declareClasses jobs' (cs.map (ClassDef.map g))) := by
  induction cs generalizing jobs jobs' with
  | nil => exact .pure hjobs
  | cons c cs ih =>
    rw [List.map_cons, declareClasses, declareClasses]
    exact (declareClass_alike hg c hjobs).bind fun _ _ h => ih h

theorem declareMain_alike (body : Body Unit) (hjobs : JobsMoved g S jobs jobs') :
    Alike (JobsMoved g S) (declareMain jobs body) (declareMain jobs' (body.map id g)) := by
  refine (Alike.ask fun t => t.classNamed?_withoutCode _).bind_same fun found => ?_
  split
  · exact (Alike.report rfl _ _).bind fun _ _ _ => .pure hjobs
  · refine (defaultSuperclass_alike mainClass).bind_same fun superclass =>
      (openClass_alike mainClass superclass).bind_same fun scope => ?_
    refine (declareCode_alike hg.text scope _ _ [] body hg.missing).bind fun _ _ h => .pure ?_
    rw [JobsMoved, Array.toList_push, Array.toList_push]
    exact List.rel_append hjobs (.cons h .nil)

/-- **A program that stands elsewhere declares the same.** -/
theorem declareProgram_alike {p p' : Program}
    (hclasses : p'.classes = p.classes.map (ClassDef.map g)) (hmain : p'.main = p.main.map id g) :
    Alike (JobsMoved g S) (declareProgram p) (declareProgram p') := by
  have hhas : p'.hasMain = p.hasMain := by
    rw [Program.hasMain, Program.hasMain, hmain, Body.map, Statement.mapAll_eq]
    simp
  rw [declareProgram, declareProgram, hclasses, hmain, hhas]
  refine (declareClasses_alike hg p.classes .nil).bind fun _ _ h => ?_
  split
  · exact declareMain_alike hg p.main h
  · exact .pure h

end

/-! ### No mistake is taken back -/

theorem declareVariables_plain (scope : ScopeId) (kind : SymbolKind) (names : List Token) :
    Plain (declareVariables scope kind names) :=
  (declareVariables_alike (g := id) (fun _ => rfl) scope kind names).plain

theorem plain_composes : Composes fun _ _ x => Plain x where
  pure := Plain.pure
  bind := Plain.then
  block parameters locals hf := (declareBlock_alike _).plain.bind fun body =>
    (declareVariables_plain body .argument parameters).bind fun _ =>
      (declareVariables_plain body .localVariable locals).bind fun _ => hf body

theorem jobsMoved_id {jobs jobs' : Array Job} : JobsMoved id Eq jobs jobs' ↔ jobs = jobs' := by
  rw [JobsMoved, Job.moved_id, List.forall₂_eq_eq_eq, Array.toList_inj]

theorem JobsMoved.refl (jobs : Array Job) : JobsMoved id Eq jobs jobs := jobsMoved_id.2 rfl

/-- **A program is declared alike** whichever code was written before. -/
theorem declareProgram_blind (p : Program) :
    Alike (JobsMoved id Eq) (declareProgram p) (declareProgram p) := by
  have hclass (c : ClassDef Unit) : c.map id = c := by
    have hmethods : MethodDef.map id = id := funext MethodDef.map_id
    simp [ClassDef.map, hmethods]
  refine declareProgram_alike .refl ?_ p.main.map_id.symm
  rw [funext hclass]
  exact (List.map_id _).symm

end Declaring

end Smalltalk
