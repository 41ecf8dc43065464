/-
**What declaring a program does to the table.**

A program is declared class by class, method by method and block by block. Each of these is a
chain of changes of the table, which is given here as an equation, so that a proof about declaring
need not go into how mistakes are reported. Whatever is declared, a sound table stays sound and
all that was there before is left alone.

* `Declaring.InnerStep`, `InnerRun` — **declarations inside of a method or block**;
* `Declaring.declareCode_sound`, `declarePrimitive_sound` — **methods**;
* `Declaring.declareMethod_apply`, `declareHeader_apply`, `declareMain_apply` — **what is declared, as
  an equation**.
-/

import Mathlib.Logic.Relation
import Smalltalk.Proofs.Growth
import Smalltalk.Proofs.Places

namespace Smalltalk.Declaring

open SymbolTable

variable {α β : Type} {n : Nat}

/-! ### Inside of a method -/

variable {t t' : SymbolTable} {scope : ScopeId} {kind : SymbolKind} {s s' : Declarations}
  {x : Declaring α} {f : α → Declaring β}

/-- The scope is one of a method or block of the table. -/
def IsOpen (t : SymbolTable) (scope : ScopeId) : Prop :=
  scope < t.scopes.size ∧ (t.scope scope).kind.isActivation = true

theorem IsOpen.grows (h : IsOpen t scope) (hgrows : Grows n t t') : IsOpen t' scope := by
  have halike := hgrows.alike h.1
  refine ⟨Nat.lt_of_lt_of_le h.1 hgrows.scopes_size, ?_⟩
  rw [ScopeKind.isActivation, halike.isMethod, halike.isBlock]
  exact h.2

/-- The scopes of classes and the global scope are as they were. -/
def Undisturbed (t t' : SymbolTable) : Prop :=
  ∀ scope < t.scopes.size, (t.scope scope).kind.isActivation = false →
    t'.scope scope = t.scope scope

theorem Undisturbed.refl (t : SymbolTable) : Undisturbed t t := fun _ _ _ => rfl

theorem Undisturbed.trans {t'' : SymbolTable} (h : Undisturbed t t') (hgrows : Grows n t t')
    (h' : Undisturbed t' t'') : Undisturbed t t'' := by
  intro scope hlt hkind
  have hsame := h scope hlt hkind
  rw [h' scope (Nat.lt_of_lt_of_le hlt hgrows.scopes_size) (hsame ▸ hkind), hsame]

section

variable (scope : ScopeId) (kind : SymbolKind) (name : Token) (s : Declarations)

/-- A variable is declared, or the mistake is reported. -/
theorem declareVariable_eq : declareVariable scope kind name s =
      match s.table.declare scope name.name kind with
      | (.ok _, t) => ((), { s with table := t })
      | (.error e, t) =>
        ((), ⟨t, s.errors.push ⟨causeOf name.name (t.qualifiedName scope) e, name.span⟩,
          t.fail s.failed scope⟩) := by
  obtain ⟨table, errors, failed⟩ := s
  simp only [declareVariable, change, bind, StateT.bind]
  cases table.declare scope name.name kind with
  | mk result t => cases result <;> rfl

theorem table_declareVariable :
    (declareVariable scope kind name s).2.table = (s.table.declare scope name.name kind).2 := by
  rw [declareVariable_eq]
  grind

end

/-- A block leaves the scopes that are not around it as they were. -/
theorem declareBlock_undisturbed (hopen : IsOpen t scope) :
    Undisturbed t (t.declareBlock scope).2.2 := by
  intro i hlt hi
  have hne : i ≠ scope := by
    rintro rfl
    cases hi.symm.trans hopen.2
  rw [declareBlock_eq]
  dsimp only
  rw [scope_addSymbol_of_ne _ hne, openBlock,
    scope_addScope_of_ne _ (by rw [size_modifyScope]; exact Nat.ne_of_lt hlt), scope_modifyScope]
  split
  case isFalse => rfl
  case isTrue h =>
    -- what is counted is a method, and no scope that is left alone is one
    revert hi
    obtain ⟨_, kind, _, _, _, _, _, _⟩ := t.scope i
    cases kind <;> intro hi <;> first | rfl | cases hi

/-- The fields of the newest class are declared. -/
theorem declareFields_sound (hn : n ≤ scope) (names : List Token) (s : Declarations)
    (hsound : s.table.Sound) (hlast : scope + 1 = s.table.scopes.size)
    (hclass : (s.table.scope scope).kind.isClass = true) :
    (declareVariables scope .field names s).2.table.Sound ∧
      Grows n s.table (declareVariables scope .field names s).2.table ∧
      (declareVariables scope .field names s).2.table.scopes.size = s.table.scopes.size := by
  have hlt : scope < s.table.scopes.size := Nat.lt_of_succ_le (Nat.le_of_eq hlast)
  induction names generalizing s with
  | nil => exact ⟨hsound, .refl (Nat.le_trans hn (Nat.le_of_lt hlt)), rfl⟩
  | cons name names ih =>
    obtain ⟨hsound', hgrows⟩ := declare_field_sound hsound hn hlast hclass name.name
    have hsize : (s.table.declare scope name.name .field).2.scopes.size = s.table.scopes.size := by
      rw [declare_field _ _ hclass]
      split
      · rfl
      · split
        · exact size_scopes_addNamed ..
        · rfl
    rw [← table_declareVariable] at hsound' hgrows hsize
    have hclass' := (hgrows.alike hlt).isClass.trans hclass
    obtain ⟨hsound'', hgrows', hsize'⟩ :=
      ih (declareVariable scope .field name s).2 hsound' (by rw [hsize]; exact hlast) hclass'
        (by rw [hsize]; exact hlt)
    exact ⟨hsound'', hgrows.trans hgrows', hsize'.trans hsize⟩

theorem declareBlock_apply (scope : ScopeId) (s : Declarations) :
    declareBlock scope s =
      (s.table.scopes.size, { s with table := (s.table.declareBlock scope).2.2 }) := by
  obtain ⟨table, errors, failed⟩ := s
  rw [declareBlock, change]
  simp only [declareBlock_eq]

/-- A block is declared in steps: its scope, its arguments, its local variables, and then all that
is inside of it. -/
theorem block_apply (scope : ScopeId) (parameters locals : List Token) (f : ScopeId → Declaring α)
    (s : Declarations) :
    inBlock scope parameters locals f s =
      f s.table.scopes.size
        (declareVariables s.table.scopes.size .localVariable locals
          (declareVariables s.table.scopes.size .argument parameters
            { s with table := (s.table.declareBlock scope).2.2 }).2).2 := by
  change (fun r : ScopeId × Declarations =>
    f r.1 (declareVariables r.1 .localVariable locals
      (declareVariables r.1 .argument parameters r.2).2).2) (declareBlock scope s) = _
  rw [declareBlock_apply]

/-- **A declaration inside of a method or block** whose scope is not older than `n`. -/
inductive InnerStep (n : Nat) : SymbolTable → SymbolTable → Prop
  | named {t : SymbolTable} {scope : ScopeId} {kind : SymbolKind} (name : String) :
      n ≤ scope → IsOpen t scope → kind = .argument ∨ kind = .localVariable →
        InnerStep n t (t.declare scope name kind).2
  | block {t : SymbolTable} {scope : ScopeId} :
      n ≤ scope → IsOpen t scope → InnerStep n t (t.declareBlock scope).2.2

/-- Some declarations inside of methods and blocks. -/
abbrev InnerRun (n : Nat) : SymbolTable → SymbolTable → Prop := Relation.ReflTransGen (InnerStep n)

theorem InnerStep.sound (h : InnerStep n t t') (hsound : t.Sound) : t'.Sound ∧ Grows n t t' := by
  cases h with
  | named name hn hopen hkind =>
    exact declare_variable_sound hsound hn hopen.1 hopen.2 name hkind
  | block hn hopen =>
    exact declareBlock_sound hsound (Nat.le_trans hn (Nat.le_of_lt hopen.1)) hopen.1 hopen.2

theorem InnerRun.sound (h : InnerRun n t t') (hsound : t.Sound) (hn : n ≤ t.scopes.size) :
    t'.Sound ∧ Grows n t t' := by
  induction h with
  | refl => exact ⟨hsound, .refl hn⟩
  | tail _ hstep ih =>
    obtain ⟨hsound', hgrows'⟩ := hstep.sound ih.1
    exact ⟨hsound', ih.2.trans hgrows'⟩

theorem InnerStep.mono {m : Nat} (hm : m ≤ n) (h : InnerStep n t t') : InnerStep m t t' := by
  cases h with
  | named name hn hopen hkind => exact .named name (Nat.le_trans hm hn) hopen hkind
  | block hn hopen => exact .block (Nat.le_trans hm hn) hopen

/-- A way of declaring what is inside of a scope, one declaration after the other. -/
def Runs (scope : ScopeId) (x : Declaring α) : Prop :=
  ∀ (n : Nat) (s : Declarations), s.table.Sound → n ≤ scope → IsOpen s.table scope →
    InnerRun n s.table (x s).2.table

theorem Runs.pure (a : α) : Runs scope (Pure.pure a : Declaring α) :=
  fun _ _ _ _ _ => .refl

theorem Runs.then (hx : Runs scope x) (hf : ∀ s, Runs scope (f (x s).1)) :
    Runs scope (x >>= f) := by
  intro n s hsound hn hopen
  have hrun := hx n s hsound hn hopen
  obtain ⟨hsound', hgrows⟩ := hrun.sound hsound (Nat.le_trans hn (Nat.le_of_lt hopen.1))
  exact hrun.trans (hf s n (x s).2 hsound' hn (hopen.grows hgrows))

theorem Runs.bind (hx : Runs scope x) (hf : ∀ a, Runs scope (f a)) : Runs scope (x >>= f) :=
  hx.then fun _ => hf _

theorem declareVariable_runs (hkind : kind = .argument ∨ kind = .localVariable) (scope : ScopeId)
    (name : Token) : Runs scope (declareVariable scope kind name) := by
  intro n s _ hn hopen
  rw [table_declareVariable]
  exact .single (.named name.name hn hopen hkind)

theorem declareVariables_runs (hkind : kind = .argument ∨ kind = .localVariable) (scope : ScopeId)
    (names : List Token) : Runs scope (declareVariables scope kind names) := by
  induction names with
  | nil => exact .pure _
  | cons name names ih => exact (declareVariable_runs hkind scope name).bind fun _ => ih

/-- The scope of a block that was declared is open. -/
theorem IsOpen.declareBlock (h : IsOpen t scope) :
    IsOpen (t.declareBlock scope).2.2 t.scopes.size := by
  rw [IsOpen, size_declareBlock, scope_declareBlock_self t h.1]
  exact ⟨Nat.lt_succ_self _, rfl⟩

theorem block_runs (parameters locals : List Token) {f : ScopeId → Declaring α}
    (hf : ∀ body, Runs body (f body)) :
    Runs scope (inBlock scope parameters locals f) := by
  intro n s hsound hn hopen
  have hstep : InnerStep n s.table (s.table.declareBlock scope).2.2 := .block hn hopen
  obtain ⟨hsound', hgrows⟩ := hstep.sound hsound
  have hrest : Runs s.table.scopes.size (do
      declareVariables s.table.scopes.size .argument parameters
      declareVariables s.table.scopes.size .localVariable locals
      f s.table.scopes.size) :=
    (declareVariables_runs (.inl rfl) _ parameters).bind fun _ =>
      (declareVariables_runs (.inr rfl) _ locals).bind fun _ => hf _
  rw [block_apply]
  exact .head hstep (hrest n { s with table := (s.table.declareBlock scope).2.2 } hsound'
    (Nat.le_trans hn (Nat.le_of_lt hopen.1)) hopen.declareBlock)

theorem runs_composes : Composes fun _ => Runs :=
  ⟨.pure, .then, fun parameters locals => block_runs parameters locals⟩

/-- **The body of a method is declared in steps.** -/
theorem declareBody_runs (scope : ScopeId) (body : Body Unit) :
    Runs scope (declareBody scope body) :=
  (declareVariables_runs (.inr rfl) scope body.locals).bind fun _ =>
    (runs_composes.statements scope [] body.statements).bind fun _ => .pure _

/-- The scopes of classes and the global scope are as they were. -/
theorem InnerStep.undisturbed (h : InnerStep n t t') : Undisturbed t t' := by
  cases h with
  | @named scope kind name hn hopen hkind =>
    intro i _ hi
    have hne : i ≠ scope := by
      rintro rfl
      cases hi.symm.trans hopen.2
    rw [declare_variable _ _ _ hkind]
    split
    · rfl
    · split
      · rw [addNamed_eq]
        dsimp only
        rw [scope_addSymbol, if_neg fun h => hne h.1]
      · rfl
  | block hn hopen => exact declareBlock_undisturbed hopen

theorem InnerRun.undisturbed (h : InnerRun n t t') (hsound : t.Sound) (hn : n ≤ t.scopes.size) :
    Undisturbed t t' := by
  induction h with
  | refl => exact .refl _
  | tail hrun hstep ih => exact ih.trans (InnerRun.sound hrun hsound hn).2 hstep.undisturbed

/-- The variables of a scope that is not older than `n` are declared. -/
theorem declareVariables_sound (hn : n ≤ scope) {kind : SymbolKind}
    (hkind : kind = .argument ∨ kind = .localVariable) (names : List Token) (s : Declarations)
    (hsound : s.table.Sound) (hopen : IsOpen s.table scope) :
    (declareVariables scope kind names s).2.table.Sound ∧
      Grows n s.table (declareVariables scope kind names s).2.table :=
  (declareVariables_runs hkind scope names n s hsound hn hopen).sound hsound
    (Nat.le_trans hn (Nat.le_of_lt hopen.1))

/-! ### Methods -/

/-- The table with one more method that has code. -/
def withMethod (t : SymbolTable) (scope : ScopeId) (selector : String) (classSide : Bool) :
    SymbolTable :=
  ((t.addScope selector (.method classSide 0) scope).2.declareMethod scope selector
    (.method t.scopes.size classSide)).2

/-- Opening a method leaves a table sound. -/
theorem withMethod_sound (hsound : t.Sound) (hn : n ≤ t.scopes.size) (hlt : scope < t.scopes.size)
    (selector : String) (classSide : Bool) :
    (withMethod t scope selector classSide).Sound ∧
      Grows n t (withMethod t scope selector classSide) ∧
      IsOpen (withMethod t scope selector classSide) t.scopes.size := by
  have hopen : (t.addScope selector (.method classSide 0) scope).2.Sound :=
    hsound.addScope selector hlt (fun _ _ => rfl) (fun _ hs => by cases hs)
      (fun hclass => by cases hclass)
  have hgrows := Grows.addScope hn selector (.method classSide 0) scope
  have hbound := Nat.le_trans hn hgrows.scopes_size
  obtain ⟨hsound', hgrows'⟩ := @declareMethod_sound _ n hopen hbound scope selector
    (.method t.scopes.size classSide) (decide_eq_true rfl)
  have hnew : IsOpen (t.addScope selector (.method classSide 0) scope).2 t.scopes.size := by
    rw [IsOpen, size_addScope, scope_addScope_self]
    exact ⟨Nat.lt_succ_self _, rfl⟩
  exact ⟨hsound', hgrows.trans hgrows', hnew.grows hgrows'⟩

/-- The variables and the statements of a method are declared after its scope is opened. -/
theorem declareCode_apply (scope : ScopeId) (selector : String) (classSide : Bool)
    (parameters : List Token) (body : Body Unit) (span : Span) (s : Declarations) :
    declareCode scope selector classSide parameters body span s =
      let method := s.table.scopes.size
      let r := declareBody method body (declareVariables method .argument parameters
        { s with table := withMethod s.table scope selector classSide }).2
      (⟨method, r.1, span⟩, r.2) := rfl

section

variable (s : Declarations) (hsound : s.table.Sound)

include hsound

/-- A method is opened, and then all that is in it is declared. -/
theorem declareCode_runs (hlt : scope < s.table.scopes.size) (selector : String) (classSide : Bool)
    (parameters : List Token) (body : Body Unit) (span : Span) :
    InnerRun s.table.scopes.size (withMethod s.table scope selector classSide)
      (declareCode scope selector classSide parameters body span s).2.table := by
  obtain ⟨hsound', -, hopen⟩ :=
    withMethod_sound hsound (Nat.le_refl _) hlt selector classSide
  exact ((declareVariables_runs (.inl rfl) _ parameters).bind fun _ =>
    declareBody_runs s.table.scopes.size body) _
      { s with table := withMethod s.table scope selector classSide } hsound' (Nat.le_refl _) hopen

theorem declareCode_sound (hn : n ≤ s.table.scopes.size) (hlt : scope < s.table.scopes.size)
    (selector : String) (classSide : Bool) (parameters : List Token) (body : Body Unit)
    (span : Span) : (declareCode scope selector classSide parameters body span s).2.table.Sound ∧
      Grows n s.table (declareCode scope selector classSide parameters body span s).2.table := by
  obtain ⟨hsound₁, hgrows₁, hopen⟩ := withMethod_sound hsound hn hlt selector classSide
  obtain ⟨hsound₂, hgrows₂⟩ := (declareCode_runs s hsound hlt selector classSide parameters body
    span).sound hsound₁ (Nat.le_of_lt hopen.1)
  exact ⟨hsound₂, hgrows₁.trans (hgrows₂.mono hn)⟩

theorem declarePrimitive_sound (hn : n ≤ s.table.scopes.size) (scope : ScopeId) (m : MethodDef Unit)
    (name : Token) : (declarePrimitive scope m name s).2.table.Sound ∧
      Grows n s.table (declarePrimitive scope m name s).2.table := by
  rw [declarePrimitive]
  cases Primitive.ofName? name.symbolText with
  | none => exact ⟨hsound, .refl hn⟩
  | some operation =>
    exact declareMethod_sound hsound hn scope m.selector (decide_eq_true rfl)

end

/-- A method is declared unless there is one with its selector. -/
theorem declareMethod_apply (scope : ScopeId) (m : MethodDef Unit) (s : Declarations) :
    declareMethod scope m s =
      if s.table.hasMethod scope m.selector m.isClassSide then
        (none, { s with
          errors := s.errors.push
            ⟨.methodRedefinition m.selector (s.table.scope scope).name, m.headerSpan⟩ })
      else
        match m.body with
        | .primitive name => (none, (declarePrimitive scope m name s).2)
        | .code body =>
          let r := declareCode scope m.selector m.isClassSide m.parameters body m.headerSpan s
          (some r.1, r.2) := by
  simp only [declareMethod, bind, StateT.bind, ask]
  split
  · rfl
  · cases m.body <;> rfl

/-- The jobs of some methods come after those before. -/
theorem declareMethods_cons (scope : ScopeId) (jobs : Array Job) (m : MethodDef Unit)
    (ms : List (MethodDef Unit)) (s : Declarations) :
    declareMethods scope jobs (m :: ms) s =
      declareMethods scope (jobs ++ (declareMethod scope m s).1.toList.toArray) ms
        (declareMethod scope m s).2 := by
  rw [declareMethods]
  simp only [bind, StateT.bind]
  cases declareMethod scope m s with
  | mk result s' =>
    cases result with
    | none | some job => simp

/-! ### Classes and programs -/

/-- The superclass of a class that names none. -/
def defaultOf (t : SymbolTable) (name : String) : Option ScopeId :=
  if name = "Object" then none else t.classNamed? "Object"

theorem mem_of_defaultOf (hsound : t.Sound) {name : String} (h : defaultOf t name = some scope) :
    scope ∈ t.classes := by
  rw [defaultOf] at h
  split at h
  · cases h
  · exact hsound.mem_of_classNamed? h

section

variable (c : ClassDef Unit) (s : Declarations)

/-- The superclass of a class is found without a change of the table. -/
theorem findSuperclass_apply : findSuperclass c s =
      match c.superclass with
      | none => (defaultOf s.table c.name, s)
      | some superclass =>
        match s.table.classNamed? superclass.name with
        | some scope => (some scope, s)
        | none => (defaultOf s.table c.name, { s with
            errors := s.errors.push
              ⟨.unknownSuperclass superclass.name c.name, superclass.span⟩ }) := by
  have hdefault (s : Declarations) :
      defaultSuperclass c.name s = (defaultOf s.table c.name, s) := by
    rw [defaultSuperclass, ask, defaultOf]
  rw [findSuperclass]
  cases c.superclass with
  | none => exact hdefault s
  | some superclass =>
    simp only [bind, StateT.bind, ask]
    cases s.table.classNamed? superclass.name with
    | none => exact hdefault _
    | some found => rfl

theorem findSuperclass_sound (hsound : s.table.Sound) : (findSuperclass c s).2.table = s.table ∧
      ∀ scope, (findSuperclass c s).1 = some scope → scope ∈ s.table.classes := by
  rw [findSuperclass_apply]
  cases c.superclass with
  | none =>
    dsimp only
    exact ⟨rfl, fun _ => mem_of_defaultOf hsound⟩
  | some superclass =>
    dsimp only
    cases hnamed : s.table.classNamed? superclass.name with
    | none =>
      dsimp only
      exact ⟨rfl, fun _ => mem_of_defaultOf hsound⟩
    | some found =>
      dsimp only
      refine ⟨rfl, fun scope h => ?_⟩
      obtain rfl := Option.some.inj h
      exact hsound.mem_of_classNamed? hnamed

theorem declareHeader_apply : declareHeader c s =
      if c.name = mainClass then
        (none, { s with errors := s.errors.push ⟨.reservedClassName, c.nameToken.span⟩ })
      else if (s.table.classNamed? c.name).isSome then
        (none, { s with errors := s.errors.push ⟨.classRedefinition c.name, c.nameToken.span⟩ })
      else
        let r := findSuperclass c s
        (some r.2.table.scopes.size, (declareVariables r.2.table.scopes.size .field c.fields
          { r.2 with table := r.2.table.withClass c.name r.1 }).2) := by
  rw [declareHeader]
  split
  · rfl
  · simp only [bind, StateT.bind, ask]
    split <;> rfl

end

/-- The class of the top-level statements is declared unless there is one already. -/
theorem declareMain_apply (jobs : Array Job) (body : Body Unit) (s : Declarations) :
    declareMain jobs body s =
      if (s.table.classNamed? mainClass).isSome then
        (jobs, { s with errors := s.errors.push ⟨.classRedefinition mainClass, Span.missing⟩ })
      else
        let r := declareCode s.table.scopes.size mainMethod false [] body Span.missing
          { s with table := s.table.withClass mainClass (defaultOf s.table mainClass) }
        (jobs.push r.1, r.2) := by
  rw [declareMain]
  simp only [bind, StateT.bind, ask]
  split <;> rfl

end Smalltalk.Declaring
