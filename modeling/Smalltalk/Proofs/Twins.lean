/-
**Declaring two programs side by side.**

Two programs that differ in the places of their tokens are declared in the same way, also if one of
them starts from a table in which that of the other is embedded. Their trees get the same notes, up
to the numbers of the scopes, and they have the same mistakes, though in other places.

One program of the pair has no places at all, so that any two programs can be compared through it.

* `Declaring.Twin` — **two ways of declaring that stay abreast**;
* `Declaring.declareCode_twin` — **methods are declared side by side**.
-/

import Smalltalk.Proofs.Renaming
import Smalltalk.Proofs.Steps

namespace Smalltalk

open SymbolTable

variable {r : Renaming} {s s' : Declarations} {C : ScopeId}

/-- A token without its place. -/
def Token.unplaced (t : Token) : Token := { t with start := 0 }

/-- How two trees differ that are the same but for numbers and places. -/
abbrev Renaming.difference (r : Renaming) : Declaring.Difference :=
  ⟨r.scope, r.seen, Token.unplaced, id⟩

namespace Declaring

variable {α α' β β' : Type}

/-! ### Side by side -/

/-- **One state of declaring is embedded in the other.** -/
structure Abreast (r : Renaming) (s s' : Declarations) : Prop where
  embeds : Embeds r s.table s'.table
  sound : s.table.Sound
  sound' : s'.table.Sound

variable {scope : ScopeId} {kind : SymbolKind} {R : α → α' → Prop}

theorem Abreast.isOpen (h : Abreast r s s') (hopen : IsOpen s.table scope) :
    IsOpen s'.table (r.scope scope) :=
  ⟨(h.embeds.lt_iff scope).2 hopen.1, (h.embeds.scope scope).kind.isActivation.trans hopen.2⟩

/-- **What was declared on both sides**, with results that are related. -/
structure Paired (r : Renaming) (R : α → α' → Prop) (s s' : Declarations) (x : α × Declarations)
    (x' : α' × Declarations) : Prop where
  abreast : Abreast r x.2 x'.2
  result : R x.1 x'.1
  mistakes : SameMistakes s x.2 s' x'.2

/-- **Two ways of declaring what is inside of a scope that stay abreast.** -/
def Twin (r : Renaming) (scope : ScopeId) (R : α → α' → Prop) (x : Declaring α)
    (x' : Declaring α') : Prop :=
  ∀ s s' : Declarations, Abreast r s s' → IsOpen s.table scope → r.seen scope →
    Paired r R s s' (x s) (x' s') ∧ Grows 0 s.table (x s).2.table

theorem Twin.pure {a : α} {a' : α'} (h : R a a') : Twin r scope R (Pure.pure a) (Pure.pure a') :=
  fun s s' habreast _ _ => ⟨⟨habreast, h, .refl s s'⟩, .refl (Nat.zero_le _)⟩

theorem Twin.bind {Q : β → β' → Prop} {x : Declaring α} {x' : Declaring α'} {f : α → Declaring β}
    {f' : α' → Declaring β'} (hx : Twin r scope R x x')
    (hf : ∀ a a', R a a' → Twin r scope Q (f a) (f' a')) :
    Twin r scope Q (x >>= f) (x' >>= f') := by
  intro s s' habreast hopen hseen
  obtain ⟨⟨habreast₁, hR, hsame₁⟩, hgrows₁⟩ := hx s s' habreast hopen hseen
  obtain ⟨⟨habreast₂, hQ, hsame₂⟩, hgrows₂⟩ :=
    hf _ _ hR _ _ habreast₁ (hopen.grows hgrows₁) hseen
  exact ⟨⟨habreast₂, hQ, hsame₁.trans hsame₂⟩, hgrows₁.trans hgrows₂⟩

/-! ### Variables -/

/-- A variable is declared on both sides. -/
theorem declareVariable_paired (h : Abreast r s s') (hseen : r.seen scope)
    (hkind : kind.rename r.scope = kind) (name : Token)
    (hsound : (declareVariable scope kind name.unplaced s).2.table.Sound)
    (hsound' : (declareVariable (r.scope scope) kind name s').2.table.Sound) :
    Paired r (fun _ _ => True) s s' (declareVariable scope kind name.unplaced s)
      (declareVariable (r.scope scope) kind name s') := by
  obtain ⟨hembeds, hresult⟩ := h.embeds.declare hseen name.name kind
  rw [table_declareVariable] at hsound hsound'
  have hname : name.unplaced.name = name.name := rfl
  rw [hkind] at hembeds hresult
  rw [declareVariable_eq, declareVariable_eq, hname]
  rw [hname] at hsound
  generalize s.table.declare scope name.name kind = d at *
  generalize s'.table.declare (r.scope scope) name.name kind = d' at *
  obtain ⟨result, t⟩ := d
  obtain ⟨result', t'⟩ := d'
  obtain rfl : result' = result.map r.symbol := hresult
  cases result with
  | ok id => exact ⟨⟨hembeds, hsound, hsound'⟩, trivial, .refl s s'⟩
  | error e =>
    have hplace : t'.qualifiedName (r.scope scope) = t.qualifiedName scope :=
      hembeds.qualifiedName_eq hsound hsound' scope
    exact ⟨⟨hembeds, hsound, hsound'⟩, trivial, .report (by rw [hplace])
      (isInvalidTree_causeOf _ _ _) rfl rfl⟩

theorem declareVariable_twin (hkind : kind = .argument ∨ kind = .localVariable) (scope : ScopeId)
    (name : Token) :
    Twin r scope (fun _ _ => True) (declareVariable scope kind name.unplaced)
      (declareVariable (r.scope scope) kind name) := by
  intro s s' h hopen hseen
  have hopen' := h.isOpen hopen
  obtain ⟨hsound, hgrows⟩ :=
    declare_variable_sound h.sound (Nat.le_refl scope) hopen.1 hopen.2 name.unplaced.name hkind
  obtain ⟨hsound', -⟩ := declare_variable_sound h.sound' (Nat.le_refl (r.scope scope)) hopen'.1
    hopen'.2 name.name hkind
  rw [← table_declareVariable] at hsound hsound' hgrows
  have hrename : kind.rename r.scope = kind := by rcases hkind with rfl | rfl <;> rfl
  exact ⟨declareVariable_paired h hseen hrename name hsound hsound', hgrows.mono (Nat.zero_le _)⟩

theorem declareVariables_twin (hkind : kind = .argument ∨ kind = .localVariable) (scope : ScopeId)
    (names : List Token) :
    Twin r scope (fun _ _ => True) (declareVariables scope kind (names.map Token.unplaced))
      (declareVariables (r.scope scope) kind names) := by
  induction names with
  | nil => exact .pure trivial
  | cons name names ih => exact (declareVariable_twin hkind scope name).bind fun _ _ _ => ih

/-! ### Trees -/

/-- A block is declared on both sides with all that is in it. -/
theorem block_twin (parameters locals : List Token) {f : ScopeId → Declaring α}
    {f' : ScopeId → Declaring α'}
    (hf : ∀ body, r.seen body → Twin r body R (f body) (f' (r.scope body))) : Twin r scope R
      (inBlock scope (parameters.map Token.unplaced) (locals.map Token.unplaced) f)
      (inBlock (r.scope scope) parameters locals f') := by
  intro s s' h hopen hseen
  have hopen' := h.isOpen hopen
  have hstep : InnerStep 0 s.table (s.table.declareBlock scope).2.2 := .block (Nat.zero_le _) hopen
  have hstep' : InnerStep 0 s'.table (s'.table.declareBlock (r.scope scope)).2.2 :=
    .block (Nat.zero_le _) hopen'
  have hsize := h.embeds.scope_size
  have hfresh : r.seen s.table.scopes.size := h.embeds.fresh (Nat.le_refl _)
  have hrest : Twin r s.table.scopes.size R (do
      declareVariables s.table.scopes.size .argument (parameters.map Token.unplaced)
      declareVariables s.table.scopes.size .localVariable (locals.map Token.unplaced)
      f s.table.scopes.size) (do
      declareVariables (r.scope s.table.scopes.size) .argument parameters
      declareVariables (r.scope s.table.scopes.size) .localVariable locals
      f' (r.scope s.table.scopes.size)) :=
    (declareVariables_twin (.inl rfl) _ parameters).bind fun _ _ _ =>
      (declareVariables_twin (.inr rfl) _ locals).bind fun _ _ _ => hf _ hfresh
  obtain ⟨hpaired, hgrows⟩ := hrest { s with table := (s.table.declareBlock scope).2.2 }
    { s' with table := (s'.table.declareBlock (r.scope scope)).2.2 }
    ⟨(h.embeds.declareBlock h.sound h.sound' hseen).1, (hstep.sound h.sound).1,
      (hstep'.sound h.sound').1⟩ hopen.declareBlock hfresh
  rw [hsize] at hpaired
  rw [block_apply, block_apply]
  exact ⟨⟨hpaired.abreast, hpaired.result, hpaired.mistakes⟩,
    ((hstep.sound h.sound).2).trans hgrows⟩

/-- **Trees are declared side by side.** -/
theorem twin_compares : Compares r.difference fun _ _ scope R x x' => Twin r scope R x x' where
  pure := Twin.pure
  bind := Twin.bind
  block parameters locals hf := by
    rw [List.map_id, List.map_id]
    exact block_twin parameters locals hf

theorem declareBody_twin (scope : ScopeId) (body : Body Unit) :
    Twin r scope (fun b b' => ∃ ss, StatementsTwins r.difference ss b.statements b'.statements)
      (declareBody scope (body.map id Token.unplaced)) (declareBody (r.scope scope) body) := by
  have h := twin_compares.statements (w := r.difference) scope .nil body.statements
  rw [Statement.mapAll_id] at h
  exact (declareVariables_twin (.inr rfl) scope body.locals).bind fun _ _ _ =>
    h.bind fun _ _ hss => .pure ⟨_, hss⟩

/-! ### Methods -/

end Declaring

/-- **Two methods that are the same** but for numbers and places. -/
structure Job.Twins (r : Renaming) (job job' : Job) : Prop where
  scope : job'.scope = r.scope job.scope
  seen : r.seen job.scope
  body : ∃ ss, Declaring.StatementsTwins r.difference ss job.body.statements job'.body.statements

theorem Embeds.withMethod {t t' : SymbolTable} (h : Embeds r t t') (hC : r.seen C)
    (selector : String) (classSide : Bool) : Embeds r (Declaring.withMethod t C selector classSide)
      (Declaring.withMethod t' (r.scope C) selector classSide) := by
  have hkind : KindMatches r (.method classSide 0) (.method classSide 0) := .method
  have hdeclared := (h.addScope selector hkind rfl hC).declareMethod hC selector
    (.method t.scopes.size classSide)
  rw [SymbolKind.rename, h.scope_size] at hdeclared
  exact hdeclared

namespace Declaring

/-- **A method is declared on both sides.** -/
theorem declareCode_twin (h : Abreast r s s') (hC : C < s.table.scopes.size) (hseen : r.seen C)
    (selector : String) (classSide : Bool) (parameters : List Token) (body : Body Unit)
    (span span' : Span) : Paired r (Job.Twins r) s s'
      (declareCode C selector classSide (parameters.map Token.unplaced)
        (body.map id Token.unplaced) span s)
      (declareCode (r.scope C) selector classSide parameters body span' s') := by
  have hC' := (h.embeds.lt_iff C).2 hC
  obtain ⟨hsound, -, hopen⟩ := withMethod_sound h.sound (Nat.le_refl _) hC selector classSide
  obtain ⟨hsound', -, -⟩ := withMethod_sound h.sound' (Nat.le_refl _) hC' selector classSide
  have hfresh : r.seen s.table.scopes.size := h.embeds.fresh (Nat.le_refl _)
  have htwin := (declareVariables_twin (r := r) (.inl rfl) s.table.scopes.size parameters).bind
    fun _ _ _ => declareBody_twin s.table.scopes.size body
  obtain ⟨⟨habreast, hbody, hmistakes⟩, -⟩ :=
    htwin { s with table := withMethod s.table C selector classSide }
      { s' with table := withMethod s'.table (r.scope C) selector classSide }
      ⟨h.embeds.withMethod hseen selector classSide, hsound, hsound'⟩ hopen hfresh
  rw [h.embeds.scope_size] at habreast hbody hmistakes
  rw [declareCode_apply, declareCode_apply]
  exact ⟨habreast, ⟨h.embeds.scope_size.symm, hfresh, hbody⟩, hmistakes⟩

end Declaring

/-! ### Definitions without places -/

/-- A method without places. -/
def MethodDef.unplaced (m : MethodDef Unit) : MethodDef Unit := m.map Token.unplaced

theorem MethodDef.selector_unplaced (m : MethodDef Unit) : m.unplaced.selector = m.selector :=
  m.selector_map (g := Token.unplaced) fun _ => rfl

theorem MethodDef.parameters_unplaced (m : MethodDef Unit) :
    m.unplaced.parameters = m.parameters.map Token.unplaced := m.parameters_map _

theorem MethodDef.isClassSide_unplaced (m : MethodDef Unit) :
    m.unplaced.isClassSide = m.isClassSide := Option.isSome_map

namespace Declaring

variable {c c' : ClassDef Unit}

section

variable (h : Abreast r s s')

include h

theorem declarePrimitive_paired (hseen : r.seen C) (m : MethodDef Unit) (name : Token) :
    Paired r (fun _ _ => True) s s' (declarePrimitive C m.unplaced name.unplaced s)
      (declarePrimitive (r.scope C) m name s') := by
  have hsound := (declarePrimitive_sound s h.sound (Nat.le_refl _) C m.unplaced name.unplaced).1
  have hsound' := (declarePrimitive_sound s' h.sound' (Nat.le_refl _) (r.scope C) m name).1
  have hname : name.unplaced.symbolText = name.symbolText := rfl
  rw [declarePrimitive] at hsound hsound' ⊢
  rw [declarePrimitive]
  rw [hname] at hsound ⊢
  cases hop : Primitive.ofName? name.symbolText with
  | none =>
    have hplace := h.embeds.qualifiedName_eq h.sound h.sound' C
    refine ⟨⟨h.embeds, h.sound, h.sound'⟩, trivial, .report ?_ rfl rfl rfl⟩
    dsimp only
    rw [hplace, m.selector_unplaced]
  | some operation =>
    rw [hop] at hsound hsound'
    have hembeds := h.embeds.declareMethod hseen m.selector
      (.primitive operation m.isClassSide (min m.parameters.length 65535))
    refine ⟨⟨?_, hsound, hsound'⟩, trivial, .refl s s'⟩
    simp only [m.selector_unplaced, m.isClassSide_unplaced, m.parameters_unplaced,
      List.length_map]
    exact hembeds

/-- **A method definition is declared on both sides.** -/
theorem declareMethod_twin (hC : C < s.table.scopes.size) (hseen : r.seen C) (m : MethodDef Unit) :
    Paired r (Option.Rel (Job.Twins r)) s s' (declareMethod C m.unplaced s)
      (declareMethod (r.scope C) m s') := by
  have hold := h.embeds.hasMethod_eq C m.selector m.isClassSide
  rw [declareMethod_apply, declareMethod_apply, m.selector_unplaced, m.isClassSide_unplaced, hold]
  split
  · refine ⟨⟨h.embeds, h.sound, h.sound'⟩, .none, .report ?_ rfl rfl rfl⟩
    rw [(h.embeds.scope C).name]
  · obtain ⟨word, signature, body⟩ := m
    cases body with
    | primitive name =>
      have hpaired := declarePrimitive_paired h hseen ⟨word, signature, .primitive name⟩ name
      exact ⟨hpaired.abreast, .none, hpaired.mistakes⟩
    | code body =>
      have hpaired := declareCode_twin h hC hseen
        (MethodDef.selector ⟨word, signature, .code body⟩)
        (MethodDef.isClassSide ⟨word, signature, .code body⟩)
        (MethodDef.parameters ⟨word, signature, .code body⟩) body
        (MethodDef.unplaced ⟨word, signature, .code body⟩).headerSpan
        (MethodDef.headerSpan ⟨word, signature, .code body⟩)
      rw [← MethodDef.parameters_unplaced] at hpaired
      exact ⟨hpaired.abreast, .some hpaired.result, hpaired.mistakes⟩

/-! ### Classes -/

theorem defaultOf_eq (name : String) :
    defaultOf s'.table name = (defaultOf s.table name).map r.scope := by
  rw [defaultOf, defaultOf]
  split
  · rfl
  · exact h.embeds.classNamed?_eq "Object"

/-- The fields of a class are declared on both sides. -/
theorem declareFields_paired (hclass : (s.table.scope C).kind.isClass = true)
    (hlast : C + 1 = s.table.scopes.size) (hlast' : r.scope C + 1 = s'.table.scopes.size)
    (names : List Token) :
    Paired r (fun _ _ => True) s s' (declareVariables C .field (names.map Token.unplaced) s)
      (declareVariables (r.scope C) .field names s') := by
  induction names generalizing s s' with
  | nil => exact ⟨h, trivial, .refl s s'⟩
  | cons name names ih =>
    have hclass' := (h.embeds.scope C).kind.isClass.trans hclass
    obtain ⟨hsound, hgrows, hsize⟩ := declareFields_sound (Nat.le_refl C) [name.unplaced] s
      h.sound hlast hclass
    obtain ⟨hsound', -, hsize'⟩ := declareFields_sound (Nat.le_refl (r.scope C)) [name] s'
      h.sound' hlast' hclass'
    have hkind : SymbolKind.field.rename r.scope = .field := rfl
    have hfirst := declareVariable_paired h (h.embeds.seen_of_isClass hclass) hkind name hsound
      hsound'
    have hlt : C < s.table.scopes.size := Nat.lt_of_succ_le (Nat.le_of_eq hlast)
    have hrest := ih hfirst.abreast ((hgrows.alike hlt).isClass.trans hclass)
      (hlast.trans hsize.symm) (hlast'.trans hsize'.symm)
    exact ⟨hrest.abreast, trivial, hfirst.mistakes.trans hrest.mistakes⟩

/-- The superclass is found on both sides, or on none. -/
theorem findSuperclass_paired (hname : c.name = c'.name)
    (hsuper : c.superclass = c'.superclass.map Token.unplaced) :
    Paired r (fun a a' => a' = a.map r.scope) s s' (findSuperclass c s) (findSuperclass c' s') := by
  have hdefault := defaultOf_eq h c'.name
  rw [findSuperclass_apply, findSuperclass_apply, hsuper, hname]
  cases c'.superclass with
  | none => exact ⟨h, hdefault, .refl s s'⟩
  | some superclass =>
    have hfound := h.embeds.classNamed?_eq superclass.name
    have hsame : superclass.unplaced.name = superclass.name := rfl
    simp only [Option.map_some, hsame]
    rw [hfound]
    cases s.table.classNamed? superclass.name with
    | some scope => exact ⟨h, rfl, .refl s s'⟩
    | none => exact ⟨⟨h.embeds, h.sound, h.sound'⟩, hdefault, .report rfl rfl rfl rfl⟩

/-- A class is opened on both sides. -/
theorem Abreast.withClass (name : String) {superclass : Option ScopeId}
    (hsuper : ∀ C, superclass = some C → C ∈ s.table.classes)
    (hsuper' : ∀ C, superclass.map r.scope = some C → C ∈ s'.table.classes)
    (s₁ s₁' : Declarations) : Abreast r { s₁ with table := s.table.withClass name superclass }
      { s₁' with table := s'.table.withClass name (superclass.map r.scope) } :=
  ⟨h.embeds.withClass name, (withClass_sound h.sound (Nat.le_refl _) name hsuper).1,
    (withClass_sound h.sound' (Nat.le_refl _) name hsuper').1⟩

/-- **The header of a class is declared on both sides.** -/
theorem declareHeader_paired (hname : c.name = c'.name)
    (hsuper : c.superclass = c'.superclass.map Token.unplaced)
    (hfields : c.fields = c'.fields.map Token.unplaced) :
    Paired r (fun a a' => a' = a.map r.scope) s s' (declareHeader c s) (declareHeader c' s') := by
  have hfound := findSuperclass_paired h hname hsuper
  obtain ⟨htable, hmem⟩ := findSuperclass_sound c s h.sound
  obtain ⟨htable', hmem'⟩ := findSuperclass_sound c' s' h.sound'
  rw [declareHeader_apply, declareHeader_apply, hname, h.embeds.classNamed?_eq, Option.isSome_map]
  split
  · exact ⟨⟨h.embeds, h.sound, h.sound'⟩, rfl, .report rfl rfl rfl rfl⟩
  split
  · exact ⟨⟨h.embeds, h.sound, h.sound'⟩, rfl, .report rfl rfl rfl rfl⟩
  dsimp only
  generalize findSuperclass c s = found at *
  generalize findSuperclass c' s' = found' at *
  obtain ⟨superclass, s₁⟩ := found
  obtain ⟨superclass', s₁'⟩ := found'
  obtain rfl : superclass' = superclass.map r.scope := hfound.result
  dsimp only at htable htable' hmem hmem' ⊢
  obtain ⟨-, -, hsize, hclass⟩ := withClass_sound h.sound (Nat.le_refl _) c'.name hmem
  obtain ⟨-, -, hsize', -⟩ := withClass_sound h.sound' (Nat.le_refl _) c'.name hmem'
  rw [htable, htable', hfields, ← h.embeds.scope_size]
  have hrest := declareFields_paired (h.withClass c'.name hmem hmem' s₁ s₁') hclass hsize.symm
    (by rw [h.embeds.scope_size]; exact hsize'.symm) c'.fields
  refine ⟨hrest.abreast, rfl, ?_⟩
  exact hfound.mistakes.trans hrest.mistakes

/-- **The top-level statements are declared on both sides.** -/
theorem declareMain_paired (body : Body Unit) :
    Paired r (fun jobs jobs' => Option.Rel (Job.Twins r) jobs[0]? jobs'[0]?) s s'
      (declareMain #[] (body.map id Token.unplaced) s) (declareMain #[] body s') := by
  have hdefault := defaultOf_eq h mainClass
  rw [declareMain_apply, declareMain_apply, h.embeds.classNamed?_eq, Option.isSome_map, hdefault]
  split
  · exact ⟨⟨h.embeds, h.sound, h.sound'⟩, .none, .report rfl rfl rfl rfl⟩
  · have hmem : ∀ C, defaultOf s.table mainClass = some C → C ∈ s.table.classes :=
      fun _ => mem_of_defaultOf h.sound
    have hmem' : ∀ C, (defaultOf s.table mainClass).map r.scope = some C → C ∈ s'.table.classes :=
      fun _ hC => mem_of_defaultOf h.sound' (hdefault.trans hC)
    have hopen := h.withClass mainClass hmem hmem' s s'
    have hclass := (withClass_sound h.sound (Nat.le_refl _) mainClass hmem).2.2
    have hpaired := declareCode_twin hopen (hclass.1 ▸ Nat.lt_succ_self _)
      (hopen.embeds.seen_of_isClass hclass.2) mainMethod false [] body Span.missing Span.missing
    rw [h.embeds.scope_size] at hpaired
    exact ⟨hpaired.abreast, .some hpaired.result, hpaired.mistakes⟩

end

end Declaring

end Smalltalk
