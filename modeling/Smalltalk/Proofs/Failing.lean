/-
**The methods that fail.**

A mistake in a declaration is reported, and the method around it has failed. All that is declared
for a method lies in it, so each of its mistakes makes this method fail and no other one. The fields
of a class lie in no method, and a mistake in them makes none fail.

* `Declaring.Blamed` — **each mistake that was added is blamed on a method**;
* `Declaring.Blames` — ways of declaring whose mistakes are those of the method around;
* `Declaring.declareCode_blamed` — **the mistakes of a method are blamed on it**;
* `Declaring.failed_declareHeader` — **a header makes no method fail**.
-/

import Smalltalk.Proofs.Nesting

namespace Smalltalk

namespace SymbolTable

variable {t : SymbolTable} {scope : ScopeId}

/-- A class lies in no method. -/
theorem enclosingMethod?_of_isClass (hsound : t.Sound)
    (h : (t.scope scope).kind.isClass = true) : t.enclosingMethod? scope = none := by
  rw [enclosingMethod?_eq fun _ _ => hsound.enclosing]
  cases hkind : (t.scope scope).kind <;> rw [hkind] at h <;> first | rfl | cases h

end SymbolTable

namespace Declaring

open SymbolTable

variable {α β : Type} {M C scope : ScopeId} {kind : SymbolKind} {s s' s'' : Declarations}
  {x : Declaring α} {f : α → Declaring β}

/-! ### Inside of a method -/

/-- **Each mistake that was added is blamed on a method**, which has failed as often as there are
mistakes. -/
def Blamed (M : ScopeId) (s s' : Declarations) : Prop :=
  ∃ k, s'.errors.size = s.errors.size + k ∧ s'.failed = List.replicate k M ++ s.failed

theorem Blamed.refl (M : ScopeId) (s : Declarations) : Blamed M s s := ⟨0, rfl, rfl⟩

theorem Blamed.trans (h : Blamed M s s') (h' : Blamed M s' s'') : Blamed M s s'' := by
  obtain ⟨k, herrors, hfailed⟩ := h
  obtain ⟨k', herrors', hfailed'⟩ := h'
  refine ⟨k' + k, ?_, ?_⟩
  · rw [herrors', herrors, Nat.add_assoc, Nat.add_comm k]
  · rw [hfailed', hfailed, List.replicate_add, List.append_assoc]

/-- A way of declaring what is inside of a scope, whose mistakes are those of the method around. -/
def Blames (scope : ScopeId) (x : Declaring α) : Prop :=
  Runs scope x ∧ ∀ M (s : Declarations), s.table.Sound → s.table.BlocksCounted M → M ≤ scope →
    IsOpen s.table scope → Blamed M s (x s).2

theorem Blames.pure (a : α) : Blames scope (Pure.pure a : Declaring α) :=
  ⟨.pure a, fun M s _ _ _ _ => .refl M s⟩

theorem Blames.then (hx : Blames scope x) (hf : ∀ s, Blames scope (f (x s).1)) :
    Blames scope (x >>= f) := by
  refine ⟨hx.1.then fun s => (hf s).1, fun M s hsound hM hle hopen => ?_⟩
  have hrun := hx.1 M s hsound hle hopen
  obtain ⟨hsound', hgrows⟩ := hrun.sound hsound (Nat.le_of_lt hM.lt_size)
  exact (hx.2 M s hsound hM hle hopen).trans
    ((hf s).2 M _ hsound' (hrun.blocksCounted hsound hM) hle (hopen.grows hgrows))

theorem Blames.bind (hx : Blames scope x) (hf : ∀ a, Blames scope (f a)) :
    Blames scope (x >>= f) := hx.then fun _ => hf _

theorem declareVariable_blames (hkind : kind = .argument ∨ kind = .localVariable) (scope : ScopeId)
    (name : Token) : Blames scope (declareVariable scope kind name) := by
  refine ⟨declareVariable_runs hkind scope name, fun M s hsound hM hle hopen => ?_⟩
  have hstep : InnerStep M s.table (s.table.declare scope name.name kind).2 :=
    .named name.name hle hopen hkind
  obtain ⟨hsound', hgrows⟩ := hstep.sound hsound
  have hmethod := (hstep.blocksCounted hsound hM).enclosingMethod?_eq hsound' hle
    (hopen.grows hgrows).1
  rw [declareVariable_eq]
  generalize s.table.declare scope name.name kind = d at hmethod ⊢
  obtain ⟨result, t⟩ := d
  cases result with
  | ok id => exact .refl M s
  | error e => exact ⟨1, Array.size_push _, congrArg (·.toList ++ s.failed) hmethod⟩

theorem declareVariables_blames (hkind : kind = .argument ∨ kind = .localVariable)
    (scope : ScopeId) (names : List Token) :
    Blames scope (declareVariables scope kind names) := by
  induction names with
  | nil => exact .pure ()
  | cons name names ih => exact (declareVariable_blames hkind scope name).bind fun _ => ih

theorem blames_composes : Composes fun _ => Blames where
  pure := .pure
  bind := .then
  block parameters locals hf := by
    refine ⟨block_runs parameters locals fun body => (hf body).1, fun M s hsound hM hle hopen => ?_⟩
    have hstep : InnerStep M s.table _ := .block hle hopen
    rw [block_apply]
    exact ((declareVariables_blames (.inl rfl) _ parameters).bind fun _ =>
      (declareVariables_blames (.inr rfl) _ locals).bind fun _ => hf _).2 M { s with table := _ }
        (hstep.sound hsound).1 (hstep.blocksCounted hsound hM)
        (Nat.le_trans hle (Nat.le_of_lt hopen.1)) hopen.declareBlock

/-- **The mistakes of a method are blamed on it.** -/
theorem declareCode_blamed (hsound : s.table.Sound) (hC : C < s.table.scopes.size)
    (selector : String) (classSide : Bool) (parameters : List Token) (body : Body Unit)
    (span : Span) : Blamed s.table.scopes.size s
      (declareCode C selector classSide parameters body span s).2 := by
  obtain ⟨hsound', -, hopen⟩ := withMethod_sound hsound (Nat.le_refl _) hC selector classSide
  have hbody : Blames s.table.scopes.size (declareBody s.table.scopes.size body) :=
    (declareVariables_blames (.inr rfl) _ body.locals).bind fun _ =>
      (blames_composes.statements _ [] body.statements).bind fun _ => .pure _
  exact ((declareVariables_blames (.inl rfl) _ parameters).bind fun _ => hbody).2 _
    { s with table := _ } hsound' (withMethod_blocksCounted hC selector classSide) (Nat.le_refl _)
    hopen

/-! ### Outside of methods -/

/-- The fields of the newest class make no method fail. -/
theorem failed_declareFields (hsound : s.table.Sound) (hlast : C + 1 = s.table.scopes.size)
    (hclass : (s.table.scope C).kind.isClass = true) (names : List Token) :
    (declareVariables C .field names s).2.failed = s.failed := by
  induction names generalizing s with
  | nil => rfl
  | cons name names ih =>
    have hlt : C < s.table.scopes.size := Nat.lt_of_succ_le (Nat.le_of_eq hlast)
    obtain ⟨hsound', hgrows, hsize⟩ :=
      declareFields_sound (Nat.le_refl C) [name] s hsound hlast hclass
    have hclass' := (hgrows.alike hlt).isClass.trans hclass
    refine (ih hsound' (hlast.trans hsize.symm) hclass').trans ?_
    have hmethod := enclosingMethod?_of_isClass hsound' hclass'
    change (declareVariable C .field name s).2.table.enclosingMethod? C = none at hmethod
    change (declareVariable C .field name s).2.failed = s.failed
    rw [table_declareVariable] at hmethod
    rw [declareVariable_eq]
    generalize s.table.declare C name.name .field = d at hmethod ⊢
    obtain ⟨result, t⟩ := d
    cases result with
    | ok id => rfl
    | error e => exact congrArg (·.toList ++ s.failed) hmethod

theorem failed_findSuperclass (c : ClassDef Unit) (s : Declarations) :
    (findSuperclass c s).2.failed = s.failed := by
  rw [findSuperclass_apply]
  grind

/-- **A header makes no method fail.** -/
theorem failed_declareHeader (hsound : s.table.Sound) (c : ClassDef Unit) :
    (declareHeader c s).2.failed = s.failed := by
  rw [declareHeader_apply]
  split
  · rfl
  · split
    · rfl
    · obtain ⟨htable, hsuper⟩ := findSuperclass_sound c s hsound
      rw [← failed_findSuperclass c s]
      dsimp only
      generalize findSuperclass c s = found at htable hsuper ⊢
      rw [htable]
      obtain ⟨hsound', -, hsize, hclass⟩ := withClass_sound hsound (Nat.le_refl _) c.name hsuper
      exact failed_declareFields (s := { found.2 with table := _ }) hsound' hsize.symm hclass c.fields

theorem failed_declarePrimitive (scope : ScopeId) (m : MethodDef Unit) (name : Token)
    (s : Declarations) : (declarePrimitive scope m name s).2.failed = s.failed := by
  rw [declarePrimitive]
  cases Primitive.ofName? name.symbolText <;> rfl

end Declaring

end Smalltalk
