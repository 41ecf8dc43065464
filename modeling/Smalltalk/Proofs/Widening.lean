/-
**A method with more in it.**

Two methods with the same header may have different bodies. If one of them has an empty body, its
table is embedded in that of the other: the blocks and variables of the body are put in between, and
all that is declared afterwards gets larger numbers. For this no scope or symbol may refer to one
that has not been declared yet.

* `Renaming.widen` — **put new numbers in between**;
* `Declaring.InnerRun.scope_eq` — **a method changes no older scope**;
* `Declaring.declareCode_widens` — **a table with an empty method is embedded** in that
  with any other body.
-/

import Smalltalk.Proofs.Nesting
import Smalltalk.Proofs.Twins

namespace Smalltalk

variable {t t' : SymbolTable} {n : Nat} {r' : Renaming} {s : Symbol} {scope newest : ScopeId}
  {f : Scope → Scope} {k k' : ScopeKind}

/-! ### Closed tables -/

/-- The scope of the body of a class, method or block. -/
def SymbolKind.body? : SymbolKind → Option ScopeId
  | classOf body | method body _ | block body => some body
  | _ => none

namespace SymbolTable

/-- **A table that refers to nothing outside of it.** -/
@[grind cases]
structure Closed (t : SymbolTable) : Prop where
  scope (id : SymbolId) : (t.symbol id).scope < t.scopes.size
  body {id : SymbolId} {body : ScopeId} :
    (t.symbol id).kind.body? = some body → body < t.scopes.size
  names {s : ScopeId} {name : String} {id : SymbolId} :
    (t.scope s).names[name]? = some id → id < t.symbols.size

/-- A change of a scope that adds no name but that of the new symbol. -/
def AddsName (f : SymbolId → Scope → Scope) : Prop :=
  ∀ (id : SymbolId) (s : Scope) (name : String) (found : SymbolId),
    (f id s).names[name]? = some found → s.names[name]? = some found ∨ found = id

theorem symbol_of_size_le (t : SymbolTable) {id : SymbolId} (h : t.symbols.size ≤ id) :
    t.symbol id = default := by
  rw [symbol, Array.getD_eq_getD_getElem?, Array.getElem?_eq_none h]
  rfl

theorem new_closed : new.Closed where
  scope id := by
    rw [new.symbol_of_size_le (Nat.zero_le id)]
    exact Nat.zero_lt_one
  body {id body} h := by
    rw [new.symbol_of_size_le (Nat.zero_le id)] at h
    obtain rfl := Option.some.inj h
    exact Nat.zero_lt_one
  names {s name id} h := by
    rw [scope_new (P := (·.names = ∅)) rfl rfl s] at h
    cases (Std.TreeMap.getElem?_emptyc.symm.trans h)

namespace Closed

variable {kind : SymbolKind}

theorem addScope (h : t.Closed) (name : String) (kind : ScopeKind) (enclosing : ScopeId) :
    (t.addScope name kind enclosing).2.Closed where
  scope id := by
    grind
  body hbody := by
    grind
  names hid := by
    rw [scope_addScope] at hid
    split at hid
    · cases Std.TreeMap.getElem?_emptyc.symm.trans hid
    · exact h.names hid

theorem modifyScope (h : t.Closed) (scope : ScopeId) (hf : ∀ s, (f s).names = s.names) :
    (t.modifyScope scope f).Closed where
  scope id := by
    rw [size_modifyScope]
    exact h.scope id
  body hbody := by
    rw [size_modifyScope]
    exact h.body hbody
  names hid := by
    grind

section

variable (h : t.Closed) (hs : s.scope < t.scopes.size)
  (hbody : ∀ body, s.kind.body? = some body → body < t.scopes.size)

include h hs hbody

theorem addSymbol {f : SymbolId → Scope → Scope} (hf : AddsName f) :
    (t.addSymbol s f).2.Closed where
  scope id := by
    grind
  body {id body} hid := by
    grind
  names {scope name id} hid := by
    rw [scope_addSymbol] at hid
    rw [size_symbols_addSymbol]
    split at hid
    · rcases hf _ _ _ _ hid with hold | rfl
      · exact Nat.lt_succ_of_lt (h.names hold)
      · exact Nat.lt_succ_self _
    · exact Nat.lt_succ_of_lt (h.names hid)

theorem addNamed (hf : ∀ s, (f s).names = s.names) : (t.addNamed s f).2.Closed := by
  rw [addNamed_eq]
  dsimp only
  refine h.addSymbol hs hbody fun id scope name found hfound => ?_
  grind

end

section

variable (h : t.Closed) (hs : scope < t.scopes.size)

include h hs

theorem declare (name : String) (hbody : ∀ body, kind.body? = some body → body < t.scopes.size) :
    (t.declare scope name kind).2.Closed := by
  obtain heq | ⟨index, f, hf, heq⟩ := t.declare_cases scope name kind
  · rw [heq]
    exact h
  · rw [heq]
    exact h.addNamed hs hbody hf.names

theorem declareMethod (selector : String)
    (hbody : ∀ body, kind.body? = some body → body < t.scopes.size) :
    (t.declareMethod scope selector kind).2.Closed := by
  obtain heq | ⟨-, index, heq⟩ := t.declareMethod_cases scope selector kind
  · rw [heq]
    exact h
  · rw [heq]
    exact h.addSymbol hs hbody fun _ _ _ _ hfound => .inl hfound

theorem declareBlock : (t.declareBlock scope).2.2.Closed := by
  have hsize : (t.openBlock scope).scopes.size = t.scopes.size + 1 := by
    rw [openBlock, size_addScope, size_modifyScope]
  have hopen : (t.openBlock scope).Closed :=
    (h.modifyScope (f := countBlock) _ fun _ => rfl).addScope _ _ _
  rw [declareBlock_eq]
  refine hopen.addSymbol ?_ (fun body hbody => ?_) fun _ _ _ _ hfound => .inl hfound
  · rw [hsize]
    exact Nat.lt_succ_of_lt hs
  · obtain rfl := Option.some.inj hbody
    rw [hsize]
    exact Nat.lt_succ_self _

end

end Closed

end SymbolTable

namespace Declaring

open SymbolTable

variable {i M : ScopeId}

theorem InnerStep.closed (h : InnerStep n t t') (hclosed : t.Closed) : t'.Closed := by
  cases h with
  | named name hn hopen hkind =>
    exact hclosed.declare hopen.1 name fun body hbody => by
      rcases hkind with rfl | rfl <;> cases hbody
  | block hn hopen => exact hclosed.declareBlock hopen.1

theorem Step.closed (h : Step n t t') (hsound : t.Sound) (hclosed : t.Closed) : t'.Closed := by
  cases h with
  | inner hstep => exact hstep.closed hclosed
  | newClass hn hnew hsuper =>
    refine (hclosed.addScope _ _ _).declare ?_ _ fun body hbody => ?_
    · rw [size_addScope]
      exact Nat.zero_lt_succ _
    · obtain rfl := Option.some.inj hbody
      rw [size_addScope]
      exact Nat.lt_succ_self _
  | field name hn hlast hC => exact hclosed.declare (hsound.lt_size_of_mem hC) name nofun
  | method hn hC hnew =>
    refine (hclosed.addScope _ _ _).declareMethod ?_ _ fun body hbody => ?_
    · rw [size_addScope]
      exact Nat.lt_succ_of_lt (hsound.lt_size_of_mem hC)
    · obtain rfl := Option.some.inj hbody
      rw [size_addScope]
      exact Nat.lt_succ_self _
  | operation operation arguments hn hC hnew =>
    exact hclosed.declareMethod (hsound.lt_size_of_mem hC) _ nofun

/-- **What is declared leaves a table closed.** -/
theorem Run.closed (h : Run n t t') (hsound : t.Sound) (hclosed : t.Closed) : t'.Closed :=
  h.keeps hsound hclosed fun _ _ hsound hstep => hstep.closed hsound

/-! ### What a method leaves alone -/

theorem scope_declareBlock_of_ne (t : SymbolTable) (hi : i < t.scopes.size) (hne : i ≠ scope)
    (hmethod : i ≠ t.blockMethod scope) : (t.declareBlock scope).2.2.scope i = t.scope i := by
  rw [declareBlock_eq]
  dsimp only
  rw [scope_addSymbol, if_neg fun h => hne h.1, openBlock,
    scope_addScope_of_ne _ (by rw [size_modifyScope]; exact Nat.ne_of_lt hi), scope_modifyScope,
    if_neg fun h => hmethod h.1]

theorem InnerStep.scope_eq (h : InnerStep M t t') (hsound : t.Sound) (hM : t.BlocksCounted M)
    (hi : i < M) : t'.scope i = t.scope i := by
  cases h with
  | @named scope kind name hn hopen hkind =>
    exact t.scope_declare_of_ne name kind (Nat.ne_of_lt (Nat.lt_of_lt_of_le hi hn))
  | @block scope hn hopen =>
    have hmethod : t.blockMethod scope = M := by
      rw [blockMethod, hM.enclosingMethod?_eq hsound hn hopen.1]
      rfl
    exact scope_declareBlock_of_ne t (Nat.lt_trans hi hM.lt_size)
      (Nat.ne_of_lt (Nat.lt_of_lt_of_le hi hn)) (hmethod ▸ Nat.ne_of_lt hi)

/-- **A method changes no older scope.** -/
theorem InnerRun.scope_eq (h : InnerRun M t t') (hsound : t.Sound) (hM : t.BlocksCounted M)
    (hi : i < M) : t'.scope i = t.scope i := by
  induction h with
  | refl => rfl
  | tail hrun hstep ih =>
    have hsound' := (InnerRun.sound hrun hsound (Nat.le_of_lt hM.lt_size)).1
    exact (hstep.scope_eq hsound' (InnerRun.blocksCounted hrun hsound hM) hi).trans ih

end Declaring

/-! ### Numbers in between -/

open SymbolTable

variable {r : Renaming} {t'' : SymbolTable}

theorem injective_widen {f : Nat → Nat} (hf : Function.Injective f) {n' : Nat}
    (hlt : ∀ i, f i < n' ↔ i < n) (b : Nat) :
    Function.Injective fun i => if i < n then f i else f i + b := by
  intro i j h
  grind

/-- **Put new numbers in between**: scopes that are not in a table yet get numbers that are larger
by `b`, and symbols numbers that are larger by `d`. The newest scope is out of sight. -/
def Renaming.widen (r : Renaming) (h : Embeds r t t') (newest : ScopeId)
    (hnewest : newest + 1 = t.scopes.size) (hglobal : global ≠ newest) (b d : Nat) : Renaming where
  scope i := if i < t.scopes.size then r.scope i else r.scope i + b
  symbol id := if id < t.symbols.size then r.symbol id else r.symbol id + d
  seen i := r.seen i ∧ i ≠ newest
  injective := injective_widen r.injective h.lt_iff b
  symbol_injective := injective_widen r.symbol_injective h.symbol_lt_iff d
  global_eq := by
    have hlt : global < t.scopes.size := hnewest ▸ Nat.zero_lt_succ _
    rw [if_pos hlt, r.global_eq]
  seen_global := ⟨r.seen_global, hglobal⟩

/-- One renaming does the same as another with the first `n` scopes. -/
def Renaming.Extends (n : Nat) (r r' : Renaming) : Prop :=
  ∀ i < n, r'.scope i = r.scope i ∧ (r.seen i → r'.seen i)

theorem Renaming.Extends.refl (n : Nat) (r : Renaming) : Renaming.Extends n r r :=
  fun _ _ => ⟨rfl, id⟩

theorem Renaming.Extends.trans {m : Nat} {r'' : Renaming} (h : Renaming.Extends n r r')
    (hle : n ≤ m) (h' : Renaming.Extends m r' r'') : Renaming.Extends n r r'' := fun i hi =>
  have hold := h i hi
  have hnew := h' i (Nat.lt_of_lt_of_le hi hle)
  ⟨hnew.1.trans hold.1, hnew.2 ∘ hold.2⟩

/-! ### The embedding -/

theorem MapMatches.congr {f g : SymbolId → SymbolId} {m m' : SymbolMap} (h : MapMatches f m m')
    (hsame : ∀ (name : String) (id : SymbolId), m[name]? = some id → g id = f id) :
    MapMatches g m m' where
  get name := by
    grind
  size := h.size

theorem KindMatches.congr (h : KindMatches r k k')
    (hsuper : ∀ s, k.superclass? = some s → r'.scope s = r.scope s)
    (hmethods : ∀ classSide selector id, k.method? classSide selector = some id →
      r'.symbol id = r.symbol id) :
    KindMatches r' k k' := by
  cases h with
  | global => exact .global
  | @classOf superclass count methods methods' classMethods classMethods' hmap hmap' =>
    have heq : superclass.map r.scope = superclass.map r'.scope := by
      cases superclass with
      | none => rfl
      | some s => exact congrArg some (hsuper s rfl).symm
    rw [heq]
    exact .classOf (hmap.congr fun name id hid => hmethods false name id hid)
      (hmap'.congr fun name id hid => hmethods true name id hid)
  | method => exact .method
  | block => exact .block

/-- How many blocks a method has does not matter to its kind. -/
theorem KindMatches.of_outline {k'' : ScopeKind} (h : KindMatches r k k')
    (hmethod : k.isMethod = true) (houtline : k''.outline = k'.outline) : KindMatches r' k k'' := by
  cases h with
  | @method classSide blocks blocks' =>
    cases k'' with
    | method classSide' blocks'' =>
      obtain ⟨rfl, -⟩ := ScopeKind.method.inj houtline
      exact .method
    | _ => cases houtline
  | _ => cases hmethod

theorem Symbol.rename_congr {f g : ScopeId → ScopeId} (hscope : g s.scope = f s.scope)
    (hbody : ∀ body, s.kind.body? = some body → g body = f body) : s.rename g = s.rename f := by
  obtain ⟨name, kind, scope, index⟩ := s
  rw [rename, rename, hscope]
  cases kind with
  | classOf body | method body | block body =>
    have heq : g body = f body := hbody body rfl
    simp only [SymbolKind.rename, heq]
  | _ => rfl

/-- **A table is embedded in one whose newest method has more in it.** -/
theorem Embeds.widen (h : Embeds r t t') (hnewest : newest + 1 = t.scopes.size)
    (hglobal : global ≠ newest) (hnewest' : r.scope newest + 1 = t'.scopes.size)
    (hmethod : (t.scope newest).kind.isMethod = true) (hsound : t.Sound) (hclosed : t.Closed)
    {b d : Nat} (hsize : t''.scopes.size = t'.scopes.size + b)
    (hsymbols : t''.symbols.size = t'.symbols.size + d)
    (hsymbol : ∀ id < t'.symbols.size, t''.symbol id = t'.symbol id)
    (hscope : ∀ i < r.scope newest, t''.scope i = t'.scope i)
    (halike : (t'.scope (r.scope newest)).Alike (t''.scope (r.scope newest))) :
    Embeds (r.widen h newest hnewest hglobal b d) t t'' := by
  have hold {i : ScopeId} (hi : i < t.scopes.size) :
      (r.widen h newest hnewest hglobal b d).scope i = r.scope i := if_pos hi
  have holdSymbol {id : SymbolId} (hid : id < t.symbols.size) :
      (r.widen h newest hnewest hglobal b d).symbol id = r.symbol id := if_pos hid
  have hnew {i : ScopeId} (hi : t.scopes.size ≤ i) :
      (r.widen h newest hnewest hglobal b d).scope i = r.scope i + b := if_neg (Nat.not_lt.2 hi)
  have hnewSymbol {id : SymbolId} (hid : t.symbols.size ≤ id) :
      (r.widen h newest hnewest hglobal b d).symbol id = r.symbol id + d :=
    if_neg (Nat.not_lt.2 hid)
  -- A scope that is not the newest one is as it was, and what is not there yet is empty.
  have hcases (i : ScopeId) : t.scopes.size ≤ i ∨ i = newest ∨
      i < newest ∧ t''.scope ((r.widen h newest hnewest hglobal b d).scope i) =
        t'.scope (r.scope i) := by
    rcases Nat.lt_or_ge i t.scopes.size with hi | hi
    · rcases Nat.eq_or_lt_of_le (Nat.le_of_lt_succ (hnewest.symm ▸ hi)) with rfl | hlt
      · exact .inr (.inl rfl)
      · refine .inr (.inr ⟨hlt, ?_⟩)
        have hbound : r.scope i < r.scope newest + 1 := hnewest'.symm ▸ (h.lt_iff i).2 hi
        have hne : r.scope i ≠ r.scope newest := r.injective.ne (Nat.ne_of_lt hlt)
        rw [hold hi, hscope _ (Nat.lt_of_le_of_ne (Nat.le_of_lt_succ hbound) hne)]
    · exact .inl hi
  have hempty {i : ScopeId} (hi : t.scopes.size ≤ i) :
      Matches (r.widen h newest hnewest hglobal b d) (t.scope i)
        (t''.scope ((r.widen h newest hnewest hglobal b d).scope i)) := by
    have hge : t'.scopes.size ≤ r.scope i := Nat.not_lt.1 (mt (h.lt_iff i).1 (Nat.not_lt.2 hi))
    have hge' : t''.scopes.size ≤ r.scope i + b := hsize ▸ Nat.add_le_add_right hge b
    rw [hnew hi, t.scope_of_size_le hi, t''.scope_of_size_le hge']
    exact .default _
  have henclosing {i : ScopeId} (hi : i < t.scopes.size) :
      (t.scope i).enclosing.map r.scope =
        (t.scope i).enclosing.map (r.widen h newest hnewest hglobal b d).scope := by
    cases houter : (t.scope i).enclosing with
    | none => rfl
    | some outer => exact congrArg some (hold (Nat.lt_trans (hsound.enclosing houter) hi)).symm
  refine ⟨fun k => ?_, fun k => ?_, fun i => ?_, fun {i} hi => ?_, fun id => ?_, fun {i} hi => ?_,
    fun {i outer} hi houter => ?_⟩
  · rw [hnew (Nat.le_add_right _ _), h.scopes, hsize]
    exact Nat.add_right_comm _ _ _
  · rw [hnewSymbol (Nat.le_add_right _ _), h.symbols, hsymbols]
    exact Nat.add_right_comm _ _ _
  · rcases hcases i with hi | rfl | ⟨hi, heq⟩
    · exact (hempty hi).1
    · have hlt : i < t.scopes.size := hnewest ▸ Nat.lt_succ_self i
      have hmatch := h.scope i
      rw [hold hlt]
      exact ⟨halike.name.trans hmatch.name, hmatch.kind.of_outline hmethod halike.kind,
        halike.enclosing.trans (hmatch.enclosing.trans (henclosing hlt))⟩
    · have hlt : i < t.scopes.size := hnewest ▸ Nat.lt_succ_of_lt hi
      have hmatch := h.scope i
      rw [heq]
      refine ⟨hmatch.name, hmatch.kind.congr (fun s hs => hold ?_) (fun _ _ id hid => ?_),
        hmatch.enclosing.trans (henclosing hlt)⟩
      · rw [← superclass?_eq] at hs
        exact Nat.lt_trans (hsound.superclass hs).1 hlt
      · exact holdSymbol (hsound.methods hid).1
  · obtain ⟨hseen, hne⟩ := hi
    rcases hcases i with hi | rfl | ⟨hi, heq⟩
    · exact (hempty hi).2
    · exact absurd rfl hne
    · have hmatch := h.content hseen
      rw [heq]
      exact ⟨hmatch.names.congr fun name id hid => holdSymbol (hclosed.names hid),
        hmatch.slotCount, hmatch.argumentCount, hmatch.blockCount⟩
  · rcases Nat.lt_or_ge id t.symbols.size with hid | hid
    · rw [holdSymbol hid, hsymbol _ ((h.symbol_lt_iff id).2 hid), h.symbol]
      exact (Symbol.rename_congr (hold (hclosed.scope id))
        fun body hbody => hold (hclosed.body hbody)).symm
    · have hge : t'.symbols.size ≤ r.symbol id :=
        Nat.not_lt.1 (mt (h.symbol_lt_iff id).1 (Nat.not_lt.2 hid))
      have hge' : t''.symbols.size ≤ r.symbol id + d := hsymbols ▸ Nat.add_le_add_right hge d
      have hzero := (r.widen h newest hnewest hglobal b d).global_eq
      rw [hnewSymbol hid, t.symbol_of_size_le hid, t''.symbol_of_size_le hge']
      exact (congrArg (fun z => (⟨"", .classOf z, z, 0⟩ : Symbol)) hzero).symm
  · refine ⟨h.seen hi, ?_⟩
    rintro rfl
    rw [hmethod] at hi
    cases hi
  · refine ⟨h.enclosing hi.1 houter, ?_⟩
    have hlt := hsound.enclosing houter
    rintro rfl
    -- Nothing is inside of the newest scope.
    have hge : t.scopes.size ≤ i := hnewest ▸ hlt
    rw [t.scope_of_size_le hge] at houter
    cases houter

namespace Declaring

variable {s s' : Declarations}

/-- The body of the newest method is declared on one side only. -/
theorem Abreast.widen (h : Abreast r s s') (hclosed : s.table.Closed)
    (hnewest : newest + 1 = s.table.scopes.size) (hglobal : global ≠ newest)
    (hnewest' : r.scope newest + 1 = s'.table.scopes.size) (hcounted : s.table.BlocksCounted newest)
    (hcounted' : s'.table.BlocksCounted (r.scope newest)) (body : Body Unit) :
    ∃ r', Renaming.Extends newest r r' ∧ Abreast r' s (declareBody (r.scope newest) body s').2 := by
  have hopen : IsOpen s'.table (r.scope newest) :=
    ⟨hcounted'.lt_size, by rw [ScopeKind.isActivation, hcounted'.isMethod, Bool.true_or]⟩
  have hrun := declareBody_runs (r.scope newest) body (r.scope newest) s' h.sound' (Nat.le_refl _)
    hopen
  obtain ⟨hsound, hgrows⟩ := hrun.sound h.sound' (Nat.le_of_lt hcounted'.lt_size)
  obtain ⟨b, hb⟩ := Nat.exists_eq_add_of_le hgrows.scopes_size
  obtain ⟨d, hd⟩ := Nat.exists_eq_add_of_le hgrows.symbols_size
  refine ⟨r.widen h.embeds newest hnewest hglobal b d, fun i hi => ⟨?_, fun hseen => ?_⟩, ?_⟩
  · exact if_pos (hnewest ▸ Nat.lt_succ_of_lt hi)
  · exact ⟨hseen, Nat.ne_of_lt hi⟩
  · refine ⟨?_, h.sound, hsound⟩
    exact h.embeds.widen hnewest hglobal hnewest' hcounted.isMethod h.sound hclosed hb hd
      (fun id hid => hgrows.symbol hid) (fun i hi => hrun.scope_eq h.sound' hcounted' hi)
      (hgrows.alike hcounted'.lt_size)

/-- **A table with an empty method is embedded** in that with any other body. -/
theorem declareCode_widens (h : Abreast r s s') (hclosed : s.table.Closed) {C : ScopeId}
    (hC : C ∈ s.table.classes) {selector : String} {classSide : Bool}
    (hnew : s.table.hasMethod C selector classSide = false) (parameters : List Token)
    (body : Body Unit) (span span' : Span) :
    ∃ r', Renaming.Extends s.table.scopes.size r r' ∧ Abreast r'
      (declareCode C selector classSide (parameters.map Token.unplaced) ⟨[], []⟩ span s).2
      (declareCode (r.scope C) selector classSide parameters body span' s').2 := by
  have hlt := h.sound.lt_size_of_mem hC
  have hlt' := (h.embeds.lt_iff C).2 hlt
  have hseen := h.embeds.seen_of_isClass (h.sound.isClass_of_mem hC)
  have hscope := h.embeds.scope_size
  have hstep : Step 0 s.table (withMethod s.table C selector classSide) :=
    .method (Nat.zero_le _) hC hnew
  obtain ⟨hsound, -, hopen⟩ := withMethod_sound h.sound (Nat.le_refl _) hlt selector classSide
  obtain ⟨hsound', -, hopen'⟩ := withMethod_sound h.sound' (Nat.le_refl _) hlt' selector classSide
  let s₁ := { s with table := withMethod s.table C selector classSide }
  let s₁' := { s' with table := withMethod s'.table (r.scope C) selector classSide }
  -- The parameters are declared on both sides, and the body on one of them.
  obtain ⟨hpaired, -⟩ := declareVariables_twin (r := r) (.inl rfl) s.table.scopes.size parameters s₁
    s₁' ⟨h.embeds.withMethod hseen selector classSide, hsound, hsound'⟩ hopen
    (h.embeds.fresh (Nat.le_refl _))
  have hrun := declareVariables_runs (.inl rfl) s.table.scopes.size
    (parameters.map Token.unplaced) s.table.scopes.size s₁ hsound (Nat.le_refl _) hopen
  have hrun' := declareVariables_runs (.inl rfl) s'.table.scopes.size parameters
    s'.table.scopes.size s₁' hsound' (Nat.le_refl _) hopen'
  have hsize := (size_declareVariables (.inl rfl) s.table.scopes.size
    (parameters.map Token.unplaced) s₁).trans (size_withMethod s.table C selector classSide)
  have hsize' := (size_declareVariables (.inl rfl) s'.table.scopes.size parameters s₁').trans
    (size_withMethod s'.table (r.scope C) selector classSide)
  rw [← hscope] at hrun' hsize'
  have hcounted := hrun.blocksCounted hsound (withMethod_blocksCounted hlt selector classSide)
  have hcounted' := hrun'.blocksCounted hsound'
    (hscope ▸ withMethod_blocksCounted hlt' selector classSide)
  have hclosed' := (hrun.run (Nat.zero_le _)).closed hsound
    (hstep.closed h.sound hclosed)
  obtain ⟨r', hextends, habreast⟩ := hpaired.abreast.widen hclosed' hsize.symm
    (Nat.ne_of_lt h.sound.globals.size) hsize'.symm hcounted hcounted' body
  rw [declareCode_apply, declareCode_apply, ← hscope]
  exact ⟨r', hextends, habreast.embeds, habreast.sound, habreast.sound'⟩

end Declaring

end Smalltalk
