/-
**Tables that differ in their numbers.**

When one method of a program is changed, the scopes and symbols that are declared after it get other
numbers. A renaming says which number became which; one table is then embedded in another if the
other has all its scopes and symbols under the new names. What is inside of the changed method is
left out: its own scope is out of sight, and there may be scopes and symbols without an old number.

All declarations can be made in both tables side by side, and whatever is looked up from a scope in
sight is the same, up to the names.

* `Embeds` — **one table has all that is in another**;
* `Embeds.resolve?_eq`, `depth?_eq`, `qualifiedName_eq` — **what is found is the same**.
-/

import Smalltalk.Proofs.BlockNumbers

namespace Smalltalk

open SymbolTable

/-! ### Renamings -/

/-- **New numbers** for scopes and symbols. Some scopes may be out of sight. -/
structure Renaming where
  /-- The new number of a scope. -/
  scope : ScopeId → ScopeId
  /-- The new number of a symbol. -/
  symbol : SymbolId → SymbolId
  /-- Is the scope in sight? -/
  seen : ScopeId → Prop
  /-- No two scopes get one number. -/
  injective : Function.Injective scope
  /-- No two symbols get one number. -/
  symbol_injective : Function.Injective symbol
  /-- The global scope stays where it is. -/
  global_eq : scope global = global
  /-- The global scope is in sight. -/
  seen_global : seen global

/-- All numbers stay as they are. -/
def Renaming.same : Renaming :=
  ⟨id, id, fun _ => True, fun _ _ h => h, fun _ _ h => h, rfl, trivial⟩

/-- What a symbol names, with the new number of its body. -/
def SymbolKind.rename (f : ScopeId → ScopeId) : SymbolKind → SymbolKind
  | classOf body => classOf (f body)
  | method body classSide => method (f body) classSide
  | block body => block (f body)
  | kind => kind

/-- A symbol with the new numbers of the scopes. -/
def Symbol.rename (f : ScopeId → ScopeId) (s : Symbol) : Symbol :=
  ⟨s.name, s.kind.rename f, f s.scope, s.index⟩

theorem SymbolKind.isVariable_rename (f : ScopeId → ScopeId) (kind : SymbolKind) :
    (kind.rename f).isVariable = kind.isVariable := by cases kind <;> rfl

theorem SymbolKind.isClassSide_rename (f : ScopeId → ScopeId) (kind : SymbolKind) :
    (kind.rename f).isClassSide = kind.isClassSide := by cases kind <;> rfl

variable {r : Renaming}

/-! ### Matching maps and scopes -/

/-- The same names lead to the symbols with the new numbers. -/
@[grind cases]
structure MapMatches (f : SymbolId → SymbolId) (m m' : SymbolMap) : Prop where
  get (name : String) : m'[name]? = m[name]?.map f
  size : m'.size = m.size

namespace MapMatches

variable {f : SymbolId → SymbolId} {m m' : SymbolMap}

theorem refl (m : SymbolMap) : MapMatches id m m := ⟨fun _ => by rw [Option.map_id, id], rfl⟩

theorem empty (f : SymbolId → SymbolId) : MapMatches f ∅ ∅ :=
  ⟨fun _ => by simp only [Std.TreeMap.getElem?_emptyc, Option.map_none], rfl⟩

theorem contains (h : MapMatches f m m') (name : String) : m'.contains name = m.contains name := by
  rw [Std.TreeMap.contains_eq_isSome_getElem?, Std.TreeMap.contains_eq_isSome_getElem?, h.get,
    Option.isSome_map]

theorem insert (h : MapMatches f m m') (name : String) {id id' : SymbolId} (hid : id' = f id) :
    MapMatches f (m.insert name id) (m'.insert name id') where
  get other := by
    grind
  size := by
    rw [Std.TreeMap.size_insert, Std.TreeMap.size_insert, h.contains, h.size]

end MapMatches

/-- The kinds of two scopes that were opened in the same way and have the same fields and methods.
The number of blocks may differ. -/
inductive KindMatches (r : Renaming) : ScopeKind → ScopeKind → Prop
  | global : KindMatches r .global .global
  | classOf {superclass : Option ScopeId} {count : Nat}
      {methods methods' classMethods classMethods' : SymbolMap} :
      MapMatches r.symbol methods methods' → MapMatches r.symbol classMethods classMethods' →
        KindMatches r (.classOf superclass count methods classMethods)
          (.classOf (superclass.map r.scope) count methods' classMethods')
  | method {classSide : Bool} {blocks blocks' : Nat} :
      KindMatches r (.method classSide blocks) (.method classSide blocks')
  | block {index : Nat} : KindMatches r (.block index) (.block index)

namespace KindMatches

variable {k k' : ScopeKind}

section

variable (h : KindMatches r k k')

include h

theorem isClass : k'.isClass = k.isClass := by cases h <;> rfl

theorem isMethod : k'.isMethod = k.isMethod := by cases h <;> rfl

theorem isBlock : k'.isBlock = k.isBlock := by cases h <;> rfl

theorem isGlobal : k'.isGlobal = k.isGlobal := by cases h <;> rfl

theorem isActivation : k'.isActivation = k.isActivation := by
  cases h <;> rfl

theorem fieldCount : k'.fieldCount = k.fieldCount := by cases h <;> rfl

theorem superclass? : k'.superclass? = k.superclass?.map r.scope := by
  cases h <;> rfl

/-- Both are classes with matching methods, or none is. -/
theorem methods? (classSide : Bool) : (k.methods? classSide = none ∧ k'.methods? classSide = none) ∨
      ∃ methods methods', k.methods? classSide = some methods ∧
        k'.methods? classSide = some methods' ∧ MapMatches r.symbol methods methods' := by
  cases h with
  | classOf hmethods hclassMethods =>
    cases classSide
    · exact .inr ⟨_, _, rfl, rfl, hmethods⟩
    · exact .inr ⟨_, _, rfl, rfl, hclassMethods⟩
  | _ => exact .inl ⟨rfl, rfl⟩

theorem addMethod (classSide : Bool) (selector : String) {id id' : SymbolId}
    (hid : id' = r.symbol id) :
    KindMatches r (k.addMethod classSide selector id) (k'.addMethod classSide selector id') := by
  cases h with
  | classOf hmethods hclassMethods =>
    cases classSide
    · exact .classOf (hmethods.insert selector hid) hclassMethods
    · exact .classOf hmethods (hclassMethods.insert selector hid)
  | global => exact .global
  | method => exact .method
  | block => exact .block

theorem addField : KindMatches r k.addField k'.addField := by
  cases h with
  | classOf hmethods hclassMethods => exact .classOf hmethods hclassMethods
  | global => exact .global
  | method => exact .method
  | block => exact .block

theorem addBlock (hcount : k'.blockCount = k.blockCount) (capacity : Nat) :
    KindMatches r (k.addBlock capacity) (k'.addBlock capacity) ∧
      (k'.addBlock capacity).blockCount = (k.addBlock capacity).blockCount := by
  cases h with
  | classOf hmethods hclassMethods => exact ⟨.classOf hmethods hclassMethods, rfl⟩
  | global => exact ⟨.global, rfl⟩
  | method => exact ⟨.method, congrArg (fun count => min (count + 1) capacity) hcount⟩
  | block => exact ⟨.block, rfl⟩

end

end KindMatches

/-- A scope that was opened in the same way, with the same methods. -/
structure ScopeMatches (r : Renaming) (s s' : Scope) : Prop where
  name : s'.name = s.name
  kind : KindMatches r s.kind s'.kind
  enclosing : s'.enclosing = s.enclosing.map r.scope

/-- A scope with the same variables and blocks. -/
structure ContentMatches (r : Renaming) (s s' : Scope) : Prop where
  names : MapMatches r.symbol s.names s'.names
  slotCount : s'.slotCount = s.slotCount
  argumentCount : s'.argumentCount = s.argumentCount
  blockCount : s'.kind.blockCount = s.kind.blockCount

/-- Both. -/
def Matches (r : Renaming) (s s' : Scope) : Prop := ScopeMatches r s s' ∧ ContentMatches r s s'

theorem SymbolKind.rename_id (kind : SymbolKind) : kind.rename id = kind := by cases kind <;> rfl

theorem Matches.default (r : Renaming) : Matches r default default :=
  ⟨⟨rfl, .global, rfl⟩, ⟨.empty _, rfl, rfl, rfl⟩⟩

theorem Matches.new (name : String) {kind kind' : ScopeKind} (hkind : KindMatches r kind kind')
    (hcount : kind'.blockCount = kind.blockCount) (enclosing : ScopeId) :
    Matches r (Scope.new name kind (some enclosing))
      (Scope.new name kind' (some (r.scope enclosing))) :=
  ⟨⟨rfl, hkind, rfl⟩, ⟨.empty _, rfl, rfl, hcount⟩⟩

/-- A change that can be made to matching scopes side by side. -/
def KeepsMatch (r : Renaming) (f f' : Scope → Scope) : Prop :=
  ∀ s s', Matches r s s' → Matches r (f s) (f' s')

theorem keepsMatch_id (r : Renaming) : KeepsMatch r id id := fun _ _ h => h

theorem countSlot_keepsMatch (r : Renaming) (isArgument : Bool) :
    KeepsMatch r (countSlot isArgument) (countSlot isArgument) := by
  rintro s s' ⟨h, hc⟩
  refine ⟨⟨h.name, h.kind, h.enclosing⟩, ⟨hc.names, ?_, ?_, hc.blockCount⟩⟩
  · exact congrArg (· + 1) hc.slotCount
  · simp only [countSlot, hc.argumentCount]

theorem countField_keepsMatch (r : Renaming) : KeepsMatch r countField countField := by
  rintro s s' ⟨h, hc⟩
  refine ⟨⟨h.name, h.kind.addField, h.enclosing⟩, ⟨hc.names, hc.slotCount, hc.argumentCount, ?_⟩⟩
  rw [countField_counts.blockCount, countField_counts.blockCount, hc.blockCount]

theorem countBlock_keepsMatch (r : Renaming) : KeepsMatch r countBlock countBlock := by
  rintro s s' ⟨h, hc⟩
  obtain ⟨hkind, hcount⟩ := h.kind.addBlock hc.blockCount capacity
  exact ⟨⟨h.name, hkind, h.enclosing⟩, ⟨hc.names, hc.slotCount, hc.argumentCount, hcount⟩⟩

/-! ### Embedded tables -/

/-- **One table has all that is in another**, under new numbers. The scopes that are opened next
and the symbols that are declared next correspond. Only methods may be out of sight, with what is
inside of them. -/
@[grind cases]
structure Embeds (r : Renaming) (t t' : SymbolTable) : Prop where
  scopes (k : Nat) : r.scope (t.scopes.size + k) = t'.scopes.size + k
  symbols (k : Nat) : r.symbol (t.symbols.size + k) = t'.symbols.size + k
  scope (i : ScopeId) : ScopeMatches r (t.scope i) (t'.scope (r.scope i))
  content {i : ScopeId} : r.seen i → ContentMatches r (t.scope i) (t'.scope (r.scope i))
  symbol (id : SymbolId) : t'.symbol (r.symbol id) = (t.symbol id).rename r.scope
  seen {i : ScopeId} : (t.scope i).kind.isMethod = false → r.seen i
  enclosing {i outer : ScopeId} : r.seen i → (t.scope i).enclosing = some outer → r.seen outer

/-- If the numbers from `n` on become those from `n'` on, the smaller ones become smaller ones. -/
theorem lt_iff_of_shift {f : Nat → Nat} (hf : Function.Injective f) {n n' : Nat}
    (hshift : ∀ k, f (n + k) = n' + k) (i : Nat) : f i < n' ↔ i < n := by
  constructor
  · intro hlt
    rcases Nat.lt_or_ge i n with hi | hi
    · exact hi
    · obtain ⟨k, rfl⟩ := Nat.exists_eq_add_of_le hi
      grind
  · intro hi
    rcases Nat.lt_or_ge (f i) n' with hlt | hge
    · exact hlt
    · obtain ⟨k, hk⟩ := Nat.exists_eq_add_of_le hge
      rw [← hshift] at hk
      exact absurd hi (Nat.not_lt.2 (hf hk ▸ Nat.le_add_right _ _))

namespace Embeds

variable {t t' : SymbolTable} {i scope : ScopeId} {s s' : Symbol}

theorem refl (t : SymbolTable) : Embeds .same t t where
  scopes _ := rfl
  symbols _ := rfl
  scope i := by
    refine ⟨rfl, ?_, by simp [Renaming.same]⟩
    change KindMatches .same (t.scope i).kind (t.scope i).kind
    cases (t.scope i).kind with
    | global => exact .global
    | classOf superclass count methods classMethods =>
      have h : superclass.map Renaming.same.scope = superclass := by simp [Renaming.same]
      have hkind : KindMatches .same (.classOf superclass count methods classMethods)
          (.classOf (superclass.map Renaming.same.scope) count methods classMethods) :=
        .classOf (.refl methods) (.refl classMethods)
      rwa [h] at hkind
    | method => exact .method
    | block => exact .block
  content _ := ⟨.refl _, rfl, rfl, rfl⟩
  symbol id := by
    have hkind := (t.symbol id).kind.rename_id
    rw [Symbol.rename]
    exact congrArg (Symbol.mk _ · _ _) hkind.symm
  seen _ := trivial
  enclosing _ _ := trivial

section

variable (h : Embeds r t t')

include h

theorem matches_of_seen (hi : r.seen i) :
    Matches r (t.scope i) (t'.scope (r.scope i)) := ⟨h.scope i, h.content hi⟩

theorem lt_iff (i : ScopeId) : r.scope i < t'.scopes.size ↔ i < t.scopes.size :=
  lt_iff_of_shift r.injective h.scopes i

theorem symbol_lt_iff (id : SymbolId) : r.symbol id < t'.symbols.size ↔ id < t.symbols.size :=
  lt_iff_of_shift r.symbol_injective h.symbols id

theorem fresh (hi : t.scopes.size ≤ i) : r.seen i :=
  h.seen (by rw [t.scope_of_size_le hi]; rfl)

theorem seen_of_isClass (hclass : (t.scope i).kind.isClass = true) : r.seen i := by
  refine h.seen ?_
  cases hkind : (t.scope i).kind with
  | classOf => rfl
  | _ => rw [hkind] at hclass; cases hclass

theorem scope_size : r.scope t.scopes.size = t'.scopes.size := h.scopes 0

theorem symbol_size : r.symbol t.symbols.size = t'.symbols.size := h.symbols 0

/-! ### Declarations side by side -/

/-- A scope is opened in both tables. -/
theorem addScope (name : String) {kind kind' : ScopeKind} (hkind : KindMatches r kind kind')
    (hcount : kind'.blockCount = kind.blockCount) {enclosing : ScopeId}
    (henclosing : r.seen enclosing) : Embeds r (t.addScope name kind enclosing).2
      (t'.addScope name kind' (r.scope enclosing)).2 := by
  have hnew := Matches.new name hkind hcount enclosing
  have hscope (i : ScopeId) : r.scope i = t'.scopes.size ↔ i = t.scopes.size := by
    rw [← h.scope_size]
    exact r.injective.eq_iff
  refine ⟨fun k => ?_, h.symbols, fun i => ?_, fun {i} hi => ?_, h.symbol, fun {i} hi => ?_,
    fun {i outer} hi ho => ?_⟩
  · rw [size_addScope, size_addScope, Nat.add_assoc, Nat.add_assoc]
    exact h.scopes (1 + k)
  · rw [scope_addScope, scope_addScope]
    by_cases hi : i = t.scopes.size
    · rw [if_pos hi, if_pos ((hscope i).2 hi)]
      exact hnew.1
    · rw [if_neg hi, if_neg (mt (hscope i).1 hi)]
      exact h.scope i
  · rw [scope_addScope, scope_addScope]
    by_cases hi' : i = t.scopes.size
    · rw [if_pos hi', if_pos ((hscope i).2 hi')]
      exact hnew.2
    · rw [if_neg hi', if_neg (mt (hscope i).1 hi')]
      exact h.content hi
  · rw [scope_addScope] at hi
    split at hi
    case isTrue hnew => exact h.fresh (Nat.le_of_eq hnew.symm)
    case isFalse => exact h.seen hi
  · rw [scope_addScope] at ho
    split at ho
    · obtain rfl := Option.some.inj ho
      exact henclosing
    · exact h.enclosing hi ho

/-- A scope is changed in both tables. -/
theorem modifyScope (hi : r.seen i) {f f' : Scope → Scope} (hf : KeepsMatch r f f')
    (halike : ∀ s : Scope, s.Alike (f s)) :
    Embeds r (t.modifyScope i f) (t'.modifyScope (r.scope i) f') := by
  have hcond (j : ScopeId) : (r.scope j = r.scope i ∧ r.scope j < t'.scopes.size) ↔
      (j = i ∧ j < t.scopes.size) := by
    rw [r.injective.eq_iff, h.lt_iff]
  refine ⟨fun k => ?_, h.symbols, fun j => ?_, fun {j} hj => ?_, h.symbol, fun {j} hj => ?_,
    fun {j outer} hj ho => ?_⟩
  · rw [size_modifyScope, size_modifyScope]
    exact h.scopes k
  · rw [scope_modifyScope, scope_modifyScope]
    by_cases hc : j = i ∧ j < t.scopes.size
    · rw [if_pos hc, if_pos ((hcond j).2 hc), hc.1]
      exact (hf _ _ (h.matches_of_seen hi)).1
    · rw [if_neg hc, if_neg (mt (hcond j).1 hc)]
      exact h.scope j
  · rw [scope_modifyScope, scope_modifyScope]
    by_cases hc : j = i ∧ j < t.scopes.size
    · rw [if_pos hc, if_pos ((hcond j).2 hc), hc.1]
      exact (hf _ _ (h.matches_of_seen hi)).2
    · rw [if_neg hc, if_neg (mt (hcond j).1 hc)]
      exact h.content hj
  · grind
  · grind

end

theorem symbol_push (t : SymbolTable) (s : Symbol) (id : SymbolId) :
    (SymbolTable.mk t.scopes (t.symbols.push s)).symbol id =
      if id = t.symbols.size then s else t.symbol id := by
  simp only [SymbolTable.symbol, Array.getD_eq_getD_getElem?, Array.getElem?_push]
  split <;> rfl

theorem push (h : Embeds r t t') (s : Symbol) :
    Embeds r ⟨t.scopes, t.symbols.push s⟩ ⟨t'.scopes, t'.symbols.push (s.rename r.scope)⟩ where
  scopes := h.scopes
  symbols k := by
    rw [Array.size_push, Array.size_push, Nat.add_assoc, Nat.add_assoc]
    exact h.symbols (1 + k)
  scope := h.scope
  content := h.content
  symbol id := by
    have hid : r.symbol id = t'.symbols.size ↔ id = t.symbols.size := by
      rw [← h.symbol_size]
      exact r.symbol_injective.eq_iff
    rw [symbol_push, symbol_push]
    grind
  seen := h.seen
  enclosing := h.enclosing

/-- A symbol is added to both tables. -/
theorem addSymbol (h : Embeds r t t') (hs' : s' = s.rename r.scope) (hs : r.seen s.scope)
    {f f' : SymbolId → Scope → Scope} (hf : KeepsMatch r (f t.symbols.size) (f' t'.symbols.size))
    (hharmless : Harmless f) : Embeds r (t.addSymbol s f).2 (t'.addSymbol s' f').2 := by
  subst hs'
  refine (h.push s).modifyScope hs (fun a b hab => ?_) fun a => ?_
  · -- The list of its symbols does not matter to whether a scope matches.
    obtain ⟨hab, hc⟩ := hab
    exact hf _ _ ⟨⟨hab.name, hab.kind, hab.enclosing⟩,
      ⟨hc.names, hc.slotCount, hc.argumentCount, hc.blockCount⟩⟩
  · have ha := hharmless.alike t.symbols.size
      { a with symbols := a.symbols.push t.symbols.size }
    exact ⟨ha.name, ha.enclosing, ha.kind⟩

/-- A symbol that is found by its name is added to both tables. -/
theorem addNamed (h : Embeds r t t') (hs' : s' = s.rename r.scope) (hs : r.seen s.scope)
    {f : Scope → Scope} (hf : KeepsMatch r f f) (hcounts : Counts f) :
    Embeds r (t.addNamed s f).2 (t'.addNamed s' f).2 := by
  have hname : s'.name = s.name := by rw [hs', Symbol.rename]
  rw [addNamed_eq, addNamed_eq]
  dsimp only
  refine h.addSymbol hs' hs (fun a b hab => ?_) (hcounts.named s.name)
  obtain ⟨hab, hc⟩ := hab
  refine hf _ _ ⟨⟨hab.name, hab.kind, hab.enclosing⟩,
    ⟨?_, hc.slotCount, hc.argumentCount, hc.blockCount⟩⟩
  rw [hname]
  exact hc.names.insert s.name h.symbol_size.symm

/-- **A class or variable is declared** in both tables, or fails to be for the same reason. -/
theorem declare (h : Embeds r t t') (hs : r.seen scope) (name : String) (kind : SymbolKind) :
    Embeds r (t.declare scope name kind).2
        (t'.declare (r.scope scope) name (kind.rename r.scope)).2 ∧
      (t'.declare (r.scope scope) name (kind.rename r.scope)).1 =
        (t.declare scope name kind).1.map r.symbol := by
  have hadd {f : Scope → Scope} (hf : KeepsMatch r f f) (hcounts : Counts f)
      (index : Nat) :
      Embeds r (t.addNamed ⟨name, kind, scope, index⟩ f).2
          (t'.addNamed ⟨name, kind.rename r.scope, r.scope scope, index⟩ f).2 ∧
        (t'.addNamed ⟨name, kind.rename r.scope, r.scope scope, index⟩ f).1 =
          (t.addNamed ⟨name, kind, scope, index⟩ f).1.map r.symbol :=
    ⟨h.addNamed rfl hs hf hcounts, congrArg Except.ok h.symbol_size.symm⟩
  have hcontent := h.content hs
  have hkind := (h.scope scope).kind
  unfold SymbolTable.declare
  rw [hcontent.names.contains]
  split
  · exact ⟨h, rfl⟩
  · cases kind with
    | field =>
      simp only [SymbolKind.rename, hkind.isClass, hkind.fieldCount]
      split
      · split
        · exact hadd (countField_keepsMatch r) countField_counts _
        · exact ⟨h, rfl⟩
      · exact hadd (keepsMatch_id r) id_counts _
    | argument | localVariable =>
      simp only [SymbolKind.rename, hcontent.slotCount]
      split
      · exact hadd (countSlot_keepsMatch r _) (countSlot_counts _) _
      · exact ⟨h, rfl⟩
    | _ => exact hadd (keepsMatch_id r) id_counts _

theorem addMethod_keepsMatch (classSide : Bool) (selector : String) {id id' : SymbolId}
    (hid : id' = r.symbol id) :
    KeepsMatch r (fun s => { s with kind := s.kind.addMethod classSide selector id })
      (fun s => { s with kind := s.kind.addMethod classSide selector id' }) := by
  rintro s s' ⟨h, hc⟩
  refine ⟨⟨h.name, h.kind.addMethod classSide selector hid, h.enclosing⟩,
    ⟨hc.names, hc.slotCount, hc.argumentCount, ?_⟩⟩
  rw [ScopeKind.blockCount_addMethod, ScopeKind.blockCount_addMethod]
  exact hc.blockCount

/-- **A method is declared** in both tables, or in none. -/
theorem declareMethod (h : Embeds r t t') (hs : r.seen scope) (selector : String)
    (kind : SymbolKind) :
    Embeds r (t.declareMethod scope selector kind).2
      (t'.declareMethod (r.scope scope) selector (kind.rename r.scope)).2 := by
  rw [SymbolTable.declareMethod, SymbolTable.declareMethod, kind.isClassSide_rename, methodMap?,
    methodMap?]
  obtain ⟨hnone, hnone'⟩ | ⟨methods, methods', hsome, hsome', hmap⟩ :=
    (h.scope scope).kind.methods? kind.isClassSide
  · rw [hnone, hnone']
    exact h
  · rw [hsome, hsome']
    simp only [hmap.contains, hmap.size]
    split
    · exact h
    · split
      · have hadd := addMethod_keepsMatch (r := r) kind.isClassSide selector h.symbol_size.symm
        dsimp only
        refine h.addSymbol rfl ?_ hadd (addMethod_harmless _ _)
        exact hs
      · exact h

theorem hasMethod_eq (h : Embeds r t t') (scope : ScopeId) (selector : String)
    (classSide : Bool) :
    t'.hasMethod (r.scope scope) selector classSide = t.hasMethod scope selector classSide := by
  rw [hasMethod, hasMethod, methodMap?, methodMap?]
  obtain ⟨hnone, hnone'⟩ | ⟨methods, methods', hsome, hsome', hmap⟩ :=
    (h.scope scope).kind.methods? classSide
  · rw [hnone, hnone']
  · rw [hsome, hsome']
    exact hmap.contains selector

/-! ### What is found -/

theorem superclass?_map (h : Embeds r t t') (i : ScopeId) :
    t'.superclass? (r.scope i) = (t.superclass? i).map r.scope := by
  rw [superclass?_eq, superclass?_eq]
  exact (h.scope i).kind.superclass?

variable (hsound : t.Sound) (hsound' : t'.Sound)

include hsound hsound'

/-- The scopes around a scope have the new numbers. -/
theorem outward_map (h : Embeds r t t') (i : ScopeId) :
    t'.outward (r.scope i) = (t.outward i).map r.scope := by
  induction i using Nat.strongRecOn with
  | ind i ih =>
    rw [hsound.outward_eq, hsound'.outward_eq, (h.scope i).enclosing, List.map_cons]
    cases houter : (t.scope i).enclosing with
    | none => rfl
    | some outer => exact congrArg (r.scope i :: ·) (ih outer (hsound.enclosing houter))

/-- The superclasses of a class have the new numbers. -/
theorem lineage_map (h : Embeds r t t') (i : ScopeId) :
    t'.lineage (r.scope i) = (t.lineage i).map r.scope := by
  induction i using Nat.strongRecOn with
  | ind i ih =>
    rw [hsound.lineage_eq, hsound'.lineage_eq, h.superclass?_map, List.map_cons]
    cases hs : t.superclass? i with
    | none => rfl
    | some s => exact congrArg (r.scope i :: ·) (ih s (hsound.superclass hs).1)

omit hsound' in
theorem seen_of_mem_outward (h : Embeds r t t') {i j : ScopeId} (hi : r.seen i)
    (hj : j ∈ t.outward i) : r.seen j := by
  induction i using Nat.strongRecOn with
  | ind i ih =>
    rw [hsound.outward_eq] at hj
    obtain rfl | hj := List.mem_cons.1 hj
    · exact hi
    · cases houter : (t.scope i).enclosing with
      | none => rw [houter] at hj; cases hj
      | some outer =>
        grind

omit hsound' in
theorem seen_of_mem_lineage (h : Embeds r t t') {i j : ScopeId} (hi : r.seen i)
    (hj : j ∈ t.lineage i) : r.seen j := by
  induction i using Nat.strongRecOn with
  | ind i ih =>
    rw [hsound.lineage_eq] at hj
    obtain rfl | hj := List.mem_cons.1 hj
    · exact hi
    · cases hs : t.superclass? i with
      | none => rw [hs] at hj; cases hj
      | some s =>
        obtain ⟨hlt, hmem⟩ := hsound.superclass hs
        rw [hs] at hj
        exact ih s hlt (h.seen_of_isClass (hsound.isClass_of_mem hmem)) hj

end Embeds

/-- What is found first in a list is the same if it is found in the same members. -/
theorem findSome?_eq_map {α β γ δ : Type} {l : List α} {f : α → Option β} {f' : γ → Option δ}
    {g : α → γ} {g' : β → δ} (h : ∀ a ∈ l, f' (g a) = (f a).map g') :
    (l.map g).findSome? f' = (l.findSome? f).map g' := by
  induction l with
  | nil => rfl
  | cons a l ih =>
    grind

namespace Embeds

variable {t t' : SymbolTable} (hsound : t.Sound) (hsound' : t'.Sound)

include hsound hsound'

variable {i : ScopeId}

section

variable (h : Embeds r t t')

include h

theorem findIn?_eq (hi : r.seen i) (name : String) :
    t'.findIn? name (r.scope i) = (t.findIn? name i).map r.symbol := by
  have hnames (s : ScopeId) (hs : s ∈ t.lineage i) :
      (t'.scope (r.scope s)).names[name]? = (t.scope s).names[name]?.map r.symbol :=
    (h.content (h.seen_of_mem_lineage hsound hi hs)).names.get name
  have hmethods (s : ScopeId) (_ : s ∈ t.lineage i) :
      ((t'.methodMap? (r.scope s) false).bind fun methods => methods[name]?) =
        ((t.methodMap? s false).bind fun methods => methods[name]?).map r.symbol := by
    rw [methodMap?, methodMap?]
    obtain ⟨hnone, hnone'⟩ | ⟨methods, methods', hsome, hsome', hmap⟩ :=
      (h.scope s).kind.methods? false
    · rw [hnone, hnone']
      rfl
    · rw [hsome, hsome']
      exact hmap.get name
  have hfirst : ((t.lineage i).map r.scope).findSome? (fun s => (t'.scope s).names[name]?) = _ :=
    findSome?_eq_map hnames
  have hsecond : ((t.lineage i).map r.scope).findSome?
      (fun s => (t'.methodMap? s false).bind fun methods => methods[name]?) = _ :=
    findSome?_eq_map hmethods
  rw [findIn?, findIn?, h.lineage_map hsound hsound']
  grind

/-- **What a name refers to** is the same. -/
theorem resolve?_eq (hi : r.seen i) (name : String) :
    t'.resolve? (r.scope i) name = (t.resolve? i name).map r.symbol := by
  rw [resolve?, resolve?, h.outward_map hsound hsound']
  exact findSome?_eq_map fun s hs =>
    h.findIn?_eq hsound hsound' (h.seen_of_mem_outward hsound hi hs) name

theorem depth?_eq (start stop : ScopeId) :
    t'.depth? (r.scope start) (r.scope stop) = t.depth? start stop := by
  have hne : (fun s => decide (s ≠ r.scope stop)) ∘ r.scope = fun s => decide (s ≠ stop) :=
    funext fun s => decide_eq_decide.2 (not_congr r.injective.eq_iff)
  have hkind : (fun s => (t'.scope s).kind.isActivation) ∘ r.scope =
      fun s => (t.scope s).kind.isActivation :=
    funext fun s => (h.scope s).kind.isActivation
  simp only [depth?, h.outward_map hsound hsound', List.takeWhile_map, hne, List.length_map,
    List.all_map, hkind]

theorem qualifiedName_eq (i : ScopeId) : t'.qualifiedName (r.scope i) = t.qualifiedName i := by
  have hglobal : (fun s => !(t'.scope s).kind.isGlobal) ∘ r.scope =
      fun s => !(t.scope s).kind.isGlobal :=
    funext fun s => congrArg (!·) (h.scope s).kind.isGlobal
  have hname : (fun s => (t'.scope s).name) ∘ r.scope = fun s => (t.scope s).name :=
    funext fun s => (h.scope s).name
  simp only [qualifiedName, h.outward_map hsound hsound', List.filter_map, hglobal,
    ← List.map_reverse, List.map_map, hname]

theorem enclosingClass?_eq (i : ScopeId) :
    t'.enclosingClass? (r.scope i) = (t.enclosingClass? i).map r.scope := by
  have hclass : (fun s => (t'.scope s).kind.isClass) ∘ r.scope =
      fun s => (t.scope s).kind.isClass :=
    funext fun s => (h.scope s).kind.isClass
  rw [enclosingClass?, enclosingClass?, h.outward_map hsound hsound', List.find?_map, hclass]

theorem enclosingMethod?_eq (i : ScopeId) :
    t'.enclosingMethod? (r.scope i) = (t.enclosingMethod? i).map r.scope := by
  have hblock : (fun s => (t'.scope s).kind.isBlock) ∘ r.scope =
      fun s => (t.scope s).kind.isBlock :=
    funext fun s => (h.scope s).kind.isBlock
  rw [enclosingMethod?, enclosingMethod?, h.outward_map hsound hsound', List.dropWhile_map, hblock]
  cases (t.outward i).dropWhile fun s => (t.scope s).kind.isBlock with
  | nil => rfl
  | cons s _ =>
    simp only [List.map_cons, (h.scope s).kind.isMethod]
    split <;> rfl

theorem blockMethod_eq (i : ScopeId) : t'.blockMethod (r.scope i) = r.scope (t.blockMethod i) := by
  rw [blockMethod, blockMethod, h.enclosingMethod?_eq hsound hsound']
  cases t.enclosingMethod? i <;> rfl

omit hsound' in
theorem seen_blockMethod (hi : r.seen i) : r.seen (t.blockMethod i) := by
  rw [blockMethod]
  cases hm : t.enclosingMethod? i with
  | none => exact hi
  | some m =>
    refine h.seen_of_mem_outward hsound hi ?_
    rw [enclosingMethod?] at hm
    cases hdrop : (t.outward i).dropWhile fun s => (t.scope s).kind.isBlock with
    | nil => rw [hdrop] at hm; cases hm
    | cons s rest =>
      rw [hdrop] at hm
      have hs : m = s := by
        grind
      exact hs ▸ List.dropWhile_subset _ (hdrop ▸ List.mem_cons_self)

/-- **A block is declared** in both tables, with the same number. -/
theorem declareBlock {scope : ScopeId} (hs : r.seen scope) :
    Embeds r (t.declareBlock scope).2.2 (t'.declareBlock (r.scope scope)).2.2 ∧
      (t'.declareBlock (r.scope scope)).2.1 = r.scope (t.declareBlock scope).2.1 := by
  have hmethod := h.blockMethod_eq hsound hsound' scope
  have hseen := h.seen_blockMethod hsound hs
  have hindex : t'.blockIndex (r.scope scope) = t.blockIndex scope := by
    rw [blockIndex, blockIndex, hmethod]
    exact (h.content hseen).blockCount
  have hcounted : Embeds r (t.modifyScope (t.blockMethod scope) countBlock)
      (t'.modifyScope (t'.blockMethod (r.scope scope)) countBlock) := by
    rw [hmethod]
    exact h.modifyScope hseen (countBlock_keepsMatch r) countBlock_alike
  have hopen : Embeds r (t.openBlock scope) (t'.openBlock (r.scope scope)) := by
    rw [openBlock, openBlock, hindex]
    exact hcounted.addScope _ .block rfl hs
  rw [declareBlock_eq, declareBlock_eq]
  dsimp only
  refine ⟨hopen.addSymbol ?_ hs (keepsMatch_id r) id_counts.toHarmless, h.scope_size.symm⟩
  rw [hindex, ← h.scope_size]
  rfl

omit hsound hsound' in
theorem classNamed?_eq (name : String) :
    t'.classNamed? name = (t.classNamed? name).map r.scope := by
  have hglobal := (h.content r.seen_global).names.get name
  rw [r.global_eq] at hglobal
  rw [classNamed?, classNamed?, hglobal]
  cases (t.scope global).names[name]? with
  | none => rfl
  | some id =>
    simp only [Option.map_some, Option.bind_some, classBody?, h.symbol, Symbol.rename]
    cases (t.symbol id).kind <;> rfl

end

omit hsound hsound' in
/-- **A class is declared** in both tables. -/
theorem withClass (h : Embeds r t t') (name : String) {superclass : Option ScopeId} :
    Embeds r (t.withClass name superclass)
      (t'.withClass name (superclass.map r.scope)) := by
  have hcount : ((superclass.map r.scope).map fun s => (t'.scope s).kind.fieldCount).getD 0 =
      (superclass.map fun s => (t.scope s).kind.fieldCount).getD 0 := by
    cases superclass with
    | none => rfl
    | some s => exact (h.scope s).kind.fieldCount
  have hkind (count : Nat) : KindMatches r (.classOf superclass count ∅ ∅)
      (.classOf (superclass.map r.scope) count ∅ ∅) := .classOf (.empty _) (.empty _)
  have hopen := h.addScope name
    (hkind ((superclass.map fun s => (t.scope s).kind.fieldCount).getD 0)) rfl r.seen_global
  have hdeclared := (hopen.declare r.seen_global name (.classOf t.scopes.size)).1
  rw [SymbolTable.withClass, SymbolTable.withClass, hcount, ← h.scope_size]
  rw [r.global_eq] at hdeclared
  exact hdeclared

end Embeds

end Smalltalk
