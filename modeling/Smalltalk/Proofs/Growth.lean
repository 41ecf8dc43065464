/-
**Tables only grow.**

Declaring never takes anything back. A scope keeps its name, the scope around it and what it
belongs to; once the variables of a scope are declared, they stay as they are, whatever is declared
after them. Only methods and blocks are still added to it, and classes to the global scope.

A table also stays sound: the scope around a scope and the superclass of a class are older, each
class is found under its name, and the fields of a class are numbered after the inherited ones.

* `SymbolTable.Sound` — **what holds of every table**;
* `SymbolTable.Grows` — **what is left alone** when something is declared;
* `SymbolTable.Sound.grows` — **a table that grows stays sound** if what is new is sound.
-/

import Mathlib.Data.List.Basic
import Smalltalk.Proofs.Tables

namespace Smalltalk

/-! ### What stays the same of a scope -/

/-- A kind without what may be added to it later. -/
def ScopeKind.outline : ScopeKind → ScopeKind
  | .classOf superclass _ _ _ => .classOf superclass 0 ∅ ∅
  | .method classSide _ => .method classSide 0
  | .block index => .block index
  | .global => .global

namespace ScopeKind

variable {k : ScopeKind}

/-- The superclass, if it is the kind of a class that has one. -/
def superclass? : ScopeKind → Option ScopeId
  | .classOf superclass .. => superclass
  | _ => none

theorem isGlobal_of_isClass (h : k.isClass = true) : k.isGlobal = false := by
  cases k <;> first | rfl | cases h

theorem isClass_of_isActivation (h : k.isActivation = true) : k.isClass = false := by
  cases k <;> first | rfl | cases h

theorem eq_global (h : k.isGlobal = true) : k = .global := by
  cases k <;> first | rfl | cases h

/-- The number of a block does not change. -/
theorem eq_block {index : Nat} (h : k.outline = (block index).outline) : k = .block index := by
  cases k with
  | block i => exact h
  | _ => cases h

section

variable (k : ScopeKind) (classSide : Bool) (selector : String) (id : SymbolId)

theorem outline_addMethod : (k.addMethod classSide selector id).outline = k.outline := by
  cases k <;> cases classSide <;> rfl

theorem fieldCount_addMethod : (k.addMethod classSide selector id).fieldCount = k.fieldCount := by
  cases k <;> cases classSide <;> rfl

theorem outline_addField : k.addField.outline = k.outline := by
  cases k <;> rfl

theorem methods?_addField : k.addField.methods? classSide = k.methods? classSide := by
  cases k <;> rfl

theorem blockCount_addField : k.addField.blockCount = k.blockCount := by
  cases k <;> rfl

theorem outline_addBlock (capacity : Nat) : (k.addBlock capacity).outline = k.outline := by
  cases k <;> rfl

theorem methods?_addBlock (capacity : Nat) :
    (k.addBlock capacity).methods? classSide = k.methods? classSide := by
  cases k <;> rfl

theorem fieldCount_addBlock (capacity : Nat) : (k.addBlock capacity).fieldCount = k.fieldCount := by
  cases k <;> rfl

end

/-- The method with a selector on one side of a class itself. -/
def method? (k : ScopeKind) (classSide : Bool) (selector : String) : Option SymbolId :=
  (k.methods? classSide).bind fun methods => methods[selector]?

/-- The methods of a class are those it had and the one that was added. -/
theorem method?_addMethod {side classSide : Bool} {selector added : String} {id found : SymbolId}
    (h : (k.addMethod side added id).method? classSide selector = some found) :
    k.method? classSide selector = some found ∨ found = id ∧ classSide = side := by
  cases k with
  | classOf superclass count methods classMethods =>
    cases side <;> cases classSide <;>
      simp only [addMethod, method?, methods?, if_true, Bool.false_eq_true, if_false,
        Option.bind_some, Std.TreeMap.getElem?_insert] at h
    · split at h
      · exact .inr ⟨(Option.some.inj h).symm, rfl⟩
      · exact .inl h
    · exact .inl h
    · exact .inl h
    · split at h
      · exact .inr ⟨(Option.some.inj h).symm, rfl⟩
      · exact .inl h
  | _ => exact .inl h

end ScopeKind

namespace Scope

/-- A scope that was opened in the same way. -/
@[grind cases]
structure Alike (s s' : Scope) : Prop where
  name : s'.name = s.name
  enclosing : s'.enclosing = s.enclosing
  kind : s'.kind.outline = s.kind.outline

/-- A scope with the same variables. Classes may be added to the global scope. -/
@[grind cases]
structure Settled (s s' : Scope) : Prop where
  names : s.kind.isGlobal = false → s'.names = s.names
  slotCount : s'.slotCount = s.slotCount
  argumentCount : s'.argumentCount = s.argumentCount
  fieldCount : s'.kind.fieldCount = s.kind.fieldCount

variable {s s' s'' : Scope}

theorem Alike.refl (s : Scope) : s.Alike s := ⟨rfl, rfl, rfl⟩

section

variable (h : s.Alike s')

include h

theorem Alike.trans (h' : s'.Alike s'') : s.Alike s'' :=
  ⟨h'.name.trans h.name, h'.enclosing.trans h.enclosing, h'.kind.trans h.kind⟩

/-- What is read off the outline of its kind is the same. -/
theorem Alike.kind_eq {α : Type} {q : ScopeKind → α} (hq : ∀ k, q k.outline = q k) :
    q s'.kind = q s.kind := by
  rw [← hq, h.kind, hq]

theorem Alike.isClass : s'.kind.isClass = s.kind.isClass :=
  h.kind_eq fun k => by cases k <;> rfl

theorem Alike.isMethod : s'.kind.isMethod = s.kind.isMethod :=
  h.kind_eq fun k => by cases k <;> rfl

theorem Alike.isBlock : s'.kind.isBlock = s.kind.isBlock :=
  h.kind_eq fun k => by cases k <;> rfl

theorem Alike.isGlobal : s'.kind.isGlobal = s.kind.isGlobal :=
  h.kind_eq fun k => by cases k <;> rfl

theorem Alike.superclass? : s'.kind.superclass? = s.kind.superclass? :=
  h.kind_eq fun k => by cases k <;> rfl

end

theorem Settled.refl (s : Scope) : s.Settled s := ⟨fun _ => rfl, rfl, rfl, rfl⟩

theorem Settled.trans (h : s.Settled s') (halike : s.Alike s') (h' : s'.Settled s'') :
    s.Settled s'' where
  names hs := (h'.names (halike.isGlobal.trans hs)).trans (h.names hs)
  slotCount := h'.slotCount.trans h.slotCount
  argumentCount := h'.argumentCount.trans h.argumentCount
  fieldCount := h'.fieldCount.trans h.fieldCount

end Scope

namespace SymbolTable

/-! ### Sound tables -/

/-- The fields that are declared in a class itself, in order. -/
def ownFields (t : SymbolTable) (scope : ScopeId) : List SymbolId :=
  (t.scope scope).symbols.toList.filter fun id => (t.symbol id).kind = .field

/-- The number of fields that a class inherits. -/
def inherited (t : SymbolTable) (scope : ScopeId) : Nat :=
  ((t.superclass? scope).map fun s => (t.scope s).kind.fieldCount).getD 0

/-- The fields of a class are numbered after the inherited ones, and found by name. -/
@[grind cases]
structure FieldsSound (t : SymbolTable) (scope : ScopeId) : Prop where
  enclosing : (t.scope scope).enclosing = some global
  index {k : Nat} {id : SymbolId} : (t.ownFields scope)[k]? = some id →
    (t.symbol id).index = t.inherited scope + k
  named {id : SymbolId} : id ∈ t.ownFields scope →
    (t.scope scope).names[(t.symbol id).name]? = some id
  mem {name : String} {id : SymbolId} : (t.scope scope).names[name]? = some id →
    id ∈ t.ownFields scope ∧ (t.symbol id).name = name
  count : (t.scope scope).kind.fieldCount = t.inherited scope + (t.ownFields scope).length
  room : (t.scope scope).kind.fieldCount ≤ capacity

/-- The global scope holds the classes, each of which is found by its name. -/
@[grind cases]
structure GlobalsSound (t : SymbolTable) : Prop where
  size : 0 < t.scopes.size
  kind : (t.scope global).kind = .global
  enclosing : (t.scope global).enclosing = none
  body {id : SymbolId} : id ∈ (t.scope global).symbols → ∃ body,
    (t.symbol id).kind = .classOf body ∧ body < t.scopes.size ∧
      (t.scope body).kind.isClass = true ∧ (t.scope body).name = (t.symbol id).name
  named {id : SymbolId} : id ∈ (t.scope global).symbols →
    (t.scope global).names[(t.symbol id).name]? = some id
  mem {name : String} {id : SymbolId} : (t.scope global).names[name]? = some id →
    id ∈ (t.scope global).symbols ∧ (t.symbol id).name = name
  ascending : t.classes.Pairwise (· < ·)

/-- **What holds of every table** that was made by declaring programs. -/
@[grind cases]
structure Sound (t : SymbolTable) : Prop where
  enclosing {scope s : ScopeId} : (t.scope scope).enclosing = some s → s < scope
  superclass {scope s : ScopeId} : t.superclass? scope = some s → s < scope ∧ s ∈ t.classes
  bounded {scope : ScopeId} {id : SymbolId} : id ∈ (t.scope scope).symbols → id < t.symbols.size
  fields {scope : ScopeId} : (t.scope scope).kind.isClass = true → t.FieldsSound scope
  methods {scope : ScopeId} {classSide : Bool} {selector : String} {id : SymbolId} :
    (t.scope scope).kind.method? classSide selector = some id →
      id < t.symbols.size ∧ (t.symbol id).kind.isMethodOf classSide = true
  globals : t.GlobalsSound

/-- **What is left alone** when something is declared. Of the scopes before `n` not even the
variables change. -/
@[grind cases]
structure Grows (n : Nat) (t t' : SymbolTable) : Prop where
  bound : n ≤ t.scopes.size
  scopes_size : t.scopes.size ≤ t'.scopes.size
  symbols_size : t.symbols.size ≤ t'.symbols.size
  symbol {id : SymbolId} : id < t.symbols.size → t'.symbol id = t.symbol id
  code (scope : ScopeId) : (t'.scope scope).code = (t.scope scope).code
  alike {scope : ScopeId} : scope < t.scopes.size → (t.scope scope).Alike (t'.scope scope)
  settled {scope : ScopeId} : scope < n → (t.scope scope).Settled (t'.scope scope)
  ownFields {scope : ScopeId} : scope < n → t'.ownFields scope = t.ownFields scope

variable {t t' t'' : SymbolTable} {n : Nat} {i scope enclosing : ScopeId} {s : Symbol} {name : String}
  {kind : SymbolKind} {superclass : Option ScopeId}

theorem superclass?_eq (t : SymbolTable) (scope : ScopeId) :
    t.superclass? scope = (t.scope scope).kind.superclass? := by
  rw [superclass?]
  cases (t.scope scope).kind <;> rfl

theorem Grows.refl (h : n ≤ t.scopes.size) : Grows n t t where
  bound := h
  scopes_size := Nat.le_refl _
  symbols_size := Nat.le_refl _
  symbol _ := rfl
  code _ := rfl
  alike _ := .refl _
  settled _ := .refl _
  ownFields _ := rfl

theorem Grows.trans (h : Grows n t t') (h' : Grows n t' t'') : Grows n t t'' where
  bound := h.bound
  scopes_size := Nat.le_trans h.scopes_size h'.scopes_size
  symbols_size := Nat.le_trans h.symbols_size h'.symbols_size
  symbol hid := (h'.symbol (Nat.lt_of_lt_of_le hid h.symbols_size)).trans (h.symbol hid)
  code scope := (h'.code scope).trans (h.code scope)
  alike hs := (h.alike hs).trans (h'.alike (Nat.lt_of_lt_of_le hs h.scopes_size))
  settled hs := (h.settled hs).trans (h.alike (Nat.lt_of_lt_of_le hs h.bound)) (h'.settled hs)
  ownFields hs := (h'.ownFields hs).trans (h.ownFields hs)

theorem Grows.mono {m : Nat} (h : Grows n t t') (hm : m ≤ n) : Grows m t t' where
  bound := Nat.le_trans hm h.bound
  scopes_size := h.scopes_size
  symbols_size := h.symbols_size
  symbol := h.symbol
  code := h.code
  alike := h.alike
  settled hs := h.settled (Nat.lt_of_lt_of_le hs hm)
  ownFields hs := h.ownFields (Nat.lt_of_lt_of_le hs hm)

/-! ### What growing leaves sound -/

theorem Grows.superclass? (h : Grows n t t') (hs : scope < t.scopes.size) :
    t'.superclass? scope = t.superclass? scope := by
  rw [superclass?_eq, superclass?_eq, (h.alike hs).superclass?]

theorem Sound.mem_ownFields (h : t.Sound) {id : SymbolId} (hid : id ∈ t.ownFields scope) :
    id < t.symbols.size :=
  h.bounded (Array.mem_toList_iff.1 (List.mem_of_mem_filter hid))

theorem Sound.isClass_of_mem (h : t.Sound) (hs : scope ∈ t.classes) :
    (t.scope scope).kind.isClass = true := by
  obtain ⟨id, hid, hbody⟩ := List.mem_filterMap.1 hs
  obtain ⟨body, hkind, -, hclass, -⟩ := h.globals.body (Array.mem_toList_iff.1 hid)
  rw [classBody?, hkind] at hbody
  obtain rfl := Option.some.inj hbody
  exact hclass

theorem Sound.lt_size_of_mem (h : t.Sound) (hs : scope ∈ t.classes) : scope < t.scopes.size := by
  obtain ⟨id, hid, hbody⟩ := List.mem_filterMap.1 hs
  obtain ⟨body, hkind, hlt, -, -⟩ := h.globals.body (Array.mem_toList_iff.1 hid)
  rw [classBody?, hkind] at hbody
  obtain rfl := Option.some.inj hbody
  exact hlt

/-- The fields of a class stay sound while it has the same variables and inherits as many. -/
theorem FieldsSound.keep (h : t.FieldsSound scope) (hsound : t.Sound)
    (hclass : (t.scope scope).kind.isClass = true)
    (hsymbol : ∀ id < t.symbols.size, t'.symbol id = t.symbol id)
    (halike : (t.scope scope).Alike (t'.scope scope))
    (hsettled : (t.scope scope).Settled (t'.scope scope))
    (hfields : t'.ownFields scope = t.ownFields scope)
    (hsuper : ∀ s, t.superclass? scope = some s →
      (t'.scope s).kind.fieldCount = (t.scope s).kind.fieldCount) : t'.FieldsSound scope := by
  have hglobal := ScopeKind.isGlobal_of_isClass hclass
  have hinherited : t'.inherited scope = t.inherited scope := by
    rw [inherited, inherited, superclass?_eq, superclass?_eq, halike.superclass?]
    cases hs : (t.scope scope).kind.superclass? with
    | none => rfl
    | some s => exact hsuper s ((t.superclass?_eq scope).trans hs)
  refine ⟨?_, ?_, ?_, ?_, ?_, ?_⟩
  · rw [halike.enclosing]
    exact h.enclosing
  · intro k id hid
    rw [hfields] at hid
    rw [hsymbol id (hsound.mem_ownFields (List.mem_of_getElem? hid)), hinherited]
    exact h.index hid
  · intro id hid
    rw [hfields] at hid
    rw [hsymbol id (hsound.mem_ownFields hid), hsettled.names hglobal]
    exact h.named hid
  · intro name id hname
    rw [hsettled.names hglobal] at hname
    obtain ⟨hid, hidname⟩ := h.mem hname
    rw [hfields, hsymbol id (hsound.mem_ownFields hid)]
    exact ⟨hid, hidname⟩
  · rw [hsettled.fieldCount, hfields, hinherited]
    exact h.count
  · rw [hsettled.fieldCount]
    exact h.room

theorem FieldsSound.grows (h : t.FieldsSound scope) (hsound : t.Sound) (hgrows : Grows n t t')
    (hs : scope < n) (hclass : (t.scope scope).kind.isClass = true) : t'.FieldsSound scope := by
  refine h.keep hsound hclass (fun _ => hgrows.symbol)
    (hgrows.alike (Nat.lt_of_lt_of_le hs hgrows.bound)) (hgrows.settled hs) (hgrows.ownFields hs) ?_
  grind

/-- The classes of a table are the same if nothing is added to the global scope. -/
theorem Grows.classes_eq (h : Grows n t t') (hsound : t.Sound)
    (hsymbols : (t'.scope global).symbols = (t.scope global).symbols) :
    t'.classes = t.classes := by
  rw [classes, classes, hsymbols]
  refine List.filterMap_congr fun id hid => ?_
  rw [classBody?, classBody?, h.symbol (hsound.bounded (Array.mem_toList_iff.1 hid))]

/-- The global scope stays sound if nothing is added to it. -/
theorem GlobalsSound.grows (h : t.GlobalsSound) (hsound : t.Sound) (hgrows : Grows n t t')
    (hsymbols : (t'.scope global).symbols = (t.scope global).symbols)
    (hnames : (t'.scope global).names = (t.scope global).names) : t'.GlobalsSound := by
  have hsymbol {id : SymbolId} (hid : id ∈ (t.scope global).symbols) :
      t'.symbol id = t.symbol id := hgrows.symbol (hsound.bounded hid)
  have halike : (t.scope global).Alike (t'.scope global) := hgrows.alike h.size
  refine ⟨Nat.lt_of_lt_of_le h.size hgrows.scopes_size, ?_, ?_, ?_, ?_, ?_, ?_⟩
  · refine ScopeKind.eq_global ?_
    rw [halike.isGlobal, h.kind]
    rfl
  · rw [halike.enclosing]
    exact h.enclosing
  · intro id hid
    rw [hsymbols] at hid
    obtain ⟨body, hkind, hlt, hclass, hname⟩ := h.body hid
    have hbody := hgrows.alike hlt
    rw [hsymbol hid]
    exact ⟨body, hkind, Nat.lt_of_lt_of_le hlt hgrows.scopes_size, hbody.isClass.trans hclass,
      hbody.name.trans hname⟩
  · grind
  · grind
  · rw [hgrows.classes_eq hsound hsymbols]
    exact h.ascending

/-- **A table that grows stays sound** if the scopes that are new or not yet settled are sound. -/
theorem Sound.grows (h : t.Sound) (hgrows : Grows n t t') (hclasses : t.classes ⊆ t'.classes)
    (hbounded : ∀ scope, ∀ id ∈ (t'.scope scope).symbols, id < t'.symbols.size)
    (henclosing : ∀ scope s, t.scopes.size ≤ scope → (t'.scope scope).enclosing = some s →
      s < scope)
    (hsuperclass : ∀ scope s, t.scopes.size ≤ scope → t'.superclass? scope = some s →
      s < scope ∧ s ∈ t'.classes)
    (hfields : ∀ scope, n ≤ scope → (t'.scope scope).kind.isClass = true → t'.FieldsSound scope)
    (hmethods : ∀ scope classSide selector id,
      (t'.scope scope).kind.method? classSide selector = some id →
        (t.scope scope).kind.method? classSide selector = some id ∨
          id < t'.symbols.size ∧ (t'.symbol id).kind.isMethodOf classSide = true)
    (hglobals : t'.GlobalsSound) : t'.Sound := by
  refine ⟨?_, ?_, fun hid => hbounded _ _ hid, ?_, ?_, hglobals⟩
  · intro scope s hs
    rcases Nat.lt_or_ge scope t.scopes.size with hlt | hge
    · rw [(hgrows.alike hlt).enclosing] at hs
      exact h.enclosing hs
    · exact henclosing scope s hge hs
  · intro scope s hs
    rcases Nat.lt_or_ge scope t.scopes.size with hlt | hge
    · rw [hgrows.superclass? hlt] at hs
      exact ⟨(h.superclass hs).1, hclasses (h.superclass hs).2⟩
    · exact hsuperclass scope s hge hs
  · intro scope hclass
    rcases Nat.lt_or_ge scope n with hlt | hge
    · rw [(hgrows.alike (Nat.lt_of_lt_of_le hlt hgrows.bound)).isClass] at hclass
      exact (h.fields hclass).grows h hgrows hlt hclass
    · exact hfields scope hge hclass
  · intro scope classSide selector id hid
    rcases hmethods scope classSide selector id hid with hold | hnew
    · obtain ⟨hlt, hkind⟩ := h.methods hold
      grind
    · exact hnew

/-! ### Adding symbols -/

/-- A change of a scope that has nothing to do with how it was opened. -/
@[grind cases]
structure Harmless (f : SymbolId → Scope → Scope) : Prop where
  alike (id : SymbolId) (s : Scope) : s.Alike (f id s)
  code (id : SymbolId) (s : Scope) : (f id s).code = s.code
  symbols (id : SymbolId) (s : Scope) : (f id s).symbols = s.symbols

/-- A change that has nothing to do with the variables of scopes of some kind. -/
def KeepsVariables (kind : ScopeKind) (f : SymbolId → Scope → Scope) : Prop :=
  ∀ (id : SymbolId) (s : Scope), s.kind = kind → s.Settled (f id s)

/-- A change that gives a scope no methods, or the one that has been declared. -/
def AddsOnly (kind : SymbolKind) (f : SymbolId → Scope → Scope) : Prop :=
  ∀ (id : SymbolId) (s : Scope) (classSide : Bool) (selector : String) (found : SymbolId),
    (f id s).kind.method? classSide selector = some found →
      s.kind.method? classSide selector = some found ∨
        found = id ∧ kind.isMethodOf classSide = true

section

variable {f : SymbolId → Scope → Scope}

/-- The scopes other than the one that gets a symbol are left alone. -/
theorem scope_addSymbol_of_ne (t : SymbolTable) (h : scope ≠ s.scope) :
    (t.addSymbol s f).2.scope scope = t.scope scope := by
  rw [scope_addSymbol, if_neg fun h' => h h'.1]

theorem ownFields_addSymbol (hsound : t.Sound) (hf : Harmless f) (scope : ScopeId) :
    (t.addSymbol s f).2.ownFields scope =
      if scope = s.scope ∧ scope < t.scopes.size ∧ s.kind = .field then
        t.ownFields scope ++ [t.symbols.size]
      else t.ownFields scope := by
  have hold : (t.scope scope).symbols.toList.filter
      (fun id => ((t.addSymbol s f).2.symbol id).kind = .field) = t.ownFields scope := by
    refine List.filter_congr fun id hid => ?_
    grind
  rw [ownFields, scope_addSymbol]
  grind

theorem alike_addSymbol (t : SymbolTable) (s : Symbol) (hf : Harmless f) (scope : ScopeId) :
    (t.scope scope).Alike ((t.addSymbol s f).2.scope scope) := by
  rw [scope_addSymbol]
  split
  · have h := hf.alike t.symbols.size
      { t.scope scope with symbols := (t.scope scope).symbols.push t.symbols.size }
    exact ⟨h.name, h.enclosing, h.kind⟩
  · exact .refl _

theorem settled_addSymbol (t : SymbolTable) (s : Symbol) (scope : ScopeId)
    (h : scope = s.scope → KeepsVariables (t.scope s.scope).kind f) :
    (t.scope scope).Settled ((t.addSymbol s f).2.scope scope) := by
  rw [scope_addSymbol]
  split
  case isTrue hscope =>
    have h' := h hscope.1 t.symbols.size
      { t.scope scope with symbols := (t.scope scope).symbols.push t.symbols.size }
      (by rw [hscope.1])
    exact ⟨h'.names, h'.slotCount, h'.argumentCount, h'.fieldCount⟩
  case isFalse => exact .refl _

/-- **What a new symbol leaves alone.** -/
theorem Grows.addSymbol (hsound : t.Sound) (hn : n ≤ t.scopes.size) (hf : Harmless f)
    (hscope : n ≤ s.scope ∨ s.kind ≠ .field ∧ KeepsVariables (t.scope s.scope).kind f) :
    Grows n t (t.addSymbol s f).2 where
  bound := hn
  scopes_size := Nat.le_of_eq (size_scopes_addSymbol ..).symm
  symbols_size := by rw [size_symbols_addSymbol]; exact Nat.le_succ _
  symbol hid := by rw [symbol_addSymbol, if_neg (Nat.ne_of_lt hid)]
  code scope := by
    rw [scope_addSymbol]
    split
    · rw [hf.code]
    · rfl
  alike _ := t.alike_addSymbol s hf _
  settled {scope} hs := by
    refine t.settled_addSymbol s scope fun h => ?_
    grind
  ownFields {scope} hs := by
    rw [ownFields_addSymbol hsound hf]
    grind

theorem bounded_addSymbol (hsound : t.Sound) (hf : Harmless f) (scope : ScopeId) {id : SymbolId}
    (hid : id ∈ ((t.addSymbol s f).2.scope scope).symbols) :
    id < (t.addSymbol s f).2.symbols.size := by
  grind

/-- The methods of a table with a new symbol are known. -/
theorem methods_addSymbol (t : SymbolTable) (hf : AddsOnly s.kind f) {classSide : Bool}
    {selector : String} {id : SymbolId}
    (h : ((t.addSymbol s f).2.scope scope).kind.method? classSide selector = some id) :
    (t.scope scope).kind.method? classSide selector = some id ∨
      id < (t.addSymbol s f).2.symbols.size ∧
        ((t.addSymbol s f).2.symbol id).kind.isMethodOf classSide = true := by
  rw [scope_addSymbol] at h
  split at h
  · rcases hf _ _ _ _ _ h with hold | ⟨rfl, hkind⟩
    · exact .inl hold
    · grind
  · exact .inl h

/-- A new symbol leaves a table sound if the fields and the global scope stay so. -/
theorem Sound.withSymbol (hsound : t.Sound) (hf : Harmless f) (hmethods : AddsOnly s.kind f)
    (hgrows : Grows n t (t.addSymbol s f).2)
    (hfields : ∀ scope, n ≤ scope → (t.scope scope).kind.isClass = true →
      (t.addSymbol s f).2.FieldsSound scope)
    (hglobals : t.classes ⊆ (t.addSymbol s f).2.classes ∧ (t.addSymbol s f).2.GlobalsSound) :
    (t.addSymbol s f).2.Sound := by
  have halike := t.alike_addSymbol s hf
  refine hsound.grows hgrows hglobals.1 (fun scope _ => bounded_addSymbol hsound hf scope) ?_ ?_ ?_
    (fun _ _ _ _ => t.methods_addSymbol hmethods) hglobals.2
  · grind
  · intro scope s' hge hs
    rw [superclass?_eq, (halike scope).superclass?, t.scope_of_size_le hge] at hs
    cases hs
  · exact fun scope hge hclass => hfields scope hge ((halike scope).isClass ▸ hclass)

/-- The global scope stays sound if the symbol belongs to another one. -/
theorem Sound.globals_addSymbol (hsound : t.Sound) (hgrows : Grows n t (t.addSymbol s f).2)
    (hglobal : s.scope ≠ global) :
    t.classes ⊆ (t.addSymbol s f).2.classes ∧ (t.addSymbol s f).2.GlobalsSound := by
  have hscope : (t.addSymbol s f).2.scope global = t.scope global :=
    t.scope_addSymbol_of_ne hglobal.symm
  exact ⟨by rw [hgrows.classes_eq hsound (by rw [hscope])]; exact List.Subset.refl _,
    hsound.globals.grows hsound hgrows (by rw [hscope]) (by rw [hscope])⟩

/-- Symbols other than classes and fields leave a table sound. -/
theorem Sound.addSymbol (hsound : t.Sound) (hf : Harmless f) (hmethods : AddsOnly s.kind f)
    (hglobal : s.scope ≠ global)
    (hclass : (t.scope s.scope).kind.isClass = true →
      s.kind ≠ .field ∧ KeepsVariables (t.scope s.scope).kind f) : (t.addSymbol s f).2.Sound := by
  have hgrows : Grows 0 t (t.addSymbol s f).2 :=
    .addSymbol hsound (Nat.zero_le _) hf (.inl (Nat.zero_le _))
  have hsettled (scope : ScopeId) (h : (t.scope scope).kind.isClass = true) :
      (t.scope scope).Settled ((t.addSymbol s f).2.scope scope) :=
    t.settled_addSymbol s scope fun hs => (hclass (hs ▸ h)).2
  refine hsound.withSymbol hf hmethods hgrows (fun scope _ hkind => ?_)
    (hsound.globals_addSymbol hgrows hglobal)
  refine (hsound.fields hkind).keep hsound hkind (fun _ => hgrows.symbol)
    (t.alike_addSymbol s hf scope) (hsettled scope hkind) ?_ fun s' hs' => ?_
  · rw [ownFields_addSymbol hsound hf, if_neg]
    intro h
    exact (hclass (h.1 ▸ hkind)).1 h.2.2
  · exact (hsettled s' (hsound.isClass_of_mem (hsound.superclass hs').2)).fieldCount

end

/-! ### Opening scopes -/

theorem scope_addScope_of_ne (t : SymbolTable) {kind : ScopeKind} (h : scope ≠ t.scopes.size) :
    (t.addScope name kind enclosing).2.scope scope = t.scope scope := by
  rw [scope_addScope, if_neg h]

theorem scope_addScope_self (t : SymbolTable) (name : String) (kind : ScopeKind)
    (enclosing : ScopeId) :
    (t.addScope name kind enclosing).2.scope t.scopes.size
      = Scope.new name kind (some enclosing) := by
  rw [scope_addScope, if_pos rfl]

/-- **What a new scope leaves alone.** -/
theorem Grows.addScope (hn : n ≤ t.scopes.size) (name : String) (kind : ScopeKind)
    (enclosing : ScopeId) : Grows n t (t.addScope name kind enclosing).2 where
  bound := hn
  scopes_size := by rw [size_addScope]; exact Nat.le_succ _
  symbols_size := Nat.le_refl _
  symbol _ := rfl
  code scope := by
    by_cases h : scope = t.scopes.size
    · rw [h, scope_addScope_self, t.scope_of_size_le (Nat.le_refl _)]
      rfl
    · rw [scope_addScope_of_ne t h]
  alike hs := by
    rw [scope_addScope_of_ne t (Nat.ne_of_lt hs)]
    exact .refl _
  settled hs := by
    rw [scope_addScope_of_ne t (Nat.ne_of_lt (Nat.lt_of_lt_of_le hs hn))]
    exact .refl _
  ownFields hs := by
    rw [SymbolTable.ownFields, scope_addScope_of_ne t (Nat.ne_of_lt (Nat.lt_of_lt_of_le hs hn))]
    rfl

/-- A new scope leaves a table sound. A class has to inherit its fields from a class, and has no
methods yet. -/
theorem Sound.addScope (hsound : t.Sound) (name : String) {kind : ScopeKind}
    (henclosing : enclosing < t.scopes.size)
    (hmethods : ∀ classSide selector, kind.method? classSide selector = none)
    (hsuperclass : ∀ s, kind.superclass? = some s → s ∈ t.classes)
    (hclass : kind.isClass = true → enclosing = global ∧ kind.fieldCount =
      (kind.superclass?.map fun s => (t.scope s).kind.fieldCount).getD 0) :
    (t.addScope name kind enclosing).2.Sound := by
  have hgrows : Grows t.scopes.size t (t.addScope name kind enclosing).2 :=
    .addScope (Nat.le_refl _) name kind enclosing
  have hnew := t.scope_addScope_self name kind enclosing
  have hglobal : (t.addScope name kind enclosing).2.scope global = t.scope global :=
    t.scope_addScope_of_ne (Nat.ne_of_lt hsound.globals.size)
  have hclasses : (t.addScope name kind enclosing).2.classes = t.classes :=
    hgrows.classes_eq hsound (by rw [hglobal])
  -- What lies beyond the new scope is not there.
  have hbeyond {scope : ScopeId} (hge : t.scopes.size ≤ scope) (hne : scope ≠ t.scopes.size) :
      (t.addScope name kind enclosing).2.scope scope = default := by
    rw [t.scope_addScope_of_ne hne, t.scope_of_size_le hge]
  refine hsound.grows hgrows ?_ ?_ ?_ ?_ ?_ ?_ ?_
  · rw [hclasses]
    exact List.Subset.refl _
  · intro scope id hid
    by_cases h : scope = t.scopes.size
    · rw [h, hnew] at hid
      simp [Scope.new] at hid
    · rw [t.scope_addScope_of_ne h] at hid
      exact hsound.bounded hid
  · intro scope s hge hs
    by_cases h : scope = t.scopes.size
    · rw [h, hnew] at hs
      rw [h, ← Option.some.inj hs]
      exact henclosing
    · rw [hbeyond hge h] at hs
      cases hs
  · intro scope s hge hs
    rw [superclass?_eq] at hs
    by_cases h : scope = t.scopes.size
    · rw [h, hnew] at hs
      have hmem := hsuperclass s hs
      rw [h, hclasses]
      exact ⟨hsound.lt_size_of_mem hmem, hmem⟩
    · rw [hbeyond hge h] at hs
      cases hs
  · intro scope hge hkind
    by_cases h : scope = t.scopes.size
    · rw [h, hnew] at hkind
      obtain ⟨rfl, hcount⟩ := hclass hkind
      have hfields : (t.addScope name kind global).2.ownFields t.scopes.size = [] := by
        rw [ownFields, hnew]
        rfl
      rw [h]
      refine ⟨by rw [hnew]; rfl, ?_, ?_, ?_, ?_, ?_⟩
      · intro k id hid
        rw [hfields] at hid
        cases hid
      · intro id hid
        rw [hfields] at hid
        cases hid
      · intro name id hid
        rw [hnew] at hid
        simp [Scope.new] at hid
      · rw [hfields, inherited, superclass?_eq, hnew]
        change kind.fieldCount = _
        rw [hcount]
        change _ = (kind.superclass?.map _).getD 0 + 0
        cases hs : kind.superclass? with
        | none => rfl
        | some s =>
          have hlt := hsound.lt_size_of_mem (hsuperclass s hs)
          grind
      · rw [hnew]
        change kind.fieldCount ≤ capacity
        rw [hcount]
        cases hs : kind.superclass? with
        | none => exact Nat.zero_le _
        | some s => exact (hsound.fields (hsound.isClass_of_mem (hsuperclass s hs))).room
    · rw [hbeyond hge h] at hkind
      cases hkind
  · intro scope classSide selector id hid
    by_cases h : scope = t.scopes.size
    · rw [h, hnew] at hid
      cases (hmethods classSide selector).symm.trans hid
    · rw [t.scope_addScope_of_ne h] at hid
      exact .inl hid
  · exact hsound.globals.grows hsound hgrows (by rw [hglobal]) (by rw [hglobal])

/-! ### Declaring methods and blocks -/

/-- Adding a method to a class is harmless. -/
theorem addMethod_harmless (classSide : Bool) (selector : String) :
    Harmless fun id s => { s with kind := s.kind.addMethod classSide selector id } where
  alike id s := ⟨rfl, rfl, s.kind.outline_addMethod classSide selector id⟩
  code _ _ := rfl
  symbols _ _ := rfl

theorem addMethod_addsOnly (kind : SymbolKind) (selector : String)
    (hkind : kind.isMethodOf kind.isClassSide = true) :
    AddsOnly kind fun id s => { s with kind := s.kind.addMethod kind.isClassSide selector id } := by
  intro id s classSide selector' found h
  rcases ScopeKind.method?_addMethod h with hold | ⟨rfl, rfl⟩
  · exact .inl hold
  · exact .inr ⟨rfl, hkind⟩

theorem addMethod_settled (classSide : Bool) (selector : String) (id : SymbolId) (s : Scope) :
    s.Settled { s with kind := s.kind.addMethod classSide selector id } :=
  ⟨fun _ => rfl, rfl, rfl, s.kind.fieldCount_addMethod classSide selector id⟩

/-- A declared method is one more symbol, or nothing changes. -/
theorem declareMethod_cases (t : SymbolTable) (scope : ScopeId) (selector : String)
    (kind : SymbolKind) :
    (t.declareMethod scope selector kind).2 = t ∨
      ((t.scope scope).kind.isClass = true ∧ ∃ index,
        (t.declareMethod scope selector kind).2 =
          (t.addSymbol ⟨selector, kind, scope, index⟩ fun id s =>
            { s with kind := s.kind.addMethod kind.isClassSide selector id }).2) := by
  rw [declareMethod]
  cases hmethods : t.methodMap? scope kind.isClassSide with
  | none => exact .inl rfl
  | some methods =>
    have hclass : (t.scope scope).kind.isClass = true := by
      rw [methodMap?] at hmethods
      cases hkind : (t.scope scope).kind <;> simp [hkind, ScopeKind.methods?] at hmethods ⊢
      rfl
    grind

theorem declareMethod_sound (hsound : t.Sound) (hn : n ≤ t.scopes.size) (scope : ScopeId)
    (selector : String) {kind : SymbolKind} (hmethod : kind.isMethodOf kind.isClassSide = true) :
    (t.declareMethod scope selector kind).2.Sound ∧
      Grows n t (t.declareMethod scope selector kind).2 := by
  have hkind : kind ≠ .field := by
    rintro rfl
    cases hmethod
  obtain h | ⟨hclass, index, h⟩ := t.declareMethod_cases scope selector kind
  · rw [h]
    exact ⟨hsound, .refl hn⟩
  · have hglobal : scope ≠ global := by
      rintro rfl
      rw [hsound.globals.kind] at hclass
      cases hclass
    have hsettled : KeepsVariables (t.scope scope).kind _ := fun id s _ =>
      addMethod_settled kind.isClassSide selector id s
    rw [h]
    exact ⟨hsound.addSymbol (addMethod_harmless _ _) (addMethod_addsOnly kind selector hmethod)
        hglobal fun _ => ⟨hkind, hsettled⟩,
      .addSymbol hsound hn (addMethod_harmless _ _) (.inr ⟨hkind, hsettled⟩)⟩

theorem countBlock_alike (s : Scope) : s.Alike (countBlock s) :=
  ⟨rfl, rfl, s.kind.outline_addBlock capacity⟩

theorem countBlock_settled (s : Scope) : s.Settled (countBlock s) :=
  ⟨fun _ => rfl, rfl, rfl, s.kind.fieldCount_addBlock capacity⟩

/-- Blocks are counted without any other change. -/
theorem modifyScope_countBlock_sound (hsound : t.Sound) (hn : n ≤ t.scopes.size) (m : ScopeId) :
    (t.modifyScope m countBlock).Sound ∧ Grows n t (t.modifyScope m countBlock) := by
  have hscope (P : Scope → Scope → Prop) (hrefl : ∀ s, P s s) (hcount : ∀ s, P s (countBlock s))
      (scope : ScopeId) : P (t.scope scope) ((t.modifyScope m countBlock).scope scope) := by
    grind
  have halike := hscope Scope.Alike .refl countBlock_alike
  have hsettled := hscope Scope.Settled .refl countBlock_settled
  have hsymbols := hscope (fun s s' => s'.symbols = s.symbols) (fun _ => rfl) fun _ => rfl
  have hcode := hscope (fun s s' => s'.code = s.code) (fun _ => rfl) fun _ => rfl
  have hnames := hscope (fun s s' => s'.names = s.names) (fun _ => rfl) fun _ => rfl
  have hfields (scope : ScopeId) :
      (t.modifyScope m countBlock).ownFields scope = t.ownFields scope := by
    rw [ownFields, hsymbols]
    rfl
  have hgrows {k : Nat} (hk : k ≤ t.scopes.size) : Grows k t (t.modifyScope m countBlock) :=
    ⟨hk, Nat.le_of_eq (t.size_modifyScope m _).symm, Nat.le_refl _, fun _ => rfl, hcode,
      fun _ => halike _, fun _ => hsettled _, fun _ => hfields _⟩
  have hclasses := (hgrows hn).classes_eq hsound (hsymbols global)
  have hmethods := hscope (fun s s' => ∀ classSide, s'.kind.methods? classSide =
    s.kind.methods? classSide) (fun _ _ => rfl) fun s side => s.kind.methods?_addBlock side capacity
  refine ⟨hsound.grows (hgrows (Nat.le_refl _)) ?_ ?_ ?_ ?_ ?_ ?_ ?_, hgrows hn⟩
  · rw [hclasses]
    exact List.Subset.refl _
  · intro scope id hid
    rw [hsymbols] at hid
    exact hsound.bounded hid
  · grind
  · intro scope s _ hs
    rw [superclass?_eq, (halike scope).superclass?, ← superclass?_eq] at hs
    rw [hclasses]
    exact hsound.superclass hs
  · intro scope hge hclass
    rw [(halike scope).isClass, t.scope_of_size_le hge] at hclass
    cases hclass
  · intro scope classSide selector id hid
    rw [ScopeKind.method?, hmethods] at hid
    exact .inl hid
  · exact hsound.globals.grows hsound (hgrows hn) (hsymbols global) (hnames global)

/-- **Declaring a block** leaves a table sound, and changes no variables. -/
theorem declareBlock_sound (hsound : t.Sound) (hn : n ≤ t.scopes.size)
    (hlt : enclosing < t.scopes.size) (hactivation : (t.scope enclosing).kind.isActivation = true) :
    (t.declareBlock enclosing).2.2.Sound ∧ Grows n t (t.declareBlock enclosing).2.2 := by
  obtain ⟨hcounted, hgrows⟩ := modifyScope_countBlock_sound hsound hn (t.blockMethod enclosing)
  have hsize := t.size_modifyScope (t.blockMethod enclosing) countBlock
  have hopen : (t.openBlock enclosing).Sound :=
    hcounted.addScope _ (by rw [hsize]; exact hlt) (fun _ _ => rfl) (fun _ hs => by cases hs)
      (fun hclass => by cases hclass)
  have hgrows' : Grows n t (t.openBlock enclosing) :=
    hgrows.trans (.addScope (by rw [hsize]; exact hn) _ _ _)
  rw [declareBlock_eq]
  have hkind := (hgrows'.alike hlt).isClass
  rw [ScopeKind.isClass_of_isActivation hactivation] at hkind
  have hharmless : Harmless fun (_ : SymbolId) (s : Scope) => s :=
    ⟨fun _ _ => .refl _, fun _ _ => rfl, fun _ _ => rfl⟩
  have hglobal : enclosing ≠ global := by
    rintro rfl
    rw [hsound.globals.kind] at hactivation
    cases hactivation
  refine ⟨hopen.addSymbol hharmless (fun _ _ _ _ _ h => .inl h) hglobal ?_,
    hgrows'.trans (.addSymbol hopen ?_ hharmless ?_)⟩
  · intro hclass
    cases hkind.symm.trans hclass
  · exact Nat.le_trans hn hgrows'.scopes_size
  · exact .inr ⟨by simp, fun _ _ _ => .refl _⟩

/-! ### Declaring variables -/

section

variable (t : SymbolTable)

theorem addNamed_eq (s : Symbol) (f : Scope → Scope) : t.addNamed s f = (.ok t.symbols.size,
      (t.addSymbol s fun id scope => f { scope with names := scope.names.insert s.name id }).2) :=
  rfl

theorem size_scopes_addNamed (s : Symbol) (f : Scope → Scope) :
    (t.addNamed s f).2.scopes.size = t.scopes.size := by
  rw [addNamed_eq]
  dsimp only
  rw [size_scopes_addSymbol]

theorem declare_variable (scope : ScopeId) (name : String)
    (hkind : kind = .argument ∨ kind = .localVariable) : t.declare scope name kind =
      if (t.scope scope).names.contains name then (.error .duplicate, t)
      else if (t.scope scope).slotCount < capacity then
        t.addNamed ⟨name, kind, scope, (t.scope scope).slotCount⟩ (countSlot (kind = .argument))
      else (.error .tooMany, t) := by
  rcases hkind with rfl | rfl <;> rfl

theorem declare_field (name : String) (hclass : (t.scope scope).kind.isClass = true) :
    t.declare scope name .field =
      if (t.scope scope).names.contains name then (.error .duplicate, t)
      else if (t.scope scope).kind.fieldCount < capacity then
        t.addNamed ⟨name, .field, scope, (t.scope scope).kind.fieldCount⟩ countField
      else (.error .tooMany, t) := by
  rw [declare]
  simp only [hclass, if_true]

theorem declare_class (scope : ScopeId) (name : String) (body : ScopeId) :
    t.declare scope name (.classOf body) =
      if (t.scope scope).names.contains name then (.error .duplicate, t)
      else t.addNamed ⟨name, .classOf body, scope, 0⟩ id := rfl

end

/-- A change of the counts of a scope. -/
structure Counts (f : Scope → Scope) : Prop extends Harmless fun _ => f where
  names (s : Scope) : (f s).names = s.names
  methods? (s : Scope) (classSide : Bool) : (f s).kind.methods? classSide = s.kind.methods? classSide
  blockCount (s : Scope) : (f s).kind.blockCount = s.kind.blockCount

/-- Changes of the counts of a scope are harmless, and so is the new name. -/
theorem Counts.named {f : Scope → Scope} (hf : Counts f) (name : String) :
    Harmless fun id s => f { s with names := s.names.insert name id } where
  alike id s :=
    have h := hf.alike id { s with names := s.names.insert name id }
    ⟨h.name, h.enclosing, h.kind⟩
  code id s := hf.code id { s with names := s.names.insert name id }
  symbols id s := hf.symbols id { s with names := s.names.insert name id }

theorem countSlot_counts (isArgument : Bool) : Counts (countSlot isArgument) :=
  ⟨⟨fun _ _ => ⟨rfl, rfl, rfl⟩, fun _ _ => rfl, fun _ _ => rfl⟩, fun _ => rfl, fun _ _ => rfl,
    fun _ => rfl⟩

theorem id_counts : Counts id :=
  ⟨⟨fun _ => .refl, fun _ _ => rfl, fun _ _ => rfl⟩, fun _ => rfl, fun _ _ => rfl, fun _ => rfl⟩

theorem countField_counts : Counts countField :=
  ⟨⟨fun _ s => ⟨rfl, rfl, s.kind.outline_addField⟩, fun _ _ => rfl, fun _ _ => rfl⟩, fun _ => rfl,
    fun s => s.kind.methods?_addField, fun s => s.kind.blockCount_addField⟩

/-- **A declared class or variable** is one more symbol, or nothing changes. -/
theorem declare_cases (t : SymbolTable) (scope : ScopeId) (name : String) (kind : SymbolKind) :
    (t.declare scope name kind).2 = t ∨ ∃ index f, Counts f ∧
      (t.declare scope name kind).2 = (t.addNamed ⟨name, kind, scope, index⟩ f).2 := by
  have hslot := countSlot_counts
  unfold declare
  grind [id_counts, countField_counts]

section

variable (t : SymbolTable) (scope : ScopeId) (name : String) (kind : SymbolKind)

theorem size_declare : (t.declare scope name kind).2.scopes.size = t.scopes.size := by
  obtain h | ⟨index, f, -, h⟩ := t.declare_cases scope name kind <;> rw [h]
  exact size_scopes_addNamed ..

theorem size_declareMethod : (t.declareMethod scope name kind).2.scopes.size = t.scopes.size := by
  obtain h | ⟨-, index, h⟩ := t.declareMethod_cases scope name kind <;> rw [h]
  exact size_scopes_addSymbol ..

variable {scope}

theorem scope_declare_of_ne (hne : i ≠ scope) :
    (t.declare scope name kind).2.scope i = t.scope i := by
  obtain h | ⟨index, f, -, h⟩ := t.declare_cases scope name kind <;> rw [h]
  rw [addNamed_eq]
  dsimp only
  rw [scope_addSymbol, if_neg fun h' => hne h'.1]

theorem scope_declareMethod_of_ne (hne : i ≠ scope) :
    (t.declareMethod scope name kind).2.scope i = t.scope i := by
  obtain h | ⟨-, index, h⟩ := t.declareMethod_cases scope name kind <;> rw [h]
  exact t.scope_addSymbol_of_ne hne

variable {name kind t} {id : SymbolId} (hge : t.symbols.size ≤ id)

include hge

/-- The symbol that is new is the one that was declared. -/
theorem symbol_declare (hlt : id < (t.declare scope name kind).2.symbols.size) :
    ∃ index, (t.declare scope name kind).2.symbol id = ⟨name, kind, scope, index⟩ := by
  obtain h | ⟨index, f, -, h⟩ := t.declare_cases scope name kind <;> rw [h] at hlt ⊢
  · exact absurd hlt (Nat.not_lt.2 hge)
  · rw [addNamed_eq] at hlt ⊢
    exact ⟨index, by grind⟩

theorem symbol_declareMethod (hlt : id < (t.declareMethod scope name kind).2.symbols.size) :
    ∃ index, (t.declareMethod scope name kind).2.symbol id = ⟨name, kind, scope, index⟩ := by
  obtain h | ⟨-, index, h⟩ := t.declareMethod_cases scope name kind <;> rw [h] at hlt ⊢
  · exact absurd hlt (Nat.not_lt.2 hge)
  · exact ⟨index, by grind⟩

end

theorem fieldCount_countField {s : Scope} (h : s.kind.isClass = true) :
    (countField s).kind.fieldCount = s.kind.fieldCount + 1 := by
  rw [countField]
  cases hkind : s.kind <;> first | rfl | (rw [hkind] at h; cases h)

/-- **Declaring an argument or a local variable** leaves a table sound. -/
theorem declare_variable_sound (hsound : t.Sound) (hn : n ≤ scope) (hlt : scope < t.scopes.size)
    (hactivation : (t.scope scope).kind.isActivation = true) (name : String)
    (hkind : kind = .argument ∨ kind = .localVariable) :
    (t.declare scope name kind).2.Sound ∧ Grows n t (t.declare scope name kind).2 := by
  have hbound : n ≤ t.scopes.size := Nat.le_trans hn (Nat.le_of_lt hlt)
  rw [declare_variable t scope name hkind]
  split
  · exact ⟨hsound, .refl hbound⟩
  · split
    · have hharmless := (countSlot_counts (kind = .argument)).named name
      refine ⟨hsound.addSymbol hharmless (fun _ _ _ _ _ h => .inl h) ?_ ?_,
        .addSymbol hsound hbound hharmless (.inl hn)⟩
      · rintro (rfl : scope = global)
        rw [hsound.globals.kind] at hactivation
        cases hactivation
      · intro hclass
        rw [ScopeKind.isClass_of_isActivation hactivation] at hclass
        cases hclass
    · exact ⟨hsound, .refl hbound⟩

/-- The fields of the newest class stay sound when a field is added. -/
theorem FieldsSound.addField (h : t.FieldsSound scope) (hsound : t.Sound)
    (hclass : (t.scope scope).kind.isClass = true) (hlt : scope < t.scopes.size)
    (hnew : (t.scope scope).names.contains name = false)
    (hroom : (t.scope scope).kind.fieldCount < capacity) :
    (t.addNamed ⟨name, .field, scope, (t.scope scope).kind.fieldCount⟩ countField).2.FieldsSound
      scope := by
  have hharmless := countField_counts.named name
  rw [addNamed_eq]
  generalize hadded : (t.addSymbol ⟨name, .field, scope, (t.scope scope).kind.fieldCount⟩ _).2 = t'
  have hscope : t'.scope scope = countField { t.scope scope with
      symbols := (t.scope scope).symbols.push t.symbols.size
      names := (t.scope scope).names.insert name t.symbols.size } := by
    rw [← hadded, scope_addSymbol, if_pos ⟨rfl, hlt⟩]
  have hfields : t'.ownFields scope = t.ownFields scope ++ [t.symbols.size] := by
    rw [← hadded, ownFields_addSymbol hsound hharmless, if_pos ⟨rfl, hlt, rfl⟩]
  have hnames : (t'.scope scope).names = (t.scope scope).names.insert name t.symbols.size := by
    rw [hscope]
    rfl
  have hold {id : SymbolId} (hid : id ∈ t.ownFields scope) : t'.symbol id = t.symbol id := by
    rw [← hadded, symbol_addSymbol, if_neg (Nat.ne_of_lt (hsound.mem_ownFields hid))]
  have halike : (t.scope scope).Alike (t'.scope scope) := by
    rw [← hadded]
    exact t.alike_addSymbol _ hharmless scope
  have hinherited : t'.inherited scope = t.inherited scope := by
    rw [inherited, inherited, superclass?_eq, superclass?_eq, halike.superclass?,
      ← superclass?_eq]
    cases hs : t.superclass? scope with
    | none => rfl
    | some s =>
      grind
  have hcount : (t'.scope scope).kind.fieldCount = (t.scope scope).kind.fieldCount + 1 := by
    rw [hscope]
    exact fieldCount_countField hclass
  refine ⟨?_, ?_, ?_, ?_, ?_, ?_⟩
  · rw [halike.enclosing]
    exact h.enclosing
  · intro k id hid
    rw [hinherited]
    rw [hfields] at hid
    rcases Nat.lt_or_ge k (t.ownFields scope).length with hk | hk
    · rw [List.getElem?_append_left hk] at hid
      rw [hold (List.mem_of_getElem? hid)]
      exact h.index hid
    · rw [List.getElem?_append_right hk, List.getElem?_singleton] at hid
      grind
  · intro id hid
    rw [hfields, List.mem_append, List.mem_singleton] at hid
    rw [hnames, Std.TreeMap.getElem?_insert]
    grind
  · intro found id hid
    rw [hnames, Std.TreeMap.getElem?_insert] at hid
    grind
  · grind
  · rw [hcount]
    exact hroom

/-- **Declaring a field** of the newest class leaves a table sound. -/
theorem declare_field_sound (hsound : t.Sound) (hn : n ≤ scope) (hlast : scope + 1 = t.scopes.size)
    (hclass : (t.scope scope).kind.isClass = true) (name : String) :
    (t.declare scope name .field).2.Sound ∧ Grows n t (t.declare scope name .field).2 := by
  have hlt : scope < t.scopes.size := Nat.lt_of_succ_le (Nat.le_of_eq hlast)
  have hbound : n ≤ t.scopes.size := Nat.le_trans hn (Nat.le_of_lt hlt)
  rw [declare_field t name hclass]
  split
  · exact ⟨hsound, .refl hbound⟩
  case isFalse hnew =>
    split
    case isFalse => exact ⟨hsound, .refl hbound⟩
    case isTrue hroom =>
      have hharmless := countField_counts.named name
      have hfields := (hsound.fields hclass).addField hsound hclass hlt
        (Bool.eq_false_iff.2 hnew) hroom
      rw [addNamed_eq] at hfields ⊢
      have hgrows {k : Nat} (hk : k ≤ scope) : Grows k t _ :=
        .addSymbol (s := ⟨name, .field, scope, (t.scope scope).kind.fieldCount⟩) hsound
          (Nat.le_trans hk (Nat.le_of_lt hlt)) hharmless (.inl hk)
      have hglobal : scope ≠ global := by
        rintro rfl
        rw [hsound.globals.kind] at hclass
        cases hclass
      have hadds : AddsOnly .field fun id s =>
          countField { s with names := s.names.insert name id } := by
        intro id s classSide selector found h
        rw [ScopeKind.method?, countField_counts.methods?] at h
        exact .inl h
      refine ⟨hsound.withSymbol hharmless hadds (hgrows (Nat.le_refl _)) (fun s hge hs => ?_)
        (hsound.globals_addSymbol (hgrows hn) hglobal), hgrows hn⟩
      rcases Nat.eq_or_lt_of_le hge with rfl | hgt
      · exact hfields
      · rw [t.scope_of_size_le (hlast ▸ hgt)] at hs
        cases hs

/-! ### Declaring classes -/

/-- A class that gets a name in the global scope. -/
theorem GlobalsSound.addClass (h : t.GlobalsSound) (hsound : t.Sound) {body : ScopeId}
    (hnew : (t.scope global).names.contains name = false) (hlt : body < t.scopes.size)
    (hclass : (t.scope body).kind.isClass = true) (hname : (t.scope body).name = name)
    (hlast : ∀ s ∈ t.classes, s < body) :
    (t.addNamed ⟨name, .classOf body, global, 0⟩ id).2.GlobalsSound ∧
      (t.addNamed ⟨name, .classOf body, global, 0⟩ id).2.classes = t.classes ++ [body] := by
  have hharmless := id_counts.named name
  rw [addNamed_eq]
  have halike := t.alike_addSymbol ⟨name, .classOf body, global, 0⟩ hharmless
  generalize hadded : (t.addSymbol ⟨name, .classOf body, global, 0⟩ _).2 = t' at halike ⊢
  have hscope : t'.scope global = { t.scope global with
      symbols := (t.scope global).symbols.push t.symbols.size
      names := (t.scope global).names.insert name t.symbols.size } := by
    rw [← hadded, scope_addSymbol, if_pos ⟨rfl, h.size⟩]
    rfl
  have hsize : t'.scopes.size = t.scopes.size := by
    rw [← hadded]
    exact t.size_scopes_addSymbol _ _
  have hsymbols : (t'.scope global).symbols = (t.scope global).symbols.push t.symbols.size := by
    rw [hscope]
  have hnames : (t'.scope global).names = (t.scope global).names.insert name t.symbols.size := by
    rw [hscope]
  have hold {id : SymbolId} (hid : id ∈ (t.scope global).symbols) : t'.symbol id = t.symbol id := by
    grind
  have hadd : t'.symbol t.symbols.size = ⟨name, .classOf body, global, 0⟩ := by
    rw [← hadded, symbol_addSymbol, if_pos rfl]
  have hclasses : t'.classes = t.classes ++ [body] := by
    rw [classes, classes, hsymbols, Array.toList_push, List.filterMap_append]
    refine congrArg₂ _ (List.filterMap_congr fun id hid => ?_) ?_
    · rw [classBody?, classBody?, hold (Array.mem_toList_iff.1 hid)]
    · rw [List.filterMap_cons, classBody?, hadd]
      rfl
  refine ⟨⟨hsize ▸ h.size, ?_, ?_, ?_, ?_, ?_, ?_⟩, hclasses⟩
  · rw [hscope]
    exact h.kind
  · rw [hscope]
    exact h.enclosing
  · intro id hid
    rw [hsymbols, Array.mem_push] at hid
    rw [hsize]
    rcases hid with hid | rfl
    · obtain ⟨b, hkind, hb, hbclass, hbname⟩ := h.body hid
      rw [hold hid]
      exact ⟨b, hkind, hb, (halike b).isClass.trans hbclass, (halike b).name.trans hbname⟩
    · grind
  · intro id hid
    rw [hsymbols, Array.mem_push] at hid
    rw [hnames, Std.TreeMap.getElem?_insert]
    grind
  · intro found id hid
    rw [hnames, Std.TreeMap.getElem?_insert] at hid
    grind
  · grind

/-- The table with one more class. -/
def withClass (t : SymbolTable) (name : String) (superclass : Option ScopeId) : SymbolTable :=
  let inherited := (superclass.map fun s => (t.scope s).kind.fieldCount).getD 0
  ((t.addScope name (.classOf superclass inherited ∅ ∅) global).2.declare global name
    (.classOf t.scopes.size)).2

/-- A class that has just been opened inherits its fields, and has no methods yet. -/
theorem Sound.openClass (hsound : t.Sound) (name : String)
    (hsuper : ∀ s, superclass = some s → s ∈ t.classes) :
    (t.addScope name (.classOf superclass
      ((superclass.map fun s => (t.scope s).kind.fieldCount).getD 0) ∅ ∅) global).2.Sound := by
  refine hsound.addScope name hsound.globals.size ?_ hsuper fun _ => ⟨rfl, rfl⟩
  intro classSide selector
  cases classSide <;> exact Std.TreeMap.getElem?_emptyc

/-- **Declaring a class** leaves a table sound, and its scope is the newest one. -/
theorem withClass_sound (hsound : t.Sound) (hn : n ≤ t.scopes.size) (name : String)
    (hsuper : ∀ s, superclass = some s → s ∈ t.classes) :
    (t.withClass name superclass).Sound ∧ Grows n t (t.withClass name superclass) ∧
      (t.withClass name superclass).scopes.size = t.scopes.size + 1 ∧
      ((t.withClass name superclass).scope t.scopes.size).kind.isClass = true := by
  have hopen := hsound.openClass name hsuper
  rw [withClass]
  generalize hkind : ScopeKind.classOf superclass _ ∅ ∅ = kind at hopen ⊢
  have hgrows := Grows.addScope hn name kind global
  have hscope := t.scope_addScope_self name kind global
  have hsize := t.size_addScope name kind global
  have hglobal : (t.addScope name kind global).2.scope global = t.scope global :=
    t.scope_addScope_of_ne (Nat.ne_of_lt hsound.globals.size)
  have hclasses := hgrows.classes_eq hsound (by rw [hglobal])
  generalize (t.addScope name kind global).2 = t₁ at hopen hgrows hscope hsize hglobal hclasses ⊢
  have hclass : (t₁.scope t.scopes.size).kind.isClass = true := by
    rw [hscope, ← hkind]
    rfl
  have hlt : t.scopes.size < t₁.scopes.size := by
    rw [hsize]
    exact Nat.lt_succ_self _
  rw [declare_class]
  split
  · exact ⟨hopen, hgrows, hsize, hclass⟩
  case isFalse hnew =>
    have hharmless := id_counts.named name
    have hname : (t₁.scope t.scopes.size).name = name := by
      rw [hscope]
      rfl
    have hlast (s : ScopeId) (hs : s ∈ t₁.classes) : s < t.scopes.size :=
      hsound.lt_size_of_mem (hclasses ▸ hs)
    have hglobals := hopen.globals.addClass hopen (Bool.eq_false_iff.2 hnew) hlt hclass hname hlast
    have hkeeps : KeepsVariables (t₁.scope global).kind fun id (s : Scope) =>
        { s with names := s.names.insert name id } := by
      intro id s hs
      refine ⟨fun h => ?_, rfl, rfl, rfl⟩
      rw [hs, hopen.globals.kind] at h
      cases h
    have hadds : AddsOnly (.classOf t.scopes.size) fun id (s : Scope) =>
        { s with names := s.names.insert name id } := fun _ _ _ _ _ h => .inl h
    rw [addNamed_eq] at hglobals ⊢
    have hsettled (k : Nat) (hk : k ≤ t₁.scopes.size) : Grows k t₁ _ :=
      .addSymbol (s := ⟨name, .classOf t.scopes.size, global, 0⟩) hopen hk hharmless
        (.inr ⟨by simp, hkeeps⟩)
    refine ⟨hopen.withSymbol hharmless hadds (hsettled _ (Nat.le_refl _)) (fun s hge hs => ?_)
        ⟨hglobals.2 ▸ List.subset_append_left _ _, hglobals.1⟩,
      hgrows.trans (hsettled n (Nat.le_trans hn (Nat.le_of_lt hlt))), ?_,
      (t₁.alike_addSymbol _ hharmless _).isClass.trans hclass⟩
    · rw [t₁.scope_of_size_le hge] at hs
      cases hs
    · rw [← addNamed_eq, size_scopes_addNamed]
      exact hsize

/-- All scopes of the new table are the global one, or not there. -/
theorem scope_new {P : Scope → Prop} (hglobal : P (new.scope 0)) (hdefault : P default) :
    ∀ scope, P (new.scope scope)
  | 0 => hglobal
  | scope + 1 => (scope_of_size_le new (Nat.succ_le_succ (Nat.zero_le scope))).symm ▸ hdefault

theorem new_sound : new.Sound where
  enclosing {scope s} hs := by
    cases (scope_new (P := (·.enclosing = none)) rfl rfl scope).symm.trans hs
  superclass {scope s} hs := by
    rw [superclass?_eq, scope_new (P := (·.kind.superclass? = none)) rfl rfl scope] at hs
    cases hs
  bounded {scope id} hid := by
    rw [scope_new (P := (·.symbols = #[])) rfl rfl scope] at hid
    exact absurd hid (Array.not_mem_empty id)
  fields {scope} hclass := by
    cases (scope_new (P := (·.kind.isClass = false)) rfl rfl scope).symm.trans hclass
  methods {scope classSide selector id} hid := by
    cases (scope_new (P := (·.kind.method? classSide selector = none)) rfl rfl scope).symm.trans hid
  globals := by
    refine ⟨Nat.succ_pos 0, rfl, rfl, ?_, ?_, ?_, List.Pairwise.nil⟩
    · intro id hid
      simp [new, SymbolTable.scope, Scope.new, global] at hid
    · intro id hid
      simp [new, SymbolTable.scope, Scope.new, global] at hid
    · intro name id hid
      simp [new, SymbolTable.scope, Scope.new, global] at hid

theorem Sound.mem_of_classNamed? (h : t.Sound) (hs : t.classNamed? name = some scope) :
    scope ∈ t.classes := by
  obtain ⟨id, hid, hbody⟩ := Option.bind_eq_some_iff.1 hs
  exact List.mem_filterMap.2 ⟨id, Array.mem_toList_iff.2 (h.globals.mem hid).1, hbody⟩

end SymbolTable

end Smalltalk
