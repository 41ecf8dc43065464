/-
**Where names are found.**

A table finds a variable by going from scope to scope, and through the superclasses of a class. In
a sound table this comes to the same as looking at the names alone: the scope of a method or block
stands for a list of names from the inside out, and the scope of its class for the fields, inherited
ones first.

* `SymbolTable.Located` — **the scope of a routine**, with the names around it;
* `SymbolTable.Located.place?_eq` — **a variable is found where its name says**.
-/

import Smalltalk.Proofs.ClassTables
import Smalltalk.Proofs.Routines

namespace Smalltalk

variable {scope outer : ScopeId} {c : CodeContext}

/-! ### Fields by name -/

variable {fields : List String} {name : String}

theorem fieldOf?_eq_none (h : name ∉ fields) : fieldOf? fields name = none := by
  induction fields with
  | nil => rfl
  | cons field fields ih =>
    rw [List.mem_cons, not_or] at h
    rw [fieldOf?, ih h.2]
    exact if_neg (Ne.symm h.1)

theorem getElem?_of_fieldOf? {index : Nat} (h : fieldOf? fields name = some index) :
    fields[index]? = some name := by
  induction fields generalizing index with
  | nil => cases h
  | cons field fields ih =>
    rw [fieldOf?] at h
    grind

theorem exists_fieldOf? (h : name ∈ fields) : ∃ index, fieldOf? fields name = some index := by
  induction fields with
  | nil => cases h
  | cons field fields ih =>
    rw [fieldOf?]
    cases hrest : fieldOf? fields name with
    | some index => exact ⟨index + 1, rfl⟩
    | none =>
      rcases List.mem_cons.1 h with rfl | hmem
      · exact ⟨0, if_pos rfl⟩
      · grind

namespace SymbolTable

variable {t t' : SymbolTable} {n : Nat}

/-- The names of the fields of a class, the inherited ones first. -/
def fieldNames (t : SymbolTable) (scope : ScopeId) : List String :=
  (t.fields scope).map fun id => (t.symbol id).name

theorem Sound.fields_eq (h : t.Sound) (scope : ScopeId) :
    t.fields scope = ((t.superclass? scope).map t.fields).getD [] ++ t.ownFields scope := by
  rw [SymbolTable.fields, h.lineage_eq, List.reverse_cons, List.flatMap_append, List.filter_append,
    List.flatMap_singleton]
  cases t.superclass? scope with
  | none | some s => rfl

/-- A class has as many fields as it counts. -/
theorem Sound.length_fields (h : t.Sound) (hclass : (t.scope scope).kind.isClass = true) :
    (t.fields scope).length = (t.scope scope).kind.fieldCount := by
  induction scope using Nat.strongRecOn with
  | ind scope ih =>
    rw [h.fields_eq, List.length_append, (h.fields hclass).count, inherited]
    cases hsuper : t.superclass? scope with
    | none => rfl
    | some s =>
      obtain ⟨hlt, hmem⟩ := h.superclass hsuper
      rw [Option.map_some, Option.map_some, Option.getD_some, Option.getD_some,
        ih s hlt (h.isClass_of_mem hmem)]

/-- The fields of a class itself are found by name. -/
theorem FieldsSound.names_rel (h : t.FieldsSound scope) (name : String) :
    Option.Rel (fun id index => (t.ownFields scope)[index]? = some id)
      (t.scope scope).names[name]?
      (fieldOf? ((t.ownFields scope).map fun id => (t.symbol id).name) name) := by
  cases hfound : (t.scope scope).names[name]? with
  | none =>
    rw [fieldOf?_eq_none]
    · exact .none
    · grind
  | some id =>
    obtain ⟨hid, rfl⟩ := h.mem hfound
    obtain ⟨index, hindex⟩ :=
      exists_fieldOf? (List.mem_map_of_mem (f := fun id => (t.symbol id).name) hid)
    have hget := getElem?_of_fieldOf? hindex
    rw [List.getElem?_map, Option.map_eq_some_iff] at hget
    obtain ⟨id', hget, hname⟩ := hget
    -- The last field with the name is the only one.
    have hsame := h.named (List.mem_of_getElem? hget)
    rw [hname, hfound] at hsame
    rw [hindex]
    exact .some (hget.trans hsame.symm)

/-- **A field is found in a class or its superclasses**, and its number is its place among all the
fields. -/
theorem Sound.fields_rel (h : t.Sound) (hclass : (t.scope scope).kind.isClass = true)
    (name : String) :
    Option.Rel (fun id index => (t.symbol id).kind = .field ∧ (t.symbol id).index = index)
      ((t.lineage scope).findSome? fun s => (t.scope s).names[name]?)
      (fieldOf? (t.fieldNames scope) name) := by
  induction scope using Nat.strongRecOn with
  | ind scope ih =>
    have hfields := h.fields hclass
    have hown := hfields.names_rel name
    have hlength : (((t.superclass? scope).map t.fields).getD []).length = t.inherited scope := by
      rw [inherited]
      cases hsuper : t.superclass? scope with
      | none => rfl
      | some s => exact h.length_fields (h.isClass_of_mem (h.superclass hsuper).2)
    rw [h.lineage_eq, List.findSome?_cons, fieldNames, h.fields_eq, List.map_append,
      fieldOf?_append, List.length_map, hlength]
    generalize (t.scope scope).names[name]? = found at hown ⊢
    generalize fieldOf? ((t.ownFields scope).map _) name = index at hown ⊢
    cases hown with
    | some hget =>
      refine .some ⟨?_, hfields.index hget⟩
      exact of_decide_eq_true (List.mem_filter.1 (List.mem_of_getElem? hget)).2
    | none =>
      dsimp only
      cases hsuper : t.superclass? scope with
      | none => exact .none
      | some s =>
        obtain ⟨hlt, hmem⟩ := h.superclass hsuper
        exact ih s hlt (h.isClass_of_mem hmem)

/-! ### The variables of a method or block -/

/-- Is it the kind of an argument or local variable? -/
def IsSlotKind (kind : SymbolKind) : Prop := kind = .argument ∨ kind = .localVariable

/-- What the variable with a number is: the arguments come first. -/
def slotKind (arguments index : Nat) : SymbolKind :=
  if index < arguments then .argument else .localVariable

theorem slotKind_isSlotKind (arguments index : Nat) : IsSlotKind (slotKind arguments index) := by
  rw [slotKind]
  split
  · exact .inl rfl
  · exact .inr rfl

/-- **The variables of a method or block** are those with some names, in their order. -/
@[grind cases]
structure HasNames (t : SymbolTable) (scope : ScopeId) (names : List String) : Prop where
  found {name : String} {index : Nat} : names[index]? = some name → ∃ id,
    (t.scope scope).names[name]? = some id ∧ id < t.symbols.size ∧
      t.symbol id = ⟨name, slotKind (t.scope scope).argumentCount index, scope, index⟩
  absent {name : String} : name ∉ names → (t.scope scope).names[name]? = none
  count : (t.scope scope).slotCount = names.length
  room : names.length ≤ capacity

theorem HasNames.grows {names : List String} (h : t.HasNames scope names) (hgrows : Grows n t t')
    (hs : scope < n) (hkind : (t.scope scope).kind.isGlobal = false) : t'.HasNames scope names := by
  have hsettled := hgrows.settled hs
  refine ⟨fun hname => ?_, fun hname => ?_, hsettled.slotCount.trans h.count, h.room⟩
  · grind
  · rw [hsettled.names hkind]
    exact h.absent hname

/-! ### The scopes of routines -/

/-- **The scope of a routine**: a method `M` of a class `C`, or a block inside of it, with the names
of all variables and the numbers of all blocks around it. The scopes of the blocks come right after
that of the method. -/
inductive Located (t : SymbolTable) (C M : ScopeId) :
    ScopeId → List (List String) → List Nat → Prop
  | method {names : List String} (hkind : (t.scope M).kind.isMethod = true)
      (henclosing : (t.scope M).enclosing = some C) (hnames : t.HasNames M names) :
      Located t C M M [names] []
  | block {number : Nat} {outer : ScopeId} {names : List String} {scopes : List (List String)}
      {nest : List Nat} (hkind : (t.scope (M + 1 + number)).kind = .block number)
      (hname : (t.scope (M + 1 + number)).name = "block" ++ toString number)
      (henclosing : (t.scope (M + 1 + number)).enclosing = some outer)
      (hnames : t.HasNames (M + 1 + number) names) (h : Located t C M outer scopes nest) :
      Located t C M (M + 1 + number) (names :: scopes) (number :: nest)

namespace Located

variable {C M : ScopeId} {scopes : List (List String)} {nest : List Nat}

section

variable (h : t.Located C M scope scopes nest)

include h

theorem class_lt (hsound : t.Sound) : C < scope := by
  induction h with
  | method _ henclosing _ => exact hsound.enclosing henclosing
  | block _ _ henclosing _ _ ih => exact Nat.lt_trans ih (hsound.enclosing henclosing)

theorem method_le : M ≤ scope := by
  cases h with
  | method => exact Nat.le_refl _
  | block => exact Nat.le_trans (Nat.le_succ M) (Nat.le_add_right _ _)

/-- A routine stays where it is when something else is declared. -/
theorem grows (hsound : t.Sound) (hgrows : Grows n t t') (hs : scope < n) :
    t'.Located C M scope scopes nest := by
  have halike {s : ScopeId} (hlt : s < n) : (t.scope s).Alike (t'.scope s) :=
    hgrows.alike (Nat.lt_of_lt_of_le hlt hgrows.bound)
  induction h with
  | method hkind henclosing hnames =>
    have hM := halike hs
    refine .method (hM.isMethod.trans hkind) (hM.enclosing.trans henclosing)
      (hnames.grows hgrows hs ?_)
    cases hk : (t.scope M).kind <;> rw [hk] at hkind <;> first | rfl | cases hkind
  | block hkind hname henclosing hnames _ ih =>
    have hS := halike hs
    have hkind' := hS.kind
    rw [hkind] at hkind'
    refine .block (ScopeKind.eq_block hkind') (hS.name.trans hname)
      (hS.enclosing.trans henclosing) (hnames.grows hgrows hs ?_)
      (ih (Nat.lt_trans (hsound.enclosing henclosing) hs))
    rw [hkind]
    rfl

theorem isActivation : (t.scope scope).kind.isActivation = true := by
  cases h with
  | method hkind _ _ => rw [ScopeKind.isActivation, hkind, Bool.true_or]
  | block hkind => rw [hkind]; rfl

theorem hasNames : t.HasNames scope (scopes.headD []) := by
  cases h with
  | method _ _ hnames | block _ _ _ hnames _ => exact hnames

/-- The variables of all routines around can be numbered. -/
theorem room : ∀ names ∈ scopes, names.length ≤ capacity := by
  induction h with
  | method _ _ hnames => exact List.forall_mem_singleton.2 hnames.room
  | block _ _ _ hnames _ ih => exact List.forall_mem_cons.2 ⟨hnames.room, ih⟩

end

/-! ### Looking up -/

/-- The scopes around a method are its class and the global scope. -/
theorem outward_class (hsound : t.Sound) (hclass : (t.scope C).kind.isClass = true) :
    t.outward C = [C, global] := by
  rw [hsound.outward_eq, (hsound.fields hclass).enclosing, Option.map_some, Option.getD_some,
    hsound.outward_eq, hsound.globals.enclosing]
  rfl

theorem outward_eq_cons (hsound : t.Sound) (henclosing : (t.scope scope).enclosing = some outer) :
    t.outward scope = scope :: t.outward outer := by
  rw [hsound.outward_eq, henclosing]
  rfl

/-- In a scope that is no class only its own names are found. -/
theorem findIn?_eq (hsound : t.Sound) (hclass : (t.scope scope).kind.isClass = false)
    (name : String) : t.findIn? name scope = (t.scope scope).names[name]? := by
  have hsuper : t.superclass? scope = none := by
    rw [superclass?_eq]
    cases hk : (t.scope scope).kind <;> rw [hk] at hclass <;> first | rfl | cases hclass
  have hmethods : t.methodMap? scope false = none := by
    rw [methodMap?]
    cases hk : (t.scope scope).kind <;> rw [hk] at hclass <;> first | rfl | cases hclass
  rw [findIn?, hsound.lineage_eq, hsuper]
  simp [hmethods]

theorem depth?_self (hsound : t.Sound) (scope : ScopeId) : t.depth? scope scope = some 0 := by
  rw [depth?, hsound.outward_eq]
  simp

theorem depth?_outer (hsound : t.Sound) {stop : ScopeId} {depth : Nat}
    (henclosing : (t.scope scope).enclosing = some outer)
    (hkind : (t.scope scope).kind.isActivation = true) (hne : scope ≠ stop)
    (h : t.depth? outer stop = some depth) : t.depth? scope stop = some (depth + 1) := by
  rw [depth?, Option.ite_none_right_eq_some] at h
  rw [depth?, outward_eq_cons hsound henclosing, List.takeWhile_cons_of_pos (by simpa using hne)]
  grind

/-- **A name that is used in a routine** is one of a variable around it, or it is looked up in the
class. -/
theorem resolve?_cases (h : t.Located C M scope scopes nest) (hsound : t.Sound) (name : String) :
    (∃ depth index stop id kind, slotOf? scopes name = some (depth, index) ∧
        t.resolve? scope name = some id ∧ IsSlotKind kind ∧ t.symbol id = ⟨name, kind, stop, index⟩ ∧
        t.depth? scope stop = some depth ∧ stop ≤ scope) ∨
      slotOf? scopes name = none ∧ t.resolve? scope name = t.resolve? C name := by
  -- What happens in the scope of a routine itself.
  have hstep {scope outer : ScopeId} {names : List String} {scopes : List (List String)}
      (hkind : (t.scope scope).kind.isActivation = true)
      (henclosing : (t.scope scope).enclosing = some outer) (hnames : t.HasNames scope names) :
      (∃ index id kind, slotOf? (names :: scopes) name = some (0, index) ∧
        t.resolve? scope name = some id ∧ IsSlotKind kind ∧
        t.symbol id = ⟨name, kind, scope, index⟩) ∨
      slotOf? (names :: scopes) name = (slotOf? scopes name).map (fun found => (found.1 + 1, found.2)) ∧
        t.resolve? scope name = t.resolve? outer name := by
    rw [slotOf?, resolve?, outward_eq_cons hsound henclosing, List.findSome?_cons,
      findIn?_eq hsound (ScopeKind.isClass_of_isActivation hkind)]
    by_cases hmem : name ∈ names
    · have hget : names[names.idxOf name]? = some name := by simp [hmem]
      obtain ⟨id, hid, -, hsymbol⟩ := hnames.found hget
      rw [hid, if_pos hmem]
      exact .inl ⟨_, id, _, rfl, rfl, slotKind_isSlotKind _ _, hsymbol⟩
    · rw [hnames.absent hmem, if_neg hmem]
      exact .inr ⟨rfl, rfl⟩
  induction h with
  | @method names hkind henclosing hnames =>
    have hactivation : (t.scope M).kind.isActivation = true := by
      rw [ScopeKind.isActivation, hkind, Bool.true_or]
    rcases @hstep M C names [] hactivation henclosing hnames with
      ⟨index, id, kind, hslot, hid, hkind', hsymbol⟩ | ⟨hnone, hout⟩
    · exact .inl ⟨0, index, M, id, kind, hslot, hid, hkind', hsymbol, depth?_self hsound M,
        Nat.le_refl _⟩
    · exact .inr ⟨hnone, hout⟩
  | @block number outer names scopes nest hkind _ henclosing hnames _ ih =>
    have hactivation : (t.scope (M + 1 + number)).kind.isActivation = true := by
      rw [hkind]
      rfl
    have hlt := hsound.enclosing henclosing
    rcases hstep hactivation henclosing hnames with
      ⟨index, id, kind, hslot, hid, hkind', hsymbol⟩ | ⟨hnone, hout⟩
    · exact .inl ⟨0, index, _, id, kind, hslot, hid, hkind', hsymbol, depth?_self hsound _,
        Nat.le_refl _⟩
    · rw [hnone, hout]
      rcases ih with ⟨depth, index, stop, id, kind, hslot, hid, hkind', hsymbol, hdepth, hle⟩ |
        ⟨hslot, hid⟩
      · have hstop := Nat.lt_of_le_of_lt hle hlt
        refine .inl ⟨depth + 1, index, stop, id, kind, ?_, hid, hkind', hsymbol,
          depth?_outer hsound henclosing hactivation (Nat.ne_of_gt hstop) hdepth,
          Nat.le_of_lt hstop⟩
        rw [hslot]
        rfl
      · rw [hslot, hid]
        exact .inr ⟨rfl, rfl⟩

/-- A name that is looked up in a class is one of a field, or one of no variable. -/
theorem resolve?_class (hsound : t.Sound) (hclass : (t.scope C).kind.isClass = true)
    (name : String) :
    (∃ id index, fieldOf? (t.fieldNames C) name = some index ∧ t.resolve? C name = some id ∧
        (t.symbol id).kind = .field ∧ (t.symbol id).index = index) ∨
      fieldOf? (t.fieldNames C) name = none ∧
        ∀ id, t.resolve? C name = some id → (t.symbol id).kind.isVariable = false := by
  have hfields := hsound.fields_rel hclass name
  rw [resolve?, outward_class hsound hclass, List.findSome?_cons, findIn?]
  generalize ((t.lineage C).findSome? fun s => (t.scope s).names[name]?) = found at hfields ⊢
  generalize fieldOf? (t.fieldNames C) name = index at hfields ⊢
  cases hfields with
  | @some id index hid => exact .inl ⟨id, index, rfl, rfl, hid⟩
  | none =>
    refine .inr ⟨rfl, fun id hid => ?_⟩
    cases hmethod : (t.lineage C).findSome? fun s =>
        (t.methodMap? s false).bind fun methods => methods[name]? with
    | some id' =>
      rw [hmethod] at hid
      obtain rfl := Option.some.inj hid
      obtain ⟨s, -, hs⟩ := List.exists_of_findSome?_eq_some hmethod
      have hkind := (@Sound.methods t hsound s false name id' hs).2
      cases hk : (t.symbol id').kind <;> rw [hk] at hkind <;> first | rfl | cases hkind
    | none =>
      rw [hmethod] at hid
      simp only [List.findSome?_cons, List.findSome?_nil] at hid
      have hglobal : (t.scope global).kind.isClass = false := by
        rw [hsound.globals.kind]
        rfl
      rw [findIn?_eq hsound hglobal] at hid
      cases hnamed : (t.scope global).names[name]? with
      | none => rw [hnamed] at hid; cases hid
      | some id' =>
        rw [hnamed] at hid
        obtain rfl := Option.some.inj hid
        obtain ⟨body, hkind, -⟩ := hsound.globals.body (hsound.globals.mem hnamed).1
        rw [hkind]
        rfl

/-- **A variable is found where its name says.** -/
theorem place?_eq (h : c.table.Located C M scope scopes nest) (hsound : c.table.Sound)
    (hclass : (c.table.scope C).kind.isClass = true) (name : String) :
    c.place? scope name = placeOf? scopes (c.table.fieldNames C) name := by
  rw [CodeContext.place?, placeOf?]
  rcases h.resolve?_cases hsound name with
    ⟨depth, index, stop, id, kind, hslot, hid, hkind, hsymbol, hdepth, -⟩ | ⟨hslot, hid⟩
  · rw [hslot, hid]
    dsimp only
    rw [hsymbol]
    dsimp only
    rcases hkind with rfl | rfl <;> rw [hdepth] <;> rfl
  · rw [hslot, hid]
    dsimp only
    rcases resolve?_class hsound hclass name with ⟨id, index, hfield, hid, hkind, hindex⟩ |
      ⟨hfield, hother⟩
    · rw [hfield, hid]
      dsimp only
      rw [hkind, hindex]
      rfl
    · rw [hfield]
      cases hid : c.table.resolve? C name with
      | none => rfl
      | some id =>
        have hkind := hother id hid
        dsimp only
        cases hk : (c.table.symbol id).kind <;> rw [hk] at hkind <;> first | rfl | cases hkind

/-- The names of the scopes around a routine are those of its class, its method and its blocks. -/
theorem qualifiedName_eq (h : t.Located C M scope scopes nest) (hsound : t.Sound)
    (hclass : (t.scope C).kind.isClass = true) :
    t.qualifiedName scope = ">>".intercalate ((t.scope C).name :: (t.scope M).name
      :: nest.reverse.map fun number => "block" ++ toString number) := by
  rw [qualifiedName]
  refine congrArg _ ?_
  have hkind {s : ScopeId} (hs : (t.scope s).kind.isActivation = true) :
      (!(t.scope s).kind.isGlobal) = true := by
    cases hk : (t.scope s).kind <;> rw [hk] at hs <;> first | rfl | cases hs
  induction h with
  | method hmethod henclosing _ =>
    have hC : (!(t.scope C).kind.isGlobal) = true := by
      rw [ScopeKind.isGlobal_of_isClass hclass]
      rfl
    have hM := hkind (s := M) (by rw [ScopeKind.isActivation, hmethod, Bool.true_or])
    have hG : (!(t.scope global).kind.isGlobal) = false := by
      rw [hsound.globals.kind]
      rfl
    rw [outward_eq_cons hsound henclosing, outward_class hsound hclass]
    simp only [List.filter_cons, hM, hC, hG, if_true]
    rfl
  | @block number _ _ _ _ hblock hname henclosing _ _ ih =>
    have hS := hkind (s := M + 1 + number) (by rw [hblock]; rfl)
    rw [outward_eq_cons hsound henclosing, List.filter_cons, if_pos hS, List.reverse_cons,
      List.map_append, ih, List.reverse_cons, List.map_append, List.map_singleton, hname]
    rfl

/-- A routine belongs to its class. -/
theorem classNameOf_eq (h : c.table.Located C M scope scopes nest) (hsound : c.table.Sound)
    (hclass : (c.table.scope C).kind.isClass = true) :
    c.classNameOf scope = (c.table.scope C).name := by
  have henclosing : c.table.enclosingClass? scope = some C := by
    rw [enclosingClass?]
    have hskip {s outer : ScopeId} (hs : (c.table.scope s).kind.isActivation = true)
        (henclosing : (c.table.scope s).enclosing = some outer) :
        (c.table.outward s).find? (fun s => (c.table.scope s).kind.isClass) =
          (c.table.outward outer).find? fun s => (c.table.scope s).kind.isClass := by
      rw [outward_eq_cons hsound henclosing, List.find?_cons_of_neg]
      rw [ScopeKind.isClass_of_isActivation hs]
      exact Bool.false_ne_true
    induction h with
    | method hmethod henclosing _ =>
      rw [hskip (by rw [ScopeKind.isActivation, hmethod, Bool.true_or]) henclosing,
        outward_class hsound hclass, List.find?_cons, hclass]
    | block hblock _ henclosing _ _ ih =>
      rw [hskip (by rw [hblock]; rfl) henclosing]
      exact ih
  rw [CodeContext.classNameOf, henclosing]
  rfl

/-- A routine belongs to its method. -/
theorem enclosingMethod?_eq (h : t.Located C M scope scopes nest) (hsound : t.Sound) :
    t.enclosingMethod? scope = some M := by
  rw [enclosingMethod?]
  induction h with
  | method hmethod henclosing _ =>
    have hblock : (t.scope M).kind.isBlock = false := by
      cases hk : (t.scope M).kind <;> rw [hk] at hmethod <;> first | rfl | cases hmethod
    rw [outward_eq_cons hsound henclosing, List.dropWhile_cons_of_neg (by simp [hblock])]
    exact if_pos hmethod
  | block hblock _ henclosing _ _ ih =>
    rw [outward_eq_cons hsound henclosing, List.dropWhile_cons, if_pos (by rw [hblock]; rfl)]
    exact ih

theorem blockMethod_eq (h : t.Located C M scope scopes nest) (hsound : t.Sound) :
    t.blockMethod scope = M := by
  rw [blockMethod, h.enclosingMethod?_eq hsound]
  rfl

end Located

end SymbolTable

end Smalltalk
