/-
**The classes of a compiled program.**

The table of classes is made class by class, each with the class that its superclass has become.
As superclasses are older and names are never given twice, nothing in the finished table depends on
when it was looked up: the class of a scope is found under its name, and its superclasses are the
classes of the superclasses of the scope. So each method is found under its address again, which is
what makes an address the identity of a method.

* `ClassTable.get?_ofSymbols` — **the class of a scope is found under its name**;
* `ClassTable.methodAt?_of_classAt` — **a method is found under its address**.
-/

import Mathlib.Data.List.Nodup
import Smalltalk.Object.Class
import Smalltalk.Proofs.Growth

namespace Smalltalk

variable {scope s : ScopeId} {name : String} {symbols : SymbolTable} {c : Class}

/-! ### Chains of older scopes -/

namespace SymbolTable

variable {next : ScopeId → Option ScopeId}

/-- A chain to ever older scopes is as long as it has to be, whatever the bound. -/
theorem chainFrom_congr (hnext : ∀ s s', next s = some s' → s' < s) {n m : Nat} (hn : s < n)
    (hm : s < m) : chainFrom next n s = chainFrom next m s := by
  induction n generalizing m s with
  | zero => cases hn
  | succ n ih =>
    cases m with
    | zero => cases hm
    | succ m =>
      rw [chainFrom, chainFrom]
      grind

theorem chainFrom_succ (hnext : ∀ s s', next s = some s' → s' < s) (s : ScopeId) :
    chainFrom next (s + 1) s =
      s :: ((next s).map fun s' => chainFrom next (s' + 1) s').getD [] := by
  rw [chainFrom]
  cases hs : next s with
  | none => rfl
  | some s' =>
    simp only [Option.map_some, Option.getD_some]
    rw [chainFrom_congr hnext (hnext s s' hs) (Nat.lt_succ_self s')]

variable {t : SymbolTable}

/-- A scope, and then those around the scope around it. -/
theorem Sound.outward_eq (h : t.Sound) (scope : ScopeId) :
    t.outward scope = scope :: ((t.scope scope).enclosing.map t.outward).getD [] :=
  chainFrom_succ (fun _ _ => h.enclosing) scope

/-- A class, and then its superclass with the superclasses of that. -/
theorem Sound.lineage_eq (h : t.Sound) (scope : ScopeId) :
    t.lineage scope = scope :: ((t.superclass? scope).map t.lineage).getD [] :=
  chainFrom_succ (fun _ _ hs => (h.superclass hs).1) scope

/-- All superclasses of a class are declared classes. -/
theorem Sound.lineage_subset (h : t.Sound) (hs : scope ∈ t.classes) :
    t.lineage scope ⊆ t.classes := by
  induction scope using Nat.strongRecOn with
  | ind scope ih =>
    rw [h.lineage_eq]
    cases hsuper : t.superclass? scope with
    | none => simpa using hs
    | some s =>
      grind

/-! ### The names of classes -/

/-- Classes with one name are one class. -/
theorem Sound.eq_of_name (h : t.Sound) {s' : ScopeId} (hs : s ∈ t.classes) (hs' : s' ∈ t.classes)
    (hname : (t.scope s).name = (t.scope s').name) : s = s' := by
  obtain ⟨id, hid, hbody⟩ := List.mem_filterMap.1 hs
  obtain ⟨id', hid', hbody'⟩ := List.mem_filterMap.1 hs'
  rw [Array.mem_toList_iff] at hid hid'
  obtain ⟨b, hkind, -, -, hb⟩ := h.globals.body hid
  obtain ⟨b', hkind', -, -, hb'⟩ := h.globals.body hid'
  rw [classBody?, hkind] at hbody
  rw [classBody?, hkind'] at hbody'
  grind

theorem Sound.classNames_nodup (h : t.Sound) :
    (t.classes.map fun s => (t.scope s).name).Nodup := by
  have hnodup : t.classes.Nodup := h.globals.ascending.imp fun hlt => Nat.ne_of_lt hlt
  exact List.Nodup.map_on (fun s hs s' hs' => h.eq_of_name hs hs') hnodup

theorem Sound.classNamed?_eq (h : t.Sound) (hs : s ∈ t.classes) :
    t.classNamed? (t.scope s).name = some s := by
  obtain ⟨id, hid, hbody⟩ := List.mem_filterMap.1 hs
  rw [Array.mem_toList_iff] at hid
  obtain ⟨b, hkind, -, -, hb⟩ := h.globals.body hid
  have hbs : b = s := by
    rw [classBody?, hkind] at hbody
    exact Option.some.inj hbody
  subst hbs
  rw [classNamed?, hb, h.globals.named hid]
  exact hbody

end SymbolTable

/-! ### The table of classes -/

namespace ClassTable

theorem get?_insert (t : ClassTable) (c : Class) (name : String) :
    (t.insert c).get? name = if c.name = name then some c else t.get? name := by
  simp [get?, insert, Std.TreeMap.getElem?_insert]

/-- The table of the classes of some scopes, after those of another table. -/
def addScopes (symbols : SymbolTable) (t : ClassTable) (scopes : List ScopeId) : ClassTable :=
  scopes.foldl (fun t scope => t.insert (classOf symbols t scope)) t

/-- Classes are not looked up by the names of others. -/
theorem get?_addScopes_of_not_mem (symbols : SymbolTable) (t : ClassTable) (scopes : List ScopeId)
    (h : name ∉ scopes.map fun s => (symbols.scope s).name) :
    (addScopes symbols t scopes).get? name = t.get? name := by
  induction scopes generalizing t with
  | nil => rfl
  | cons scope scopes ih =>
    rw [List.map_cons, List.mem_cons, not_or] at h
    rw [addScopes, List.foldl_cons, ← addScopes, ih _ h.2, get?_insert]
    exact if_neg (Ne.symm h.1)

/-- **The class that a scope becomes.** -/
def classAt (symbols : SymbolTable) (scope : ScopeId) : Class :=
  classOf symbols (ofSymbols symbols) scope

/-- **The class of a scope is found under its name** in the finished table. -/
theorem get?_ofSymbols (h : symbols.Sound) (hs : scope ∈ symbols.classes) :
    (ofSymbols symbols).get? (symbols.scope scope).name = some (classAt symbols scope) := by
  obtain ⟨before, after, hsplit⟩ := List.append_of_mem hs
  have hnodup := h.classNames_nodup
  have hascending := h.globals.ascending
  have htable : ofSymbols symbols =
      addScopes symbols (addScopes symbols empty before) (scope :: after) := by
    rw [ofSymbols, hsplit, List.foldl_append]
    rfl
  rw [hsplit, List.map_append] at hnodup
  rw [hsplit] at hascending
  obtain ⟨-, hafter, hdisjoint⟩ := List.nodup_append.1 hnodup
  have hold {s : ScopeId} (hmem : s ∈ before) :
      (ofSymbols symbols).get? (symbols.scope s).name
        = (addScopes symbols empty before).get? (symbols.scope s).name := by
    rw [htable, get?_addScopes_of_not_mem symbols]
    intro hname
    exact hdisjoint _ (List.mem_map_of_mem hmem) _ hname rfl
  have hself : (ofSymbols symbols).get? (symbols.scope scope).name
      = some (classOf symbols (addScopes symbols empty before) scope) := by
    rw [htable, addScopes, List.foldl_cons, ← addScopes,
      get?_addScopes_of_not_mem symbols _ _ (List.nodup_cons.1 hafter).1, get?_insert]
    exact if_pos rfl
  rw [hself, classAt, classOf, classOf]
  -- The superclass is older, so that it had been added before.
  have hsuper : (symbols.superclass? scope).bind
        (fun s => (addScopes symbols empty before).get? (symbols.scope s).name)
      = (symbols.superclass? scope).bind
        (fun s => (ofSymbols symbols).get? (symbols.scope s).name) := by
    cases hs' : symbols.superclass? scope with
    | none => rfl
    | some s =>
      obtain ⟨hlt, hmem⟩ := h.superclass hs'
      rw [hsplit, List.mem_append, List.mem_cons] at hmem
      rcases hmem with hbefore | rfl | hlater
      · exact (hold hbefore).symm
      · exact absurd hlt (Nat.lt_irrefl _)
      · have hgt := (List.pairwise_cons.1 (List.pairwise_append.1 hascending).2.1).1 s hlater
        exact absurd hlt (Nat.lt_asymm hgt)
  rw [hsuper]

/-- Only the classes of scopes are found. -/
theorem exists_of_get?_ofSymbols (h : symbols.Sound) (hc : (ofSymbols symbols).get? name = some c) :
    ∃ scope ∈ symbols.classes, (symbols.scope scope).name = name ∧ c = classAt symbols scope := by
  by_cases hname : name ∈ symbols.classes.map fun s => (symbols.scope s).name
  · obtain ⟨scope, hs, rfl⟩ := List.mem_map.1 hname
    rw [get?_ofSymbols h hs] at hc
    exact ⟨scope, hs, rfl, (Option.some.inj hc).symm⟩
  · have hnone := get?_addScopes_of_not_mem symbols empty symbols.classes hname
    change (ofSymbols symbols).get? name = _ at hnone
    rw [hc] at hnone
    cases hnone

theorem superclass_classAt (h : symbols.Sound) (scope : ScopeId) :
    (classAt symbols scope).superclass = (symbols.superclass? scope).map (classAt symbols) := by
  rw [classAt, classOf]
  cases hs : symbols.superclass? scope with
  | none => rfl
  | some s => exact get?_ofSymbols h (h.superclass hs).2

end ClassTable

theorem Class.lineage_eq (c : Class) :
    c.lineage = c :: (c.superclass.map Class.lineage).getD [] := by
  obtain ⟨name, superclass, fields, methods, classMethods⟩ := c
  rw [Class.lineage.eq_def]
  cases superclass <;> rfl

namespace ClassTable

variable {selector : String} {classSide : Bool} {m : Method}

/-- **Superclasses are the classes of older scopes.** -/
theorem lineage_classAt (h : symbols.Sound) (scope : ScopeId) :
    (classAt symbols scope).lineage = (symbols.lineage scope).map (classAt symbols) := by
  induction scope using Nat.strongRecOn with
  | ind scope ih =>
    rw [Class.lineage_eq, superclass_classAt h, h.lineage_eq]
    cases hs : symbols.superclass? scope with
    | none => rfl
    | some s =>
      grind

/-! ### Methods by address -/

theorem side_classAt (symbols : SymbolTable) (scope : ScopeId) (classSide : Bool) :
    (classAt symbols scope).side classSide =
      methodsOf symbols scope (symbols.scope scope).name classSide := by
  cases classSide <;> rfl

/-- A method of a class is one of its symbols, and its address says where. -/
theorem exists_of_getElem?_methodsOf {className : String}
    (h : (methodsOf symbols scope className classSide)[selector]? = some m) :
    m.address = ⟨className, classSide, selector⟩ ∧
      ∃ id ∈ symbols.methods scope classSide, (symbols.symbol id).name = selector ∧
        codeOf? symbols className (symbols.symbol id) = some m.code := by
  rw [methodsOf] at h
  -- The methods that were there before are none, but the fold needs them to be any.
  suffices hfold : ∀ (ids : List SymbolId) (methods : Std.TreeMap String Method),
      (ids.foldl (addMethod symbols className classSide) methods)[selector]? = some m →
      methods[selector]? = some m ∨ m.address = ⟨className, classSide, selector⟩ ∧
        ∃ id ∈ ids, (symbols.symbol id).name = selector ∧
          codeOf? symbols className (symbols.symbol id) = some m.code by
    rcases hfold _ _ h with hnone | hsome
    · simp at hnone
    · exact hsome
  intro ids
  induction ids with
  | nil => exact fun methods hm => .inl hm
  | cons id ids ih =>
    intro methods hm
    rw [List.foldl_cons] at hm
    rcases ih _ hm with hbefore | ⟨haddress, id', hid', hrest⟩
    · rw [addMethod] at hbefore
      cases hcode : codeOf? symbols className (symbols.symbol id) with
      | none =>
        rw [hcode] at hbefore
        exact .inl hbefore
      | some code =>
        grind
    · exact .inr ⟨haddress, id', List.mem_cons_of_mem _ hid', hrest⟩

/-- The method with an address. -/
def methodAt? (t : ClassTable) (a : MethodAddress) : Option Method :=
  (t.get? a.className).bind fun c => (c.side a.classSide)[a.selector]?

/-- The code of the method with an address, or the code of one of its blocks. -/
def unitAt? (t : ClassTable) (a : MethodAddress) (block : Option Nat) : Option CompiledCode :=
  (t.methodAt? a).bind fun m =>
    match block with
    | none => some m.code
    | some index => m.code.blocks[index]?

/-- A class that is found by name is the class of a scope, and so are its superclasses. -/
theorem exists_of_mem_lineage (h : symbols.Sound) {d : Class}
    (hc : (ofSymbols symbols).get? name = some c) (hd : d ∈ c.lineage) :
    ∃ scope ∈ symbols.classes, d = classAt symbols scope := by
  obtain ⟨scope, hs, -, rfl⟩ := exists_of_get?_ofSymbols h hc
  rw [lineage_classAt h] at hd
  obtain ⟨s, hmem, rfl⟩ := List.mem_map.1 hd
  exact ⟨s, h.lineage_subset hs hmem, rfl⟩

/-- **A method is found under its address.** -/
theorem methodAt?_of_classAt (h : symbols.Sound) (hs : scope ∈ symbols.classes)
    (hm : ((classAt symbols scope).side classSide)[selector]? = some m) :
    (ofSymbols symbols).methodAt? m.address = some m := by
  have haddress := hm
  rw [side_classAt] at haddress
  rw [(exists_of_getElem?_methodsOf haddress).1, methodAt?, get?_ofSymbols h hs]
  exact hm

end ClassTable

end Smalltalk
