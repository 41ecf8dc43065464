/-
**What a declaration does to the methods of a table.**

A method with code that is found in a table was declared by the first definition with its address.
Later definitions with the address are mistakes, and a class that has no room for a method never gets
room for it. Fields, classes and what is declared inside of methods are no methods.

* `SymbolTable.Records` — **the methods of a table are those of some routines**;
* `Declaring.declareCode_methods` — **what a method with code does to the methods**.
-/

import Smalltalk.Proofs.Naming

namespace Smalltalk

open SymbolTable

/-! ### The methods of a table -/

namespace SymbolTable

variable {t t' : SymbolTable} {n : Nat} {rs : List Routine} {R : ScopeId → ScopeId → Routine → Prop}
  {P : String → String → Nat → Prop} {C C' : ScopeId} {k : ScopeKind} {side classSide : Bool}
  {selector name : String} {kind : SymbolKind}

/-- One side of a class has a method with a selector, or no room for it. -/
def IsTaken (t : SymbolTable) (C : ScopeId) (classSide : Bool) (selector : String) : Prop :=
  ∃ methods, t.methodMap? C classSide = some methods ∧
    (methods.contains selector = true ∨ methodCapacity ≤ methods.size)

/-- **The methods of a table are those of some routines**, of which the first with an address
counts. `R` says how a method of a class is related to its routine, and `P` is known of the class,
the selector and the number of arguments of a method that is a built-in operation. -/
@[grind cases]
structure Records (t : SymbolTable) (rs : List Routine) (R : ScopeId → ScopeId → Routine → Prop)
    (P : String → String → Nat → Prop) : Prop where
  found {C : ScopeId} {id : SymbolId} {body : ScopeId} {classSide : Bool} : C ∈ t.classes →
    id ∈ (t.scope C).symbols → (t.symbol id).kind = .method body classSide →
      ∃ r, rs.find? (fun r => r.address = ⟨(t.scope C).name, classSide, (t.symbol id).name⟩)
          = some r ∧ R C body r
  kept {r : Routine} : r ∈ rs → ∃ C ∈ t.classes, (t.scope C).name = r.address.className ∧
    t.IsTaken C r.address.classSide r.address.selector
  operation {C : ScopeId} {id : SymbolId} {p : Primitive} {classSide : Bool} {count : Nat} :
    C ∈ t.classes → id ∈ (t.scope C).symbols →
      (t.symbol id).kind = .primitive p classSide count →
        P (t.scope C).name (t.symbol id).name count
  taken {C : ScopeId} {id : SymbolId} {classSide : Bool} : C ∈ t.classes →
    id ∈ (t.scope C).symbols → (t.symbol id).kind.isMethodOf classSide = true →
      t.IsTaken C classSide (t.symbol id).name
  unique {C : ScopeId} {id id' : SymbolId} {classSide : Bool} : C ∈ t.classes →
    id ∈ (t.scope C).symbols → id' ∈ (t.scope C).symbols →
    (t.symbol id).kind.isMethodOf classSide = true →
    (t.symbol id').kind.isMethodOf classSide = true →
      (t.symbol id).name = (t.symbol id').name → id = id'

theorem Records.imp {R' : ScopeId → ScopeId → Routine → Prop} (h : t.Records rs R P)
    (hR : ∀ C ∈ t.classes, ∀ body, ∀ r ∈ rs, R C body r → R' C body r) : t.Records rs R' P :=
  { h with
    found := fun hC hid hkind => by
      obtain ⟨r, hr, hbody⟩ := h.found hC hid hkind
      exact ⟨r, hr, hR _ hC _ _ (List.mem_of_find?_eq_some hr) hbody⟩ }

/-- The top-level statements are a method of their class. -/
def HasMain (t : SymbolTable) : Prop :=
  ∀ C ∈ t.classes, (t.scope C).name = mainClass → ∃ id ∈ (t.scope C).symbols,
    (t.symbol id).name = mainMethod ∧ ∃ body, (t.symbol id).kind = .method body false

/-- **A declaration that is none of a method**: the methods of all classes are as they were. -/
@[grind cases]
structure SameMethods (t t' : SymbolTable) : Prop where
  classes : t.classes ⊆ t'.classes
  name : ∀ C ∈ t.classes, (t'.scope C).name = (t.scope C).name
  methods : ∀ C ∈ t.classes, ∀ classSide, t'.methodMap? C classSide = t.methodMap? C classSide
  fresh : ∀ C ∈ t'.classes, C ∉ t.classes → ∀ classSide, t'.methodMap? C classSide = some ∅
  kept : ∀ C ∈ t.classes, ∀ id ∈ (t.scope C).symbols,
    id ∈ (t'.scope C).symbols ∧ t'.symbol id = t.symbol id
  symbols : ∀ C ∈ t'.classes, ∀ id ∈ (t'.scope C).symbols, ∀ classSide,
    (t'.symbol id).kind.isMethodOf classSide = true →
      C ∈ t.classes ∧ id ∈ (t.scope C).symbols ∧ t'.symbol id = t.symbol id

theorem SameMethods.refl (t : SymbolTable) : t.SameMethods t where
  classes := List.Subset.refl _
  name _ _ := rfl
  methods _ _ _ := rfl
  fresh _ hC hnot := absurd hC hnot
  kept _ _ _ hid := ⟨hid, rfl⟩
  symbols _ hC _ hid _ _ := ⟨hC, hid, rfl⟩

theorem SameMethods.trans {t'' : SymbolTable} (h : t.SameMethods t') (h' : t'.SameMethods t'') :
    t.SameMethods t'' where
  classes := List.Subset.trans h.classes h'.classes
  name C hC := (h'.name C (h.classes hC)).trans (h.name C hC)
  methods C hC classSide := (h'.methods C (h.classes hC) _).trans (h.methods C hC _)
  fresh C hC hnot classSide := by
    grind
  kept C hC id hid := by
    grind
  symbols C hC id hid classSide hkind := by
    grind

theorem SameMethods.hasMethod_eq (h : t.SameMethods t') (hC : C ∈ t.classes) (selector : String)
    (classSide : Bool) : t'.hasMethod C selector classSide = t.hasMethod C selector classSide := by
  rw [hasMethod, h.methods C hC, hasMethod]

theorem SameMethods.isTaken (h : t.SameMethods t') (hC : C ∈ t.classes)
    (htaken : t.IsTaken C side name) : t'.IsTaken C side name := by
  rwa [IsTaken, h.methods C hC]

theorem Records.keep (h : t.Records rs R P) (hsame : t.SameMethods t') : t'.Records rs R P where
  found {C id body classSide} hC hid hkind := by
    obtain ⟨hold, hid', hsymbol⟩ := hsame.symbols C hC id hid classSide (by
      rw [hkind]
      exact decide_eq_true rfl)
    grind
  kept {r} hr := by
    grind [SameMethods.isTaken]
  operation {C id p classSide count} hC hid hkind := by
    obtain ⟨hold, hid', hsymbol⟩ := hsame.symbols C hC id hid classSide (by
      rw [hkind]
      exact decide_eq_true rfl)
    grind
  taken {C id classSide} hC hid hkind := by
    grind [SameMethods.isTaken]
  unique {C id id' classSide} hC hid hid' hkind hkind' hname := by
    grind

/-- The top-level statements keep their method, and a new class is none of theirs. -/
theorem HasMain.keep (h : t.HasMain) (hsame : t.SameMethods t')
    (hnew : ∀ C ∈ t'.classes, (t'.scope C).name = mainClass → C ∈ t.classes) : t'.HasMain := by
  intro C hC hname
  have hold := hnew C hC hname
  obtain ⟨id, hid, hmain, hkind⟩ := h C hold ((hsame.name C hold).symm.trans hname)
  grind

theorem Sound.ne_global_of_mem (h : t.Sound) (hC : C ∈ t.classes) : C ≠ global := by
  rintro rfl
  have hclass := h.isClass_of_mem hC
  rw [h.globals.kind] at hclass
  cases hclass

theorem Sound.isActivation_of_mem (h : t.Sound) (hC : C ∈ t.classes) :
    (t.scope C).kind.isActivation = false := by
  have hclass := h.isClass_of_mem hC
  cases hk : (t.scope C).kind <;> rw [hk] at hclass <;> first | rfl | cases hclass

theorem Sound.classes_of_undisturbed (h : t.Sound) (hgrows : Grows n t t')
    (hsame : Declaring.Undisturbed t t') : t'.classes = t.classes := by
  have hglobal : t'.scope global = t.scope global := by
    refine hsame global h.globals.size ?_
    rw [h.globals.kind]
    rfl
  exact hgrows.classes_eq h (by rw [hglobal])

/-- What is declared inside of a method is no method. -/
theorem Sound.sameMethods_of_undisturbed (hsound : t.Sound) (hgrows : Grows n t t')
    (hsame : Declaring.Undisturbed t t') : t.SameMethods t' := by
  have hclasses := hsound.classes_of_undisturbed hgrows hsame
  have hscope {C : ScopeId} (hC : C ∈ t.classes) : t'.scope C = t.scope C :=
    hsame C (hsound.lt_size_of_mem hC) (hsound.isActivation_of_mem hC)
  refine ⟨by rw [hclasses]; exact List.Subset.refl _, ?_, ?_, ?_, ?_, ?_⟩
  · intro C hC
    rw [hscope hC]
  · intro C hC classSide
    rw [methodMap?, hscope hC, methodMap?]
  · grind
  · grind
  · grind

/-! ### Declaring methods -/

theorem methods?_addMethod_of_ne {side' : Bool} (hne : side ≠ side') (selector : String)
    (id : SymbolId) : (k.addMethod side selector id).methods? side' = k.methods? side' := by
  cases k with
  | classOf superclass count methods classMethods =>
    cases side <;> cases side' <;> first | rfl | exact absurd rfl hne
  | _ => rfl

theorem methods?_addMethod {methods : SymbolMap} (h : k.methods? side = some methods)
    (selector : String) (id : SymbolId) :
    (k.addMethod side selector id).methods? side = some (methods.insert selector id) := by
  cases k with
  | classOf superclass count methods classMethods =>
    cases side <;> obtain rfl := Option.some.inj h <;> rfl
  | _ => cases h

theorem Sound.exists_methodMap? (h : t.Sound) (hC : C ∈ t.classes) (classSide : Bool) :
    ∃ methods, t.methodMap? C classSide = some methods := by
  have hclass := h.isClass_of_mem hC
  rw [methodMap?]
  cases hk : (t.scope C).kind <;> rw [hk] at hclass <;> first | exact ⟨_, rfl⟩ | cases hclass

/-- **What declaring a method does**: it is one more symbol of its class and found by its selector,
unless its side is full. -/
theorem declareMethod_eq (hsound : t.Sound) (hC : C ∈ t.classes)
    (hnew : t.hasMethod C selector kind.isClassSide = false) :
    ∃ methods, t.methodMap? C kind.isClassSide = some methods ∧
      methods.contains selector = false ∧
      (t.declareMethod C selector kind).2 =
        if methods.size < methodCapacity then
          (t.addSymbol ⟨selector, kind, C, methods.size⟩ fun id s =>
            { s with kind := s.kind.addMethod kind.isClassSide selector id }).2
        else t := by
  obtain ⟨methods, hmethods⟩ := hsound.exists_methodMap? hC kind.isClassSide
  have hcontains : methods.contains selector = false := by
    rw [hasMethod, hmethods] at hnew
    exact hnew
  refine ⟨methods, hmethods, hcontains, ?_⟩
  rw [declareMethod, hmethods]
  simp only [hcontains, Bool.false_eq_true, if_false]
  split <;> rfl

/-- The methods of a class after one more method was declared in some class. -/
theorem methodMap?_addMethod (hsound : t.Sound) {D : ScopeId} (hD : D ∈ t.classes)
    {methods : SymbolMap} (hside : t.methodMap? D side = some methods) (kind : SymbolKind)
    (selector : String) (index : Nat) (C : ScopeId) (classSide : Bool) :
    (t.addSymbol ⟨selector, kind, D, index⟩ fun id s =>
        { s with kind := s.kind.addMethod side selector id }).2.methodMap? C classSide =
      if C = D ∧ classSide = side then some (methods.insert selector t.symbols.size)
      else t.methodMap? C classSide := by
  have hlt := hsound.lt_size_of_mem hD
  rw [methodMap?, scope_addSymbol]
  by_cases hC : C = D
  · subst hC
    rw [if_pos ⟨rfl, hlt⟩]
    by_cases hsame : classSide = side
    · subst hsame
      rw [if_pos ⟨rfl, rfl⟩]
      exact methods?_addMethod hside _ _
    · rw [if_neg fun h => hsame h.2]
      exact methods?_addMethod_of_ne (Ne.symm hsame) _ _
  · rw [if_neg fun h => hC h.1, if_neg fun h => hC h.1]
    rfl

/-- **What a declared method changes**: its selector is taken from then on, and if there is room for
it, it is one more symbol of its class. -/
@[grind cases]
structure MethodDeclared (t : SymbolTable) (C : ScopeId) (selector : String) (kind : SymbolKind)
    (t' : SymbolTable) : Prop where
  classes : t'.classes = t.classes
  name (scope : ScopeId) : (t'.scope scope).name = (t.scope scope).name
  taken : t'.IsTaken C kind.isClassSide selector
  keeps {scope : ScopeId} {classSide : Bool} {selector : String} :
    t.IsTaken scope classSide selector → t'.IsTaken scope classSide selector
  added : ¬t.IsTaken C kind.isClassSide selector → ∃ id ∈ (t'.scope C).symbols,
    (t'.symbol id).name = selector ∧ (t'.symbol id).kind = kind
  kept {scope : ScopeId} {id : SymbolId} : id ∈ (t.scope scope).symbols →
    id ∈ (t'.scope scope).symbols ∧ t'.symbol id = t.symbol id
  symbols {scope : ScopeId} {id : SymbolId} : id ∈ (t'.scope scope).symbols →
    id ∈ (t.scope scope).symbols ∧ t'.symbol id = t.symbol id ∨
      scope = C ∧ id = t.symbols.size ∧ t'.symbol id = ⟨selector, kind, C, (t'.symbol id).index⟩ ∧
        ¬t.IsTaken C kind.isClassSide selector

theorem declareMethod_declared (hsound : t.Sound) {C : ScopeId} (hC : C ∈ t.classes)
    {selector : String} {kind : SymbolKind} (hkind : kind.isMethodOf kind.isClassSide = true)
    (hnew : t.hasMethod C selector kind.isClassSide = false) :
    t.MethodDeclared C selector kind (t.declareMethod C selector kind).2 := by
  have hgrows := (declareMethod_sound hsound (Nat.zero_le _) C selector hkind).2
  obtain ⟨methods, hmethods, hcontains, heq⟩ := declareMethod_eq hsound hC hnew
  rw [heq] at hgrows ⊢
  by_cases hroom : methods.size < methodCapacity
  · rw [if_pos hroom] at hgrows ⊢
    have hlt := hsound.lt_size_of_mem hC
    have hscope := t.scope_addSymbol ⟨selector, kind, C, methods.size⟩ fun id s =>
      { s with kind := s.kind.addMethod kind.isClassSide selector id }
    have hsymbol := t.symbol_addSymbol ⟨selector, kind, C, methods.size⟩ fun id s =>
      { s with kind := s.kind.addMethod kind.isClassSide selector id }
    have hmap := methodMap?_addMethod hsound hC hmethods kind selector methods.size
    generalize (t.addSymbol ⟨selector, kind, C, methods.size⟩ _).2 = t'
      at hgrows hscope hsymbol hmap ⊢
    refine ⟨hgrows.classes_eq hsound ?_, fun scope => ?_, ?_, ?_, fun _ => ?_, ?_, ?_⟩
    · rw [hscope, if_neg fun h => hsound.ne_global_of_mem hC h.1.symm]
    · rw [hscope]
      split <;> rfl
    · exact ⟨_, (hmap C _).trans (if_pos ⟨rfl, rfl⟩), .inl (by simp)⟩
    · rintro scope classSide selector' ⟨old, hold, htaken⟩
      rw [IsTaken, hmap]
      grind
    · refine ⟨t.symbols.size, ?_, ?_⟩
      · rw [hscope, if_pos ⟨rfl, hlt⟩]
        exact Array.mem_push_self
      · rw [hsymbol, if_pos rfl]
        exact ⟨rfl, rfl⟩
    · intro scope id hid
      rw [hscope, hsymbol, if_neg (Nat.ne_of_lt (hsound.bounded hid))]
      grind
    · intro scope id hid
      rw [hscope] at hid
      rw [hsymbol]
      have hfree : ¬t.IsTaken C kind.isClassSide selector := by
        rintro ⟨found, hfound, htaken⟩
        grind
      grind
  · rw [if_neg hroom]
    have htaken : t.IsTaken C kind.isClassSide selector :=
      ⟨methods, hmethods, .inr (Nat.not_lt.1 hroom)⟩
    exact ⟨rfl, fun _ => rfl, htaken, fun h => h, fun hfree => absurd htaken hfree,
      fun hid => ⟨hid, rfl⟩, fun hid => .inl ⟨hid, rfl⟩⟩

/-- A method, with code or not, takes its selector and is the only one with it. -/
theorem MethodDeclared.taken_of_mem (hdeclared : t.MethodDeclared C selector kind t')
    (h : t.Records rs R P) {id : SymbolId} (hC' : C' ∈ t'.classes)
    (hid : id ∈ (t'.scope C').symbols) (hkind : (t'.symbol id).kind.isMethodOf classSide = true) :
    t'.IsTaken C' classSide (t'.symbol id).name := by
  rw [hdeclared.classes] at hC'
  rcases hdeclared.symbols hid with ⟨hold, hsymbol⟩ | ⟨rfl, -, hnew, -⟩
  · grind
  · rw [hnew] at hkind ⊢
    have hside : kind.isClassSide = classSide := by
      cases kind <;> first | exact of_decide_eq_true hkind | cases hkind
    exact hside ▸ hdeclared.taken

theorem MethodDeclared.unique (hdeclared : t.MethodDeclared C selector kind t')
    (h : t.Records rs R P) {id id' : SymbolId} (hC' : C' ∈ t'.classes)
    (hid : id ∈ (t'.scope C').symbols) (hid' : id' ∈ (t'.scope C').symbols)
    (hkind : (t'.symbol id).kind.isMethodOf classSide = true)
    (hkind' : (t'.symbol id').kind.isMethodOf classSide = true)
    (hname : (t'.symbol id).name = (t'.symbol id').name) : id = id' := by
  rw [hdeclared.classes] at hC'
  -- An old method with the selector of the new one would have taken it.
  have hclash {old new : SymbolId} (hold : old ∈ (t.scope C').symbols)
      (hsymbol : t'.symbol old = t.symbol old)
      (hnew : t'.symbol new = ⟨selector, kind, C, (t'.symbol new).index⟩)
      (hkold : (t'.symbol old).kind.isMethodOf classSide = true)
      (hknew : (t'.symbol new).kind.isMethodOf classSide = true)
      (hsame : (t'.symbol old).name = (t'.symbol new).name) (hC : C' = C)
      (hfree : ¬t.IsTaken C kind.isClassSide selector) : False := by
    rw [hnew] at hknew hsame
    have hside : kind.isClassSide = classSide := by
      cases kind <;> first | exact of_decide_eq_true hknew | cases hknew
    grind
  rcases hdeclared.symbols hid with ⟨hold, hsymbol⟩ | ⟨hC, hnew, hsymbol, hfree⟩
  · grind
  · grind

/-- **A built-in operation is no method with code.** -/
theorem Records.addPrimitive (h : t.Records rs R P) {p : Primitive} {count : Nat}
    (hdeclared : t.MethodDeclared C selector (.primitive p classSide count) t')
    (hP : P (t.scope C).name selector count) : t'.Records rs R P where
  found {C' id body classSide'} hC' hid hkind := by
    grind
  kept {r} hr := by
    grind
  operation {C' id p' classSide' count'} hC' hid hkind := by
    grind
  taken := hdeclared.taken_of_mem h
  unique := hdeclared.unique h

/-- **A method with code is one more routine.**  If it has become a symbol, there was no routine
with its address before. -/
theorem Records.addMethod (h : t.Records rs R P) (hsound : t.Sound) {body : ScopeId}
    (hC : C ∈ t.classes) (hdeclared : t.MethodDeclared C selector (.method body classSide) t')
    {r : Routine} (hr : r.address = ⟨(t.scope C).name, classSide, selector⟩) (hR : R C body r) :
    t'.Records (rs ++ [r]) R P where
  found {C' id body' classSide'} hC' hid hkind := by
    rw [hdeclared.classes] at hC'
    rw [hdeclared.name, List.find?_append]
    rcases hdeclared.symbols hid with ⟨hold, hsymbol⟩ | ⟨rfl, -, hnew, hfree⟩
    · obtain ⟨q, hq, hRq⟩ := h.found hC' hold (hsymbol ▸ hkind)
      rw [hsymbol, hq]
      exact ⟨q, rfl, hRq⟩
    · rw [hnew] at hkind ⊢
      obtain ⟨rfl, rfl⟩ := SymbolKind.method.inj hkind
      dsimp only
      rw [← hr]
      have hnone : rs.find? (fun q => q.address = r.address) = none := by
        rw [List.find?_eq_none]
        intro q hq haddress
        obtain ⟨C'', hC'', hclass, htaken⟩ := h.kept hq
        rw [of_decide_eq_true haddress, hr] at hclass htaken
        rw [hsound.eq_of_name hC'' hC' hclass] at htaken
        exact hfree htaken
      rw [hnone]
      exact ⟨r, by simp, hR⟩
  kept {q} hq := by
    rcases List.mem_append.1 hq with hq | hq
    · grind
    · obtain rfl := List.mem_singleton.1 hq
      rw [hr]
      exact ⟨C, hdeclared.classes ▸ hC, hdeclared.name C, hdeclared.taken⟩
  operation {C' id p classSide' count} hC' hid hkind := by
    grind
  taken := hdeclared.taken_of_mem h
  unique := hdeclared.unique h

/-- One more method does not take the place of the top-level statements. -/
theorem HasMain.addMethod (h : t.HasMain) (hdeclared : t.MethodDeclared C selector kind t') :
    t'.HasMain := by
  intro C' hC' hname
  rw [hdeclared.classes] at hC'
  rw [hdeclared.name] at hname
  obtain ⟨id, hid, hmain, hkind⟩ := h C' hC' hname
  grind

/-! ### Declaring classes and fields -/

/-- A name that no class has is free in the global scope. -/
theorem Sound.contains_of_classNamed? (h : t.Sound) (hnew : t.classNamed? name = none) :
    (t.scope global).names.contains name = false := by
  rw [Std.TreeMap.contains_eq_isSome_getElem?]
  cases hid : (t.scope global).names[name]? with
  | none => rfl
  | some id =>
    obtain ⟨body, hkind, -⟩ := h.globals.body (h.globals.mem hid).1
    rw [classNamed?, hid, Option.bind_some, classBody?, hkind] at hnew
    cases hnew

/-- **What a new class changes**: it is the last class, and it has no methods yet. -/
@[grind cases]
structure ClassDeclared (t : SymbolTable) (name : String) (t' : SymbolTable) : Prop where
  classes : t'.classes = t.classes ++ [t.scopes.size]
  name : (t'.scope t.scopes.size).name = name
  symbols : (t'.scope t.scopes.size).symbols = #[]
  methods (classSide : Bool) : t'.methodMap? t.scopes.size classSide = some ∅
  same {C : ScopeId} : C ∈ t.classes → t'.scope C = t.scope C

theorem withClass_declared (hsound : t.Sound) (hnew : t.classNamed? name = none)
    {superclass : Option ScopeId} (hsuper : ∀ s, superclass = some s → s ∈ t.classes) :
    t.ClassDeclared name (t.withClass name superclass) := by
  have hopen := hsound.openClass name hsuper
  rw [withClass]
  generalize hkind : ScopeKind.classOf superclass _ ∅ ∅ = kind at hopen ⊢
  have hscope := t.scope_addScope_self name kind global
  have hsize := t.size_addScope name kind global
  have hold {C : ScopeId} (hC : C < t.scopes.size) :
      (t.addScope name kind global).2.scope C = t.scope C :=
    t.scope_addScope_of_ne (Nat.ne_of_lt hC)
  have hgrows := Grows.addScope (Nat.zero_le t.scopes.size) name kind global
  generalize (t.addScope name kind global).2 = t₁ at hopen hscope hsize hold hgrows ⊢
  have hglobal : t₁.scope global = t.scope global := hold hsound.globals.size
  have hclasses := hgrows.classes_eq hsound (by rw [hglobal])
  have hcontains : (t₁.scope global).names.contains name = false := by
    rw [hglobal]
    exact hsound.contains_of_classNamed? hnew
  have hlt : t.scopes.size < t₁.scopes.size := by
    rw [hsize]
    exact Nat.lt_succ_self _
  have hadded := (hopen.globals.addClass hopen hcontains hlt (by rw [hscope, ← hkind]; rfl)
    (by rw [hscope]; rfl) fun C hC => hsound.lt_size_of_mem (hclasses ▸ hC)).2
  -- Only the global scope gets a name.
  have hsame {C : ScopeId} (hC : C ≠ global) :
      (t₁.addNamed ⟨name, .classOf t.scopes.size, global, 0⟩ id).2.scope C = t₁.scope C := by
    rw [addNamed_eq]
    dsimp only
    rw [scope_addSymbol, if_neg fun h => hC h.1]
  rw [declare_class, if_neg (Bool.eq_false_iff.1 hcontains)]
  have hne : t.scopes.size ≠ global := Nat.ne_of_gt hsound.globals.size
  refine ⟨hadded.trans (by rw [hclasses]), ?_, ?_, fun classSide => ?_, fun {C} hC => ?_⟩
  · rw [hsame hne, hscope]
    rfl
  · rw [hsame hne, hscope]
    rfl
  · rw [methodMap?, hsame hne, hscope, ← hkind]
    cases classSide <;> rfl
  · rw [hsame (hsound.ne_global_of_mem hC), hold (hsound.lt_size_of_mem hC)]

theorem ClassDeclared.hasMethod_eq (h : t.ClassDeclared name t') (selector : String)
    (classSide : Bool) : t'.hasMethod t.scopes.size selector classSide = false := by
  rw [hasMethod, h.methods]
  exact Std.TreeMap.contains_emptyc

theorem ClassDeclared.not_isTaken (h : t.ClassDeclared name t') (selector : String)
    (classSide : Bool) : ¬t'.IsTaken t.scopes.size classSide selector := by
  rintro ⟨methods, hmethods, htaken⟩
  rw [h.methods] at hmethods
  obtain rfl := Option.some.inj hmethods
  rcases htaken with htaken | hfull
  · rw [Std.TreeMap.contains_emptyc] at htaken
    cases htaken
  · cases hfull

/-- A new class has no methods. -/
theorem Sound.sameMethods_of_class (hsound : t.Sound) (hdeclared : t.ClassDeclared name t')
    (hgrows : Grows n t t') : t.SameMethods t' := by
  refine ⟨?_, fun C hC => by rw [hdeclared.same hC], fun C hC classSide => ?_, ?_, ?_, ?_⟩
  · rw [hdeclared.classes]
    exact List.subset_append_left _ _
  · rw [methodMap?, hdeclared.same hC, methodMap?]
  · grind
  · grind
  · grind

/-- A field is no method. -/
theorem Sound.sameMethods_of_field (hsound : t.Sound) (hC : C ∈ t.classes) (name : String) :
    t.SameMethods (t.declare C name .field).2 ∧
      (t.declare C name .field).2.classes = t.classes := by
  rw [declare_field t name (hsound.isClass_of_mem hC)]
  split
  · exact ⟨.refl t, rfl⟩
  · split
    case isFalse => exact ⟨.refl t, rfl⟩
    case isTrue =>
      have hharmless := countField_counts.named name
      rw [addNamed_eq]
      dsimp only
      have hscope := t.scope_addSymbol ⟨name, .field, C, (t.scope C).kind.fieldCount⟩ fun id s =>
        countField { s with names := s.names.insert name id }
      have hsymbol := t.symbol_addSymbol ⟨name, .field, C, (t.scope C).kind.fieldCount⟩ fun id s =>
        countField { s with names := s.names.insert name id }
      have halike := t.alike_addSymbol ⟨name, .field, C, (t.scope C).kind.fieldCount⟩ hharmless
      generalize (t.addSymbol ⟨name, .field, C, (t.scope C).kind.fieldCount⟩ _).2 = t'
        at hscope hsymbol halike ⊢
      have hclasses : t'.classes = t.classes := by
        rw [classes, classes, hscope, if_neg fun h => hsound.ne_global_of_mem hC h.1.symm]
        refine List.filterMap_congr fun id hid => ?_
        have hbound := hsound.bounded (Array.mem_toList_iff.1 hid)
        rw [classBody?, classBody?, hsymbol, if_neg (Nat.ne_of_lt hbound)]
      refine ⟨⟨by rw [hclasses]; exact List.Subset.refl _, fun X _ => (halike X).name,
        fun X _ classSide => ?_, fun X hX hnot => absurd (hclasses ▸ hX) hnot, ?_, ?_⟩, hclasses⟩
      · rw [methodMap?, hscope]
        split
        · exact countField_counts.methods? _ _
        · rfl
      · intro X hX id hid
        rw [hscope, hsymbol, if_neg (Nat.ne_of_lt (hsound.bounded hid))]
        split
        · exact ⟨Array.mem_push.2 (.inl hid), rfl⟩
        · exact ⟨hid, rfl⟩
      · intro X hX id hid classSide hmethod
        rw [hclasses] at hX
        rw [hsymbol] at hmethod ⊢
        -- The new symbol is a field, so the method is an old one.
        have hne : id ≠ t.symbols.size := by
          rintro rfl
          rw [if_pos rfl] at hmethod
          cases hmethod
        rw [if_neg hne]
        refine ⟨hX, ?_, rfl⟩
        rw [hscope] at hid
        split at hid
        · exact (Array.mem_push.1 hid).resolve_right hne
        · exact hid

end SymbolTable

/-! ### Declaring what has methods -/

namespace Declaring

variable {t t' : SymbolTable} {s : Declarations} {C D scope : ScopeId}

/-- A method that has a scope, but is not declared in its class yet. -/
theorem openMethod_sound (hsound : t.Sound) (hD : D ∈ t.classes) (selector : String) (side : Bool) :
    (t.addScope selector (.method side 0) D).2.Sound ∧
      Grows 0 t (t.addScope selector (.method side 0) D).2 ∧
      t.SameMethods (t.addScope selector (.method side 0) D).2 ∧
      (t.addScope selector (.method side 0) D).2.classes = t.classes := by
  have hsame : Undisturbed t (t.addScope selector (.method side 0) D).2 :=
    fun _ hi _ => t.scope_addScope_of_ne (Nat.ne_of_lt hi)
  have hgrows := Grows.addScope (Nat.zero_le t.scopes.size) selector (.method side 0) D
  exact ⟨hsound.addScope selector (hsound.lt_size_of_mem hD) (fun _ _ => rfl)
    (fun _ hs => by cases hs) (fun hclass => by cases hclass), hgrows,
    hsound.sameMethods_of_undisturbed hgrows hsame, hsound.classes_of_undisturbed hgrows hsame⟩

/-- **What a method with code does to the methods of a table**: its scope is opened, it is declared,
and then what is inside of it. -/
theorem declareCode_methods (hsound : s.table.Sound) (hC : C ∈ s.table.classes)
    {selector : String} {classSide : Bool}
    (hnew : s.table.hasMethod C selector classSide = false) (parameters : List Token)
    (body : Body Unit) (span : Span) :
    ∃ t t', t.Sound ∧ s.table.SameMethods t ∧ t.classes = s.table.classes ∧
      t.scope C = s.table.scope C ∧
      t.MethodDeclared C selector (.method s.table.scopes.size classSide) t' ∧
      t'.SameMethods (declareCode C selector classSide parameters body span s).2.table ∧
      (declareCode C selector classSide parameters body span s).2.table.classes =
        s.table.classes := by
  have hlt := hsound.lt_size_of_mem hC
  obtain ⟨hopen, -, hsame, hclasses⟩ := openMethod_sound hsound hC selector classSide
  have hdeclared := @declareMethod_declared _ hopen C (hclasses ▸ hC) selector
    (.method s.table.scopes.size classSide) (decide_eq_true rfl)
    ((hsame.hasMethod_eq hC _ _).trans hnew)
  obtain ⟨hsound', -, hopen'⟩ := withMethod_sound hsound (Nat.le_refl _) hlt selector classSide
  have hrun := declareCode_runs s hsound hlt selector classSide parameters body span
  have hgrows' := (hrun.sound hsound' (Nat.le_of_lt hopen'.1)).2
  have hsame' := hrun.undisturbed hsound' (Nat.le_of_lt hopen'.1)
  exact ⟨_, _, hopen, hsame, hclasses, scope_addScope_of_ne _ (Nat.ne_of_lt hlt), hdeclared,
    hsound'.sameMethods_of_undisturbed hgrows' hsame',
    (hsound'.classes_of_undisturbed hgrows' hsame').trans (hdeclared.classes.trans hclasses)⟩

/-- The fields of the newest class are no methods. -/
theorem declareFields_sameMethods (names : List Token) (hsound : s.table.Sound)
    (hC : scope ∈ s.table.classes) (hlast : scope + 1 = s.table.scopes.size) :
    s.table.SameMethods (declareVariables scope .field names s).2.table ∧
      (declareVariables scope .field names s).2.table.classes = s.table.classes := by
  induction names generalizing s with
  | nil => exact ⟨.refl _, rfl⟩
  | cons name names ih =>
    have hclass := hsound.isClass_of_mem hC
    obtain ⟨hfirst, hclasses⟩ := hsound.sameMethods_of_field hC name.name
    obtain ⟨hsound', -, hsize⟩ :=
      declareFields_sound (Nat.le_refl scope) [name] s hsound hlast hclass
    replace hsound' : (declareVariable scope .field name s).2.table.Sound := hsound'
    replace hsize : (declareVariable scope .field name s).2.table.scopes.size =
      s.table.scopes.size := hsize
    rw [← table_declareVariable] at hfirst hclasses
    obtain ⟨hrest, hclasses'⟩ := ih hsound' (hclasses ▸ hC) (hsize ▸ hlast)
    exact ⟨hfirst.trans hrest, hclasses'.trans hclasses⟩

end Declaring

end Smalltalk
