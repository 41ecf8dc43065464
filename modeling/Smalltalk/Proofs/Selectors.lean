/-
**Methods are found by their selectors, as long as there is room for them.**

One side of a class has room for a limited number of methods. A method that is declared while there
is room stays where it is found: later declarations neither replace it nor take it away. A method
that is declared when its side is full is not declared at all, and nothing is reported.

So what becomes of a method that is defined in a program without mistakes depends on the number of
methods that its class defines before it on the same side.

* `Compilation.method_of_definition` — **which methods a class has in the end**.
-/

import Smalltalk.Proofs.CompiledMethods

namespace Smalltalk

open SymbolTable

variable {t t' : SymbolTable} {methods : SymbolMap} {m : MethodDef Unit} {s : Declarations}
  {n : Nat} {classSide side : Bool}

/-! ### One more method -/

namespace Declaring

variable {C D : ScopeId} {selector : String}

/-- Some methods are added to by at most one, which is new and has room. -/
inductive AtMostOneMore (methods : SymbolMap) : SymbolMap → Prop
  | same : AtMostOneMore methods methods
  | more {selector : String} (id : SymbolId) : methods.contains selector = false →
      methods.size < methodCapacity → AtMostOneMore methods (methods.insert selector id)

theorem declareMethod_atMostOneMore (hsound : t.Sound) (hD : D ∈ t.classes) {kind : SymbolKind}
    (hnew : t.hasMethod D selector kind.isClassSide = false)
    (hmethods : t.methodMap? C classSide = some methods) :
    ∃ methods', (t.declareMethod D selector kind).2.methodMap? C classSide = some methods' ∧
      AtMostOneMore methods methods' := by
  obtain ⟨old, hold, hcontains, heq⟩ := declareMethod_eq hsound hD hnew
  rw [heq]
  split
  case isFalse => exact ⟨methods, hmethods, .same⟩
  case isTrue hroom =>
    rw [methodMap?_addMethod hsound hD hold]
    split
    case isFalse => exact ⟨methods, hmethods, .same⟩
    case isTrue h =>
      obtain ⟨rfl, rfl⟩ := h
      rw [hold] at hmethods
      obtain rfl := Option.some.inj hmethods
      exact ⟨_, rfl, .more _ hcontains hroom⟩

/-- **A step adds at most one method** to one side of a class, and takes none away. -/
theorem Step.methodMap? (h : Step n t t') (hsound : t.Sound) (hC : C ∈ t.classes)
    (hmethods : t.methodMap? C classSide = some methods) :
    ∃ methods', t'.methodMap? C classSide = some methods' ∧ AtMostOneMore methods methods' := by
  obtain hsame | ⟨u, D, selector, kind, hu, -, hsame, hD, -, hnew, rfl, -⟩ := h.methods hsound
  · exact ⟨methods, (hsame.methods C hC _).trans hmethods, .same⟩
  · exact declareMethod_atMostOneMore hu hD hnew ((hsame.methods C hC _).trans hmethods)

theorem Step.classes_subset (h : Step n t t') (hsound : t.Sound) : t.classes ⊆ t'.classes := by
  obtain hsame | ⟨u, D, selector, kind, hu, -, hsame, hD, hkind, hnew, rfl, -⟩ := h.methods hsound
  · exact hsame.classes
  · exact (declareMethod_declared hu hD hkind hnew).classes ▸ hsame.classes

theorem Run.classes_subset (h : Run n t t') (hsound : t.Sound) : t.classes ⊆ t'.classes :=
  h.keeps (P := fun u => t.classes ⊆ u.classes) hsound (List.Subset.refl _)
    fun _ _ hu hstep hsub => List.Subset.trans hsub (hstep.classes_subset hu)

section

variable (h : Run n t t') (hsound : t.Sound) (hC : C ∈ t.classes)
  (hmethods : t.methodMap? C classSide = some methods)

include h hsound hC hmethods

/-- **A method stays where it is found.** -/
theorem Run.methodMap?_some {id : SymbolId} (hid : methods[selector]? = some id) :
    ∃ methods', t'.methodMap? C classSide = some methods' ∧ methods'[selector]? = some id := by
  refine (h.keeps (P := fun u => C ∈ u.classes ∧ ∃ methods',
    u.methodMap? C classSide = some methods' ∧ methods'[selector]? = some id) hsound
    ⟨hC, methods, hmethods, hid⟩ ?_).2
  rintro u u' hu hstep ⟨hCu, found, hfound, hidu⟩
  refine ⟨hstep.classes_subset hu hCu, ?_⟩
  obtain ⟨found', hfound', hmore⟩ := hstep.methodMap? hu hCu hfound
  refine ⟨found', hfound', ?_⟩
  cases hmore with
  | same => exact hidu
  | @more other id' hcontains _ =>
    grind

/-- **A full side of a class stays as it is.** -/
theorem Run.methodMap?_full (hfull : methodCapacity ≤ methods.size) :
    t'.methodMap? C classSide = some methods := by
  refine (h.keeps (P := fun u => C ∈ u.classes ∧ u.methodMap? C classSide = some methods) hsound
    ⟨hC, hmethods⟩ ?_).2
  rintro u u' hu hstep ⟨hCu, hfound⟩
  refine ⟨hstep.classes_subset hu hCu, ?_⟩
  obtain ⟨found', hfound', hmore⟩ := hstep.methodMap? hu hCu hfound
  cases hmore with
  | same => exact hfound'
  | more _ _ hroom => exact absurd hroom (Nat.not_lt.2 hfull)

end

end Declaring

/-! ### Symbols and selectors -/

namespace SymbolTable

variable {C : ScopeId} {selector : String} {kind : SymbolKind}

/-- **The methods of a class are those that are found by their selectors.** -/
@[grind cases]
structure MethodsFound (t : SymbolTable) : Prop where
  found {C : ScopeId} {classSide : Bool} {methods : SymbolMap} {id : SymbolId} : C ∈ t.classes →
    t.methodMap? C classSide = some methods → id ∈ (t.scope C).symbols →
      (t.symbol id).kind.isMethodOf classSide = true → methods[(t.symbol id).name]? = some id
  mem {C : ScopeId} {classSide : Bool} {methods : SymbolMap} {selector : String} {id : SymbolId} :
    C ∈ t.classes → t.methodMap? C classSide = some methods → methods[selector]? = some id →
      id ∈ (t.scope C).symbols ∧ (t.symbol id).name = selector

theorem new_methodsFound : new.MethodsFound where
  found hC := by cases hC
  mem hC := by cases hC

/-- What is no method leaves the methods where they are found; a new class has none. -/
theorem MethodsFound.keep (h : t.MethodsFound) (hsame : t.SameMethods t') :
    t'.MethodsFound where
  found {C classSide methods id} hC hmethods hid hkind := by
    grind
  mem {C classSide methods selector id} hC hmethods hid := by
    by_cases hC' : C ∈ t.classes
    · grind
    · grind

/-- A method is where it was when another one has been declared. -/
theorem MethodsFound.kept (h : t.MethodsFound) (hdeclared : t.MethodDeclared C selector kind t')
    {C' : ScopeId} (hC' : C' ∈ t.classes) (hmethods : t.methodMap? C' side = some methods)
    {name : String} {id : SymbolId} (hid : methods[name]? = some id) :
    id ∈ (t'.scope C').symbols ∧ (t'.symbol id).name = name := by
  grind

theorem MethodsFound.addMethod (h : t.MethodsFound) (hsound : t.Sound) (hC : C ∈ t.classes)
    (hkind : kind.isMethodOf kind.isClassSide = true)
    (hfree : t.hasMethod C selector kind.isClassSide = false) :
    (t.declareMethod C selector kind).2.MethodsFound := by
  have hdeclared := declareMethod_declared hsound hC hkind hfree
  obtain ⟨old, hold, hcontains, heq⟩ := declareMethod_eq hsound hC hfree
  rw [heq] at hdeclared ⊢
  split at hdeclared
  case isFalse hroom =>
    rw [if_neg hroom]
    exact h
  case isTrue hroom =>
    rw [if_pos hroom]
    refine ⟨fun {C' side methods id} hC' hmethods hid hmethod => ?_,
      fun {C' side methods name id} hC' hmethods hid => ?_⟩
    · rw [hdeclared.classes] at hC'
      rw [methodMap?_addMethod hsound hC hold] at hmethods
      rcases hdeclared.symbols hid with ⟨hid', hsymbol⟩ | ⟨rfl, rfl, hsymbol, -⟩
      · rw [hsymbol] at hmethod ⊢
        split at hmethods
        case isFalse => exact h.found hC' hmethods hid' hmethod
        case isTrue hsame =>
          obtain ⟨rfl, rfl⟩ := hsame
          obtain rfl := Option.some.inj hmethods
          grind
      · rw [hsymbol] at hmethod ⊢
        obtain rfl : side = kind.isClassSide := by
          cases kind <;> first | exact (of_decide_eq_true hmethod).symm | cases hmethod
        grind
    · rw [hdeclared.classes] at hC'
      rw [methodMap?_addMethod hsound hC hold] at hmethods
      split at hmethods
      case isFalse => exact h.kept hdeclared hC' hmethods hid
      case isTrue hsame =>
        obtain ⟨rfl, rfl⟩ := hsame
        obtain rfl := Option.some.inj hmethods
        rw [Std.TreeMap.getElem?_insert] at hid
        split at hid
        case isFalse => exact h.kept hdeclared hC' hold hid
        case isTrue hname =>
          obtain rfl := Option.some.inj hid
          rw [scope_addSymbol, if_pos ⟨rfl, hsound.lt_size_of_mem hC⟩, symbol_addSymbol, if_pos rfl]
          exact ⟨Array.mem_push_self, by simpa using hname⟩

end SymbolTable

namespace Declaring

theorem Step.methodsFound (h : Step n t t') (hsound : t.Sound) (hfound : t.MethodsFound) :
    t'.MethodsFound := by
  obtain hsame | ⟨u, D, selector, kind, hu, -, hsame, hD, hkind, hnew, rfl, -⟩ := h.methods hsound
  · exact hfound.keep hsame
  · exact (hfound.keep hsame).addMethod hu hD hkind hnew

/-- **What is declared is found.** -/
theorem Run.methodsFound (h : Run n t t') (hsound : t.Sound) (hfound : t.MethodsFound) :
    t'.MethodsFound :=
  h.keeps hsound hfound fun _ _ hu hstep => hstep.methodsFound hu

/-! ### Definitions -/

/-- **What a definition does to the methods of its class**: it is one more method of its side,
unless the side is full. -/
@[grind cases]
structure Added (t : SymbolTable) (C : ScopeId) (selector : String) (kind : SymbolKind)
    (t' : SymbolTable) : Prop where
  fresh {methods : SymbolMap} : t.methodMap? C kind.isClassSide = some methods →
    methods[selector]? = none
  others {side : Bool} : side ≠ kind.isClassSide → t'.methodMap? C side = t.methodMap? C side
  room {methods : SymbolMap} : t.methodMap? C kind.isClassSide = some methods →
    methods.size < methodCapacity → ∃ id < t'.symbols.size, (t'.symbol id).kind = kind ∧
      t'.methodMap? C kind.isClassSide = some (methods.insert selector id)
  full {methods : SymbolMap} : t.methodMap? C kind.isClassSide = some methods →
    methodCapacity ≤ methods.size → t'.methodMap? C kind.isClassSide = some methods

theorem declareMethod_added (hsound : t.Sound) {C : ScopeId} (hC : C ∈ t.classes)
    {selector : String} {kind : SymbolKind}
    (hnew : t.hasMethod C selector kind.isClassSide = false) :
    Added t C selector kind (t.declareMethod C selector kind).2 := by
  obtain ⟨old, hold, hcontains, heq⟩ := declareMethod_eq hsound hC hnew
  rw [heq]
  refine ⟨fun hmethods => ?_, fun hside => ?_, fun hmethods hroom => ?_, fun hmethods hfull => ?_⟩
  · grind
  · split
    · rw [methodMap?_addMethod hsound hC hold, if_neg fun h => hside h.2]
    · rfl
  · rw [hold] at hmethods
    obtain rfl := Option.some.inj hmethods
    rw [if_pos hroom, methodMap?_addMethod hsound hC hold, if_pos ⟨rfl, rfl⟩]
    refine ⟨t.symbols.size, ?_, ?_, rfl⟩
    · rw [size_symbols_addSymbol]
      exact Nat.lt_succ_self _
    · rw [symbol_addSymbol, if_pos rfl]
  · grind

/-- What is declared inside of methods, before or after, makes no difference. -/
theorem Added.within {t₀ t₁ t₂ t₃ : SymbolTable} {C : ScopeId} {selector : String}
    {kind : SymbolKind} (h : Added t₁ C selector kind t₂) (hC : C ∈ t₀.classes)
    (hC' : C ∈ t₂.classes) (hbefore : t₀.SameMethods t₁) (hafter : t₂.SameMethods t₃)
    (hgrows : Grows n t₂ t₃) : Added t₀ C selector kind t₃ := by
  have hfirst := hbefore.methods C hC
  have hlast := hafter.methods C hC'
  refine ⟨fun hm => h.fresh ((hfirst _).trans hm),
    fun hside => (hlast _).trans ((h.others hside).trans (hfirst _)), fun hm hroom => ?_,
    fun hm hfull => (hlast _).trans (h.full ((hfirst _).trans hm) hfull)⟩
  obtain ⟨id, hid, hkind, hmap⟩ := h.room ((hfirst _).trans hm) hroom
  grind

end Declaring

/-- What a definition makes of its selector, given the job that it became. -/
def MethodDef.symbolKind? (m : MethodDef Unit) (job : Option Job) : Option SymbolKind :=
  match m.body with
  | .primitive name => (Primitive.ofName? name.symbolText).map fun operation =>
    .primitive operation m.isClassSide (min m.parameters.length 65535)
  | .code _ => job.map fun job => .method job.scope m.isClassSide

namespace Declaring

variable {C : ScopeId}

/-- **A definition without mistakes** is added to its class. -/
theorem declareMethod_clean (hsound : s.table.Sound) (hC : C ∈ s.table.classes)
    (herrors : (declareMethod C m s).2.errors = #[]) :
    ∃ kind, m.symbolKind? (declareMethod C m s).1 = some kind ∧
      kind.isClassSide = m.isClassSide ∧
      Added s.table C m.selector kind (declareMethod C m s).2.table := by
  rw [declareMethod_apply] at herrors ⊢
  by_cases hold : s.table.hasMethod C m.selector m.isClassSide = true
  · rw [if_pos hold] at herrors
    exact absurd herrors Array.push_ne_empty
  rw [if_neg hold] at herrors ⊢
  rw [Bool.not_eq_true] at hold
  rw [MethodDef.symbolKind?]
  cases hbody : m.body with
  | primitive name =>
    rw [hbody] at herrors
    dsimp only at herrors ⊢
    rw [declarePrimitive] at herrors ⊢
    cases hp : Primitive.ofName? name.symbolText with
    | none =>
      rw [hp] at herrors
      exact absurd herrors Array.push_ne_empty
    | some operation =>
      exact ⟨_, rfl, rfl, declareMethod_added hsound hC hold⟩
  | code body =>
    dsimp only
    obtain ⟨hjob, -⟩ := declareCode_opens hsound (hsound.lt_size_of_mem hC) m.selector
      m.isClassSide m.parameters body m.headerSpan
    have hrun := declareCode_runs s hsound (hsound.lt_size_of_mem hC) m.selector m.isClassSide
      m.parameters body m.headerSpan
    refine ⟨_, rfl, rfl, ?_⟩
    dsimp only
    rw [hjob]
    obtain ⟨hopen, -, hsame, hclasses⟩ := openMethod_sound hsound hC m.selector m.isClassSide
    obtain ⟨hsound', -, hnew⟩ := withMethod_sound hsound (Nat.le_refl _)
      (hsound.lt_size_of_mem hC) m.selector m.isClassSide
    have hadded := @declareMethod_added _ hopen C (hclasses ▸ hC) m.selector
      (.method s.table.scopes.size m.isClassSide)
      ((hsame.hasMethod_eq hC _ _).trans hold)
    have hstep : Step 0 s.table (withMethod s.table C m.selector m.isClassSide) :=
      .method (Nat.zero_le _) hC hold
    have hgrows := (hrun.sound hsound' (Nat.le_of_lt hnew.1)).2
    exact hadded.within hC (hstep.classes_subset hsound hC) hsame
      (hsound'.sameMethods_of_undisturbed hgrows (hrun.undisturbed hsound' (Nat.le_of_lt hnew.1)))
      hgrows

/-- The job of a definition has its body. -/
theorem declareMethod_bare {body : Body Unit} (hbody : m.body = .code body) {job : Job}
    (hjob : (declareMethod C m s).1 = some job) : job.body.map (fun _ => ()) id = body := by
  rw [declareMethod_apply, hbody] at hjob
  split at hjob
  · cases hjob
  · obtain rfl := Option.some.inj hjob
    exact declareCode_bare ..

/-- **The number of methods that are found**: all that were defined, as far as there is room. -/
theorem size_declareMethods (hsound : s.table.Sound) (hC : C ∈ s.table.classes)
    {ms : List (MethodDef Unit)} {jobs : Array Job}
    (herrors : (declareMethods C jobs ms s).2.errors = #[])
    (hmethods : s.table.methodMap? C side = some methods) (hsize : methods.size ≤ methodCapacity) :
    ∃ methods', (declareMethods C jobs ms s).2.table.methodMap? C side = some methods' ∧
      methods'.size =
        min (methods.size + ms.countP fun m => m.isClassSide = side) methodCapacity := by
  induction ms generalizing jobs s methods with
  | nil => exact ⟨methods, hmethods, (Nat.min_eq_left hsize).symm⟩
  | cons m ms ih =>
    rw [declareMethods_cons] at herrors ⊢
    obtain ⟨hrun, hclasses⟩ := declareMethod_run hsound (Nat.zero_le _) hC m
    have hsound' := hrun.sound hsound
    obtain ⟨kind, -, hside, hadded⟩ := declareMethod_clean hsound hC
      ((declareMethods_alike .refl C ms (.refl _)).plain.errors_eq_empty herrors)
    rw [List.countP_cons]
    by_cases hsame : m.isClassSide = side
    · subst hsame
      rw [if_pos (decide_eq_true rfl)]
      rw [← hside] at hmethods
      rcases Nat.lt_or_ge methods.size methodCapacity with hroom | hfull
      · obtain ⟨id, -, -, hmap⟩ := hadded.room hmethods hroom
        have hinsert : (methods.insert m.selector id).size = methods.size + 1 := by
          rw [Std.TreeMap.size_insert, Std.TreeMap.contains_eq_isSome_getElem?,
            hadded.fresh hmethods]
          rfl
        rw [hside] at hmap
        obtain ⟨methods', hmethods', hcount⟩ := ih hsound' (hclasses ▸ hC) herrors hmap
          (hinsert ▸ hroom)
        refine ⟨methods', hmethods', ?_⟩
        rw [hcount, hinsert, Nat.add_right_comm]
        rfl
      · have hmap := hadded.full hmethods hfull
        rw [hside] at hmap
        obtain ⟨methods', hmethods', hcount⟩ := ih hsound' (hclasses ▸ hC) herrors hmap hsize
        refine ⟨methods', hmethods', ?_⟩
        rw [hcount]
        omega
    · rw [if_neg (by simpa using hsame), Nat.add_zero]
      grind

end Declaring

variable {p : Program} {i j : Nat} {c : ClassDef Unit}

/-- The number of methods that a class defines before one of its methods, on one side. -/
def ClassDef.earlier (c : ClassDef Unit) (index : Nat) (side : Bool) : Nat :=
  (c.methods.take index).countP fun m => m.isClassSide = side

open Declaring in
/-- **Where a definition is declared**, in a program without mistakes: in the class with its name,
when as many methods are found as were defined before it, if there was room for them. -/
theorem Program.exists_visit (hsound : s.table.Sound)
    (herrors : (declareProgram p s).2.errors = #[]) (hc : p.classes[i]? = some c)
    (hm : c.methods[j]? = some m) :
    ∃ C, ∃ v ∈ p.visits s, v.part = .method i j ∧
      v.job = (Declaring.declareMethod C m v.before).1 ∧
      v.after = (Declaring.declareMethod C m v.before).2 ∧
      C ∈ v.before.table.classes ∧ (v.before.table.scope C).name = c.name ∧
      ∃ methods, v.before.table.methodMap? C m.isClassSide = some methods ∧
        methods.size = min (c.earlier j m.isClassSide) methodCapacity := by
  have hleads := p.visits_leads hsound
  have hclean {v : Visit} (hv : v ∈ p.visits s) : v.after.errors = #[] := by
    have hprefix := (hleads.later hsound hv).2.2
    grind
  have hvisits {v : Visit} (hv : v ∈ classVisits (0 + i) c
      (declareClasses #[] (p.classes.take i) s).2) : v ∈ p.visits s :=
    List.mem_append_left _ (mem_classesVisits 0 hc hv)
  rw [Nat.zero_add] at hvisits
  -- the header
  generalize (declareClasses #[] (p.classes.take i) s).2 = s₁ at hvisits
  have hheader : ⟨.header i, s₁, (declareHeader c s₁).2, none⟩ ∈ p.visits s :=
    hvisits List.mem_cons_self
  have hsound₁ : s₁.table.Sound := (hleads.later hsound hheader).1
  obtain ⟨-, -, hmistake⟩ | ⟨hC, hrun₁, hmem, -, hsame, -, hname, -⟩ :=
    declareHeader_cases hsound₁ (Nat.zero_le _) c
  · exact absurd (hclean hheader) hmistake
  have hsound₂ := hrun₁.sound hsound₁
  have hmethods := hsame.fresh _ hmem fun h => Nat.lt_irrefl _ (hsound₁.lt_size_of_mem h)
  rw [classVisits, hC] at hvisits
  generalize (declareHeader c s₁).2 = s₂ at *
  generalize s₁.table.scopes.size = C at *
  -- the method
  have hv := hvisits (List.mem_cons_of_mem _
    (List.mem_of_getElem? (getElem?_methodVisits C i 0 s₂ hm)))
  rw [Nat.zero_add] at hv
  obtain ⟨hrun, hclasses⟩ := declareMethods_run (c.methods.take j) #[] hsound₂ (Nat.zero_le C) hmem
  have hgrows := hrun.grows hsound₂ (Nat.zero_le _)
  obtain ⟨methods, hfound, hsize⟩ := size_declareMethods hsound₂ hmem
    ((declareMethod_alike .refl C m).plain.errors_eq_empty (hclean hv)) (hmethods m.isClassSide)
    (Nat.zero_le _)
  refine ⟨C, _, hv, rfl, rfl, rfl, hclasses ▸ hmem, ?_, methods, hfound, ?_⟩
  · exact (hgrows.alike (hsound₂.lt_size_of_mem hmem)).name.trans hname
  · rw [hsize, ClassDef.earlier, Std.TreeMap.size_emptyc, Nat.zero_add]

open Declaring in
/-- **What a definition is found as** when the whole program has been declared without mistakes. -/
theorem Program.symbol_of_definition (hsound : s.table.Sound)
    (herrors : (declareProgram p s).2.errors = #[]) (hc : p.classes[i]? = some c)
    (hm : c.methods[j]? = some m) :
    ∃ C ∈ (declareProgram p s).2.table.classes, ∃ v ∈ p.visits s, ∃ kind methods,
      ((declareProgram p s).2.table.scope C).name = c.name ∧ v.part = .method i j ∧
      (∀ body job, m.body = .code body → v.job = some job →
        job.body.map (fun _ => ()) id = body) ∧
      m.symbolKind? v.job = some kind ∧
      (declareProgram p s).2.table.methodMap? C m.isClassSide = some methods ∧
      if c.earlier j m.isClassSide < methodCapacity then
        ∃ id, methods[m.selector]? = some id ∧
          ((declareProgram p s).2.table.symbol id).kind = kind
      else methods[m.selector]? = none := by
  obtain ⟨C, v, hv, hpart, hjob, hafter, hC, hname, methods, hmethods, hsize⟩ :=
    exists_visit hsound herrors hc hm
  obtain ⟨hsoundv, hrun, hprefix⟩ := (p.visits_leads hsound).later hsound hv
  have hclean : (Declaring.declareMethod C m v.before).2.errors = #[] := by
    grind
  obtain ⟨kind, hkind, hside, hadded⟩ := declareMethod_clean hsoundv hC hclean
  obtain ⟨hrunv, hclasses⟩ := declareMethod_run hsoundv (Nat.zero_le C) hC m
  rw [← hafter] at hadded hrunv hclasses
  rw [← hside] at hmethods
  have hsounda := hrunv.sound hsoundv
  have hgrowsa := hrunv.grows hsoundv (Nat.zero_le _)
  have hCa : C ∈ v.after.table.classes := hclasses ▸ hC
  have hgrows := hrun.grows hsounda (Nat.zero_le _)
  have hnamed : ((declareProgram p s).2.table.scope C).name = c.name := by
    rw [(hgrows.alike (hsounda.lt_size_of_mem hCa)).name,
      (hgrowsa.alike (hsoundv.lt_size_of_mem hC)).name, hname]
  have hbare (body : Body Unit) (job : Job) (hbody : m.body = .code body)
      (h : v.job = some job) : job.body.map (fun _ => ()) id = body :=
    declareMethod_bare hbody (hjob ▸ h)
  have hfinal : C ∈ (declareProgram p s).2.table.classes :=
    hrun.classes_subset hsounda hCa
  by_cases hroom : c.earlier j m.isClassSide < methodCapacity
  · obtain ⟨id, hid, hsymbol, hmap⟩ := hadded.room hmethods (by omega)
    have hinserted : (methods.insert m.selector id)[m.selector]? = some id := by simp
    obtain ⟨methods', hmethods', hid'⟩ :=
      hrun.methodMap?_some hsounda hCa hmap hinserted
    grind
  · have hfull : methodCapacity ≤ methods.size := by omega
    have hmap := hrun.methodMap?_full hsounda hCa (hadded.full hmethods hfull) hfull
    refine ⟨C, hfinal, v, hv, kind, methods, hnamed, hpart, hbare, hjob ▸ hkind, hside ▸ hmap, ?_⟩
    rw [if_neg hroom]
    exact hadded.fresh hmethods

/-! ### The classes of a program -/

namespace ClassTable

/-- **A method of a class is found by its selector**, if it has code. -/
theorem getElem?_methodsOf (hsound : t.Sound) (hfound : t.MethodsFound) {C : ScopeId}
    (hC : C ∈ t.classes) (hmethods : t.methodMap? C classSide = some methods)
    (className selector : String) :
    (methodsOf t C className classSide)[selector]? = methods[selector]?.bind fun id =>
      (codeOf? t className (t.symbol id)).map fun code =>
        ⟨⟨className, classSide, selector⟩, code⟩ := by
  -- what is in the table was found by the selector
  have honly {m : Method} (hm : (methodsOf t C className classSide)[selector]? = some m) :
      ∃ id, methods[selector]? = some id ∧ codeOf? t className (t.symbol id) = some m.code ∧
        m.address = ⟨className, classSide, selector⟩ := by
    obtain ⟨haddress, id, hid, hname, hcode⟩ := exists_of_getElem?_methodsOf hm
    obtain ⟨hid, hkind⟩ := List.mem_filter.1 hid
    grind
  cases hm : (methodsOf t C className classSide)[selector]? with
  | some m =>
    obtain ⟨id, hid, hcode, haddress⟩ := honly hm
    rw [hid, Option.bind_some, hcode, Option.map_some, ← haddress]
  | none =>
    cases hid : methods[selector]? with
    | none => rfl
    | some id =>
      obtain ⟨hmem, hname⟩ := hfound.mem hC hmethods hid
      have hmethod : (t.scope C).kind.method? classSide selector = some id := by
        rw [methodMap?] at hmethods
        rw [ScopeKind.method?, hmethods]
        exact hid
      have hkind := (hsound.methods hmethod).2
      cases hcode : codeOf? t className (t.symbol id) with
      | none => rw [Option.bind_some, hcode, Option.map_none]
      | some code =>
        have hsome := @isSome_getElem?_methodsOf t C className classSide id
          (List.mem_filter.2 ⟨Array.mem_toList_iff.2 hmem, hkind⟩) (by rw [hcode]; rfl)
        rw [hname, hm] at hsome
        cases hsome

end ClassTable

namespace Compilation

theorem MethodsFound.of_withoutCode (h : t.withoutCode = t'.withoutCode) (hfound : t.MethodsFound) :
    t'.MethodsFound :=
  hfound.keep (.of_withoutCode h)

theorem ofPrograms_methodsFound (options : CompileOptions) (ps : List Program) :
    (ofPrograms options ps).table.MethodsFound :=
  ofPrograms_keeps options ps new_methodsFound (fun _ _ => MethodsFound.of_withoutCode)
    fun _ _ hsound hrun => hrun.methodsFound hsound

/-- **Which methods a class has in the end.**  When a program has been compiled without mistakes,
after any others: for every method that a class of it defines, the class has the method under its
selector, with the code that was written for its body or with the operation that it names, if the
class defines less than `methodCapacity` methods before it on the same side; and otherwise it has no
method with the selector, although nothing was reported. -/
theorem method_of_definition {options : CompileOptions} {ps : List Program} {p : Program}
    (hclean : (ofPrograms options (ps ++ [p])).errors = #[]) {i j : Nat} {c : ClassDef Unit}
    (hc : p.classes[i]? = some c) {m : MethodDef Unit} (hm : c.methods[j]? = some m) :
    ∃ cls, (ClassTable.ofSymbols (ofPrograms options (ps ++ [p])).table).get? c.name = some cls ∧
      if c.earlier j m.isClassSide < methodCapacity then
        ∃ code, (cls.side m.isClassSide)[m.selector]? =
            some ⟨⟨c.name, m.isClassSide, m.selector⟩, code⟩ ∧
          match m.body with
          | .primitive name => ∃ operation, Primitive.ofName? name.symbolText = some operation ∧
              code = CompiledCode.ofPrimitive (c.name ++ ">>" ++ m.selector) c.name operation
                (min m.parameters.length 65535) m.isClassSide
          | .code body => ∃ v ∈ (ofPrograms options ps).visits p, ∃ job,
              v.part = .method i j ∧ v.job = some job ∧ job.body.map (fun _ => ()) id = body ∧
              ((ofPrograms options ps).context options.marks options.fileName p).methodCode job =
                .ok code
      else (cls.side m.isClassSide)[m.selector]? = none := by
  have hfound := ofPrograms_methodsFound options (ps ++ [p])
  have hsound' := (ofPrograms_sound options (ps ++ [p])).1
  have hsound := (ofPrograms_sound options ps).1
  rw [ofPrograms_append_singleton] at hclean hfound hsound' ⊢
  generalize ofPrograms options ps = before at hclean hfound hsound hsound' ⊢
  have hfile := addFile_compiled hsound hclean
  generalize before.addFile options.marks options.fileName p = after at hfile hfound hsound' ⊢
  have hsame := hfile.withoutCode
  have hclasses : after.table.classes = (before.declared p).2.table.classes := by
    rw [← after.table.classes_withoutCode, hsame, classes_withoutCode]
  have hsymbol := symbol_eq_of_withoutCode hsame
  obtain ⟨C, hC, v, hv, kind, methods, hname, hpart, hbare, hkind, hmethods, hmethod⟩ :=
    Program.symbol_of_definition hsound hfile.clean hc hm
  change C ∈ (before.declared p).2.table.classes at hC
  rw [← hclasses] at hC
  replace hname : (after.table.scope C).name = c.name :=
    (congrArg Scope.name (scope_eq_of_withoutCode hsame C) : _).trans hname
  replace hmethods : after.table.methodMap? C m.isClassSide = some methods :=
    (congrArg (·.kind.methods? m.isClassSide) (scope_eq_of_withoutCode hsame C) : _).trans hmethods
  refine ⟨_, hname ▸ ClassTable.get?_ofSymbols hsound' hC, ?_⟩
  rw [ClassTable.side_classAt, hname, ClassTable.getElem?_methodsOf hsound' hfound hC hmethods]
  split at hmethod
  case isFalse hfull => rw [if_neg hfull, hmethod, Option.bind_none]
  case isTrue hroom =>
    obtain ⟨id, hid, hidkind⟩ := hmethod
    replace hidkind : (after.table.symbol id).kind = kind := hsymbol id ▸ hidkind
    have hidname := (hfound.mem hC hmethods hid).2
    rw [if_pos hroom, hid, Option.bind_some, ClassTable.codeOf?, hidkind, hidname]
    rw [MethodDef.symbolKind?] at hkind
    cases hbody : m.body with
    | primitive name =>
      rw [hbody] at hkind
      obtain ⟨operation, hoperation, rfl⟩ := Option.map_eq_some_iff.1 hkind
      exact ⟨_, rfl, operation, hoperation, rfl⟩
    | code body =>
      rw [hbody] at hkind
      obtain ⟨job, hjob, rfl⟩ := Option.map_eq_some_iff.1 hkind
      obtain ⟨code, hcode, hstored⟩ := hfile.code (mem_declared_of_visit hv hjob)
      refine ⟨code, ?_, v, hv, job, hpart, hjob, hbare body job hbody hjob, hcode⟩
      dsimp only
      rw [hstored]
      rfl

/-- A class with a method on each side, one of which is a built-in operation. -/
def twoSided : Program := Program.parse
  "class A [asText <primitive: #Object_ASSTRING> class make [^[self new] value]] A make"

/-- The second method is there in the end, although it has the code of a block. -/
theorem twoSided_methods :
    (ofPrograms ⟨"main.st", false, false⟩ [twoSided]).errors = #[] ∧
      ∃ cls code, (ClassTable.ofSymbols
          (ofPrograms ⟨"main.st", false, false⟩ [twoSided]).table).get? "A" = some cls ∧
        (cls.side true)["make"]? = some ⟨⟨"A", true, "make"⟩, code⟩ := by
  have hclean : (ofPrograms ⟨"main.st", false, false⟩ ([] ++ [twoSided])).errors = #[] := by
    decide +kernel
  have hdefined : (twoSided.classes[0]?.map fun c => (c.name, c.earlier 1 true,
      c.methods[1]?.map fun m => (m.isClassSide, m.selector))) =
        some ("A", 0, some (true, "make")) := by decide +kernel
  obtain ⟨c, hc, hdefined⟩ := Option.map_eq_some_iff.1 hdefined
  obtain ⟨hname, hearlier, hdefined⟩ := by simpa using hdefined
  obtain ⟨m, hm, hside, hselector⟩ := hdefined
  obtain ⟨cls, hcls, hmethod⟩ := method_of_definition hclean hc hm
  rw [hside, hearlier, if_pos (by decide), hname, hselector] at hmethod
  obtain ⟨code, hcode, -⟩ := hmethod
  exact ⟨hclean, cls, code, hname ▸ hcls, hcode⟩

end Compilation

end Smalltalk
