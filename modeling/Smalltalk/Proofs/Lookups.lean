/-
**The same methods before and while a program runs.**

A method can be looked for in two ways. While programs are compiled, the symbols of a class and of
its superclasses are searched, and the code is the one that is kept with the scope of the method.
While they run, the classes are searched, which refer to each other directly and have no methods
but those with code or a built-in operation.

If nothing is wrong with the programs then all methods have code, and so the two ways meet the same
methods in the same order.

* `SymbolTable.AllCoded` — **every method has code**;
* `Compilation.lookups_agree` — **both ways lead to the same code**.
-/

import Smalltalk.Proofs.Modularity
import Smalltalk.Proofs.Selectors

namespace Smalltalk

open SymbolTable

variable {t t' : SymbolTable} {n : Nat} {C : ScopeId}

/-! ### The bodies of methods -/

namespace SymbolTable

variable {body : ScopeId} {classSide : Bool}

/-- The scope is the body of a method of a class, on one of its sides. -/
structure IsBodyOf (t : SymbolTable) (C : ScopeId) (classSide : Bool) (body : ScopeId) : Prop where
  enclosing : (t.scope body).enclosing = some C
  kind : ∃ count, (t.scope body).kind = .method classSide count

theorem IsBodyOf.isMethod (h : t.IsBodyOf C classSide body) :
    (t.scope body).kind.isMethod = true := by
  obtain ⟨count, hkind⟩ := h.kind
  rw [hkind]
  rfl

theorem IsBodyOf.grows (h : t.IsBodyOf C classSide body) (hgrows : Grows n t t') :
    t'.IsBodyOf C classSide body := by
  obtain ⟨count, hkind⟩ := h.kind
  have halike := hgrows.alike (lt_size_of_isMethod h.isMethod)
  refine ⟨halike.enclosing.trans h.enclosing, ?_⟩
  have houtline := halike.kind
  rw [hkind] at houtline
  cases hk : (t'.scope body).kind <;> rw [hk] at houtline <;> cases houtline
  exact ⟨_, rfl⟩

/-- **Every method of a class has the scope of a body.** -/
def BodiesOpened (t : SymbolTable) : Prop :=
  ∀ C ∈ t.classes, ∀ id ∈ (t.scope C).symbols, ∀ body classSide,
    (t.symbol id).kind = .method body classSide → t.IsBodyOf C classSide body

theorem new_bodiesOpened : new.BodiesOpened := fun C hC => by cases hC

theorem BodiesOpened.of_withoutCode (h : t.withoutCode = t'.withoutCode)
    (hopened : t.BodiesOpened) : t'.BodiesOpened := by
  intro C hC id hid body classSide hkind
  rw [classes_of_withoutCode h] at hC
  have hsymbols : (t'.scope C).symbols = (t.scope C).symbols :=
    (congrArg Scope.symbols (scope_eq_of_withoutCode h C).symm :)
  rw [hsymbols] at hid
  rw [← symbol_eq_of_withoutCode h] at hkind
  obtain ⟨henclosing, count, hbody⟩ := hopened C hC id hid body classSide hkind
  exact ⟨(enclosing_of_withoutCode h body).trans henclosing, count,
    (kind_of_withoutCode h body).trans hbody⟩

/-- What is no method leaves the bodies as they are. -/
theorem BodiesOpened.keep (h : t.BodiesOpened) (hsame : t.SameMethods t') (hgrows : Grows n t t') :
    t'.BodiesOpened := by
  intro C hC id hid body classSide hkind
  obtain ⟨hC', hid', hsymbol⟩ := hsame.symbols C hC id hid classSide (by
    rw [hkind]
    exact decide_eq_true rfl)
  rw [hsymbol] at hkind
  exact (h C hC' id hid' body classSide hkind).grows hgrows

theorem BodiesOpened.addMethod (h : t.BodiesOpened) {selector : String} {kind : SymbolKind}
    (hdeclared : t.MethodDeclared C selector kind t') (hgrows : Grows n t t')
    (hkind : ∀ body classSide, kind = .method body classSide → t.IsBodyOf C classSide body) :
    t'.BodiesOpened := by
  intro C' hC' id hid body classSide hsymbolKind
  rw [hdeclared.classes] at hC'
  rcases hdeclared.symbols hid with ⟨hid', hsymbol⟩ | ⟨rfl, -, hsymbol, -⟩
  · rw [hsymbol] at hsymbolKind
    exact (h C' hC' id hid' body classSide hsymbolKind).grows hgrows
  · rw [hsymbol] at hsymbolKind
    exact (hkind body classSide hsymbolKind).grows hgrows

end SymbolTable

namespace Declaring

theorem Step.bodiesOpened (h : Step n t t') (hsound : t.Sound) (hopened : t.BodiesOpened) :
    t'.BodiesOpened := by
  have hgrows := (h.sound hsound).2
  obtain hsame | ⟨u, D, selector, kind, hu, hgrowsu, hsame, hD, hkind, hnew, rfl, hbody⟩ :=
    h.methods hsound
  · exact hopened.keep hsame hgrows
  · refine (hopened.keep hsame hgrowsu).addMethod (declareMethod_declared hu hD hkind hnew)
      (declareMethod_sound hu (Nat.zero_le _) D selector hkind).2 fun body side h => ?_
    exact ⟨(hbody body side h).1, 0, (hbody body side h).2⟩

theorem Run.bodiesOpened (h : Run n t t') (hsound : t.Sound) (hopened : t.BodiesOpened) :
    t'.BodiesOpened :=
  h.keeps hsound hopened fun _ _ hu hstep => hstep.bodiesOpened hu

end Declaring

/-! ### The code of methods -/

/-- **Every method has code**, which is not a built-in operation. -/
def SymbolTable.AllCoded (t : SymbolTable) : Prop :=
  ∀ scope, (t.scope scope).kind.isMethod = true →
    ∃ code, (t.scope scope).code = some code ∧ code.primitive = none

theorem SymbolTable.new_allCoded : new.AllCoded := by
  intro scope hmethod
  cases (scope_new (P := (·.kind.isMethod = false)) rfl rfl scope).symm.trans hmethod

theorem CodeContext.primitive_of_methodCode {c : CodeContext} {job : Job} {code : CompiledCode}
    (h : c.methodCode job = .ok code) : code.primitive = none := by
  obtain ⟨_, _, -, -, buffer, rfl, -⟩ := methodCode_isCode h
  rfl

namespace Compilation

theorem ofPrograms_bodiesOpened (options : CompileOptions) (ps : List Program) :
    (ofPrograms options ps).table.BodiesOpened :=
  ofPrograms_keeps options ps new_bodiesOpened (fun _ _ => BodiesOpened.of_withoutCode)
    fun _ _ hsound hrun hopened => hrun.bodiesOpened hsound hopened

/-- One more program without mistakes has code for all its methods. -/
theorem addFile_allCoded {c : Compilation} (hsound : c.table.Sound) (hcoded : c.table.AllCoded)
    {marks : Bool} {fileName : String} {p : Program}
    (herrors : (c.addFile marks fileName p).errors = #[]) :
    (c.addFile marks fileName p).table.AllCoded := by
  have hfile := addFile_compiled hsound herrors
  intro scope hmethod
  have hdeclared : ((c.declared p).2.table.scope scope).kind.isMethod = true :=
    (congrArg (·.kind.isMethod) (scope_eq_of_withoutCode hfile.withoutCode scope) : _).symm.trans
      hmethod
  rcases Nat.lt_or_ge scope c.table.scopes.size with hlt | hge
  · rw [code_addFile_of_lt hsound hlt]
    exact hcoded scope ((hfile.declares.grows.alike hlt).isMethod.symm.trans hdeclared)
  · have hleads := visits_leads hsound p
    obtain ⟨v, hv, job, hjob, rfl⟩ := hleads.exists_job hsound hge hdeclared
    obtain ⟨code, hcode, hstored⟩ := hfile.code (mem_declared_of_visit hv hjob)
    exact ⟨code, hstored, CodeContext.primitive_of_methodCode hcode⟩

/-- **All methods of programs without mistakes have code.** -/
theorem ofPrograms_allCoded {options : CompileOptions} {ps : List Program}
    (herrors : (ofPrograms options ps).errors = #[]) : (ofPrograms options ps).table.AllCoded := by
  induction ps using List.reverseRecOn with
  | nil =>
    rw [ofPrograms_nil] at herrors ⊢
    rw [start] at herrors ⊢
    split at herrors
    case isTrue hstandard =>
      rw [if_pos hstandard]
      exact addFile_allCoded new_sound new_allCoded herrors
    case isFalse hstandard =>
      rw [if_neg hstandard]
      exact new_allCoded
  | append_singleton ps p ih =>
    rw [ofPrograms_append_singleton] at herrors ⊢
    have hsound := (ofPrograms_sound options ps).1
    exact addFile_allCoded hsound (ih (errors_of_addFile hsound herrors)) herrors

end Compilation

/-! ### Looking for methods -/

/-- The class that is found for a name has that name. -/
theorem SymbolTable.Sound.name_of_classNamed? (hsound : t.Sound) {name : String} {scope : ScopeId}
    (hscope : t.classNamed? name = some scope) : (t.scope scope).name = name := by
  obtain ⟨id, hid, hbody⟩ := Option.bind_eq_some_iff.1 hscope
  obtain ⟨hsymbols, hname⟩ := hsound.globals.mem hid
  obtain ⟨body, hkind, -, -, hbodyName⟩ := hsound.globals.body hsymbols
  rw [classBody?, hkind] at hbody
  obtain rfl := Option.some.inj hbody
  exact hbodyName.trans hname

namespace ClassTable

/-- The class with a name is the one of the scope with that name. -/
theorem get?_ofSymbols_eq (hsound : t.Sound) (name : String) :
    (ofSymbols t).get? name = (t.classNamed? name).map (classAt t) := by
  cases hscope : t.classNamed? name with
  | some scope =>
    rw [← hsound.name_of_classNamed? hscope]
    exact get?_ofSymbols hsound (hsound.mem_of_classNamed? hscope)
  | none =>
    cases hc : (ofSymbols t).get? name with
    | none => rfl
    | some c =>
      obtain ⟨scope, hmem, rfl, -⟩ := exists_of_get?_ofSymbols hsound hc
      rw [hsound.classNamed?_eq hmem] at hscope
      cases hscope

/-- What the two searches for a method find: the same code, or a built-in operation, which counts as
no code for one of them. -/
def SameCode (t : SymbolTable) (m : Method) (id : SymbolId) : Prop :=
  m.code.primitive = none ∧ t.methodCode? id = some m.code ∨
    m.code.primitive.isSome = true ∧ t.methodCode? id = none

section

variable (hsound : t.Sound) (hfound : t.MethodsFound) (hopened : t.BodiesOpened)
  (hcoded : t.AllCoded) (hC : C ∈ t.classes) (selector : String) (classSide : Bool)

include hsound hfound hopened hcoded hC

/-- A class has a method for a selector exactly if its scope has a symbol for it. -/
theorem side_rel : Option.Rel (SameCode t) ((classAt t C).side classSide)[selector]?
      ((t.methodMap? C classSide).bind fun methods => methods[selector]?) := by
  obtain ⟨methods, hmethods⟩ := hsound.exists_methodMap? hC classSide
  rw [side_classAt, getElem?_methodsOf hsound hfound hC hmethods, hmethods, Option.bind_some]
  cases hid : methods[selector]? with
  | none => exact .none
  | some id =>
    rw [Option.bind_some]
    have hmem := (hfound.mem hC hmethods hid).1
    have hmethod : (t.symbol id).kind.isMethodOf classSide = true :=
      (hsound.methods (Option.bind_eq_some_iff.2 ⟨methods, hmethods, hid⟩)).2
    cases hkind : (t.symbol id).kind with
    | method body side =>
      obtain ⟨code, hcode, hprimitive⟩ :=
        hcoded body (hopened C hC id hmem body side hkind).isMethod
      rw [codeOf?, hkind]
      dsimp only
      rw [hcode]
      refine .some (.inl ⟨hprimitive, ?_⟩)
      rw [methodCode?, hkind]
      exact hcode
    | primitive operation side arguments =>
      rw [codeOf?, hkind]
      refine .some (.inr ⟨rfl, ?_⟩)
      rw [methodCode?, hkind]
    | _ =>
      rw [hkind] at hmethod
      cases hmethod

/-- **The two searches stop at the same place.** -/
theorem lookup?_rel : Option.Rel (SameCode t) ((classAt t C).lookup? selector classSide)
      ((t.lineage C).findSome? fun s =>
        (t.methodMap? s classSide).bind fun methods => methods[selector]?) := by
  rw [Class.lookup?, lineage_classAt hsound]
  have hpairs : List.Forall₂ (fun (d : Class) s => s ∈ t.classes ∧ d = classAt t s)
      ((t.lineage C).map (classAt t)) (t.lineage C) :=
    List.forall₂_map_left_iff.2
      (List.forall₂_same.2 fun s hs => ⟨hsound.lineage_subset hC hs, rfl⟩)
  refine Forall₂.findSome? hpairs ?_
  rintro _ s ⟨hs, rfl⟩
  exact side_rel hsound hfound hopened hcoded hs selector classSide

end

end ClassTable

/-! ### Chains of superclasses -/

/-- The chain of superclasses ends with a class that has none. -/
theorem SymbolTable.Sound.getLast?_lineage (hsound : t.Sound) (C : ScopeId) :
    ∃ root, (t.lineage C).getLast? = some root ∧ t.superclass? root = none := by
  induction C using Nat.strongRecOn with
  | ind C ih =>
    rw [hsound.lineage_eq C]
    cases hsuper : t.superclass? C with
    | none => exact ⟨C, rfl, hsuper⟩
    | some s =>
      obtain ⟨root, hroot, hnone⟩ := ih s (hsound.superclass hsuper).1
      grind

namespace Compilation

/-- **Both ways lead to the same code.**  Take any programs that are compiled without mistakes, and
any class, selector and side. What the classes of the running program have for the message is code,
and not a built-in operation, exactly if the symbols have this very code for it; and the symbols
have none exactly if the classes have no method or a built-in operation. Besides, the superclasses
of a class are those of its scope, up to one that has no superclass. -/
theorem lookups_agree {options : CompileOptions} {programs : List Program}
    (herrors : (ofPrograms options programs).errors = #[]) (className selector : String)
    (classSide : Bool) :
    let t := (ofPrograms options programs).table
    let found := ((ClassTable.ofSymbols t).get? className).bind fun cls =>
      (cls.lookup? selector classSide).map Method.code
    (∀ code, found = some code ∧ code.primitive = none ↔
        t.codeOf? className selector classSide = some code) ∧
      (t.codeOf? className selector classSide = none ↔
        found = none ∨ ∃ code, found = some code ∧ code.primitive.isSome = true) ∧
      ∀ cls, (ClassTable.ofSymbols t).get? className = some cls →
        ∃ C, t.classNamed? className = some C ∧
          cls.lineage.map Class.name = (t.lineage C).map (fun s => (t.scope s).name) ∧
          (∃ root, (t.lineage C).getLast? = some root ∧ t.superclass? root = none) ∧
          ∃ root, cls.lineage.getLast? = some root ∧ root.superclass = none := by
  intro t found
  have hsound : t.Sound := (ofPrograms_sound options programs).1
  have hget := ClassTable.get?_ofSymbols_eq hsound className
  have hcodeOf : t.codeOf? className selector classSide =
      (t.classNamed? className).bind fun C => ((t.lineage C).findSome? fun s =>
        (t.methodMap? s classSide).bind fun methods => methods[selector]?).bind t.methodCode? := rfl
  cases hC : t.classNamed? className with
  | none =>
    rw [hC] at hget hcodeOf
    have hnone : found = none := by
      change ((ClassTable.ofSymbols t).get? className).bind _ = none
      rw [hget]
      rfl
    rw [hcodeOf, hnone]
    refine ⟨fun code => ?_, ?_, fun cls hcls => ?_⟩
    · simp
    · simp
    · rw [hget] at hcls
      cases hcls
  | some C =>
    have hmem := hsound.mem_of_classNamed? hC
    rw [hC, Option.map_some] at hget
    have hfound : found = ((ClassTable.classAt t C).lookup? selector classSide).map Method.code := by
      change ((ClassTable.ofSymbols t).get? className).bind _ = _
      rw [hget]
      rfl
    rw [hC, Option.bind_some] at hcodeOf
    have hrel := ClassTable.lookup?_rel hsound (ofPrograms_methodsFound options programs)
      (ofPrograms_bodiesOpened options programs) (ofPrograms_allCoded herrors) hmem selector
      classSide
    refine and_assoc.1 ⟨?_, fun cls hcls => ⟨C, rfl, ?_⟩⟩
    · rw [hcodeOf, hfound]
      generalize (ClassTable.classAt t C).lookup? selector classSide = method at hrel
      generalize (t.lineage C).findSome? _ = symbol at hrel
      cases hrel with
      | none => simp
      | @some m id hsame =>
        rw [Option.bind_some, Option.map_some]
        rcases hsame with ⟨hprimitive, hcode⟩ | ⟨hprimitive, hcode⟩
        · rw [hcode]
          refine ⟨fun code => ⟨fun h => h.1, fun h => ⟨h, ?_⟩⟩, ?_⟩
          · obtain rfl := Option.some.inj h
            exact hprimitive
          · simp [hprimitive]
        · rw [hcode]
          refine ⟨fun code => ⟨fun h => ?_, nofun⟩, ?_⟩
          · obtain rfl := Option.some.inj h.1
            rw [h.2] at hprimitive
            cases hprimitive
          · simp [hprimitive]
    · obtain rfl := Option.some.inj (hget.symm.trans hcls)
      obtain ⟨root, hroot, hnone⟩ := hsound.getLast?_lineage C
      refine ⟨?_, ⟨root, hroot, hnone⟩, ClassTable.classAt t root, ?_, ?_⟩
      · rw [ClassTable.lineage_classAt hsound, List.map_map]
        rfl
      · rw [ClassTable.lineage_classAt hsound, List.getLast?_map, hroot]
        rfl
      · rw [ClassTable.superclass_classAt hsound, hnone]
        rfl

/-- A class, and in a second program a class that inherits code and a built-in operation from it. -/
def inheritedMethods : List Program :=
  [Program.parse "class A [x [^[1] value] asText <primitive: #Object_ASSTRING>]",
    Program.parse "class B : A [x: y [^super x]]"]

/-- What the classes of the two programs have for a message to an object of the second class. -/
def inheritedMethod (selector : String) : Option CompiledCode :=
  ((ClassTable.ofSymbols (ofPrograms ⟨"main.st", true, false⟩ inheritedMethods).table).get?
    "B").bind fun cls => (cls.lookup? selector false).map Method.code

/-- Both are found, but only one of them is code. -/
theorem inheritedMethods_agree :
    (ofPrograms ⟨"main.st", true, false⟩ inheritedMethods).errors = #[] ∧
      (∃ code, inheritedMethod "x" = some code ∧ code.primitive = none ∧
        (ofPrograms ⟨"main.st", true, false⟩ inheritedMethods).table.codeOf? "B" "x" false =
          some code) ∧
      inheritedMethod "asText" ≠ none ∧
      (ofPrograms ⟨"main.st", true, false⟩ inheritedMethods).table.codeOf? "B" "asText" false =
        none := by
  have herrors : (ofPrograms ⟨"main.st", true, false⟩ inheritedMethods).errors = #[] := by
    decide +kernel
  have hcode : (inheritedMethod "x").any (·.primitive.isNone) = true := by decide +kernel
  have hprimitive : (inheritedMethod "asText").any (·.primitive.isSome) = true := by decide +kernel
  obtain ⟨code, hx, hnone⟩ := (Option.any_eq_true _ _).1 hcode
  obtain ⟨operation, htext, hsome⟩ := (Option.any_eq_true _ _).1 hprimitive
  refine ⟨herrors, ⟨code, hx, Option.isNone_iff_eq_none.1 hnone, ?_⟩, by rw [htext]; nofun, ?_⟩
  · exact ((lookups_agree herrors "B" "x" false).1 code).1 ⟨hx, Option.isNone_iff_eq_none.1 hnone⟩
  · exact (lookups_agree herrors "B" "asText" false).2.1.2 (.inr ⟨operation, htext, hsome⟩)

end Compilation

end Smalltalk
