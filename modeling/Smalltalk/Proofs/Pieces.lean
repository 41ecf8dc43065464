/-
**Compiling in pieces.**

Sources that consist of definitions of classes can be compiled one after the other, or all at once
as the one source that consists of them. Without places in the code the result is the same, even
if a method uses a class that is defined in a later source: a name that is no variable stays a
global, whether or not there is a class for it by the time the method is written.

A method of the first source is written in a table that knows fewer classes, which does not change
what its names of variables mean. A method of the second source stands further behind, and is
written in a table that is the same but for the code in it.

* `SymbolTable.PartOf.denotes_iff` — **new classes leave old variables alone**;
* `Compilation.pieces_compile` — **compiling in pieces is compiling at once**.
-/

import Smalltalk.Proofs.Joining
import Smalltalk.Proofs.Places
import Smalltalk.Proofs.StandardClasses

namespace Smalltalk

open Declaring SymbolTable

variable {C S : ScopeId} {id : SymbolId} {name : String} {context context' : CodeContext}
  {job : Job} {cs : List (ClassDef Unit)}

/-! ### Variables in a table that grows -/

namespace SymbolTable

variable {t t' : SymbolTable} {n : Nat}

/-- **The variable that a name refers to.** -/
def Denotes (t : SymbolTable) (S : ScopeId) (name : String) (id : SymbolId) : Prop :=
  t.resolve? S name = some id ∧ (t.symbol id).kind.isVariable = true

/-- The variables of a class are its fields and those it inherits. -/
theorem Sound.denotes_class_iff (h : t.Sound) (hclass : (t.scope C).kind.isClass = true) :
    t.Denotes C name id ↔
      ((t.lineage C).findSome? fun s => (t.scope s).names[name]?) = some id := by
  have hfields := h.fields_rel hclass name
  have hresolve {found : SymbolId}
      (hfound : ((t.lineage C).findSome? fun s => (t.scope s).names[name]?) = some found) :
      t.resolve? C name = some found := by
    rw [resolve?, Located.outward_class h hclass, List.findSome?_cons, findIn?, hfound]
    rfl
  constructor
  · rintro ⟨hid, hvariable⟩
    cases hfound : (t.lineage C).findSome? fun s => (t.scope s).names[name]? with
    | some found => rw [← hid, hresolve hfound]
    | none =>
      rw [hfound] at hfields
      generalize hindex : fieldOf? (t.fieldNames C) name = index at hfields
      cases hfields
      rcases Located.resolve?_class h hclass name with ⟨_, _, hsome, -⟩ | ⟨-, hother⟩
      · cases hindex.symm.trans hsome
      · cases (hother id hid).symm.trans hvariable
  · intro hfound
    refine ⟨hresolve hfound, ?_⟩
    rw [hfound] at hfields
    generalize fieldOf? (t.fieldNames C) name = index at hfields
    cases hfields with
    | some hfield => rw [hfield.1]; rfl

/-- A name is one of the method or block itself, or it means what it means around it. -/
theorem Sound.resolve?_activation (h : t.Sound) {outer : ScopeId}
    (hactivation : (t.scope S).kind.isActivation = true)
    (henclosing : (t.scope S).enclosing = some outer) (name : String) :
    t.resolve? S name = (t.scope S).names[name]?.or (t.resolve? outer name) := by
  rw [resolve?, Located.outward_eq_cons h henclosing, List.findSome?_cons,
    Located.findIn?_eq h (ScopeKind.isClass_of_isActivation hactivation), resolve?]
  cases (t.scope S).names[name]? <;> rfl

theorem mem_outward_le (h : t.Sound) {s : ScopeId} (hs : s ∈ t.outward S) : s ≤ S := by
  induction S using Nat.strongRecOn with
  | ind S ih =>
    rw [h.outward_eq, List.mem_cons] at hs
    rcases hs with rfl | hs
    · exact Nat.le_refl _
    · cases houter : (t.scope S).enclosing with
      | none =>
        rw [houter] at hs
        cases hs
      | some outer =>
        grind

/-- The scopes around an old one stay as they were. -/
theorem Sound.outward_grows (h : t.Sound) (h' : t'.Sound) (hgrows : Grows n t t')
    (hS : S < t.scopes.size) : t'.outward S = t.outward S := by
  induction S using Nat.strongRecOn with
  | ind S ih =>
    rw [h.outward_eq S, h'.outward_eq S, (hgrows.alike hS).enclosing]
    cases houter : (t.scope S).enclosing with
    | none => rfl
    | some outer =>
      grind

section Grown

variable (h : t.Sound) (h' : t'.Sound) (hgrows : Grows t.scopes.size t t')

include h h' hgrows

theorem qualifiedName_grows (hS : S < t.scopes.size) :
    t'.qualifiedName S = t.qualifiedName S := by
  have halike {s : ScopeId} (hs : s ∈ t.outward S) : (t.scope s).Alike (t'.scope s) :=
    hgrows.alike (Nat.lt_of_le_of_lt (mem_outward_le h hs) hS)
  have hfilter : ((t.outward S).filter fun s => !(t'.scope s).kind.isGlobal) =
      (t.outward S).filter fun s => !(t.scope s).kind.isGlobal :=
    List.filter_congr fun s hs => by rw [(halike hs).isGlobal]
  simp only [qualifiedName, h.outward_grows h' hgrows hS, hfilter]
  refine congrArg _ (List.map_congr_left fun s hs => (halike ?_).name)
  exact List.mem_of_mem_filter (List.mem_reverse.1 hs)

theorem depth?_grows (hS : S < t.scopes.size) (stop : ScopeId) :
    t'.depth? S stop = t.depth? S stop := by
  have hall : (((t.outward S).takeWhile (· ≠ stop)).all fun s => (t'.scope s).kind.isActivation) =
      ((t.outward S).takeWhile (· ≠ stop)).all fun s => (t.scope s).kind.isActivation := by
    rw [Bool.eq_iff_iff, List.all_eq_true, List.all_eq_true]
    refine forall₂_congr fun s hs => ?_
    have hle := mem_outward_le h ((List.takeWhile_sublist _).subset hs)
    rw [Alike.isActivation (hgrows.alike (Nat.lt_of_le_of_lt hle hS))]
  simp only [depth?, h.outward_grows h' hgrows hS, hall]

/-- A class has the same fields under the same names. -/
theorem denotes_class_grows (hC : C ∈ t.classes) {found : SymbolId} :
    t'.Denotes C name found ↔ t.Denotes C name found := by
  have hclass := h.isClass_of_mem hC
  have hlt := lt_size_of_isClass hclass
  have hnames (s : ScopeId) (hs : s ∈ t.lineage C) :
      (t'.scope s).names[name]? = (t.scope s).names[name]?.map id := by
    have hclass' := h.isClass_of_mem (h.lineage_subset hC hs)
    rw [(hgrows.settled (lt_size_of_isClass hclass')).names
      (ScopeKind.isGlobal_of_isClass hclass'), Option.map_id, id]
  have hfind : ((t.lineage C).map id).findSome? (fun s => (t'.scope s).names[name]?) =
      ((t.lineage C).findSome? fun s => (t.scope s).names[name]?).map id := findSome?_eq_map hnames
  rw [List.map_id, Option.map_id, id] at hfind
  rw [h.denotes_class_iff hclass, h'.denotes_class_iff ((hgrows.alike hlt).isClass.trans hclass),
    h.lineage_grows h' hgrows hlt, hfind]

/-- **New classes leave old variables alone.** -/
theorem PartOf.denotes_iff (hS : t.PartOf C S) (hC : C ∈ t.classes) (hnested : t.Nested) :
    t'.Denotes S name id ↔ t.Denotes S name id := by
  -- One scope further in: the names of the scope itself come first, and they stay.
  have hinner {S outer : ScopeId} (hactivation : (t.scope S).kind.isActivation = true)
      (henclosing : (t.scope S).enclosing = some outer)
      (houter : t'.Denotes outer name id ↔ t.Denotes outer name id) :
      t'.Denotes S name id ↔ t.Denotes S name id := by
    have hlt := lt_size_of_isActivation hactivation
    have halike := hgrows.alike hlt
    have hnames := (hgrows.settled hlt).names (by
      cases hk : (t.scope S).kind <;> rw [hk] at hactivation <;> first | rfl | cases hactivation)
    rw [Denotes, Denotes, h.resolve?_activation hactivation henclosing,
      h'.resolve?_activation ((Alike.isActivation halike).trans hactivation)
        (halike.enclosing.trans henclosing), hnames]
    cases hfound : (t.scope S).names[name]? with
    | none => exact houter
    | some found =>
      have hsymbol := hgrows.symbol (hnested.own hactivation hfound).1
      refine and_congr_right fun hid => ?_
      obtain rfl : found = id := Option.some.inj hid
      rw [hsymbol]
  induction hS with
  | method hkind henclosing =>
    exact hinner (PartOf.method hkind henclosing).isActivation henclosing
      (denotes_class_grows h h' hgrows hC)
  | block hkind henclosing hS ih =>
    exact hinner (PartOf.block hkind henclosing hS).isActivation henclosing ih

end Grown

theorem Closed.lt_of_denotes (hclosed : t.Closed) (h : t.Sound) (hid : t.Denotes S name id) :
    id < t.symbols.size := by
  obtain ⟨s, -, hs⟩ := List.exists_of_findSome?_eq_some hid.1
  rw [findIn?, Option.orElse_eq_orElse, Option.orElse_eq_or, Option.or_eq_some_iff] at hs
  rcases hs with hs | ⟨-, hs⟩
  · obtain ⟨s', -, hs'⟩ := List.exists_of_findSome?_eq_some hs
    exact hclosed.names hs'
  · obtain ⟨s', -, hs'⟩ := List.exists_of_findSome?_eq_some hs
    exact (@Sound.methods t h s' false name id hs').1

/-- Tables with the same names and the same code are the same. -/
theorem eq_of_withoutCode (h : t.withoutCode = t'.withoutCode)
    (hcode : ∀ s, (t.scope s).code = (t'.scope s).code) : t = t' := by
  have hscope (s : ScopeId) : t.scope s = t'.scope s := by
    have hsame := scope_eq_of_withoutCode h s
    have hs := hcode s
    generalize t.scope s = a at hsame hs ⊢
    generalize t'.scope s = b at hsame hs ⊢
    obtain ⟨name, kind, enclosing, symbols, names, slots, arguments, code⟩ := a
    obtain ⟨name', kind', enclosing', symbols', names', slots', arguments', code'⟩ := b
    simp only [Scope.withoutCode, Scope.mk.injEq] at hsame hs ⊢
    grind
  have hscopes : t.scopes = t'.scopes := by
    refine Array.ext (size_eq_of_withoutCode h) fun i hi hi' => ?_
    have hsame := hscope i
    rwa [scope, scope, Array.getD_eq_getD_getElem?, Array.getD_eq_getD_getElem?,
      Array.getElem?_eq_getElem hi, Array.getElem?_eq_getElem hi'] at hsame
  have hsymbols : t.symbols = t'.symbols := (congrArg SymbolTable.symbols h :)
  obtain ⟨scopes, symbols⟩ := t
  obtain ⟨scopes', symbols'⟩ := t'
  grind

/-- An assignment is right exactly if its target is a variable. -/
theorem assignmentError?_eq_none_iff (t : SymbolTable) (S : ScopeId) (target : Token) :
    t.assignmentError? S target = none ↔ ∃ id, t.Denotes S target.name id := by
  rw [assignmentError?]
  constructor
  · intro h
    split at h
    case h_1 id hid =>
      split at h
      case isTrue hvariable => exact ⟨id, hid, hvariable⟩
      case isFalse => cases h
    case h_2 => cases h
  · rintro ⟨id, hid, hvariable⟩
    simp only [hid, hvariable, if_true]

end SymbolTable

/-! ### Parallel scopes -/

namespace CodeContext

variable {c c' : CodeContext}

theorem place?_eq_none (h : ∀ id, ¬c.table.Denotes S name id) : c.place? S name = none := by
  rw [place?]
  cases hid : c.table.resolve? S name with
  | none => rfl
  | some id =>
    have hother : (c.table.symbol id).kind.isVariable ≠ true := fun hkind => h id ⟨hid, hkind⟩
    cases hk : (c.table.symbol id).kind <;> simp only [hk] at hother ⊢ <;> exact absurd rfl hother

/-- Where a variable is depends on what the name refers to and how far away that is. -/
theorem place?_congr
    (hdenotes : ∀ id, c'.table.Denotes S name id ↔ c.table.Denotes S name id)
    (hsymbol : ∀ id, c.table.Denotes S name id → c'.table.symbol id = c.table.symbol id)
    (hdepth : ∀ stop, c'.table.depth? S stop = c.table.depth? S stop) :
    c'.place? S name = c.place? S name := by
  by_cases h : ∃ id, c.table.Denotes S name id
  · obtain ⟨id, hid⟩ := h
    rw [place?, place?, ((hdenotes id).2 hid).1, hid.1]
    simp only [hsymbol id hid, hdepth]
  · have hnone := not_exists.1 h
    rw [place?_eq_none hnone, place?_eq_none fun id hid => hnone id ((hdenotes id).1 hid)]

/-- **The code of a method is parallel to itself** in a table with more classes. -/
theorem parallel_of_grows (hmarks : c.marks = false) (hmarks' : c'.marks = false)
    (h : c.table.Sound) (h' : c'.table.Sound)
    (hgrows : Grows c.table.scopes.size c.table c'.table) (hnested : c.table.Nested)
    (hclosed : c.table.Closed) (hS : c.table.PartOf C S) (hC : C ∈ c.table.classes) :
    c.Parallel c' S S := by
  have hlt := lt_size_of_isActivation hS.isActivation
  have hclass := h.isClass_of_mem hC
  have hClt := lt_size_of_isClass hclass
  have halike := hgrows.alike hlt
  have hsettled := hgrows.settled hlt
  have hkind := halike.kind
  refine ⟨hmarks, hmarks', qualifiedName_grows h h' hgrows hlt, ?_, fun name => ?_, fun index => ?_,
    ?_, hsettled.argumentCount, ?_⟩
  · rw [classNameOf, classNameOf, hS.enclosingClass?_eq h hclass,
      (hS.grows hgrows).enclosingClass?_eq h' ((hgrows.alike hClt).isClass.trans hclass),
      Option.map_some, Option.map_some, (hgrows.alike hClt).name]
  · exact place?_congr (fun id => hS.denotes_iff h h' hgrows hC hnested)
      (fun id hid => hgrows.symbol (hclosed.lt_of_denotes h hid)) (depth?_grows h h' hgrows hlt)
  · generalize (c.table.scope S).kind = k at hkind ⊢
    generalize (c'.table.scope S).kind = k' at hkind ⊢
    cases k <;> cases k' <;> simp_all [ScopeKind.outline]
  · rw [isClassSide, isClassSide]
    generalize (c.table.scope S).kind = k at hkind ⊢
    generalize (c'.table.scope S).kind = k' at hkind ⊢
    cases k <;> cases k' <;> simp_all [ScopeKind.outline]
  · rw [Scope.localCount, Scope.localCount, hsettled.slotCount, hsettled.argumentCount]

/-- The code that a table holds does not matter. -/
theorem parallel_of_withoutCode (hmarks : c.marks = false) (hmarks' : c'.marks = false)
    (h : c'.table.withoutCode = c.table.withoutCode) (S : ScopeId) : c.Parallel c' S S := by
  have hscope (s : ScopeId) := scope_eq_of_withoutCode h s
  have hkind := kind_of_withoutCode h.symm
  have hcount : (c'.table.scope S).argumentCount = (c.table.scope S).argumentCount :=
    (congrArg Scope.argumentCount (hscope S) :)
  have hslots : (c'.table.scope S).slotCount = (c.table.scope S).slotCount :=
    (congrArg Scope.slotCount (hscope S) :)
  have hname := name_of_withoutCode h.symm
  refine ⟨hmarks, hmarks', ?_, ?_, fun name => ?_, fun index => by rw [hkind], ?_, hcount, ?_⟩
  · rw [← c'.table.qualifiedName_withoutCode, h, qualifiedName_withoutCode]
  · rw [classNameOf, classNameOf, ← c'.table.enclosingClass?_withoutCode, h,
      enclosingClass?_withoutCode]
    simp only [hname]
  · rw [place?, place?, ← c'.table.resolve?_withoutCode, h, resolve?_withoutCode]
    simp only [symbol_eq_of_withoutCode h]
    simp only [← c'.table.depth?_withoutCode, h, depth?_withoutCode]
  · rw [isClassSide, isClassSide, hkind]
  · rw [Scope.localCount, Scope.localCount, hslots, hcount]

end CodeContext

/-! ### The same becomes of a method -/

namespace Compilation

open CodeContext

variable {job' : Job}

theorem wrongAssignments_eq_empty_iff (t : SymbolTable) (job : Job) :
    t.wrongAssignments job = #[] ↔
      ∀ a ∈ statementsTargets job.scope job.body.statements, ∃ id, t.Denotes a.1 a.2.name id := by
  rw [wrongAssignments_eq, ← Array.toList_eq_nil_iff, List.filterMap_eq_nil_iff]
  exact forall₂_congr fun a _ => assignmentError?_eq_none_iff _ a.1 a.2

/-- **The same becomes of two methods.** -/
structure Accords (context context' : CodeContext) (job job' : Job) : Prop where
  scope : job'.scope = job.scope
  targets : context'.table.wrongAssignments job' = #[] ↔ context.table.wrongAssignments job = #[]
  code : (context'.methodCode job').mapError CompileError.cause =
    (context.methodCode job).mapError CompileError.cause

namespace Accords

theorem code_eq (h : Accords context context' job job') (code : CompiledCode) :
    context'.methodCode job' = .ok code ↔ context.methodCode job = .ok code := by
  obtain ⟨_, hs, hs'⟩ | ⟨_, _, hs, hs', -⟩ := code_cases h.code <;> rw [hs, hs']
  simp

theorem right_iff (h : Accords context context' job job') :
    Right context' job' ↔ Right context job := and_congr h.targets (exists_congr h.code_eq)

end Accords

/-- A method accords with itself after more classes have been declared. -/
theorem accords_of_grows (hmarks : context.marks = false) (hmarks' : context'.marks = false)
    (h : context.table.Sound) (h' : context'.table.Sound)
    (hgrows : Grows context.table.scopes.size context.table context'.table)
    (hnested : context.table.Nested) (hclosed : context.table.Closed)
    (hC : C ∈ context.table.classes) (hjob : context.table.PartOf C job.scope)
    (hblocks : ∀ b ∈ statementsBlocks job.body.statements, context.table.PartOf C b.1) :
    Accords context context' job job := by
  have hparallel {S : ScopeId} (hS : context.table.PartOf C S) : context.Parallel context' S S :=
    parallel_of_grows hmarks hmarks' h h' hgrows hnested hclosed hS hC
  refine ⟨rfl, ?_, methodCode_mirrors ?_⟩
  · rw [wrongAssignments_eq_empty_iff, wrongAssignments_eq_empty_iff]
    refine forall₂_congr fun a ha => exists_congr fun id => ?_
    rcases statementsTargets_scope job.scope job.body.statements a ha with heq | hmem
    · rw [heq]
      exact hjob.denotes_iff h h' hgrows hC hnested
    · obtain ⟨b, hb, heq⟩ := List.mem_map.1 hmem
      rw [← heq]
      exact (hblocks b hb).denotes_iff h h' hgrows hC hnested
  · exact ⟨hparallel hjob, id, id, id, job.body.statements, fun _ => rfl,
      (Statement.mapAll_id _).symm, (Statement.mapAll_id _).symm,
      fun b hb => hparallel (hblocks b hb)⟩

/-- A method accords with the same one that stands elsewhere. -/
theorem accords_of_moved (hmarks : context.marks = false) (hmarks' : context'.marks = false)
    (htable : context'.table.withoutCode = context.table.withoutCode) {g : Token → Token}
    (hg : ∀ t, (g t).text = t.text) {S : Span → Span → Prop} (hmoved : Job.Moved g S job job') :
    Accords context context' job job' := by
  have hparallel := parallel_of_withoutCode hmarks hmarks' htable
  have hdenotes (S : ScopeId) (name : String) (id : SymbolId) :
      context'.table.Denotes S name id ↔ context.table.Denotes S name id := by
    rw [Denotes, Denotes, ← context'.table.resolve?_withoutCode, htable, resolve?_withoutCode,
      symbol_eq_of_withoutCode htable]
  refine ⟨hmoved.scope, ?_, methodCode_mirrors ?_⟩
  · have htargets := statementsTargets_map (F := id) (f := id) g job.scope job.body.statements
      fun _ _ => rfl
    rw [wrongAssignments_eq_empty_iff, wrongAssignments_eq_empty_iff, hmoved.scope, hmoved.body]
    change (∀ a ∈ statementsTargets (id job.scope) (Statement.mapAll id g _), _) ↔ _
    rw [htargets, List.forall_mem_map]
    refine forall₂_congr fun a _ => exists_congr fun id => ?_
    rw [hdenotes, Token.name_of_text (hg a.2)]
    rfl
  · refine ⟨?_, id, id, g, job.body.statements, hg, (Statement.mapAll_id _).symm,
      congrArg Body.statements hmoved.body, fun b _ => hparallel b.1⟩
    rw [hmoved.scope]
    exact hparallel job.scope

/-! ### Two sources of classes -/

end Compilation

theorem Declaring.declareClasses_append (jobs : Array Job) (cs ds : List (ClassDef Unit))
    (s : Declarations) :
    declareClasses jobs (cs ++ ds) s =
      declareClasses (declareClasses jobs cs s).1 ds (declareClasses jobs cs s).2 := by
  induction cs generalizing jobs s with
  | nil => rfl
  | cons c cs ih =>
    rw [List.cons_append, declareClasses, declareClasses, bind_apply, bind_apply]
    exact ih _ _

theorem Program.Defines.declareProgram_eq {source : String} (h : Program.Defines source cs) :
    declareProgram (Program.parse source) = declareClasses #[] cs := by
  obtain ⟨-, hclasses, hmain⟩ := h.parse
  rw [declareProgram, Program.hasMain, hclasses, hmain]
  rfl

namespace Compilation

variable {c c₁ : Compilation} {a b : String} {ds : List (ClassDef Unit)} {p q : Program}
  {jobs moved : List Job}

/-- **What is declared by two sources and by the one that consists of them**, if there are some
mistakes when the second source comes up. -/
@[grind cases]
structure Joins (k : Nat) (errors : Array CompileError)
    (first second whole : Array Job × Declarations) : Prop where
  jobs : ∃ moved : List Job, whole.1.toList = first.1.toList ++ moved ∧
    List.Forall₂ (Job.Moved (Token.shift k) fun _ _ => True) second.1.toList moved
  table : whole.2.table.withoutCode = second.2.table.withoutCode
  run : Run first.2.table.scopes.size first.2.table whole.2.table
  errors : ∃ fine : Prop, (second.2.errors = #[] ↔ errors = #[] ∧ fine) ∧
    (whole.2.errors = #[] ↔ first.2.errors = #[] ∧ fine)

theorem joins (hsound : c.table.Sound) (ha : Program.Defines a cs) (hb : Program.Defines b ds)
    (hc₁ : c₁.table.withoutCode = (c.declared (.parse a)).2.table.withoutCode) :
    Joins (a.utf8ByteSize + 1) c₁.errors (c.declared (.parse a)) (c₁.declared (.parse b))
      (c.declared (.parse (a ++ "\n" ++ b))) := by
  have hsound' : (c.declared (.parse a)).2.table.Sound := (declared_declares hsound _).sound
  rw [declared, ha.declareProgram_eq] at hc₁ hsound'
  rw [declared, declared, declared, ha.declareProgram_eq, hb.declareProgram_eq,
    (ha.append hb).declareProgram_eq, declareClasses_append]
  generalize declareClasses #[] cs ⟨c.table, c.errors, []⟩ = first at hc₁ hsound' ⊢
  -- The second source is declared from here and from there, where the tables differ in code only.
  obtain ⟨hjobs, htable, new, new', hnew, hnew', hcauses, -⟩ :=
    declareClasses_alike (S := fun _ _ => True)
      ⟨(Token.shift_moves (a.utf8ByteSize + 1)).text, fun _ => trivial, trivial⟩ ds
      (.nil : JobsMoved _ _ #[] #[]) ⟨c₁.table, c₁.errors, []⟩ first.2 hc₁.symm
  generalize ds.map (ClassDef.map (Token.shift (a.utf8ByteSize + 1))) = ds' at *
  have hmoved := congrArg Prod.fst (declareClasses_visits #[] 0 ds' first.2)
  rw [declareClasses_visits first.1 0 ds' first.2]
  refine ⟨⟨(declareClasses #[] ds' first.2).1.toList, ?_, hjobs⟩, htable,
    declareClasses_run hsound' (Nat.le_refl _) #[] ds', ?_⟩
  · rw [hmoved, Array.empty_append, Array.toList_append]
  · have hempty {s s' : Declarations} {es : List CompileError}
        (hes : s'.errors.toList = s.errors.toList ++ es) :
        s'.errors = #[] ↔ s.errors = #[] ∧ es = [] := by
      rw [← Array.toList_eq_nil_iff, hes, List.append_eq_nil_iff, Array.toList_eq_nil_iff]
    have hsame : new' = [] ↔ new = [] := by
      rw [← List.map_eq_nil_iff (f := CompileError.cause), hcauses, List.map_eq_nil_iff]
    have hwhole := hempty hnew'
    rw [hsame] at hwhole
    exact ⟨new = [], hempty hnew, hwhole⟩

/-- **The methods of the first source** get the code that they get in the whole. -/
theorem accords_first (hsound : c.table.Sound) (hnested : c.table.Nested) (hclosed : c.table.Closed)
    (hhomed : c.table.Homed) (fileName : String)
    (hrun : Run (c.declared p).2.table.scopes.size (c.declared p).2.table (c.declared q).2.table)
    (hjob : job ∈ (c.declared p).1.toList) :
    Accords (c.context false fileName p) (c.context false fileName q) job job := by
  have hleads := visits_leads hsound p
  have hsound' := (declared_declares hsound p).sound
  obtain ⟨v, hv, hvjob⟩ := exists_visit_of_mem_declared hjob
  obtain ⟨body, hcodes, -⟩ := Program.codes_of_visit hsound hv hvjob
  have hnested' := hleads.run.nested hsound hnested
  have hclosed' := hleads.run.closed hsound hclosed
  obtain ⟨C, -, hclass, hpart, hblocks⟩ := hcodes.partOf (hleads.later hsound hv).2.1 hnested'
  have hC : C ∈ (c.declared p).2.table.classes :=
    (hleads.run.homed hsound hhomed).listed hclass
  exact accords_of_grows rfl rfl hsound' (hrun.sound hsound') (hrun.grows hsound' (Nat.le_refl _))
    hnested' hclosed' hC hpart hblocks

/-- **The methods of the second source** get the code that those further behind get. -/
theorem accords_second (fileName : String)
    (htable : (c.declared q).2.table.withoutCode = (c₁.declared p).2.table.withoutCode) {k : Nat}
    (hmoved : List.Forall₂ (Job.Moved (Token.shift k) fun _ _ => True) jobs moved) :
    List.Forall₂ (Accords (c₁.context false fileName p) (c.context false fileName q)) jobs moved :=
  hmoved.imp fun _ _ h => accords_of_moved rfl rfl htable (Token.shift_moves k).text h

theorem forall_right_iff (h : List.Forall₂ (Accords context context') jobs moved) :
    (∀ job ∈ moved, Right context' job) ↔ ∀ job ∈ jobs, Right context job := by
  induction h with
  | nil => simp
  | cons haccords _ ih => rw [List.forall_mem_cons, List.forall_mem_cons, haccords.right_iff, ih]

section Sources

variable (hsound : c.table.Sound) (hnested : c.table.Nested) (hclosed : c.table.Closed)
  (hhomed : c.table.Homed) (ha : Program.Defines a cs) (hb : Program.Defines b ds)

include hsound hnested hclosed hhomed ha hb

/-- **Two sources are free of mistakes exactly if the whole is.** -/
theorem errors_pieces_iff (fileName : String) :
    ((c.addFile false fileName (.parse a)).addFile false fileName (.parse b)).errors = #[] ↔
      (c.addFile false fileName (.parse (a ++ "\n" ++ b))).errors = #[] := by
  have hjoins := joins hsound ha hb (c.addFile_withoutCode false fileName (.parse a))
  have hfirst := errors_addFile_eq_empty_iff hsound false fileName (.parse a)
  have hsound₁ := (addFile_sound hsound false fileName (.parse a)).1
  generalize c.addFile false fileName (.parse a) = c₁ at hjoins hfirst hsound₁ ⊢
  obtain ⟨moved, hjobs, hmoved⟩ := hjoins.jobs
  have hsecond := forall_right_iff (accords_second fileName hjoins.table hmoved)
  have hsame (job : Job) (hjob : job ∈ (c.declared (.parse a)).1.toList) :=
    (accords_first hsound hnested hclosed hhomed fileName hjoins.run hjob).right_iff
  rw [errors_addFile_eq_empty_iff hsound₁, errors_addFile_eq_empty_iff hsound, hjobs,
    List.forall_mem_append, hsecond, forall₂_congr hsame]
  obtain ⟨fine, hnew, hnew'⟩ := hjoins.errors
  grind

/-- **The two sources and the whole fill the same table.** -/
theorem table_pieces (fileName : String)
    (herrors : (c.addFile false fileName (.parse (a ++ "\n" ++ b))).errors = #[]) :
    ((c.addFile false fileName (.parse a)).addFile false fileName (.parse b)).table =
      (c.addFile false fileName (.parse (a ++ "\n" ++ b))).table := by
  have herrors' := (errors_pieces_iff hsound hnested hclosed hhomed ha hb fileName).2 herrors
  have hsound' := (addFile_sound hsound false fileName (.parse a)).1
  have hfirst := addFile_compiled hsound (errors_of_addFile hsound' herrors')
  have hjoins := joins hsound ha hb (c.addFile_withoutCode false fileName (.parse a))
  have hwhole := addFile_compiled hsound herrors
  have hsize := size_eq_of_withoutCode (c.addFile_withoutCode false fileName (.parse a))
  generalize c.addFile false fileName (.parse a) = c₁ at *
  generalize c.addFile false fileName (.parse (a ++ "\n" ++ b)) = c' at *
  have hsecond := addFile_compiled hsound' herrors'
  generalize c₁.addFile false fileName (.parse b) = c₂ at *
  obtain ⟨moved, hjobs, hmoved⟩ := hjoins.jobs
  have hmem (job : Job) : job ∈ (c.declared (.parse (a ++ "\n" ++ b))).1.toList ↔
      job ∈ (c.declared (.parse a)).1.toList ∨ job ∈ moved := by rw [hjobs, List.mem_append]
  refine eq_of_withoutCode ?_ fun s => ?_
  · rw [hsecond.withoutCode, hwhole.withoutCode, hjoins.table]
  by_cases hA : ∃ job ∈ (c.declared (.parse a)).1.toList, job.scope = s
  · obtain ⟨job, hjob, rfl⟩ := hA
    obtain ⟨code, hmethod, hcode⟩ := hfirst.code hjob
    obtain ⟨code', hmethod', hcode'⟩ := hwhole.code ((hmem job).2 (.inl hjob))
    have hkept : (c₂.table.scope job.scope).code = (c₁.table.scope job.scope).code := by
      refine hsecond.code_of_ne fun other hother => Nat.ne_of_gt ?_
      have hlt := (hfirst.declares.fresh hjob).2
      have hge : c₁.table.scopes.size ≤ other.scope := (hsecond.declares.fresh hother).1
      rw [hsize] at hge
      exact Nat.lt_of_lt_of_le hlt hge
    have haccords := accords_first hsound hnested hclosed hhomed fileName hjoins.run hjob
    rw [(haccords.code_eq code).2 hmethod] at hmethod'
    rw [hkept, hcode, hcode', Except.ok.inj hmethod']
  by_cases hB : ∃ job ∈ (c₁.declared (.parse b)).1.toList, job.scope = s
  · obtain ⟨job, hjob, rfl⟩ := hB
    obtain ⟨job', hjob', haccords⟩ :=
      Forall₂.exists_left (accords_second fileName hjoins.table hmoved).flip hjob
    obtain ⟨code, hmethod, hcode⟩ := hsecond.code hjob
    obtain ⟨code', hmethod', hcode'⟩ := hwhole.code ((hmem job').2 (.inr hjob'))
    rw [haccords.scope] at hcode'
    rw [(haccords.code_eq code).2 hmethod] at hmethod'
    rw [hcode, hcode', Except.ok.inj hmethod']
  · rw [hsecond.code_of_ne fun job hjob hs => hB ⟨job, hjob, hs⟩,
      hfirst.code_of_ne fun job hjob hs => hA ⟨job, hjob, hs⟩, hwhole.code_of_ne]
    intro job' hjob' hs
    rcases (hmem job').1 hjob' with hjob' | hjob'
    · exact hA ⟨job', hjob', hs⟩
    · obtain ⟨job, hjob, hmoved⟩ := Forall₂.exists_left hmoved hjob'
      exact hB ⟨job, hjob, hmoved.scope.symm.trans hs⟩

end Sources

/-- **Compiling in pieces is compiling at once.**  Two sources of classes that are compiled one
after the other are free of mistakes exactly if the one source is that consists of them, and then
the classes are the same. -/
theorem pieces_compile (options : CompileOptions) (hmarks : options.marks = false)
    (ps : List Program) {a b : String} {cs ds : List (ClassDef Unit)} (ha : Program.Defines a cs)
    (hb : Program.Defines b ds) :
    ((ofPrograms options (ps ++ [.parse a, .parse b])).errors = #[] ↔
      (ofPrograms options (ps ++ [.parse (a ++ "\n" ++ b)])).errors = #[]) ∧
    ((ofPrograms options (ps ++ [.parse (a ++ "\n" ++ b)])).errors = #[] →
      ClassTable.ofSymbols (ofPrograms options (ps ++ [.parse a, .parse b])).table =
        ClassTable.ofSymbols (ofPrograms options (ps ++ [.parse (a ++ "\n" ++ b)])).table) := by
  have htwo : ofPrograms options (ps ++ [.parse a, .parse b]) =
      ((ofPrograms options ps).addFile false options.fileName (.parse a)).addFile false
        options.fileName (.parse b) := by
    rw [← List.singleton_append, ← List.append_assoc, ofPrograms_append_singleton,
      ofPrograms_append_singleton, hmarks]
  rw [htwo, ofPrograms_append_singleton, hmarks]
  have hsound := (ofPrograms_sound options ps).1
  have hnested := ofPrograms_nested options ps
  have hclosed := ofPrograms_closed options ps
  have hhomed := ofPrograms_homed options ps
  exact ⟨errors_pieces_iff hsound hnested hclosed hhomed ha hb options.fileName, fun herrors =>
    congrArg ClassTable.ofSymbols
      (table_pieces hsound hnested hclosed hhomed ha hb options.fileName herrors)⟩

/-! ### A class that is used before it is defined -/

/-- A source with a method that uses a class of the next source. -/
def usesLater : String := "class Maker [| made | make [^[made := Later new] value]] \"done\""

/-- A source with the class in question. -/
def definesLater : String := "class Later : Maker [| x | x [^x - 1] class at: y [^self new]]"

theorem laterClass_compile :
    (∃ cs, Program.Defines usesLater cs) ∧ (∃ ds, Program.Defines definesLater ds) ∧
    (ofPrograms ⟨"main.st", false, false⟩ [.parse usesLater, .parse definesLater]).errors = #[] ∧
    ClassTable.ofSymbols
        (ofPrograms ⟨"main.st", false, false⟩ [.parse usesLater, .parse definesLater]).table =
      ClassTable.ofSymbols (ofPrograms ⟨"main.st", false, false⟩
        [.parse (usesLater ++ "\n" ++ definesLater)]).table := by
  have ha : Program.Defines usesLater _ :=
    Program.defines_of_parse (by decide +kernel) (by decide +kernel) (by decide +kernel)
  have hb : Program.Defines definesLater _ :=
    Program.defines_of_parse (by decide +kernel) (by decide +kernel) (by decide +kernel)
  obtain ⟨hiff, htable⟩ := pieces_compile ⟨"main.st", false, false⟩ rfl [] ha hb
  have herrors : (ofPrograms ⟨"main.st", false, false⟩
      [.parse usesLater, .parse definesLater]).errors = #[] := by decide +kernel
  exact ⟨⟨_, ha⟩, ⟨_, hb⟩, herrors, htable (hiff.1 herrors)⟩

end Compilation

end Smalltalk
