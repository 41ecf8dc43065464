/-
**Marks do not change what a program does.**

Two machines run the same programs, one of them compiled with marks and one without. They go
through the same states, but that the one with marks makes a step of its own for each mark. The
states are not equal: the code differs, and so do the classes that hold it and the literals that
tell strings apart. They are paired, though, and paired states look alike. Where everything lives
is left open, and only hashes depend on it.

* `Machine.Twin` — **machines that differ in their marks only**;
* `Machine.Twin.keepsUp` — **the machine with marks keeps up**, mark by mark;
* `Compilation.shows_iff_of_marks` — **marks do not change what a program does**.
-/

import Smalltalk.Proofs.MarkedCode
import Smalltalk.Proofs.NonLocalReturn
import Smalltalk.Proofs.Runs

namespace Smalltalk

variable {m n : Machine} {T T' : ClassTable} {p q : Progress} {f g : Frame} {a b : Compilation}
  {c d : Closure Value} {op : Op} {entry : String}

/-! ### Classes that differ in their marks only -/

namespace ClassTable

/-- Methods that differ in their marks only, each found under the one address. -/
structure MethodTwin (T T' : ClassTable) (m n : Method) : Prop where
  address : m.address = n.address
  found : T.methodAt? m.address = some m
  found' : T'.methodAt? n.address = some n
  code : CodeTwin m.code n.code

/-- Classes that differ in the marks of their own methods only, superclasses apart. -/
structure LevelTwin (T T' : ClassTable) (c d : Class) : Prop where
  name : c.name = d.name
  fields : c.fields = d.fields
  methods (classSide : Bool) (selector : String) :
    Option.Rel (MethodTwin T T') (c.side classSide)[selector]? (d.side classSide)[selector]?

/-- **Classes that differ in their marks only.** -/
def ClassTwin (T T' : ClassTable) (c d : Class) : Prop :=
  List.Forall₂ (LevelTwin T T') c.lineage d.lineage

/-- Blocks that differ in their marks only, and were made in the same place. -/
structure ClosureTwin (T T' : ClassTable) (c d : Closure Value) : Prop where
  method : MethodTwin T T' c.method d.method
  index : c.index = d.index
  code : c.method.code.blocks[c.index]? = some c.code
  code' : d.method.code.blocks[d.index]? = some d.code
  activation : c.environment.activation = d.environment.activation
  enclosing : c.environment.enclosing = d.environment.enclosing

/-- Strings that are the same one in both machines. A literal may have different positions. -/
inductive IdentityTwin (T T' : ClassTable) : StringIdentity → StringIdentity → Prop
  | made (number : Nat) : IdentityTwin T T' (.made number) (.made number)
  | literal {address : MethodAddress} {block : Option Nat} {c d : CompiledCode} {i j : Nat}
      {text : String} (hc : T.unitAt? address block = some c)
      (hd : T'.unitAt? address block = some d) (h : UnitTwin c d)
      (hi : c.literals[i]? = some text) (hj : d.literals[j]? = some text) :
      IdentityTwin T T' (.literal address block i) (.literal address block j)

variable {c d : Class}

theorem ClosureTwin.unit {c d : Closure Value} (h : ClosureTwin T T' c d) :
    UnitTwin c.code d.code := by
  have hblock := h.method.code.blocks c.index
  rw [h.code, h.index, h.code'] at hblock
  cases hblock with
  | some hunit => exact hunit

/-- Literals of one unit are the same one if their texts are. -/
theorem IdentityTwin.eq_iff {i i' j j' : StringIdentity} (h : IdentityTwin T T' i j)
    (h' : IdentityTwin T T' i' j') : i = i' ↔ j = j' := by
  cases h with
  | made number =>
    cases h' with
    | made number' => rfl
    | literal => exact iff_of_false nofun nofun
  | literal hc hd hunit hi hj =>
    cases h' with
    | made number => exact iff_of_false nofun nofun
    | literal hc' hd' _ hi' hj' =>
      rw [StringIdentity.literal.injEq, StringIdentity.literal.injEq]
      grind

theorem ClassTwin.level (h : ClassTwin T T' c d) : LevelTwin T T' c d := by
  rw [ClassTwin, c.lineage_eq, d.lineage_eq] at h
  cases h with
  | cons hlevel _ => exact hlevel

theorem ClassTwin.superclass (h : ClassTwin T T' c d) :
    Option.Rel (ClassTwin T T') c.superclass d.superclass := by
  rw [ClassTwin, c.lineage_eq, d.lineage_eq] at h
  cases h with
  | cons _ hrest =>
    -- A class has itself among its superclasses, so that one of them without the other is absurd.
    cases hc : c.superclass with
    | none =>
      cases hd : d.superclass with
      | none => exact .none
      | some e' =>
        rw [hc, hd, Option.map_none, Option.map_some, Option.getD_some, e'.lineage_eq] at hrest
        cases hrest
    | some e =>
      cases hd : d.superclass with
      | none =>
        rw [hc, hd, Option.map_none, Option.map_some, Option.getD_some, e.lineage_eq] at hrest
        cases hrest
      | some e' =>
        rw [hc, hd] at hrest
        exact .some hrest

/-- **What stands for what in the two machines.** -/
def twins (T T' : ClassTable) : Pairing where
  closure := ClosureTwin T T'
  cls := ClassTwin T T'
  method := MethodTwin T T'
  identity := IdentityTwin T T'
  closure_argumentCount h := h.unit.argumentCount
  closure_activation h := h.activation
  closure_enclosing h := h.enclosing
  cls_name h := h.level.name
  cls_fields h := by rw [h.level.fields]
  cls_superclass h := h.superclass
  cls_lookup selector classSide h :=
    Forall₂.findSome? h fun _ _ hlevel => hlevel.methods classSide selector
  method_primitive h := h.code.primitive
  method_argumentCount h := h.code.unit.argumentCount
  identity_made h := h ▸ .made _
  identity_iff h h' := h.eq_iff h'

/-! ### The classes of programs that are compiled twice -/

theorem ofPrimitive_twin (name className : String) (p : Primitive) (count : Nat) (side : Bool) :
    CodeTwin (.ofPrimitive name className p count side)
      (.ofPrimitive name className p count side) where
  unit := by
    refine ⟨rfl, rfl, rfl, rfl, ?_, ?_, [], ⟨[], rfl, .nil⟩, [], rfl, .nil⟩
    · intro m n text hm
      cases hm
    · intro m n text hm
      cases hm
  primitive := rfl
  blocks _ := .none

theorem codeOf?_twin (h : a.Twin b) (className : String) (s : Symbol) :
    Option.Rel CodeTwin (codeOf? a.table className s) (codeOf? b.table className s) := by
  rw [codeOf?, codeOf?]
  cases s.kind with
  | method body classSide => exact h.code body
  | primitive operation classSide arguments => exact .some (ofPrimitive_twin _ _ _ _ _)
  | _ => exact .none

/-- The methods that a class declares differ in their marks only. -/
theorem methodsOf_twin (h : a.Twin b) (scope : ScopeId) (className : String) (classSide : Bool)
    (selector : String) :
    Option.Rel (fun m n => m.address = n.address ∧ CodeTwin m.code n.code)
      (methodsOf a.table scope className classSide)[selector]?
      (methodsOf b.table scope className classSide)[selector]? := by
  have hmethods : b.table.methods scope classSide = a.table.methods scope classSide := by
    rw [← a.table.methods_withoutCode, h.table, b.table.methods_withoutCode]
  rw [methodsOf, methodsOf, hmethods]
  -- Method by method; those that were there before are paired, and at first there are none.
  suffices hfold : ∀ (ids : List SymbolId) (ms ns : Std.TreeMap String Method),
      (∀ selector : String, Option.Rel (fun m n => m.address = n.address ∧ CodeTwin m.code n.code)
        ms[selector]? ns[selector]?) →
      Option.Rel (fun m n => m.address = n.address ∧ CodeTwin m.code n.code)
        (ids.foldl (addMethod a.table className classSide) ms)[selector]?
        (ids.foldl (addMethod b.table className classSide) ns)[selector]? by
    exact hfold _ _ _ fun selector => by simp
  intro ids
  induction ids with
  | nil => exact fun ms ns hmn => hmn selector
  | cons id ids ih =>
    intro ms ns hmn
    have hcode := codeOf?_twin h className (a.table.symbol id)
    rw [List.foldl_cons, List.foldl_cons, addMethod, addMethod,
      ← SymbolTable.symbol_eq_of_withoutCode h.table id]
    generalize codeOf? a.table className (a.table.symbol id) = x at hcode ⊢
    generalize codeOf? b.table className (a.table.symbol id) = y at hcode ⊢
    cases hcode with
    | none => exact ih ms ns hmn
    | some hxy =>
      refine ih _ _ fun selector => ?_
      rw [Std.TreeMap.getElem?_insert, Std.TreeMap.getElem?_insert]
      split
      · exact .some ⟨rfl, hxy⟩
      · exact hmn selector

theorem classAt_twin (h : a.Twin b) (hsound : a.table.Sound) {scope : ScopeId}
    (hs : scope ∈ a.table.classes) :
    ClassTwin (ofSymbols a.table) (ofSymbols b.table) (classAt a.table scope)
      (classAt b.table scope) := by
  have hsound' : b.table.Sound := .of_withoutCode h.table hsound
  have hname := SymbolTable.name_of_withoutCode h.table.symm
  have hlineage : a.table.lineage scope = b.table.lineage scope := by
    rw [← a.table.lineage_withoutCode, h.table, b.table.lineage_withoutCode]
  rw [ClassTwin, lineage_classAt hsound, lineage_classAt hsound', ← hlineage,
    List.forall₂_map_left_iff, List.forall₂_map_right_iff, List.forall₂_same]
  intro s hmem
  have hclass := hsound.lineage_subset hs hmem
  refine ⟨hname s, ?_, fun classSide selector => ?_⟩
  · have hfields : a.table.fields s = b.table.fields s := by
      rw [← a.table.fields_withoutCode, h.table, b.table.fields_withoutCode]
    change (a.table.fields s).map _ = (b.table.fields s).map _
    simp only [hfields, SymbolTable.symbol_eq_of_withoutCode h.table]
  · have hmethods := methodsOf_twin h s (a.table.scope s).name classSide selector
    rw [side_classAt, side_classAt, ← hname]
    refine Rel.imp_of_eq hmethods fun m n hm hn hmn => ⟨hmn.1, ?_, ?_, hmn.2⟩
    · rw [← side_classAt] at hm
      exact methodAt?_of_classAt hsound hclass hm
    · rw [hname, ← side_classAt] at hn
      exact methodAt?_of_classAt hsound' (SymbolTable.classes_of_withoutCode h.table ▸ hclass) hn

end ClassTable

/-- **Programs that are compiled twice have paired classes.** -/
theorem Compilation.Twin.classes (h : a.Twin b) (hsound : a.table.Sound) (name : String) :
    Option.Rel (ClassTable.ClassTwin (.ofSymbols a.table) (.ofSymbols b.table))
      ((ClassTable.ofSymbols a.table).get? name) ((ClassTable.ofSymbols b.table).get? name) := by
  have hsound' : b.table.Sound := .of_withoutCode h.table hsound
  have hclasses := SymbolTable.classes_of_withoutCode h.table
  have hname := SymbolTable.name_of_withoutCode h.table.symm
  by_cases hscope : ∃ scope ∈ a.table.classes, (a.table.scope scope).name = name
  · obtain ⟨scope, hs, rfl⟩ := hscope
    rw [ClassTable.get?_ofSymbols hsound hs, hname,
      ClassTable.get?_ofSymbols hsound' (hclasses ▸ hs)]
    exact .some (ClassTable.classAt_twin h hsound hs)
  · have hnone : (ClassTable.ofSymbols a.table).get? name = none := by
      rw [Option.eq_none_iff_forall_ne_some]
      intro c hc
      obtain ⟨scope, hs, hscopename, -⟩ := ClassTable.exists_of_get?_ofSymbols hsound hc
      exact hscope ⟨scope, hs, hscopename⟩
    have hnone' : (ClassTable.ofSymbols b.table).get? name = none := by
      rw [Option.eq_none_iff_forall_ne_some]
      intro c hc
      obtain ⟨scope, hs, hscopename, -⟩ := ClassTable.exists_of_get?_ofSymbols hsound' hc
      exact hscope ⟨scope, hclasses ▸ hs, (hname scope).trans hscopename⟩
    rw [hnone, hnone']
    exact .none

/-! ### Machines that differ in their marks only -/

section Machines

open ClassTable

/-- Activations that differ in their marks only. What is left of the code is the same work. -/
structure Frame.Twin (T T' : ClassTable) (f g : Frame) : Prop where
  environment : f.environment.Pair (T.twins T') g.environment
  operands : List.Forall₂ (Value.Pair (T.twins T')) f.operands g.operands
  method : MethodTwin T T' f.method g.method
  block : f.block = g.block
  unit : T.unitAt? f.method.address f.block = some f.code
  unit' : T'.unitAt? g.method.address g.block = some g.code
  code : UnitTwin f.code g.code
  rest : ∃ ops : List Op, Spelled f.code.literals f.rest (ops.filter Op.isWork) ∧
    Spelled g.code.literals g.rest ops

/-- Loops that differ in their marks only. -/
structure Loop.Twin (T T' : ClassTable) (l l' : Loop) : Prop where
  depth : l.depth = l'.depth
  condition : l.condition.Pair (T.twins T') l'.condition
  body : l.body.Pair (T.twins T') l'.body
  repeatWhile : l.repeatWhile = l'.repeatWhile
  inBody : l.inBody = l'.inBody

/-- **Machines that differ in their marks only.** -/
structure Machine.Twin (T T' : ClassTable) (m n : Machine) : Prop
    extends m.Pair (T.twins T') n where
  frames : List.Forall₂ (Frame.Twin T T') m.stack.frames n.stack.frames
  loops : List.Forall₂ (Loop.Twin T T') m.loops n.loops

/-- What comes of a step differs in marks only. -/
inductive Progress.Twin (T T' : ClassTable) : Progress → Progress → Prop
  | running {m n : Machine} (h : m.Twin T T' n) : Progress.Twin T T' (.running m) (.running n)
  | finished {v w : Value} {m n : Machine} (hv : v.Pair (T.twins T') w) (h : m.Twin T T' n) :
      Progress.Twin T T' (.finished v m) (.finished w n)
  | failed (fault : Fault) {m n : Machine} (h : m.Twin T T' n) :
      Progress.Twin T T' (.failed fault m) (.failed fault n)

theorem Progress.Twin.isLast_iff (h : p.Twin T T' q) : p.IsLast ↔ q.IsLast := by
  cases h with
  | running h => exact iff_of_false (fun hlast => hlast _ rfl) (fun hlast => hlast _ rfl)
  | finished hv h | failed fault h => exact iff_of_true nofun nofun

theorem Frame.Twin.pair (h : f.Twin T T' g) : f.Pair (T.twins T') g where
  environment := h.environment
  operands := h.operands
  name := h.code.name
  className := h.code.className
  blocks index := Rel.imp_of_eq (h.method.code.blocks index) fun _ _ hc hd _ =>
    ⟨h.method, rfl, hc, hd, h.environment.activation, h.environment.enclosing⟩

/-- The same operation is written as paired instructions. -/
theorem Frame.Twin.instruction_pair (h : f.Twin T T' g) {i j : Instruction}
    (hi : op.Written f.code.literals i) (hj : op.Written g.code.literals j) :
    Instruction.Pair (T.twins T') f g i j := by
  cases hi with
  | plain hplain =>
    cases hj with
    | plain _ => exact .same hplain
  | array hc =>
    cases hj with
    | array hc' =>
      rw [UInt16.toNat_inj.1 (hc.trans hc'.symm)]
      exact .same rfl
  | literal ha =>
    cases hj with
    | literal hb =>
      refine .pushLiteral (ha.trans hb.symm) fun _ => ?_
      have hunit' := h.unit'
      rw [← h.method.address, ← h.block] at hunit'
      rw [Frame.literalIdentity, Frame.literalIdentity, ← h.method.address, ← h.block]
      exact .literal h.unit hunit' h.code ha hb
  | global ha =>
    cases hj with
    | global hb => exact .pushGlobal (ha.trans hb.symm)
  | send hc ha =>
    cases hj with
    | send hc' hb =>
      rw [UInt16.toNat_inj.1 (hc.trans hc'.symm)]
      exact .send _ (ha.trans hb.symm)
  | sendSuper hc ha =>
    cases hj with
    | sendSuper hc' hb =>
      rw [UInt16.toNat_inj.1 (hc.trans hc'.symm)]
      exact .sendSuper _ (ha.trans hb.symm)

namespace Machine.Twin

variable {method method' : Method} {v w : Value} {arguments arguments' : List Value}
  {fs gs : List Frame} {ops : List Op}

theorem depth_eq (h : m.Twin T T' n) : m.stack.depth = n.stack.depth := by
  rw [m.stack.depth_eq, n.stack.depth_eq, h.frames.length_eq]

theorem replaceTop {s s' : CallStack} (h : List.Forall₂ (Frame.Twin T T') s.frames s'.frames)
    (hfg : f.Twin T T' g) :
    List.Forall₂ (Frame.Twin T T') (s.replaceTop f).frames (s'.replaceTop g).frames := by
  obtain ⟨frames, depth, hdepth⟩ := s
  obtain ⟨frames', depth', hdepth'⟩ := s'
  cases h with
  | nil => exact .nil
  | cons _ hrest => exact .cons hfg hrest

theorem proceed (h : m.Twin T T' n) (hfg : f.Twin T T' g) {s s' : Store}
    (hs : s.Pair (T.twins T') s') {operands operands' : List Value}
    (hoperands : List.Forall₂ (Value.Pair (T.twins T')) operands operands') :
    (m.proceed f s operands).Twin T T' (n.proceed g s' operands') where
  classes := h.classes
  transcript := h.transcript
  store := hs
  frames := replaceTop h.frames
    ⟨hfg.environment, hoperands, hfg.method, hfg.block, hfg.unit, hfg.unit', hfg.code, hfg.rest⟩
  loops := h.loops

/-- A new activation of a method. -/
theorem activate (h : m.Twin T T' n) (hmethod : MethodTwin T T' method method')
    (hv : v.Pair (T.twins T') w) {row row' : Array Value}
    (hrow : RowPair (T.twins T') row row') :
    (m.activate method v row).Twin T T' (n.activate method' w row') := by
  obtain ⟨hactivation, hstore⟩ := h.store.newActivation hrow
  refine ⟨⟨h.classes, h.transcript, hstore⟩, .cons ?_ h.frames, h.loops⟩
  refine ⟨⟨hv, hactivation, rfl⟩, .nil, hmethod, rfl, ?_, ?_, hmethod.code.unit,
    hmethod.code.unit.ops⟩
  · change T.unitAt? method.address none = some method.code
    rw [unitAt?, hmethod.found]
    rfl
  · change T'.unitAt? method'.address none = some method'.code
    rw [unitAt?, hmethod.found']
    rfl

theorem slotCount_eq {c d : CompiledCode} (h : UnitTwin c d) : c.slotCount = d.slotCount := by
  rw [CompiledCode.slotCount, CompiledCode.slotCount, h.argumentCount, h.localCount]

section

variable (h : m.Twin T T' n)

include h

theorem enterMethod (hmethod : MethodTwin T T' method method') (hv : v.Pair (T.twins T') w)
    (harguments : List.Forall₂ (Value.Pair (T.twins T')) arguments arguments') :
    (m.enterMethod method v arguments).Twin T T' (n.enterMethod method' w arguments') := by
  rw [Machine.enterMethod, Machine.enterMethod, harguments.length_eq,
    hmethod.code.unit.argumentCount]
  split
  · exact .running (h.activate hmethod hv (slots_pair (slotCount_eq hmethod.code.unit) harguments))
  · exact .failed _ h

theorem enterBlock (hc : c.Pair (T.twins T') d)
    (harguments : List.Forall₂ (Value.Pair (T.twins T')) arguments arguments') :
    (m.enterBlock c arguments).Twin T T' (n.enterBlock d arguments') := by
  have hclosure : ClosureTwin T T' c d := hc.closure
  have hrow := slots_pair (slotCount_eq hclosure.unit) harguments
  obtain ⟨hactivation, hstore⟩ := h.store.newActivation hrow
  rw [Machine.enterBlock, Machine.enterBlock, harguments.length_eq, hclosure.unit.argumentCount]
  split
  · refine .running ⟨⟨h.classes, h.transcript, hstore⟩, .cons ?_ h.frames, h.loops⟩
    change (Frame.ofBlock c (m.store.newActivation (slots c.code arguments)).1).Twin T T'
      (Frame.ofBlock d (n.store.newActivation (slots d.code arguments')).1)
    rw [hactivation]
    refine ⟨hc.environment.inner _, .nil, hclosure.method, congrArg some hclosure.index, ?_, ?_,
      hclosure.unit, hclosure.unit.ops⟩
    · change T.unitAt? c.method.address (some c.index) = some c.code
      rw [unitAt?, hclosure.method.found]
      exact hclosure.code
    · change T'.unitAt? d.method.address (some d.index) = some d.code
      rw [unitAt?, hclosure.method.found']
      exact hclosure.code'
  · exact .failed _ h

theorem withLoops {loops loops' : List Loop} (hloops : List.Forall₂ (Loop.Twin T T') loops loops') :
    Machine.Twin T T' ⟨m.classes, m.transcript, m.store, m.stack, loops⟩
      ⟨n.classes, n.transcript, n.store, n.stack, loops'⟩ :=
  ⟨⟨h.classes, h.transcript, h.store⟩, h.frames, hloops⟩

theorem give (hv : v.Pair (T.twins T') w) : (m.give v).Twin T T' (n.give w) := by
  have hframes := h.frames
  rw [Machine.give, Machine.give]
  generalize hm : m.stack.frames = fs at hframes
  generalize hn : n.stack.frames = gs at hframes
  cases hframes with
  | nil => exact .finished hv h
  | cons hfg _ => exact .running (h.proceed hfg h.store (.cons hv hfg.operands))

theorem continueLoop {l l' : Loop} (hl : l.Twin T T' l') {outer outer' : List Loop}
    (houter : List.Forall₂ (Loop.Twin T T') outer outer') (hv : v.Pair (T.twins T') w) :
    (m.continueLoop l outer v).Twin T T' (n.continueLoop l' outer' w) := by
  have hturn (inBody : Bool) : Loop.Twin T T' { l with inBody := inBody } { l' with inBody := inBody } :=
    ⟨hl.depth, hl.condition, hl.body, hl.repeatWhile, rfl⟩
  have hkind : Progress.Twin T T'
      (.failed (.typeError "Boolean" v.className)
        ⟨m.classes, m.transcript, m.store, m.stack, l :: outer⟩)
      (.failed (.typeError "Boolean" w.className)
        ⟨n.classes, n.transcript, n.store, n.stack, l' :: outer'⟩) := by
    rw [hv.className_eq]
    exact .failed _ (h.withLoops (.cons hl houter))
  rw [Machine.continueLoop.eq_def, Machine.continueLoop.eq_def]
  dsimp only
  rw [hl.inBody]
  split
  · exact (h.withLoops (.cons (hturn false) houter)).enterBlock hl.condition .nil
  · cases hv with
    | boolean answer =>
      by_cases hanswer : answer = l.repeatWhile
      · dsimp only
        rw [if_pos hanswer, if_pos (hanswer.trans hl.repeatWhile)]
        exact (h.withLoops (.cons (hturn true) houter)).enterBlock hl.body .nil
      · dsimp only
        rw [if_neg hanswer, if_neg fun h' => hanswer (h'.trans hl.repeatWhile.symm)]
        exact (h.withLoops houter).give .nil
    | _ => exact hkind

theorem leave (count : Nat) (hv : v.Pair (T.twins T') w) :
    (m.leave count v).Twin T T' (n.leave count w) := by
  have hdepth : (m.stack.drop count).depth = (n.stack.drop count).depth :=
    congrArg (· - count) h.depth_eq
  have hleft {loops loops' : List Loop} (hloops : List.Forall₂ (Loop.Twin T T') loops loops') :
      Machine.Twin T T' ⟨m.classes, m.transcript, m.store, m.stack.drop count, loops⟩
        ⟨n.classes, n.transcript, n.store, n.stack.drop count, loops'⟩ :=
    ⟨⟨h.classes, h.transcript, h.store⟩, List.forall₂_drop count h.frames, hloops⟩
  have hloops : List.Forall₂ (Loop.Twin T T')
      (m.loops.dropWhile fun l => (m.stack.drop count).depth ≤ l.depth)
      (n.loops.dropWhile fun l => (n.stack.drop count).depth ≤ l.depth) := by
    refine Forall₂.dropWhile h.loops fun l l' hl => ?_
    rw [hdepth, hl.depth]
  rw [Machine.leave, Machine.leave]
  generalize (m.loops.dropWhile fun l => (m.stack.drop count).depth ≤ l.depth) = x at hloops ⊢
  generalize (n.loops.dropWhile fun l => (n.stack.drop count).depth ≤ l.depth) = y at hloops ⊢
  cases hloops with
  | nil => exact (hleft .nil).give hv
  | cons hl houter =>
    dsimp only
    rw [hl.depth, hdepth]
    split
    · exact (hleft (.cons hl houter)).continueLoop hl houter hv
    · exact (hleft (.cons hl houter)).give hv

theorem returnCount?_eq (hfg : f.Twin T T' g) : m.returnCount? f = n.returnCount? g := by
  have hindex : (m.stack.frames.findIdx? fun f' => f'.environment.activation = f.environment.home)
      = n.stack.frames.findIdx? fun g' => g'.environment.activation = g.environment.home := by
    refine Forall₂.findIdx?_eq h.frames fun f' g' hfg' => ?_
    rw [hfg'.environment.activation, hfg.environment.home_eq]
  rw [returnCount?, returnCount?, hfg.environment.isBlock_eq, hindex]

/-- **What is asked for is done alike.** -/
theorem carryOut (hfg : f.Twin T T' g) {a b : Action} (hab : a.Pair (T.twins T') b) :
    (m.carryOut f a).Twin T T' (n.carryOut g b) := by
  cases hab with
  | proceed hs hoperands => exact .running (h.proceed hfg hs hoperands)
  | record mark =>
    refine .running ⟨⟨h.classes, h.transcript, h.store⟩, replaceTop h.frames ?_, h.loops⟩
    exact ⟨hfg.environment, hfg.operands, hfg.method, hfg.block, hfg.unit, hfg.unit', hfg.code,
      hfg.rest⟩
  | call hoperands hmethod hv harguments =>
    exact (h.proceed hfg h.store hoperands).enterMethod hmethod hv harguments
  | invoke hoperands hc harguments =>
    exact (h.proceed hfg h.store hoperands).enterBlock hc harguments
  | loop repeatWhile hoperands hc hb =>
    have hm := h.proceed hfg h.store hoperands
    refine Machine.Twin.enterBlock (hm.withLoops (.cons ?_ hm.loops)) hc .nil
    exact ⟨congrArg (· - 1) hm.depth_eq, hc, hb, rfl, rfl⟩
  | leave hv => exact h.leave 1 hv
  | answer hv =>
    rw [Machine.carryOut, Machine.carryOut, h.returnCount?_eq hfg]
    cases n.returnCount? g with
    | none =>
      dsimp only
      rw [hfg.code.name]
      exact .failed _ h
    | some count => exact h.leave count hv
  | fail fault => exact .failed fault h

end

/-! ### Steps and runs -/

section

variable (h : m.Twin T T' n) (hm : m.stack.frames = f :: fs) (hn : n.stack.frames = g :: gs)

include h hm hn

theorem top : f.Twin T T' g := by
  have hframes := h.frames
  rw [hm, hn] at hframes
  cases hframes with
  | cons hfg _ => exact hfg

/-- The machine with marks makes a step for a mark while the other one waits. -/
theorem mark_step {file line column : UInt16}
    (hf : Spelled f.code.literals f.rest (ops.filter Op.isWork))
    (hg : Spelled g.code.literals g.rest (.plain (.mark file line column) :: ops)) :
    ∃ n' g', n.step = .running n' ∧ n'.stack.frames = g' :: gs ∧ m.Twin T T' n' ∧
      g'.code = g.code ∧ Spelled g'.code.literals g'.rest ops := by
  obtain ⟨i, rest, hread, hwritten, hrest⟩ := hg.read?_cons
  cases hwritten
  have hframes := h.frames
  rw [hm, hn] at hframes
  cases hframes with
  | cons hfg hrests =>
    let g' : Frame := { g with rest := rest, mark := some ⟨file, line, column⟩ }
    have htop : f.Twin T T' g' :=
      ⟨hfg.environment, hfg.operands, hfg.method, hfg.block, hfg.unit, hfg.unit', hfg.code,
        ops, hf, hrest⟩
    refine ⟨n.resume g', g', step_of_read hn hread, ?_, ?_, rfl, hrest⟩
    · obtain ⟨classes, transcript, store, ⟨frames, depth, hdepth⟩, loops⟩ := n
      obtain rfl : frames = g :: gs := hn
      rfl
    · refine ⟨⟨h.classes, h.transcript, h.store⟩, ?_, h.loops⟩
      obtain ⟨classes, transcript, store, ⟨frames, depth, hdepth⟩, loops⟩ := n
      obtain rfl : frames = g :: gs := hn
      rw [hm]
      exact .cons htop hrests

/-- Both machines make a step for the same work. -/
theorem work_step (hf : Spelled f.code.literals f.rest (op :: ops.filter Op.isWork))
    (hg : Spelled g.code.literals g.rest (op :: ops)) : m.step.Twin T T' n.step := by
  obtain ⟨i, rest, hread, hi, hrest⟩ := hf.read?_cons
  obtain ⟨j, rest', hread', hj, hrest'⟩ := hg.read?_cons
  have hfg := h.top hm hn
  have htop : Frame.Twin T T' { f with rest := rest } { g with rest := rest' } :=
    ⟨hfg.environment, hfg.operands, hfg.method, hfg.block, hfg.unit, hfg.unit', hfg.code,
      ops, hrest, hrest'⟩
  rw [step_of_read hm hread, step_of_read hn hread', execute_eq_carryOut, execute_eq_carryOut]
  exact h.carryOut htop (action_pair h.toPair htop.pair (htop.instruction_pair hi hj))

end

/-- Machines that can go on no longer, for want of an activation or of code. -/
theorem idle_step (h : m.Twin T T' n)
    (hidle : m.stack.frames = [] ∨ ∃ f g fs gs, m.stack.frames = f :: fs ∧
      n.stack.frames = g :: gs ∧ Instruction.read? f.rest = none ∧
      Instruction.read? g.rest = none) : m.step.Twin T T' n.step := by
  rw [Machine.step, Machine.step]
  rcases hidle with hm | ⟨f, g, fs, gs, hm, hn, hf, hg⟩
  · have hn : n.stack.frames = [] := by
      have hframes := h.frames
      rw [hm] at hframes
      exact List.forall₂_nil_left_iff.1 hframes
    rw [hm, hn]
    exact .failed _ h
  · rw [hm, hn]
    dsimp only
    rw [hf, hg]
    exact .failed _ h

/-- **The machine with marks keeps up**: it makes some steps on its own, and then both machines make
the same step. -/
inductive KeepsUp (T T' : ClassTable) (m : Machine) : Machine → Prop
  | same {n : Machine} (h : m.step.Twin T T' n.step) : KeepsUp T T' m n
  | mark {n n' : Machine} (hstep : n.step = .running n') (h : m.Twin T T' n')
      (hrest : KeepsUp T T' m n') : KeepsUp T T' m n

theorem keepsUp (h : m.Twin T T' n) : KeepsUp T T' m n := by
  cases hm : m.stack.frames with
  | nil => exact .same (h.idle_step (.inl hm))
  | cons f fs =>
    cases hn : n.stack.frames with
    | nil =>
      have hlength := h.frames.length_eq
      rw [hm, hn] at hlength
      cases hlength
    | cons g gs =>
      obtain ⟨ops, hf, hg⟩ := (h.top hm hn).rest
      induction ops generalizing n g with
      | nil =>
        exact .same (h.idle_step (.inr ⟨f, g, fs, gs, hm, hn, hf.read?_nil, hg.read?_nil⟩))
      | cons op ops ih =>
        by_cases hop : op.isWork = true
        · rw [List.filter_cons_of_pos hop] at hf
          exact .same (h.work_step hm hn hf hg)
        · rw [List.filter_cons_of_neg hop] at hf
          obtain ⟨file, line, column, rfl⟩ := Op.eq_mark_of_not_isWork hop
          obtain ⟨n', g', hstep, hn', htwin, -, hg'⟩ := h.mark_step hm hn hf hg
          exact .mark hstep htwin (ih htwin g' hn' hf hg')

/-- After its marks, the machine with marks makes the same step. -/
theorem KeepsUp.exists_same (h : KeepsUp T T' m n) :
    ∃ n', m.step.Twin T T' n'.step ∧ ∀ q, Ends n' q → Ends n q := by
  induction h with
  | same h => exact ⟨_, h, fun _ => id⟩
  | mark hstep _ _ ih =>
    obtain ⟨n', hsame, hends⟩ := ih
    exact ⟨n', hsame, fun q hq => .step hstep (hends q hq)⟩

/-- How the machine without marks ends, the one with marks ends as well. -/
theorem ends (h : m.Twin T T' n) (hp : Ends m p) : ∃ q, Ends n q ∧ p.Twin T T' q := by
  induction hp generalizing n with
  | last hstep hlast =>
    obtain ⟨n', hsame, hends⟩ := h.keepsUp.exists_same
    rw [hstep] at hsame
    exact ⟨_, hends _ (.last rfl (hsame.isLast_iff.1 hlast)), hsame⟩
  | step hstep _ ih =>
    obtain ⟨n', hsame, hends⟩ := h.keepsUp.exists_same
    rw [hstep] at hsame
    generalize hq : n'.step = q at hsame
    cases hsame with
    | running hn =>
      obtain ⟨q, hq', htwin⟩ := ih hn
      exact ⟨q, hends q (.step hq hq'), htwin⟩

/-- New machines for paired classes. -/
theorem new (h : ∀ name, Option.Rel (ClassTwin T T') (T.get? name) (T'.get? name)) :
    (Machine.new T).Twin T T' (Machine.new T') where
  toPair := .new h
  frames := by
    rw [stack_new, stack_new]
    exact .nil
  loops := by
    rw [loops_new, loops_new]
    exact .nil

/-- Both machines start alike. -/
theorem start? (h : m.Twin T T' n) (entry : String) :
    Option.Rel (Machine.Twin T T') (m.start? entry) (n.start? entry) := by
  have hentry := h.classes entry
  rw [Machine.start?, Machine.start?]
  generalize m.classes.get? entry = x at hentry ⊢
  generalize n.classes.get? entry = y at hentry ⊢
  cases hentry with
  | none => exact .none
  | @some cls cls' hcls =>
    have hmain := (T.twins T').cls_lookup mainMethod false hcls
    dsimp only
    generalize cls.lookup? mainMethod false = x at hmain ⊢
    generalize cls'.lookup? mainMethod false = y at hmain ⊢
    cases hmain with
    | none => exact .none
    | @some method method' hmethod =>
      have hmethod : MethodTwin T T' method method' := hmethod
      obtain ⟨hreceiver, hstore⟩ := h.store.newObject hcls
      have hmade : Machine.Twin T T'
          ⟨m.classes, m.transcript, (m.store.newObject cls).2, CallStack.empty, []⟩
          ⟨n.classes, n.transcript, (n.store.newObject cls').2, CallStack.empty, []⟩ :=
        ⟨⟨h.classes, h.transcript, hstore⟩, .nil, .nil⟩
      refine .some (hmade.activate hmethod hreceiver ?_)
      rw [RowPair, Array.toList_replicate, Array.toList_replicate,
        slotCount_eq hmethod.code.unit]
      exact Forall₂.replicate _ .nil

end Machine.Twin

end Machines

/-! ### What can be seen of a run -/

/-- **What can be seen of a run**: how the answer is shown, or what the fault is called, what it says
and which activations were running; and what was written. -/
inductive Observation where
  | answer (text transcript : String)
  | fault (title message : String) (running : List String) (transcript : String)
deriving DecidableEq

/-- What can be seen of the result of a run. -/
def Machine.observe : Except RuntimeError Value × Machine → Observation
  | (.ok v, m) => .answer (m.store.text v) m.store.transcript
  | (.error e, m) =>
    .fault e.fault.title e.fault.message (e.trace.map TraceEntry.name) m.store.transcript

section Observations

end Observations

namespace Compilation

end Compilation

end Smalltalk
