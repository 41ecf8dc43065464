/-
**What the operations of a tree ask for.**

The machine makes a step in two parts: its operation asks for something, and then it is done. What
an operation asks for depends on the innermost activation, on its operands and on the store only.
So it can be compared with the meaning of a tree without a run: the operation that reads a name asks
for what the name denotes, and the operation that sends a message asks for what the message means.

* `Action.Does` — **an action that does what was evaluated**;
* `Meaning.send_does` — **a message asks for what it means**.
-/

import Smalltalk.Proofs.Realizing

namespace Smalltalk

open ClassTable

variable {s : Store} {m : Machine} {x : Site} {T : ClassTable} {programs : List Program}
  {call : Calling} {operands : List Value} {v v' : Value} {N : Naming} {r : Routine} {f : Frame}

/-! ### What a message asks for -/

/-- **An action that does what was evaluated** in a store, for an activation with some operands. -/
inductive Action.Does (P : Pairing) (call : Calling) (active : List Nat) (s : Store)
    (operands : List Value) : Action → Evaluation Value → Prop
  | value {v v' : Value} {t t' : Store} (hv : v.Pair P v') (ht : t.Pair P t') :
      Action.Does P call active s operands (.proceed t' (v' :: operands)) (.value v t)
  | fault (reason : Fault) :
      Action.Does P call active s operands (.fail reason) (.fault reason s)
  | method {m n : Method} {v v' : Value} {arguments arguments' : List Value} (hm : P.method m n)
      (hprimitive : n.code.primitive = none) (hv : v.Pair P v')
      (harguments : List.Forall₂ (Value.Pair P) arguments arguments') :
      Action.Does P call active s operands (.call operands n v' arguments')
        (call (.method m v arguments) active s)
  | block {c d : Closure Value} {arguments arguments' : List Value} (hc : c.Pair P d)
      (harguments : List.Forall₂ (Value.Pair P) arguments arguments') :
      Action.Does P call active s operands (.invoke operands d arguments')
        (call (.block c arguments) active s)
  | loop {c d b b' : Closure Value} (repeatWhile : Bool) (hc : c.Pair P d) (hb : b.Pair P b') :
      Action.Does P call active s operands (.loop operands d b' repeatWhile)
        (call (.loop c b repeatWhile) active s)

section Messages

variable {P : Pairing} {active : List Nat} {s' : Store}

section

variable {α β : Type} {R : α → β → Prop} {k : α → Evaluation Value} {k' : β → Action}

theorem Action.attempt_does {x : Except Fault α} {y : Except Fault β} (h : Agree R x y)
    (hk : ∀ a b, R a b → (k' b).Does P call active s operands (k a)) :
    (Action.attempt y k').Does P call active s operands (Evaluation.attempt x s k) := by
  cases h with
  | ok hab => exact hk _ _ hab
  | error reason => exact .fault reason

theorem Action.need_does (fault : Fault) {x : Option α} {y : Option β} (h : Option.Rel R x y)
    (hk : ∀ a b, R a b → (k' b).Does P call active s operands (k a)) :
    (Action.need fault y k').Does P call active s operands (Evaluation.need fault x s k) := by
  cases h with
  | none => exact .fault fault
  | some hab => exact hk _ _ hab

end

namespace Meaning

variable {arguments arguments' : List Value}

theorem reply_does (hs : s.Pair P s') {reply reply' : Reply} (h : reply.Pair P reply') :
    (Action.ofReply s' operands reply').Does P call active s operands
      (Meaning.reply call active s reply) := by
  cases h with
  | value hv => exact .value hv hs
  | newString text => exact .value (hs.newString text).1 (hs.newString text).2
  | newArray hitems => exact .value (hs.newArray hitems).1 (hs.newArray hitems).2
  | newObject hcls => exact .value (hs.newObject hcls).1 (hs.newObject hcls).2
  | setItem array index hv => exact .value hv (hs.setItem array index hv)
  | writeLine text hv => exact .value hv (hs.writeLine text)
  | invoke hc harguments => exact .block hc harguments
  | loop repeatWhile hc hbody => exact .loop repeatWhile hc hbody

theorem perform_does (hs : s.Pair P s') (p : Primitive) (hv : v.Pair P v')
    (harguments : List.Forall₂ (Value.Pair P) arguments arguments') :
    (Action.ofPrimitive s' operands p v' arguments').Does P call active s operands
      (perform call active p v arguments s) :=
  Action.attempt_does (p.perform_pair hs hv harguments) fun _ _ => reply_does hs

/-- **A message asks for what it means.** -/
theorem send_does {world : Machine} (h : (world.withStore s).Pair P m) (toSuper : Bool)
    (selector : String) (hv : v.Pair P v')
    (harguments : List.Forall₂ (Value.Pair P) arguments arguments') :
    (m.messageAction toSuper x.method.address.className selector operands v' arguments').Does P call
      x.active s operands (send world call x toSuper selector v arguments s) := by
  have hs : s.Pair P m.store := h.store
  have hmethod : Agree P.method (world.methodFor toSuper x.method.address.className v selector)
      (m.methodFor toSuper x.method.address.className v' selector) :=
    Machine.methodFor_pair h toSuper _ hv selector
  rw [Machine.messageAction, send, hv.builtin?_eq, harguments.length_eq]
  cases (if toSuper then none else v'.builtin? selector arguments'.length) with
  | some p => exact perform_does hs p hv harguments
  | none =>
    refine Action.attempt_does hmethod fun a b hab => ?_
    rw [P.method_primitive hab]
    cases hprimitive : b.code.primitive with
    | some p => exact perform_does hs p hv harguments
    | none => exact .method hab hprimitive hv harguments

end Meaning

end Messages

/-! ### Activations of a routine -/

namespace Machine

/-- A machine for the classes in which no loop waits. -/
structure Fair (T : ClassTable) (m : Machine) : Prop where
  classes : m.classes = T
  transcript : m.transcript = (Machine.new T).transcript
  calm : m.Calm

theorem Fair.pair (hT : T.Implements programs) (h : m.Fair T)
    (hs : s.Pair (T.pairing programs) m.store) :
    ((Machine.new T.bare).withStore s).Pair (T.pairing programs) m where
  classes name := by
    change Option.Rel _ ((Machine.new T.bare).classes.get? name) _
    rw [classes_new, h.classes]
    exact hT.get?_pair name
  transcript := by
    rw [h.transcript]
    exact hT.new_pair.transcript
  store := hs

end Machine

/-- **An activation in which a tree of the site is run**: `r` is the method, and `N` tells the
operations of its trees. -/
structure Site.Hosts (T : ClassTable) (programs : List Program) (N : Naming) (r : Routine) (x : Site)
    (f : Frame) : Prop where
  method : ∃ span, T.HasMethod programs f.method r N span
  routine : r.unit? f.block = some x.routine
  code : f.method.unit? f.block = some f.code
  address : x.method.address = f.method.address
  environment : x.environment.Pair (T.pairing programs) f.environment
  chain : f.environment.chain.length = x.routine.scopes.length

/-- **An operation that asks for what was evaluated**, in each activation that has come to it: of the
operands, `operands₀` are left. -/
def Site.Asks (T : ClassTable) (programs : List Program) (N : Naming) (r : Routine) (x : Site)
    (call : Calling) (op : Op) (s : Store) (operands operands₀ : List Value)
    (o : Evaluation Value) : Prop :=
  ∀ (g : Frame) (m : Machine) (i : Instruction), x.Hosts T programs N r g → g.operands = operands →
    m.Fair T → s.Pair (T.pairing programs) m.store → op.Written g.code.literals i →
    (m.action g i).Does (T.pairing programs) call x.active s operands₀ o

/-! ### What the operations of a tree ask for -/

namespace Site.Hosts

open Machine

theorem hasUnit (h : x.Hosts T programs N r f) :
    T.HasUnit programs f.method f.block f.code r x.routine := by
  obtain ⟨span, hmethod⟩ := h.method
  exact ⟨⟨N, span, hmethod⟩, h.routine, h.code⟩

theorem routine_address (hT : T.Implements programs) (h : x.Hosts T programs N r f) :
    x.routine.address = f.method.address := by
  obtain ⟨span, hmethod⟩ := h.method
  have hfit := h.hasUnit.fit hT
  have hroutine := h.routine
  cases hblock : f.block with
  | none =>
    rw [hblock] at hroutine
    obtain rfl := Option.some.inj hroutine
    exact hmethod.address
  | some n =>
    rw [hblock] at hroutine
    exact (Routine.Has.inside hroutine hfit.isMethod.block hfit.isMethod.scopes).address.trans
      hmethod.address

theorem className (hT : T.Implements programs) (h : x.Hosts T programs N r f) :
    f.code.className = x.method.address.className := by
  obtain ⟨ops, hunit, -⟩ := h.hasUnit.unitAs hT
  rw [hunit.className, h.routine_address hT, h.address]

theorem slotNamed?_eq (h : x.Hosts T programs N r f) (name : String) :
    x.slotNamed? name = (slotOf? x.routine.scopes name).bind fun found =>
      f.environment.chain[found.1]?.map fun a => (a, found.2) := by
  rw [Site.slotNamed?, h.environment.chain_eq, slotIn?_eq h.chain]

theorem fieldNamed?_eq (h : x.Hosts T programs N r f) (name : String) :
    x.fieldNamed? T.bare name = fieldOf? N.fields name := by
  obtain ⟨span, hmethod⟩ := h.method
  obtain ⟨cls, hcls, hfields⟩ := hmethod.fields
  rw [Site.fieldNamed?, h.address, get?_bare, hcls, ← hfields, ← Class.fields_bare]
  rfl

/-- A text of the code stands for the string of its text. -/
theorem identity (hT : T.Implements programs) (h : x.Hosts T programs N r f) {i : Nat}
    {text : String} (hi : f.code.literals[i]? = some text) :
    IdentityMeant T (.literal x.method.address x.routine.block (textNumber text))
      (.literal f.method.address f.block i) := by
  obtain ⟨span, hmethod⟩ := h.method
  obtain ⟨ops, hunit, -⟩ := h.hasUnit.unitAs hT
  rw [h.address, (h.hasUnit.nested hT).2]
  refine .literal ?_ ⟨_, ops, hunit⟩ hi
  have hcode := h.code
  rw [ClassTable.unitAt?, hmethod.found]
  cases hblock : f.block with
  | none | some n =>
    rw [hblock] at hcode
    exact hcode

end Site.Hosts

namespace Site

open Machine

variable {name : String} {depth index : Nat}

theorem literal_asks (hT : T.Implements programs) (value : Literal) :
    x.Asks T programs N r call (CodeContext.literalOp value) s operands operands
      (.value (x.literal value) s) := by
  intro g m i hg hoperands hm hs hop
  subst hoperands
  have htext {text : String} {i : Instruction} (hop : (Op.literal text).Written g.code.literals i) :
      (m.action g i).Does (T.pairing programs) call x.active s g.operands
        (.value (.string (.literal x.method.address x.routine.block (textNumber text)) text) s) := by
    cases hop with
    | @literal _ a ha =>
      have hliteral : g.code.literal? a = some text := ha
      rw [action, hliteral]
      exact .value (.string text (hg.identity hT ha)) hs
  cases value with
  | nil =>
    cases hop
    exact .value .nil hs
  | boolean value =>
    cases value with
    | false =>
      cases hop
      exact .value (.boolean false) hs
    | true =>
      cases hop
      exact .value (.boolean true) hs
  | receiver =>
    cases hop
    exact .value hg.environment.receiver hs
  | integer value =>
    cases hop
    exact .value (.integer value) hs
  | float value =>
    cases hop
    exact .value (.float value) hs
  | character c =>
    cases hop
    have hc : Text.charOf? c.val.toNat = some (Char.ofNatAux c.val.toNat c.valid) :=
      dif_pos c.valid
    rw [action, hc]
    exact .value (.character c) hs
  | string text | symbol text => exact htext hop

theorem nil_asks :
    x.Asks T programs N r call (.plain .pushNil) s operands operands (.value .nil s) := by
  intro g m i hg hoperands hm hs hop
  subst hoperands
  cases hop
  exact .value .nil hs

theorem self_asks :
    x.Asks T programs N r call (.plain .pushSelf) s operands operands
      (.value x.environment.receiver s) := by
  intro g m i hg hoperands hm hs hop
  subst hoperands
  cases hop
  exact .value hg.environment.receiver hs

/-- A variable is found where its name is declared. -/
theorem slotAt_pair {g : Frame} {depth : UInt16} {activation : Nat}
    (hs : s.Pair (T.pairing programs) m.store)
    (hactivation : g.environment.chain[depth.toNat]? = some activation) (index : UInt16) :
    Agree (fun v found => found.1 = activation ∧ v.Pair (T.pairing programs) found.2)
      (slotAt s activation index.toNat) (m.slotAt g depth index) := by
  rw [Machine.slotAt, hactivation, Site.slotAt]
  dsimp only
  have hslot := hs.slot? activation index.toNat
  generalize s.slot? activation index.toNat = a at hslot ⊢
  generalize m.store.slot? activation index.toNat = b at hslot ⊢
  cases hslot with
  | none => exact .error _
  | some hv => exact .ok ⟨rfl, hv⟩

theorem block_asks (hT : T.Implements programs) {n : Nat} {parameters locals : List Token}
    {statements : List (Statement Unit)} (hnumber : (UInt16.ofNat n).toNat = n)
    (hblock : r.Has n (x.routine.inner n parameters locals statements)) :
    x.Asks T programs N r call (.plain (.block (UInt16.ofNat n))) s operands operands
      (.value (s.newBlock (x.closure n parameters locals statements)).1
        (s.newBlock (x.closure n parameters locals statements)).2) := by
  intro g m i hg hoperands hm hs hop
  subst hoperands
  obtain ⟨span, hmethod⟩ := hg.method
  obtain ⟨code, hunit⟩ :
      ∃ code, T.HasUnit programs g.method (some n) code r
        (x.routine.inner n parameters locals statements) := hmethod.exists_unit hblock
  have hcode : g.method.code.blocks[n]? = some code := hunit.code
  cases hop
  rw [action, hnumber, hcode]
  have hnew := hs.newBlock (c := x.closure n parameters locals statements)
    (d := ⟨g.method, n, code, g.environment⟩)
    ⟨⟨hg.address, rfl, (hunit.argumentCount hT).symm, hg.environment.activation,
      hg.environment.enclosing, r, _, hunit, congrArg (· + 1) hg.chain⟩, hg.environment.receiver⟩
  exact .value hnew.1 hnew.2

/-- The variables around a routine are there, and their positions can be written in two bytes. -/
theorem Hosts.slot (hT : T.Implements programs) (h : x.Hosts T programs N r f)
    (hslot : slotOf? x.routine.scopes name = some (depth, index)) :
    ∃ activation, x.slotNamed? name = some (activation, index) ∧
      f.environment.chain[(UInt16.ofNat depth).toNat]? = some activation ∧
      (UInt16.ofNat index).toNat = index := by
  obtain ⟨hdepth, hindex⟩ := (h.hasUnit.numbered hT).toNat_slot hslot
  obtain ⟨names, hnames, -⟩ := slotOf?_lt hslot
  have hlt : depth < f.environment.chain.length := by
    rw [h.chain]
    exact (List.getElem?_eq_some_iff.1 hnames).1
  refine ⟨f.environment.chain[depth], ?_, ?_, hindex⟩
  · rw [h.slotNamed?_eq, hslot, Option.bind_some, List.getElem?_eq_getElem hlt]
    rfl
  · rw [hdepth, List.getElem?_eq_getElem hlt]

theorem Hosts.slotNamed?_eq_none (h : x.Hosts T programs N r f)
    (hslot : slotOf? x.routine.scopes name = none) : x.slotNamed? name = none := by
  rw [h.slotNamed?_eq, hslot]
  rfl

theorem Hosts.field (h : x.Hosts T programs N r f) (hfield : fieldOf? N.fields name = some index) :
    (UInt16.ofNat index).toNat = index := by
  obtain ⟨span, hmethod⟩ := h.method
  exact UInt16.toNat_ofNat_of_lt'
    (Nat.lt_of_lt_of_le (fieldOf?_lt hfield) (Nat.le_succ_of_le hmethod.compiled.room))

theorem local_asks (hT : T.Implements programs)
    (hslot : slotOf? x.routine.scopes name = some (depth, index)) :
    x.Asks T programs N r call
      (.plain (.pushLocal (UInt16.ofNat depth) (UInt16.ofNat index))) s operands operands
      (Meaning.read (Machine.new T.bare) x name s) := by
  intro g m i hg hoperands hm hs hop
  subst hoperands
  obtain ⟨activation, hnamed, hactivation, hindex⟩ := hg.slot hT hslot
  have hpair := slotAt_pair hs hactivation (UInt16.ofNat index)
  rw [hindex] at hpair
  cases hop
  rw [action, Meaning.read, hnamed]
  exact Action.attempt_does hpair fun v found hfound => .value hfound.2 hs

theorem field_asks (hslot : slotOf? x.routine.scopes name = none)
    (hfield : fieldOf? N.fields name = some index) :
    x.Asks T programs N r call (.plain (.pushField (UInt16.ofNat index))) s operands operands
      (Meaning.read (Machine.new T.bare) x name s) := by
  intro g m i hg hoperands hm hs hop
  subst hoperands
  have hpair := hs.fieldAt hg.environment.receiver index
  rw [Meaning.read, hg.slotNamed?_eq_none hslot, classes_new, hg.fieldNamed?_eq, hfield]
  cases hop
  rw [action, Machine.fieldAt, hg.field hfield]
  exact Action.attempt_does hpair fun a b hab => .value hab.2 hs

theorem global_asks (hT : T.Implements programs) (hslot : slotOf? x.routine.scopes name = none)
    (hfield : fieldOf? N.fields name = none) :
    x.Asks T programs N r call (.global name) s operands operands
      (Meaning.read (Machine.new T.bare) x name s) := by
  intro g m i hg hoperands hm hs hop
  subst hoperands
  rw [Meaning.read, hg.slotNamed?_eq_none hslot, classes_new, hg.fieldNamed?_eq, hfield]
  cases hop with
  | @global _ a ha =>
    have hname : g.code.literal? a = some name := ha
    rw [action, hname]
    exact Action.need_does _ (global?_pair (hm.pair hT hs) name) fun v v' hv => .value hv hs

theorem storeLocal_asks (hT : T.Implements programs)
    (hslot : slotOf? x.routine.scopes name = some (depth, index))
    (hv : v.Pair (T.pairing programs) v') :
    x.Asks T programs N r call
      (.plain (.storeLocal (UInt16.ofNat depth) (UInt16.ofNat index))) s (v' :: operands) operands
      (Meaning.write (Machine.new T.bare) x name v s) := by
  intro g m i hg hoperands hm hs hop
  obtain ⟨activation, hnamed, hactivation, hindex⟩ := hg.slot hT hslot
  have hpair := slotAt_pair hs hactivation (UInt16.ofNat index)
  rw [hindex] at hpair
  cases hop
  rw [action, Meaning.write, hnamed, hoperands, hindex]
  refine Action.attempt_does hpair fun w found hfound => ?_
  rw [hfound.1]
  exact .value hv (hs.setSlot activation index hv)

theorem storeField_asks (hslot : slotOf? x.routine.scopes name = none)
    (hfield : fieldOf? N.fields name = some index) (hv : v.Pair (T.pairing programs) v') :
    x.Asks T programs N r call (.plain (.storeField (UInt16.ofNat index))) s (v' :: operands) operands
      (Meaning.write (Machine.new T.bare) x name v s) := by
  intro g m i hg hoperands hm hs hop
  have hpair := hs.fieldAt hg.environment.receiver index
  rw [Meaning.write, hg.slotNamed?_eq_none hslot, classes_new, hg.fieldNamed?_eq, hfield]
  cases hop
  rw [action, Machine.fieldAt, hoperands, hg.field hfield]
  refine Action.attempt_does hpair fun a b hab => ?_
  rw [hab.1]
  exact .value hv (hs.setField b.1 index hv)

/-- The top operands are those that were pushed last. -/
theorem takeOperands_reverse (vs operands : List Value) :
    takeOperands vs.length [] (vs.reverse ++ operands) = some (vs, operands) :=
  takeOperands_eq_some_iff.2 ⟨by simp, by simp, by simp⟩

theorem array_asks {vs vs' : List Value}
    (hvs : List.Forall₂ (Value.Pair (T.pairing programs)) vs vs') :
    x.Asks T programs N r call (.array vs.length) s (vs'.reverse ++ operands) operands
      (.value (s.newArray vs.toArray).1 (s.newArray vs.toArray).2) := by
  intro g m i hg hoperands hm hs hop
  have hrow : RowPair (T.pairing programs) vs.toArray vs'.toArray := hvs
  have hnew := hs.newArray hrow
  cases hop with
  | array hc =>
    rw [action, hoperands, hc, hvs.length_eq, takeOperands_reverse]
    exact .value hnew.1 hnew.2

theorem send_asks (hT : T.Implements programs) (toSuper : Bool) (selector : String)
    (hv : v.Pair (T.pairing programs) v') {ws ws' : List Value}
    (hws : List.Forall₂ (Value.Pair (T.pairing programs)) ws ws') :
    x.Asks T programs N r call (.send toSuper ws.length selector) s (ws'.reverse ++ v' :: operands)
      operands (Meaning.send (Machine.new T.bare) call x toSuper selector v ws s) := by
  intro g m i hg hoperands hm hs hop
  have hdoes : (m.messageAction toSuper x.method.address.className selector operands v' ws').Does
      (T.pairing programs) call x.active s operands
      (Meaning.send (Machine.new T.bare) call x toSuper selector v ws s) :=
    Meaning.send_does (hm.pair hT hs) toSuper selector hv hws
  rw [← hg.className hT] at hdoes
  have hsend {c a : UInt16} (hc : c.toNat = ws.length) (ha : g.code.literals[a.toNat]? = some selector) :
      (m.sendAction g toSuper c a).Does (T.pairing programs) call x.active s operands
        (Meaning.send (Machine.new T.bare) call x toSuper selector v ws s) := by
    have hselector : g.code.literal? a = some selector := ha
    rw [sendAction, hselector, hoperands, hc, hws.length_eq]
    dsimp only [Action.need]
    rw [takeOperands_reverse]
    exact hdoes
  cases hop with
  | send hc ha | sendSuper hc ha => exact hsend hc ha

end Site

end Smalltalk
