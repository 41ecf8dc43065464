/-
**Running compiled code.**

A machine that runs the classes of compiled programs stays within the law: each activation in
progress is one of a unit, with as many operands as the rest of its code asks for; those below the
innermost one wait for one value more. Every block there is was made in an activation of the
routine around it, and every activation ever started has the variables of the unit it was started
for. So an instruction finds its operands, its literals, its variables and its blocks, and a method
is called with as many arguments as it has.

* `Machine.Lawful` — **a machine within the law**, in the midst of a run;
* `Machine.action_lawful` — **what an instruction asks for is lawful**;
* `Machine.Lawful.step` — **a step stays within the law**, and the code is not at fault.
-/

import Smalltalk.Proofs.NonLocalReturn
import Smalltalk.Proofs.Units

namespace Smalltalk

variable {arguments operands : List Value} {f : Frame} {r q : Routine} {n count : Nat}
  {code : CompiledCode} {m : Machine} {method : Method} {v receiver : Value} {toSuper : Bool}
  {index : UInt16} {ops : List Op}

/-! ### Lawful machines -/

section Definitions

variable (T : ClassTable) (programs : List Program) (Λ : Origins)

/-- A loop whose blocks can be started. -/
structure Loop.Lawful (l : Loop) : Prop where
  condition : l.condition.Pair (Λ.pairing T programs) l.condition
  body : l.body.Pair (Λ.pairing T programs) l.body
  ready : l.condition.code.argumentCount = 0 ∧ l.body.code.argumentCount = 0

/-- What a machine holds besides the activations and loops in progress is lawful. -/
@[grind cases]
structure Machine.Kept (m : Machine) : Prop where
  classes : m.classes = T
  rows : m.store.Fits Λ
  pair : m.Pair (Λ.pairing T programs) m

/-- **All activations wait for a value.** -/
structure Machine.Waiting (m : Machine) : Prop extends m.Kept T programs Λ where
  frames : ∀ f ∈ m.stack.frames, f.Lawful T programs Λ 1
  loops : ∀ l ∈ m.loops, l.Lawful T programs Λ

/-- **A machine within the law**: the innermost activation can go on, and the others wait. -/
@[grind cases]
structure Machine.Lawful (m : Machine) : Prop extends m.Kept T programs Λ where
  frames : ∃ f frames, m.stack.frames = f :: frames ∧ f.Lawful T programs Λ 0 ∧
    ∀ g ∈ frames, g.Lawful T programs Λ 1
  loops : ∀ l ∈ m.loops, l.Lawful T programs Λ

/-- **An activation has just been started**, with its arguments. -/
def Machine.Started (m : Machine) : Prop :=
  ∃ f frames arguments, m.stack.frames = f :: frames ∧
    f.environment.activation = Λ.length ∧ f.rest = f.code.code ∧
    arguments.length = f.code.argumentCount ∧
    m.store.activations[Λ.length]? = some (Machine.slots f.code arguments) ∧
    m.Lawful T programs (Λ ++ [(f.method, f.block)])

/-- What comes of a lawful step. -/
def Progress.Lawful : Progress → Prop
  | .running m => m.Lawful T programs Λ ∨ m.Started T programs Λ
  | .finished _ _ => True
  | .failed fault _ => fault.isOfCode = false

end Definitions

variable {T : ClassTable} {programs : List Program} {Λ Λ' : Origins}

theorem Loop.Lawful.mono (h : Λ <+: Λ') {l : Loop} (hl : l.Lawful T programs Λ) :
    l.Lawful T programs Λ' :=
  ⟨hl.condition.mono (Origins.within h), hl.body.mono (Origins.within h), hl.ready⟩

/-! ### Starting activations -/

theorem Store.Fits.size_eq {s : Store} (h : s.Fits Λ) : s.activations.size = Λ.length := by
  have hlength := h.length_eq
  rw [Store.rowSizes, List.length_map, Array.length_toList] at hlength
  exact hlength.symm

/-- There are as many variables as the unit asks for. -/
theorem Machine.size_slots (h : arguments.length = code.argumentCount) :
    (slots code arguments).size = code.slotCount := by
  rw [slots, Array.size_append, List.size_toArray, Array.size_replicate, h]
  exact Nat.add_sub_of_le (Nat.le_add_right _ _)

namespace Machine

theorem Kept.newActivation (h : m.Kept T programs Λ) {block : Option Nat}
    (hcode : method.unit? block = some code) (hcount : arguments.length = code.argumentCount)
    (harguments : List.Forall₂ (Value.Pair (Λ.pairing T programs)) arguments arguments)
    (stack : CallStack) (loops : List Loop) : Kept T programs (Λ ++ [(method, block)])
      ⟨m.classes, m.transcript, (m.store.newActivation (slots code arguments)).2, stack,
        loops⟩ := by
  have hprefix : Λ <+: Λ ++ [(method, block)] := List.prefix_append Λ _
  refine ⟨h.classes, ?_, h.pair.start (Origins.within hprefix) (slots_pair rfl harguments) _ _⟩
  change List.Forall₂ _ _ (List.map Array.size (m.store.activations.push _).toList)
  rw [Array.toList_push, List.map_append]
  exact List.rel_append h.rows (.cons ⟨code, hcode, size_slots hcount⟩ .nil)

section

variable (hT : T.Implements programs) (h : m.Waiting T programs Λ)

include hT h

/-- A new activation of a unit, whose code is run from its start. -/
theorem Waiting.start (hunit : T.HasUnit programs f.method f.block f.code r q)
    (hactivation : f.environment.activation = Λ.length)
    (hcovers : Λ.Covers f.method f.environment.enclosing q.units.tail)
    (hreceiver : f.environment.receiver.Pair (Λ.pairing T programs) f.environment.receiver)
    (hrest : f.rest = f.code.code) (hoperands : f.operands = [])
    (hcount : arguments.length = f.code.argumentCount)
    (harguments : List.Forall₂ (Value.Pair (Λ.pairing T programs)) arguments arguments) :
    Started T programs Λ ⟨m.classes, m.transcript,
      (m.store.newActivation (slots f.code arguments)).2, m.stack.push f, m.loops⟩ := by
  have hprefix : Λ <+: Λ ++ [(f.method, f.block)] := List.prefix_append Λ _
  refine ⟨f, m.stack.frames, arguments, rfl, hactivation, hrest, hcount, ?_,
    h.toKept.newActivation hunit.code hcount harguments _ _, ?_, ?_⟩
  · change (m.store.activations.push _)[Λ.length]? = _
    rw [← h.rows.size_eq, Array.getElem?_push_size]
  · refine ⟨f, m.stack.frames, rfl, ⟨?_, hreceiver.mono (Origins.within hprefix), ?_⟩,
      fun g hg => (h.frames g hg).mono hprefix⟩
    · obtain ⟨ops, hspelled, hflows⟩ := hunit.flows hT
      refine ⟨r, q, ops, hunit, ?_, hrest ▸ hspelled, by rw [hoperands]; exact hflows⟩
      rw [q.units_eq_cons, (hunit.nested hT).2]
      refine .cons ?_ (hcovers.mono hprefix)
      rw [hactivation, List.getElem?_concat_length]
    · rw [hoperands]
      exact .nil
  · exact fun l hl => (h.loops l hl).mono hprefix

/-- An activation of a method with as many arguments as it has. -/
theorem Waiting.activate (hfound : T.methodAt? method.address = some method)
    (hprimitive : method.code.primitive = none)
    (hreceiver : receiver.Pair (Λ.pairing T programs) receiver)
    (hcount : argumentsOf method.address.selector = arguments.length)
    (harguments : List.Forall₂ (Value.Pair (Λ.pairing T programs)) arguments arguments) :
    arguments.length = method.code.argumentCount ∧
      (m.activate method receiver (slots method.code arguments)).Started T programs Λ := by
  obtain ⟨r, N, span, hmethod⟩ := hT.methods hfound hprimitive
  have hunit : T.HasUnit programs method none method.code r r := ⟨⟨N, span, hmethod⟩, rfl, rfl⟩
  have hlength : arguments.length = method.code.argumentCount := by
    rw [hunit.argumentCount hT, ← (hunit.fit hT).isRegular.arity, hmethod.address, hcount]
  have hunits : r.units.tail = [] := by
    rw [Routine.units, (hunit.fit hT).isMethod.nest]
    rfl
  exact ⟨hlength, h.start (f := Frame.ofMethod method ⟨receiver, m.store.activations.size, []⟩) hT
    hunit h.rows.size_eq (hunits ▸ .nil) hreceiver rfl rfl hlength harguments⟩

/-- A block that is started with as many arguments as it has. -/
theorem Waiting.enterBlock {c : Closure Value} (hc : c.Pair (Λ.pairing T programs) c)
    (hcount : arguments.length = c.code.argumentCount)
    (harguments : List.Forall₂ (Value.Pair (Λ.pairing T programs)) arguments arguments) :
    (m.enterBlock c arguments).Lawful T programs Λ := by
  obtain ⟨-, r, q, hunit, hcovers⟩ := hc.closure
  rw [Machine.enterBlock, if_pos hcount]
  exact .inr (h.start (f := Frame.ofBlock c m.store.activations.size) hT hunit
    h.rows.size_eq hcovers hc.receiver rfl rfl hcount harguments)

end

/-! ### Ending activations -/

/-- A waiting activation gets its value. -/
theorem Waiting.give (h : m.Waiting T programs Λ) (hv : v.Pair (Λ.pairing T programs) v) :
    (m.give v).Lawful T programs Λ := by
  obtain ⟨classes, transcript, store, ⟨frames, depth, hdepth⟩, loops⟩ := m
  cases frames with
  | nil => trivial
  | cons f frames =>
    have hf := h.frames f List.mem_cons_self
    obtain ⟨r, q, ops, hunit, hcovers, hspelled, hflows⟩ := hf.unit
    exact .inl ⟨⟨h.classes, h.rows, h.pair.classes, h.pair.transcript, h.pair.store⟩,
      ⟨f.push v, frames, rfl, ⟨⟨r, q, ops, hunit, hcovers, hspelled, hflows⟩, hf.receiver,
        .cons hv hf.operands⟩, fun g hg => h.frames g (List.mem_cons_of_mem f hg)⟩, h.loops⟩

/-- Activations end, and one that waits goes on. -/
theorem Kept.leave (hT : T.Implements programs) (h : m.Kept T programs Λ)
    (hframes : ∀ f ∈ m.stack.frames.drop n, f.Lawful T programs Λ 1)
    (hloops : ∀ l ∈ m.loops, l.Lawful T programs Λ) (hv : v.Pair (Λ.pairing T programs) v) :
    (m.leave n v).Lawful T programs Λ := by
  have hwaiting {loops : List Loop} (hloops : ∀ l ∈ loops, l.Lawful T programs Λ) :
      Waiting T programs Λ ⟨m.classes, m.transcript, m.store, m.stack.drop n, loops⟩ :=
    ⟨⟨h.classes, h.rows, h.pair.classes, h.pair.transcript, h.pair.store⟩, hframes, hloops⟩
  refine leave_rule (fun outer w hsub _ hw => ?_) (fun l outer inBody hsub _ _ => ?_) fun _ _ => rfl
  · refine (hwaiting fun l hl => hloops l (hsub.subset hl)).give ?_
    rcases hw with rfl | rfl
    · exact hv
    · exact .nil
  · obtain ⟨hl, houter⟩ := List.forall_mem_cons.1 fun l' hl' => hloops l' (hsub.subset hl')
    have hw := hwaiting (List.forall_mem_cons.2
      ⟨(⟨hl.condition, hl.body, hl.ready⟩ : Loop.Lawful T programs Λ { l with inBody }), houter⟩)
    cases inBody with
    | false => exact hw.enterBlock hT hl.condition hl.ready.1.symm .nil
    | true => exact hw.enterBlock hT hl.body hl.ready.2.symm .nil

end Machine

/-! ### What instructions ask for -/

/-- **What can be asked for** so that the activation then has, or waits for, some number of
operands. -/
def Action.Lawful (s : Store) (count : Nat) : Action → Prop
  | .proceed store operands => store.rowSizes = s.rowSizes ∧ operands.length = count
  | .call operands method _ arguments => operands.length + 1 = count ∧
      method.code.primitive = none ∧ argumentsOf method.address.selector = arguments.length
  | .invoke operands closure arguments => operands.length + 1 = count ∧
      arguments.length = closure.code.argumentCount
  | .loop operands condition body _ => operands.length + 1 = count ∧
      condition.code.argumentCount = 0 ∧ body.code.argumentCount = 0
  | .fail fault => fault.isOfCode = false
  | .record _ | .leave _ | .answer _ => False

theorem Action.ofPrimitive_lawful (s : Store) (operands : List Value) (p : Primitive)
    (receiver : Value) (arguments : List Value) :
    (ofPrimitive s operands p receiver arguments).Lawful s (operands.length + 1) := by
  have hmeets := p.perform_proper s receiver arguments
  rw [ofPrimitive]
  cases hreply : p.perform s receiver arguments with
  | error fault =>
    rw [hreply] at hmeets
    exact hmeets.1
  | ok reply =>
    rw [hreply] at hmeets
    cases reply with
    | invoke closure arguments | loop condition body repeatWhile => exact ⟨rfl, hmeets.1⟩
    | _ => exact ⟨rfl, rfl⟩

namespace Machine

variable {selector : String}

/-- A method that is found has the selector that was looked up. -/
theorem selector_of_methodOn? (h : m.Kept T programs Λ) {className : String}
    (hreceiver : receiver.Pair (Λ.pairing T programs) receiver) {classSide : Bool}
    (hmethod : m.methodOn? toSuper className receiver selector classSide = some method) :
    method.address.selector = selector := by
  have hholds {name : String} {cls : Class} (hcls : m.classes.get? name = some cls) :
      T.Holds cls := by
    have := h.pair.classes name
    rw [hcls] at this
    cases this with
    | some hcls => exact hcls.2
  rw [methodOn?] at hmethod
  split at hmethod
  · rw [Option.bind_eq_some_iff] at hmethod
    obtain ⟨cls, hsuper, hlookup⟩ := hmethod
    obtain ⟨sub, hsub, hsuper⟩ := Option.bind_eq_some_iff.1 hsuper
    exact (((hholds hsub).superclass hsuper).lookup hlookup).1
  · rw [ClassTable.findMethod?] at hmethod
    cases hown : (m.classOf? receiver).bind (·.lookup? selector classSide) with
    | some found =>
      rw [hown] at hmethod
      obtain rfl := Option.some.inj hmethod
      obtain ⟨cls, hcls, hlookup⟩ := Option.bind_eq_some_iff.1 hown
      have hclass := classOf?_pair h.pair hreceiver
      rw [hcls] at hclass
      cases hclass with
      | some hcls => exact (hcls.2.lookup hlookup).1
    | none =>
      rw [hown] at hmethod
      obtain ⟨cls, hcls, hlookup⟩ := List.exists_of_findSome?_eq_some hmethod
      obtain ⟨name, -, hname⟩ := List.mem_filterMap.1 hcls
      exact ((hholds hname).lookup hlookup).1

theorem messageAction_lawful (h : m.Kept T programs Λ) (toSuper : Bool) (className : String)
    (operands : List Value) (hreceiver : receiver.Pair (Λ.pairing T programs) receiver)
    (hcount : argumentsOf selector = arguments.length) :
    (m.messageAction toSuper className selector operands receiver arguments).Lawful m.store
      (operands.length + 1) := by
  rw [messageAction]
  split
  · exact Action.ofPrimitive_lawful ..
  · rw [methodFor]
    cases hmethod : m.methodOn? toSuper className receiver selector receiver.isClass with
    | none =>
      dsimp only [Action.attempt, Action.Lawful]
      rw [missing.eq_def]
      split
      · rfl
      · split <;> rfl
    | some method =>
      dsimp only [Action.attempt]
      cases hprimitive : method.code.primitive with
      | some p => exact Action.ofPrimitive_lawful ..
      | none =>
        refine ⟨rfl, hprimitive, ?_⟩
        rw [selector_of_methodOn? h hreceiver hmethod, hcount]

/-! ### Instructions -/

section Instructions

variable {op : Op} {i : Instruction}

/-- What instructions can see of a machine and its innermost activation. -/
structure Sees (T : ClassTable) (programs : List Program) (Λ : Origins) (m : Machine) (f : Frame)
    (r q : Routine) : Prop extends m.Kept T programs Λ where
  unit : T.HasUnit programs f.method f.block f.code r q
  covers : Λ.Covers f.method f.environment.chain q.units
  receiver : f.environment.receiver.Pair (Λ.pairing T programs) f.environment.receiver
  operands : List.Forall₂ (Value.Pair (Λ.pairing T programs)) f.operands f.operands

/-- A variable that is named is found. -/
theorem Sees.slotAt (hT : T.Implements programs) (h : m.Sees T programs Λ f r q) {depth : UInt16}
    (hslot : q.HasSlot depth.toNat index.toNat) : ∃ found, m.slotAt f depth index = .ok found := by
  obtain ⟨a, v, ha, hv⟩ := Frame.Lawful.slot hT h.rows h.unit h.covers hslot
  refine ⟨(a, v), ?_⟩
  rw [Machine.slotAt, ha]
  dsimp only
  rw [hv]

/-- If a field is not found, it is not the fault of the code. -/
theorem isOfCode_of_fieldAt {fault : Fault} (h : m.fieldAt f index = .error fault) :
    fault.isOfCode = false := by
  rw [fieldAt] at h
  grind [Fault.isOfCode]

/-- The block that an instruction makes is lawful. -/
theorem Sees.block (h : m.Sees T programs Λ f r q) {parameters locals : List Token}
    {statements : List (Statement Unit)} (hq : r.Has n (q.inner n parameters locals statements)) :
    ∃ code, f.method.code.blocks[n]? = some code ∧
      Closure.Lawful T programs Λ ⟨f.method, n, code, f.environment⟩ := by
  obtain ⟨N, span, hmethod⟩ := h.unit.method
  have hroutine : r.unit? (some n) = some (q.inner n parameters locals statements) := hq
  obtain ⟨code, hunit⟩ := hmethod.exists_unit hroutine
  exact ⟨code, hunit.code, r, _, hunit, h.covers⟩

/-- An instruction that pushes an operand finds what it names. -/
theorem Sees.push (hT : T.Implements programs) (h : m.Sees T programs Λ f r q)
    (hop : op.Pushes r q) (hwritten : op.Written f.code.literals i) :
    (m.action f i).Lawful m.store (f.operands.length + 1) := by
  cases hop with
  | pushCharacter c =>
    cases hwritten
    have hc : Text.charOf? c.val.toNat = some (Char.ofNatAux c.val.toNat c.valid) :=
      dif_pos c.valid
    rw [action, hc]
    exact ⟨rfl, rfl⟩
  | pushField index =>
    cases hwritten
    rw [action]
    cases hfield : m.fieldAt f index with
    | error fault => exact isOfCode_of_fieldAt hfield
    | ok found => exact ⟨rfl, rfl⟩
  | pushLocal hslot =>
    cases hwritten
    obtain ⟨found, hfound⟩ := h.slotAt hT hslot
    rw [action, hfound]
    exact ⟨rfl, rfl⟩
  | block hq =>
    cases hwritten
    obtain ⟨code, hcode, -⟩ := h.block hq
    rw [action, hcode]
    exact ⟨rfl, rfl⟩
  | literal text =>
    cases hwritten with
    | literal hliteral =>
      rw [action, CompiledCode.literal?, hliteral]
      exact ⟨rfl, rfl⟩
  | global name =>
    cases hwritten with
    | global hliteral =>
      rw [action, CompiledCode.literal?, hliteral]
      dsimp only [Action.need]
      cases m.global? name with
      | none =>
        dsimp only [Action.Lawful]
        rw [globalFault]
        split <;> rfl
      | some v => exact ⟨rfl, rfl⟩
  | _ =>
    cases hwritten
    exact ⟨rfl, rfl⟩

/-- An instruction that stores the top operand finds what it names. -/
theorem Sees.store (hT : T.Implements programs) (h : m.Sees T programs Λ f r q) (hop : op.Stores q)
    (hwritten : op.Written f.code.literals i) (hcount : f.operands.length = count + 1) :
    (m.action f i).Lawful m.store (count + 1) := by
  obtain ⟨v, operands, hoperands⟩ := List.exists_cons_of_length_eq_add_one hcount
  have hhead : f.operands.head? = some v := by rw [hoperands, List.head?_cons]
  cases hop with
  | storeField index =>
    cases hwritten
    rw [action, hhead]
    dsimp only [Action.need]
    cases hfield : m.fieldAt f index with
    | error fault => exact isOfCode_of_fieldAt hfield
    | ok found => exact ⟨rfl, hcount⟩
  | storeLocal hslot =>
    cases hwritten
    obtain ⟨found, hfound⟩ := h.slotAt hT hslot
    rw [action, hhead]
    dsimp only [Action.need]
    rw [hfound]
    exact ⟨m.store.rowSizes_setSlot _ _ _, hcount⟩

/-- A message finds its receiver and its arguments. -/
theorem Sees.send (h : m.Sees T programs Λ f r q) {arguments : Nat}
    (hwritten : (Op.send toSuper arguments selector).Written f.code.literals i)
    (hselector : argumentsOf selector = arguments)
    (hcount : f.operands.length = count + 1 + arguments) :
    (m.action f i).Lawful m.store (count + 1) := by
  have hsend {c a : UInt16} (hc : c.toNat = arguments)
      (ha : f.code.literals[a.toNat]? = some selector) :
      (m.sendAction f toSuper c a).Lawful m.store (count + 1) := by
    have hle : c.toNat ≤ f.operands.length := hc ▸ hcount ▸ Nat.le_add_left _ _
    have hleft : (f.operands.drop c.toNat).length = count + 1 := by
      rw [List.length_drop, hcount, hc, Nat.add_sub_cancel]
    obtain ⟨receiver, operands, hrest⟩ := List.exists_cons_of_length_eq_add_one hleft
    have hreceiver : receiver.Pair (Λ.pairing T programs) receiver := by
      have hpair := List.forall₂_drop c.toNat h.operands
      rw [hrest] at hpair
      exact (List.forall₂_cons.1 hpair).1
    rw [sendAction, CompiledCode.literal?, ha]
    dsimp only [Action.need]
    rw [takeOperands_eq_some_iff.2 ⟨hle, rfl, rfl⟩, ← hleft, hrest]
    refine messageAction_lawful h.toKept toSuper f.code.className operands hreceiver ?_
    simp [hselector, ← hc, hle]
  cases hwritten with
  | send hc ha | sendSuper hc ha => exact hsend hc ha

/-- The activation without the blocks of its method, which only matter to what makes a block. -/
def withoutBlocks (f : Frame) : Frame :=
  { f with method := ⟨f.method.address, { f.method.code with blocks := #[] }⟩ }

theorem action_withoutBlocks (m : Machine) (f : Frame) (hi : ∀ n, i ≠ .block n) :
    m.action (withoutBlocks f) i = m.action f i := by
  cases i with
  | block n => exact absurd rfl (hi n)
  | _ => rfl

theorem Sees.pair_withoutBlocks (h : m.Sees T programs Λ f r q) :
    (withoutBlocks f).Pair (Λ.pairing T programs) (withoutBlocks f) where
  environment := ⟨h.receiver, rfl, rfl⟩
  operands := h.operands
  name := rfl
  className := rfl
  blocks _ := .none

/-- **What an instruction asks for is paired with itself.** -/
theorem Sees.action_pair (h : m.Sees T programs Λ f r q) (hwritten : op.Written f.code.literals i)
    (hblock : ∀ n : UInt16, op = .plain (.block n) → op.Pushes r q) :
    (m.action f i).Pair (Λ.pairing T programs) (m.action f i) := by
  by_cases hi : ∃ n, i = .block n
  · obtain ⟨n, rfl⟩ := hi
    cases hwritten with
    | plain =>
      cases hblock n rfl with
      | block hq =>
        obtain ⟨code, hcode, hlawful⟩ := h.block hq
        have hnew := h.pair.store.newBlock (c := ⟨f.method, n.toNat, code, f.environment⟩)
          ⟨⟨rfl, hlawful⟩, h.receiver⟩
        rw [action, hcode]
        exact .proceed hnew.2 (.cons hnew.1 h.operands)
  · have hne : ∀ n, i ≠ .block n := fun n hn => hi ⟨n, hn⟩
    rw [← action_withoutBlocks m f hne]
    exact Machine.action_pair h.pair h.pair_withoutBlocks (instruction_pair_self rfl _ i)

/-- **What an instruction asks for is lawful**, unless it records a place or ends activations. -/
theorem action_lawful (hT : T.Implements programs) (h : m.Sees T programs Λ f r q)
    (hwritten : op.Written f.code.literals i) (hflows : Flows r q f.operands.length (op :: ops)) :
    (∃ count, (m.action f i).Lawful m.store count ∧ Flows r q count ops) ∨
      (∃ mark, m.action f i = .record mark ∧ Flows r q f.operands.length ops) ∨
      ∃ v, m.action f i = .leave v ∨ m.action f i = .answer v := by
  have hhead {count : Nat} (hcount : f.operands.length = count + 1) :
      ∃ v operands, f.operands = v :: operands ∧ operands.length = count := by
    obtain ⟨v, operands, hoperands⟩ := List.exists_cons_of_length_eq_add_one hcount
    grind
  generalize hcount : f.operands.length = count at hflows ⊢
  cases hflows with
  | push hop hrest => exact .inl ⟨_, hcount ▸ h.push hT hop hwritten, hrest⟩
  | store hop hrest => exact .inl ⟨_, h.store hT hop hwritten hcount, hrest⟩
  | pop hrest =>
    cases hwritten
    obtain ⟨v, operands, hoperands, hlength⟩ := hhead hcount
    refine .inl ⟨_, ?_, hrest⟩
    rw [action, hoperands]
    exact ⟨rfl, hlength⟩
  | @array count size _ hrest =>
    cases hwritten with
    | array hc =>
      have hle : _ ≤ f.operands.length := hc ▸ hcount ▸ Nat.le_add_left size count
      refine .inl ⟨_, ?_, hrest⟩
      rw [action, takeOperands_eq_some_iff.2 ⟨hle, rfl, rfl⟩]
      refine ⟨rfl, ?_⟩
      rw [List.length_cons, List.length_drop, hcount, hc, Nat.add_sub_cancel]
  | send hselector hrest => exact .inl ⟨_, h.send hwritten hselector hcount, hrest⟩
  | mark hop hrest =>
    cases hwritten with
    | @plain i _ =>
      cases i with
      | mark file line column => exact .inr (.inl ⟨_, rfl, hrest⟩)
      | _ => cases hop
    | _ => cases hop
  | leave =>
    cases hwritten
    obtain ⟨v, operands, hoperands, -⟩ := hhead hcount
    refine .inr (.inr ⟨v, .inl ?_⟩)
    rw [action, hoperands]
    rfl
  | answer =>
    cases hwritten
    obtain ⟨v, operands, hoperands, -⟩ := hhead hcount
    refine .inr (.inr ⟨v, .inr ?_⟩)
    rw [action, hoperands]
    rfl
  | invalid => cases hwritten

end Instructions

/-! ### Steps -/

section Steps

variable {f₀ : Frame} {frames : List Frame}

/-- The innermost activation goes on, or waits, with other operands. -/
theorem Sees.frame (h : m.Sees T programs Λ f r q) (hspelled : Spelled f.code.literals f.rest ops)
    {given : Nat} (hoperands : List.Forall₂ (Value.Pair (Λ.pairing T programs)) operands operands)
    (mark : Option Mark) (hflows : Flows r q (operands.length + given) ops) :
    Frame.Lawful T programs Λ given { f with operands := operands, mark := mark } :=
  ⟨⟨r, q, ops, h.unit, h.covers, hspelled, hflows⟩, h.receiver, hoperands⟩

/-- The innermost activation goes on in the midst of a run. -/
theorem Sees.resume (h : m.Sees T programs Λ f r q) (hm : m.stack.frames = f₀ :: frames)
    (hframes : ∀ g ∈ frames, g.Lawful T programs Λ 1)
    (hloops : ∀ l ∈ m.loops, l.Lawful T programs Λ) (hspelled : Spelled f.code.literals f.rest ops)
    {store : Store} (hrows : store.rowSizes = m.store.rowSizes)
    (hstore : store.Pair (Λ.pairing T programs) store)
    (hoperands : List.Forall₂ (Value.Pair (Λ.pairing T programs)) operands operands)
    (mark : Option Mark) (hflows : Flows r q operands.length ops) :
    Lawful T programs Λ ⟨m.classes, m.transcript, store,
      m.stack.replaceTop { f with operands := operands, mark := mark }, m.loops⟩ := by
  obtain ⟨classes, transcript, store₀, ⟨fs, depth, hdepth⟩, loops⟩ := m
  obtain rfl : fs = f₀ :: frames := hm
  refine ⟨⟨h.classes, ?_, h.pair.classes, h.pair.transcript, hstore⟩,
    ⟨_, frames, rfl, h.frame hspelled hoperands mark hflows, hframes⟩, hloops⟩
  rw [Store.Fits, hrows]
  exact h.rows

section

variable (hT : T.Implements programs)

include hT

/-- **What is asked for is done** within the law. -/
theorem carryOut_lawful (h : m.Sees T programs Λ f r q) (hm : m.stack.frames = f₀ :: frames)
    (hframes : ∀ g ∈ frames, g.Lawful T programs Λ 1)
    (hloops : ∀ l ∈ m.loops, l.Lawful T programs Λ) (hspelled : Spelled f.code.literals f.rest ops)
    {a : Action} (ha : a.Lawful m.store count) (hpair : a.Pair (Λ.pairing T programs) a)
    (hflows : Flows r q count ops) : (m.carryOut f a).Lawful T programs Λ := by
  -- The activation waits for the value of what it has asked for.
  have hwaiting {operands : List Value} (hlength : operands.length + 1 = count)
      (hoperands : List.Forall₂ (Value.Pair (Λ.pairing T programs)) operands operands) :
      Waiting T programs Λ (m.proceed f m.store operands) := by
    obtain ⟨classes, transcript, store₀, ⟨fs, depth, hdepth⟩, loops⟩ := m
    obtain rfl : fs = f₀ :: frames := hm
    exact ⟨⟨h.classes, h.rows, h.pair.classes, h.pair.transcript, h.pair.store⟩,
      List.forall_mem_cons.2 ⟨h.frame hspelled hoperands f.mark (hlength ▸ hflows), hframes⟩,
      hloops⟩
  cases a with
  | proceed store operands =>
    cases hpair with
    | proceed hstore hoperands =>
      exact .inl (h.resume hm hframes hloops hspelled ha.1 hstore hoperands f.mark
        (ha.2 ▸ hflows))
  | call operands method receiver arguments =>
    cases hpair with
    | call hoperands hmethod hreceiver harguments =>
      obtain ⟨hcount, hstarted⟩ := (hwaiting ha.1 hoperands).activate hT hmethod.2 ha.2.1
        hreceiver ha.2.2 harguments
      rw [carryOut, enterMethod, if_pos hcount]
      exact .inr hstarted
  | invoke operands closure arguments =>
    cases hpair with
    | invoke hoperands hclosure harguments =>
      exact (hwaiting ha.1 hoperands).enterBlock hT hclosure ha.2 harguments
  | loop operands condition body repeatWhile =>
    cases hpair with
    | loop _ hoperands hcondition hbody =>
      have hw := hwaiting ha.1 hoperands
      have hcount : ([] : List Value).length = condition.code.argumentCount := ha.2.1.symm
      have hloop (depth : Nat) : Waiting T programs Λ ⟨m.classes, m.transcript, m.store,
          (m.proceed f m.store operands).stack,
          ⟨depth, condition, body, repeatWhile, false⟩ :: m.loops⟩ :=
        ⟨⟨hw.classes, hw.rows, hw.pair.classes, hw.pair.transcript, hw.pair.store⟩, hw.frames,
          List.forall_mem_cons.2 ⟨⟨hcondition, hbody, ha.2⟩, hw.loops⟩⟩
      exact (hloop _).enterBlock hT hcondition hcount .nil
  | fail fault => exact ha
  | record mark | leave v | answer v => exact ha.elim

/-- Activations are ended within the law. -/
theorem Kept.carryOut_answer (h : m.Kept T programs Λ) (hm : m.stack.frames = f₀ :: frames)
    (hframes : ∀ g ∈ frames, g.Lawful T programs Λ 1)
    (hloops : ∀ l ∈ m.loops, l.Lawful T programs Λ) (hv : v.Pair (Λ.pairing T programs) v) :
    (m.carryOut f (.leave v)).Lawful T programs Λ ∧
      (m.carryOut f (.answer v)).Lawful T programs Λ := by
  have hdrop {count : Nat} (hcount : 0 < count) :
      ∀ g ∈ m.stack.frames.drop count, g.Lawful T programs Λ 1 := by
    intro g hg
    obtain ⟨n, rfl⟩ := Nat.exists_eq_succ_of_ne_zero (Nat.ne_of_gt hcount)
    grind
  refine ⟨h.leave hT (hdrop Nat.one_pos) hloops hv, ?_⟩
  rw [carryOut]
  split
  next count hcount => exact h.leave hT (hdrop (returnCount?_pos hcount)) hloops hv
  next => rfl

/-- **A step stays within the law**, and the code is not at fault. -/
theorem Lawful.step (h : m.Lawful T programs Λ) : m.step.Lawful T programs Λ := by
  obtain ⟨f, frames, hm, hf, hframes⟩ := h.frames
  obtain ⟨r, q, ops, hunit, hcovers, hspelled, hflows⟩ := hf.unit
  obtain ⟨op, ops, rfl⟩ := hflows.exists_cons
  obtain ⟨i, rest, hread, hwritten, hrest⟩ := hspelled.read?_cons
  rw [step_of_read hm hread, execute_eq_carryOut]
  have hsees : m.Sees T programs Λ { f with rest := rest } r q :=
    ⟨h.toKept, hunit, hcovers, hf.receiver, hf.operands⟩
  have hpair := hsees.action_pair hwritten fun n hn => by
    subst hn
    exact hflows.pushes_block
  rcases action_lawful hT hsees hwritten hflows with ⟨count, ha, hcount⟩ | ⟨mark, ha, hcount⟩ |
    ⟨v, ha | ha⟩
  · exact carryOut_lawful hT hsees hm hframes h.loops hrest ha hpair hcount
  · rw [ha]
    exact .inl (hsees.resume hm hframes h.loops hrest rfl h.pair.store hf.operands _ hcount)
  · rw [ha] at hpair ⊢
    cases hpair with
    | leave hv => exact (h.toKept.carryOut_answer hT hm hframes h.loops hv).1
  · rw [ha] at hpair ⊢
    cases hpair with
    | answer hv => exact (h.toKept.carryOut_answer hT hm hframes h.loops hv).2

/-! ### Runs -/

theorem new_kept : (Machine.new T).Kept T programs [] := by
  have hclasses (name : String) :
      Option.Rel (Origins.pairing T programs []).cls (T.get? name) (T.get? name) := by
    cases hcls : T.get? name with
    | none => exact .none
    | some cls => exact .some ⟨rfl, hT.classes hcls⟩
  refine ⟨classes_new T, ?_, Pair.new hclasses⟩
  rw [Store.Fits, Store.rowSizes, activations_new]
  exact .nil

/-- **A run starts within the law**, with the main method. -/
theorem started_of_start? (hstart : (Machine.new T).start? mainClass = some m) :
    m.Started T programs [] := by
  have hnew := new_kept hT
  generalize Machine.new T = m₀ at hstart hnew
  obtain ⟨cls, method, hcls, hmethod, rfl⟩ := of_start? hstart
  rw [hnew.classes] at hcls
  obtain ⟨hselector, hfound⟩ := (hT.classes hcls).lookup hmethod
  have hobject := hnew.pair.store.newObject (c := cls) (d := cls) ⟨rfl, hT.classes hcls⟩
  have hwaiting : Waiting T programs [] (m₀.clear.make (·.newObject cls)).2 :=
    ⟨⟨hnew.classes, hnew.rows, hnew.pair.classes, hnew.pair.transcript, hobject.2⟩,
      fun _ hf => absurd hf List.not_mem_nil, fun _ hl => absurd hl List.not_mem_nil⟩
  have hcount : argumentsOf method.address.selector = ([] : List Value).length := by
    rw [hselector]
    exact argumentsOf_mainMethod
  have hrun := (hwaiting.activate hT hfound (hT.main hcls hmethod) hobject.1 hcount .nil).2
  rw [slots, List.length_nil, Nat.sub_zero, Array.empty_append] at hrun
  exact hrun

end

end Steps

end Machine

end Smalltalk
