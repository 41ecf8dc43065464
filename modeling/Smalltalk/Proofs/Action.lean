/-
**What an instruction asks for.**

An instruction does one of few things: it goes on in the same activation with other operands and
another store, it records a place, it starts an activation or a loop, it ends activations, or it
fails. Which of them it is can be told from the activation, the store and the classes alone. So
the instructions are gone through once, here; what follows only has to go through the few things
that can be asked for.

* `Machine.execute_eq_carryOut` — **an instruction does what it asks for**;
* `Machine.action_pair` — **paired instructions ask for paired things**.
-/

import Smalltalk.Machine.Run
import Smalltalk.Proofs.Pairing

namespace Smalltalk

variable {m : Machine} {P : Pairing} {f : Frame} {v v' : Value}

/-- What an instruction asks for. The operands are those that are left to the activation. -/
inductive Action where
  /-- Go on with a store and operands. -/
  | proceed (store : Store) (operands : List Value)
  /-- Record a place. -/
  | record (mark : Mark)
  /-- Start an activation of a method. -/
  | call (operands : List Value) (method : Method) (receiver : Value) (arguments : List Value)
  /-- Start an activation of a block. -/
  | invoke (operands : List Value) (closure : Closure Value) (arguments : List Value)
  /-- Start a loop. -/
  | loop (operands : List Value) (condition body : Closure Value) (repeatWhile : Bool)
  /-- End the activation with a value. -/
  | leave (v : Value)
  /-- End the method that the code is part of with a value. -/
  | answer (v : Value)
  /-- Give up. -/
  | fail (fault : Fault)

namespace Action

/-- Give up if something is missing. -/
def need {α : Type} (fault : Fault) (x : Option α) (k : α → Action) : Action :=
  match x with
  | some a => k a
  | none => .fail fault

/-- Give up if something fails. -/
def attempt {α : Type} (x : Except Fault α) (k : α → Action) : Action :=
  match x with
  | .ok a => k a
  | .error fault => .fail fault

/-- What the reply of an operation asks for. -/
def ofReply (s : Store) (operands : List Value) : Reply → Action
  | .value v => .proceed s (v :: operands)
  | .newString text => .proceed (s.newString text).2 ((s.newString text).1 :: operands)
  | .newArray items => .proceed (s.newArray items).2 ((s.newArray items).1 :: operands)
  | .newObject cls => .proceed (s.newObject cls).2 ((s.newObject cls).1 :: operands)
  | .setItem array index v => .proceed (s.setItem array index v) (v :: operands)
  | .writeLine text v => .proceed (s.writeLine text) (v :: operands)
  | .invoke closure arguments => .invoke operands closure arguments
  | .loop condition body repeatWhile => .loop operands condition body repeatWhile

/-- What an operation asks for. -/
def ofPrimitive (s : Store) (operands : List Value) (p : Primitive) (receiver : Value)
    (arguments : List Value) : Action :=
  attempt (p.perform s receiver arguments) (ofReply s operands)

end Action

/-- A field of a receiver: the number of the object and the value. -/
def Store.fieldAt (s : Store) (receiver : Value) (index : Nat) : Except Fault (Nat × Value) :=
  let fault := Fault.unknownField receiver.className index
  match receiver with
  | .object _ number =>
    match (s.fieldsOf number)[index]? with
    | some v => .ok (number, v)
    | none => .error fault
  | _ => .error fault

namespace Machine

/-- What a message asks for, once the operands are taken. -/
def messageAction (m : Machine) (toSuper : Bool) (className selector : String)
    (operands : List Value) (receiver : Value) (arguments : List Value) : Action :=
  match if toSuper then none else receiver.builtin? selector arguments.length with
  | some p => .ofPrimitive m.store operands p receiver arguments
  | none =>
    .attempt (m.methodFor toSuper className receiver selector) fun method =>
      match method.code.primitive with
      | some p => .ofPrimitive m.store operands p receiver arguments
      | none => .call operands method receiver arguments

/-- What a message with some arguments asks for. -/
def sendAction (m : Machine) (f : Frame) (toSuper : Bool) (count selector : UInt16) : Action :=
  .need (.internal .literalOutOfRange) (f.code.literal? selector) fun selector =>
    match takeOperands count.toNat [] f.operands with
    | some (arguments, receiver :: operands) =>
      m.messageAction toSuper f.code.className selector operands receiver arguments
    | _ => .fail .stackUnderflow

/-- A variable of an activation around the code: its activation and its value. -/
def slotAt (m : Machine) (f : Frame) (depth index : UInt16) : Except Fault (Nat × Value) :=
  match f.environment.chain[depth.toNat]? with
  | none => .error (.internal .depthOutOfRange)
  | some activation =>
    match m.store.slot? activation index.toNat with
    | none => .error (.internal .indexOutOfRange)
    | some v => .ok (activation, v)

/-- A field of the receiver: the number of the object and the value. -/
def fieldAt (m : Machine) (f : Frame) (index : UInt16) : Except Fault (Nat × Value) :=
  let fault := Fault.unknownField f.environment.receiver.className index.toNat
  match f.environment.receiver with
  | .object _ number =>
    match (m.store.fieldsOf number)[index.toNat]? with
    | some v => .ok (number, v)
    | none => .error fault
  | _ => .error fault

/-- **What an instruction asks for.** -/
def action (m : Machine) (f : Frame) : Instruction → Action
  | .pushNil => .proceed m.store (.nil :: f.operands)
  | .pushTrue => .proceed m.store (.boolean true :: f.operands)
  | .pushFalse => .proceed m.store (.boolean false :: f.operands)
  | .pushSelf => .proceed m.store (f.environment.receiver :: f.operands)
  | .pushInteger bits => .proceed m.store (.integer bits.toInt32 :: f.operands)
  | .pushFloat bits => .proceed m.store (.float ⟨bits⟩ :: f.operands)
  | .pushCharacter code =>
    .need (.internal .invalidCharacter) (Text.charOf? code.toNat) fun c =>
      .proceed m.store (.character c :: f.operands)
  | .pushArray count =>
    .need .stackUnderflow (takeOperands count.toNat [] f.operands) fun taken =>
      .ofReply m.store taken.2 (.newArray taken.1.toArray)
  | .pushLiteral literal =>
    .need (.internal .literalOutOfRange) (f.code.literal? literal) fun text =>
      .proceed m.store (literalValue f literal text :: f.operands)
  | .pushGlobal literal =>
    .need (.internal .literalOutOfRange) (f.code.literal? literal) fun name =>
      .need (globalFault name) (m.global? name) fun v => .proceed m.store (v :: f.operands)
  | .pushLocal depth index =>
    .attempt (m.slotAt f depth index) fun found => .proceed m.store (found.2 :: f.operands)
  | .pushField index =>
    .attempt (m.fieldAt f index) fun found => .proceed m.store (found.2 :: f.operands)
  | .storeLocal depth index =>
    .need .stackUnderflow f.operands.head? fun v =>
      .attempt (m.slotAt f depth index) fun found =>
        .proceed (m.store.setSlot found.1 index.toNat v) f.operands
  | .storeField index =>
    .need .stackUnderflow f.operands.head? fun v =>
      .attempt (m.fieldAt f index) fun found =>
        .proceed (m.store.setField found.1 index.toNat v) f.operands
  | .pop => .need .stackUnderflow f.operands.head? fun _ => .proceed m.store f.operands.tail
  | .send count selector => m.sendAction f false count selector
  | .sendSuper count selector => m.sendAction f true count selector
  | .block index =>
    .need (.internal .blockOutOfRange) f.method.code.blocks[index.toNat]? fun code =>
      let closure := ⟨f.method, index.toNat, code, f.environment⟩
      .proceed (m.store.newBlock closure).2 ((m.store.newBlock closure).1 :: f.operands)
  | .blockReturn => .need .stackUnderflow f.operands.head? .leave
  | .methodReturn => .need .stackUnderflow f.operands.head? .answer
  | .mark file line column => .record ⟨file, line, column⟩

/-- The machine with another store and with other operands for the activation `f`. -/
def proceed (m : Machine) (f : Frame) (store : Store) (operands : List Value) : Machine :=
  ⟨m.classes, m.transcript, store, m.stack.replaceTop { f with operands := operands }, m.loops⟩

/-- **Do what is asked for**, in the innermost activation `f`. -/
def carryOut (m : Machine) (f : Frame) : Action → Progress
  | .proceed store operands => .running (m.proceed f store operands)
  | .record mark => .running (m.resume { f with mark := some mark })
  | .call operands method receiver arguments =>
    (m.proceed f m.store operands).enterMethod method receiver arguments
  | .invoke operands closure arguments =>
    (m.proceed f m.store operands).enterBlock closure arguments
  | .loop operands condition body repeatWhile =>
    (m.proceed f m.store operands).enterLoop condition body repeatWhile
  | .leave v => m.leave 1 v
  | .answer v =>
    match m.returnCount? f with
    | some count => m.leave count v
    | none => .failed (.blockCannotReturn f.code.name) m
  | .fail fault => .failed fault m

/-- A return ends at least one activation. -/
theorem returnCount?_pos {count : Nat} (h : m.returnCount? f = some count) : 0 < count := by
  rw [returnCount?] at h
  split at h
  · obtain ⟨n, -, rfl⟩ := Option.map_eq_some_iff.1 h
    exact Nat.succ_pos n
  · obtain rfl := Option.some.inj h
    exact Nat.one_pos

/-! ### Instructions do what they ask for -/

variable (m : Machine) (f : Frame)

theorem perform_eq_carryOut (operands : List Value) (p : Primitive) (receiver : Value)
    (arguments : List Value) :
    m.perform { f with operands := operands } p receiver arguments =
      m.carryOut f (.ofPrimitive m.store operands p receiver arguments) := by
  rw [perform, Action.ofPrimitive]
  cases p.perform m.store receiver arguments with
  | error fault => rfl
  | ok reply => cases reply <;> rfl

/-- The operands that are taken, the first of them deepest, and those below. -/
theorem takeOperands_eq_some_iff {n : Nat} {taken operands arguments rest : List Value} :
    takeOperands n taken operands = some (arguments, rest) ↔ n ≤ operands.length ∧
      arguments = (operands.take n).reverse ++ taken ∧ rest = operands.drop n := by
  induction n generalizing taken operands with
  | zero => simp [takeOperands, eq_comm]
  | succ n ih =>
    cases operands with
    | nil => simp [takeOperands]
    | cons v operands => simp [takeOperands, ih]

theorem send_eq_carryOut (toSuper : Bool) (count selector : UInt16) :
    (m.withLiteral f selector fun selector => m.send f toSuper selector count.toNat) =
      m.carryOut f (m.sendAction f toSuper count selector) := by
  rw [withLiteral, sendAction]
  cases f.code.literal? selector with
  | none => rfl
  | some selector =>
    simp only [send, Action.need]
    cases htake : takeOperands count.toNat [] f.operands with
    | none => rfl
    | some taken =>
      obtain ⟨arguments, rest⟩ := taken
      have hcount : count.toNat = arguments.length := by
        obtain ⟨hle, rfl, -⟩ := takeOperands_eq_some_iff.1 htake
        simp [hle]
      cases rest with
      | nil => rfl
      | cons receiver operands =>
        simp only [messageAction, hcount]
        cases (if toSuper then none else receiver.builtin? selector arguments.length) with
        | some p => exact m.perform_eq_carryOut f operands p receiver arguments
        | none =>
          simp only
          cases m.methodFor toSuper f.code.className receiver selector with
          | error fault => rfl
          | ok method =>
            simp only [Action.attempt]
            cases method.code.primitive with
            | some p => exact m.perform_eq_carryOut f operands p receiver arguments
            | none => rfl

/-- **An instruction does what it asks for.** -/
theorem execute_eq_carryOut (i : Instruction) : m.execute f i = m.carryOut f (m.action f i) := by
  cases i with
  | pushCharacter code =>
    simp only [execute, action]
    cases Text.charOf? code.toNat <;> rfl
  | pushArray count =>
    simp only [execute, action]
    cases takeOperands count.toNat [] f.operands <;> rfl
  | pushLiteral literal =>
    simp only [execute, action, withLiteral]
    cases f.code.literal? literal <;> rfl
  | pushGlobal literal =>
    simp only [execute, action, withLiteral]
    cases f.code.literal? literal with
    | none => rfl
    | some name =>
      simp only [Action.need]
      cases m.global? name <;> rfl
  | pushLocal depth index =>
    simp only [execute, action, withActivation, slotAt]
    cases f.environment.chain[depth.toNat]? with
    | none => rfl
    | some activation =>
      simp only
      cases m.store.slot? activation index.toNat <;> rfl
  | pushField index =>
    simp only [execute, action, withField, fieldAt]
    cases f.environment.receiver with
    | object cls number =>
      simp only
      cases (m.store.fieldsOf number)[index.toNat]? <;> rfl
    | _ => rfl
  | storeLocal depth index =>
    obtain ⟨code, rest, method, block, operands, environment, mark⟩ := f
    cases operands with
    | nil => rfl
    | cons v operands =>
      simp only [execute, action, withTop, withActivation, slotAt]
      cases environment.chain[depth.toNat]? with
      | none => rfl
      | some activation =>
        simp only
        cases m.store.slot? activation index.toNat <;> rfl
  | storeField index =>
    obtain ⟨code, rest, method, block, operands, environment, mark⟩ := f
    cases operands with
    | nil => rfl
    | cons v operands =>
      simp only [execute, action, withTop, withField, fieldAt]
      cases environment.receiver with
      | object cls number =>
        simp only
        cases (m.store.fieldsOf number)[index.toNat]? <;> rfl
      | _ => rfl
  | pop | blockReturn | methodReturn =>
    simp only [execute, action, withTop]
    cases f.operands <;> rfl
  | send count selector => exact m.send_eq_carryOut f false count selector
  | sendSuper count selector => exact m.send_eq_carryOut f true count selector
  | block index =>
    simp only [execute, action]
    cases f.method.code.blocks[index.toNat]? <;> rfl
  | _ => rfl

end Machine

/-! ### Machines that stand for each other -/

variable {α β : Type} {s s' : Store} {operands operands' arguments arguments' : List Value}
  {R : α → β → Prop} {k : α → Action} {k' : β → Action}

/-- What instructions can see of two machines stands for each other. -/
@[grind cases]
structure Machine.Pair (P : Pairing) (m n : Machine) : Prop where
  classes (name : String) : Option.Rel P.cls (m.classes.get? name) (n.classes.get? name)
  transcript : Option.Rel (Value.Pair P) m.transcript n.transcript
  store : m.store.Pair P n.store

/-- More may be paired when one more activation is started. -/
theorem Machine.Pair.start {Q : Pairing} (hPQ : P.Within Q) (h : m.Pair P m) {row : Array Value}
    (hrow : RowPair P row row) (stack : CallStack) (loops : List Loop) :
    Machine.Pair Q ⟨m.classes, m.transcript, (m.store.newActivation row).2, stack, loops⟩
      ⟨m.classes, m.transcript, (m.store.newActivation row).2, stack, loops⟩ where
  classes name := Rel.imp_of_eq (h.classes name) fun _ _ _ _ => hPQ.cls
  transcript := Rel.imp_of_eq h.transcript fun _ _ _ _ => .mono hPQ
  store := ((h.store.mono hPQ).newActivation (Forall₂.mono hPQ hrow)).2

/-- What instructions can see of two activations stands for each other; so do the blocks that they
make. -/
structure Frame.Pair (P : Pairing) (f g : Frame) : Prop where
  environment : f.environment.Pair P g.environment
  operands : List.Forall₂ (Value.Pair P) f.operands g.operands
  name : f.code.name = g.code.name
  className : f.code.className = g.code.className
  blocks (index : Nat) :
    Option.Rel
      (fun c d => P.closure ⟨f.method, index, c, f.environment⟩ ⟨g.method, index, d, g.environment⟩)
      f.method.code.blocks[index]? g.method.code.blocks[index]?

/-- What makes a literal of the running code a string of its own. -/
def Frame.literalIdentity (f : Frame) (index : UInt16) : StringIdentity :=
  .literal f.method.address f.block index.toNat

/-- Does the instruction refer to a literal by its position? The file of a mark does not count, as
it is not looked up. -/
def Instruction.usesLiteral : Instruction → Bool
  | .pushLiteral _ | .pushGlobal _ | .send _ _ | .sendSuper _ _ => true
  | _ => false

/-- Instructions that stand for each other in two activations: they are the same, apart from where
the literals are. -/
inductive Instruction.Pair (P : Pairing) (f g : Frame) : Instruction → Instruction → Prop
  | same {i : Instruction} (h : i.usesLiteral = false) : Instruction.Pair P f g i i
  | pushLiteral {a b : UInt16} (h : f.code.literal? a = g.code.literal? b)
      (hidentity : (f.code.literal? a).isSome → P.identity (f.literalIdentity a) (g.literalIdentity b)) :
      Instruction.Pair P f g (.pushLiteral a) (.pushLiteral b)
  | pushGlobal {a b : UInt16} (h : f.code.literal? a = g.code.literal? b) :
      Instruction.Pair P f g (.pushGlobal a) (.pushGlobal b)
  | send (count : UInt16) {a b : UInt16} (h : f.code.literal? a = g.code.literal? b) :
      Instruction.Pair P f g (.send count a) (.send count b)
  | sendSuper (count : UInt16) {a b : UInt16} (h : f.code.literal? a = g.code.literal? b) :
      Instruction.Pair P f g (.sendSuper count a) (.sendSuper count b)

/-- What is asked for stands for each other. -/
inductive Action.Pair (P : Pairing) : Action → Action → Prop
  | proceed {s s' : Store} {operands operands' : List Value} (hs : s.Pair P s')
      (h : List.Forall₂ (Value.Pair P) operands operands') :
      Action.Pair P (.proceed s operands) (.proceed s' operands')
  | record (mark : Mark) : Action.Pair P (.record mark) (.record mark)
  | call {operands operands' arguments arguments' : List Value} {m n : Method} {v v' : Value}
      (h : List.Forall₂ (Value.Pair P) operands operands') (hm : P.method m n) (hv : v.Pair P v')
      (harguments : List.Forall₂ (Value.Pair P) arguments arguments') :
      Action.Pair P (.call operands m v arguments) (.call operands' n v' arguments')
  | invoke {operands operands' arguments arguments' : List Value} {c d : Closure Value}
      (h : List.Forall₂ (Value.Pair P) operands operands') (hc : c.Pair P d)
      (harguments : List.Forall₂ (Value.Pair P) arguments arguments') :
      Action.Pair P (.invoke operands c arguments) (.invoke operands' d arguments')
  | loop {operands operands' : List Value} {c d b b' : Closure Value} (repeatWhile : Bool)
      (h : List.Forall₂ (Value.Pair P) operands operands') (hc : c.Pair P d) (hb : b.Pair P b') :
      Action.Pair P (.loop operands c b repeatWhile) (.loop operands' d b' repeatWhile)
  | leave {v v' : Value} (h : v.Pair P v') : Action.Pair P (.leave v) (.leave v')
  | answer {v v' : Value} (h : v.Pair P v') : Action.Pair P (.answer v) (.answer v')
  | fail (fault : Fault) : Action.Pair P (.fail fault) (.fail fault)

theorem Action.need_pair (fault : Fault) {x : Option α} {y : Option β} (h : Option.Rel R x y)
    (hk : ∀ a b, R a b → (k a).Pair P (k' b)) : (need fault x k).Pair P (need fault y k') := by
  cases h with
  | some hab => exact hk _ _ hab
  | none => exact .fail fault

theorem Action.attempt_pair {x : Except Fault α} {y : Except Fault β} (h : Agree R x y)
    (hk : ∀ a b, R a b → (k a).Pair P (k' b)) : (attempt x k).Pair P (attempt y k') := by
  cases h with
  | ok hab => exact hk _ _ hab
  | error fault => exact .fail fault

theorem Action.ofReply_pair (hs : s.Pair P s') (h : List.Forall₂ (Value.Pair P) operands operands')
    {reply reply' : Reply} (hreply : reply.Pair P reply') :
    (ofReply s operands reply).Pair P (ofReply s' operands' reply') := by
  cases hreply with
  | value hv => exact .proceed hs (.cons hv h)
  | newString text => exact .proceed (hs.newString text).2 (.cons (hs.newString text).1 h)
  | newArray hrow => exact .proceed (hs.newArray hrow).2 (.cons (hs.newArray hrow).1 h)
  | newObject hcls => exact .proceed (hs.newObject hcls).2 (.cons (hs.newObject hcls).1 h)
  | setItem array index hv => exact .proceed (hs.setItem array index hv) (.cons hv h)
  | writeLine text hv => exact .proceed (hs.writeLine text) (.cons hv h)
  | invoke hc harguments => exact .invoke h hc harguments
  | loop repeatWhile hc hb => exact .loop repeatWhile h hc hb

theorem Action.ofPrimitive_pair (hs : s.Pair P s')
    (h : List.Forall₂ (Value.Pair P) operands operands') (p : Primitive) (hv : v.Pair P v')
    (harguments : List.Forall₂ (Value.Pair P) arguments arguments') :
    (ofPrimitive s operands p v arguments).Pair P (ofPrimitive s' operands' p v' arguments') :=
  attempt_pair (p.perform_pair hs hv harguments) fun _ _ hreply => ofReply_pair hs h hreply

theorem Store.Pair.fieldAt (h : s.Pair P s') {w : Value} (hv : v.Pair P w) (index : Nat) :
    Agree (fun x y => x.1 = y.1 ∧ x.2.Pair P y.2) (s.fieldAt v index) (s'.fieldAt w index) := by
  rw [Store.fieldAt.eq_def, Store.fieldAt.eq_def, hv.className_eq]
  generalize Fault.unknownField w.className index = fault
  cases hv with
  | object number hcls =>
    have hfield := Forall₂.getElem? (h.fieldsOf number) index
    rw [Array.getElem?_toList, Array.getElem?_toList] at hfield
    simp only
    generalize (s.fieldsOf number)[index]? = x at hfield ⊢
    generalize (s'.fieldsOf number)[index]? = y at hfield ⊢
    cases hfield with
    | none => exact .error _
    | some hv => exact .ok ⟨rfl, hv⟩
  | _ => exact .error _

/-- Paired arguments, with nil for the other variables. -/
theorem RowPair.ofArguments (h : List.Forall₂ (Value.Pair P) arguments arguments') (count : Nat) :
    RowPair P (arguments.toArray ++ Array.replicate (count - arguments.length) .nil)
      (arguments'.toArray ++ Array.replicate (count - arguments'.length) .nil) := by
  simp only [RowPair, h.length_eq, Array.toList_append, Array.toList_replicate]
  exact List.rel_append h (Forall₂.replicate _ .nil)

namespace Machine

variable {n : Machine} {g : Frame} {operands operands' arguments arguments' : List Value}
  {c d : Option Class} {a b : UInt16}

theorem classes_new (T : ClassTable) : (Machine.new T).classes = T := by
  rw [Machine.new]
  split <;> rfl

theorem stack_new (T : ClassTable) : (Machine.new T).stack = CallStack.empty := by
  rw [Machine.new]
  split <;> rfl

theorem activations_new (T : ClassTable) : (Machine.new T).store.activations = #[] := by
  rw [Machine.new]
  split <;> rfl

theorem loops_new (T : ClassTable) : (Machine.new T).loops = [] := by
  rw [Machine.new]
  split <;> rfl

/-- **Machines for paired classes start alike.** -/
theorem Pair.new {T T' : ClassTable}
    (h : ∀ name, Option.Rel P.cls (T.get? name) (T'.get? name)) :
    (Machine.new T).Pair P (Machine.new T') := by
  have hstream := h "TranscriptStream"
  rw [Machine.new, Machine.new]
  generalize T.get? "TranscriptStream" = x at hstream ⊢
  generalize T'.get? "TranscriptStream" = y at hstream ⊢
  cases hstream with
  | none => exact ⟨h, .none, .empty⟩
  | some hcls =>
    have hnew := Store.Pair.empty.newObject (P := P) hcls
    exact ⟨h, .some hnew.1, hnew.2⟩

theorem takeOperands_pair (count : Nat) {taken taken' : List Value}
    (htaken : List.Forall₂ (Value.Pair P) taken taken')
    (h : List.Forall₂ (Value.Pair P) operands operands') :
    Option.Rel (fun x y => List.Forall₂ (Value.Pair P) x.1 y.1 ∧ List.Forall₂ (Value.Pair P) x.2 y.2)
      (takeOperands count taken operands) (takeOperands count taken' operands') := by
  induction count generalizing taken taken' operands operands' with
  | zero => exact .some ⟨htaken, h⟩
  | succ count ih =>
    cases h with
    | nil => exact .none
    | cons hv hoperands => exact ih (.cons hv htaken) hoperands

/-- Activations of paired code start with paired variables. -/
theorem slots_pair {code code' : CompiledCode} (hcode : code.slotCount = code'.slotCount)
    (h : List.Forall₂ (Value.Pair P) arguments arguments') :
    RowPair P (slots code arguments) (slots code' arguments') := by
  rw [slots, hcode]
  exact RowPair.ofArguments h code'.slotCount

theorem global?_pair (h : m.Pair P n) (name : String) :
    Option.Rel (Value.Pair P) (m.global? name) (n.global? name) := by
  have hclass : Option.Rel (Value.Pair P) ((m.classes.get? name).map Value.classObject)
      ((n.classes.get? name).map Value.classObject) :=
    Rel.map (h.classes name) fun _ _ hcls => .classObject hcls
  rw [global?, global?]
  split
  · exact Rel.orElse h.transcript hclass
  · exact hclass

theorem classOf?_pair (h : m.Pair P n) (hv : v.Pair P v') :
    Option.Rel P.cls (m.classOf? v) (n.classOf? v') := by
  cases hv with
  | object _ hcls | classObject hcls => exact .some hcls
  | _ => exact h.classes _

theorem lookup?_pair (h : Option.Rel P.cls c d) (selector : String) (classSide : Bool) :
    Option.Rel P.method (c.bind (·.lookup? selector classSide)) (d.bind (·.lookup? selector classSide)) :=
  Rel.bind h fun _ _ hcls => P.cls_lookup selector classSide hcls

theorem findMethod?_pair (h : m.Pair P n) (hc : Option.Rel P.cls c d) (selector : String)
    (classSide : Bool) :
    Option.Rel P.method (m.classes.findMethod? c selector classSide)
      (n.classes.findMethod? d selector classSide) := by
  have hshared : List.Forall₂ P.cls (ClassTable.shared.filterMap m.classes.get?)
      (ClassTable.shared.filterMap n.classes.get?) := by
    refine List.rel_filterMap (R := Eq) (fun name _ hname => ?_) (List.forall₂_refl _)
    exact hname ▸ h.classes name
  exact Rel.orElse (lookup?_pair hc selector classSide)
    (Forall₂.findSome? hshared fun _ _ hcls => P.cls_lookup selector classSide hcls)

section

variable (h : m.Pair P n) (toSuper : Bool) (className : String) (hv : v.Pair P v')
  (selector : String)

include h hv

theorem methodOn?_pair (classSide : Bool) :
    Option.Rel P.method (m.methodOn? toSuper className v selector classSide)
      (n.methodOn? toSuper className v' selector classSide) := by
  cases toSuper with
  | false => exact findMethod?_pair h (classOf?_pair h hv) selector classSide
  | true =>
    exact lookup?_pair (Rel.bind (h.classes className) fun _ _ => P.cls_superclass) selector
      classSide

theorem methodFor_pair : Agree P.method (m.methodFor toSuper className v selector)
      (n.methodFor toSuper className v' selector) := by
  have hside := methodOn?_pair h toSuper className hv selector v.isClass
  have hother := methodOn?_pair h toSuper className hv selector (!v.isClass)
  rw [methodFor, methodFor, ← hv.isClass_eq]
  generalize m.methodOn? toSuper className v selector v.isClass = x at hside ⊢
  generalize n.methodOn? toSuper className v' selector v.isClass = y at hside ⊢
  cases hside with
  | some hm => exact .ok hm
  | none =>
    generalize m.methodOn? toSuper className v selector (!v.isClass) = x at hother ⊢
    generalize n.methodOn? toSuper className v' selector (!v.isClass) = y at hother ⊢
    have hmissing : missing v selector x = missing v' selector y := by
      rw [missing.eq_def, missing.eq_def, hv.className_eq, hv.isClass_eq]
      cases hother <;> rfl
    simp only [hmissing]
    exact .error _

end

theorem slotAt_pair (h : m.Pair P n) (hf : f.Pair P g) (depth index : UInt16) :
    Agree (fun x y => x.1 = y.1 ∧ x.2.Pair P y.2) (m.slotAt f depth index)
      (n.slotAt g depth index) := by
  rw [slotAt, slotAt, hf.environment.chain_eq]
  cases g.environment.chain[depth.toNat]? with
  | none => exact .error _
  | some activation =>
    have hslot := h.store.slot? activation index.toNat
    simp only
    generalize m.store.slot? activation index.toNat = x at hslot ⊢
    generalize n.store.slot? activation index.toNat = y at hslot ⊢
    cases hslot with
    | none => exact .error _
    | some hv => exact .ok ⟨rfl, hv⟩

theorem fieldAt_pair (h : m.Pair P n) (hf : f.Pair P g) (index : UInt16) :
    Agree (fun x y => x.1 = y.1 ∧ x.2.Pair P y.2) (m.fieldAt f index) (n.fieldAt g index) :=
  h.store.fieldAt hf.environment.receiver index.toNat

theorem messageAction_pair (h : m.Pair P n) (toSuper : Bool) (className selector : String)
    (hoperands : List.Forall₂ (Value.Pair P) operands operands') (hv : v.Pair P v')
    (harguments : List.Forall₂ (Value.Pair P) arguments arguments') :
    (m.messageAction toSuper className selector operands v arguments).Pair P
      (n.messageAction toSuper className selector operands' v' arguments') := by
  rw [messageAction, messageAction, hv.builtin?_eq, harguments.length_eq]
  cases (if toSuper then none else v'.builtin? selector arguments'.length) with
  | some p => exact Action.ofPrimitive_pair h.store hoperands p hv harguments
  | none =>
    refine Action.attempt_pair (methodFor_pair h toSuper className hv selector) fun a b hm => ?_
    rw [P.method_primitive hm]
    cases b.code.primitive with
    | some p => exact Action.ofPrimitive_pair h.store hoperands p hv harguments
    | none => exact .call hoperands hm hv harguments

/-- Literals that are the same. -/
theorem literal?_pair (h : f.code.literal? a = g.code.literal? b) :
    Option.Rel (fun x y => x = y ∧ f.code.literal? a = some x) (f.code.literal? a)
      (g.code.literal? b) := by
  rw [← h]
  cases f.code.literal? a with
  | none => exact .none
  | some text => exact .some ⟨rfl, rfl⟩

theorem sendAction_pair (h : m.Pair P n) (hf : f.Pair P g) (toSuper : Bool) (count : UInt16)
    (hliteral : f.code.literal? a = g.code.literal? b) :
    (m.sendAction f toSuper count a).Pair P (n.sendAction g toSuper count b) := by
  refine Action.need_pair _ (literal?_pair hliteral) fun selector _ hselector => ?_
  rw [← hselector.1]
  have htaken := takeOperands_pair count.toNat .nil hf.operands
  generalize takeOperands count.toNat [] f.operands = x at htaken ⊢
  generalize takeOperands count.toNat [] g.operands = y at htaken ⊢
  cases htaken with
  | none => exact .fail _
  | @some x y hxy =>
    obtain ⟨arguments, operands⟩ := x
    obtain ⟨arguments', operands'⟩ := y
    obtain ⟨harguments, hoperands⟩ := hxy
    cases hoperands with
    | nil => exact .fail _
    | cons hv hoperands =>
      simp only [hf.className]
      exact messageAction_pair h toSuper _ selector hoperands hv harguments

/-- **Paired instructions ask for paired things.** -/
theorem action_pair (h : m.Pair P n) (hf : f.Pair P g) {i j : Instruction}
    (hij : Instruction.Pair P f g i j) : (m.action f i).Pair P (n.action g j) := by
  have hpush {v v' : Value} (hv : v.Pair P v') :
      (Action.proceed m.store (v :: f.operands)).Pair P (.proceed n.store (v' :: g.operands)) :=
    .proceed h.store (.cons hv hf.operands)
  have htop : Option.Rel (Value.Pair P) f.operands.head? g.operands.head? := by
    rw [List.head?_eq_getElem?, List.head?_eq_getElem?]
    exact Forall₂.getElem? hf.operands 0
  cases hij with
  | pushLiteral hliteral hidentity =>
    refine Action.need_pair _ (literal?_pair hliteral) fun text _ htext => ?_
    rw [← htext.1]
    exact hpush (.string text (hidentity (by rw [htext.2]; rfl)))
  | pushGlobal hliteral =>
    refine Action.need_pair _ (literal?_pair hliteral) fun name _ hname => ?_
    rw [← hname.1]
    exact Action.need_pair _ (global?_pair h name) fun _ _ hv => hpush hv
  | send count hliteral => exact sendAction_pair h hf false count hliteral
  | sendSuper count hliteral => exact sendAction_pair h hf true count hliteral
  | same hi =>
    cases i with
    | pushNil => exact hpush .nil
    | pushTrue => exact hpush (.boolean true)
    | pushFalse => exact hpush (.boolean false)
    | pushSelf => exact hpush hf.environment.receiver
    | pushInteger bits => exact hpush (.integer _)
    | pushFloat bits => exact hpush (.float _)
    | pushCharacter code =>
      rw [action, action]
      cases Text.charOf? code.toNat with
      | none => exact .fail _
      | some c => exact hpush (.character c)
    | pushArray count =>
      refine Action.need_pair _ (takeOperands_pair count.toNat .nil hf.operands) ?_
      intro a b hab
      exact Action.ofReply_pair h.store hab.2 (.newArray (by simpa [RowPair] using hab.1))
    | pushLiteral literal | pushGlobal literal | send count selector
    | sendSuper count selector => simp [Instruction.usesLiteral] at hi
    | pushLocal depth index =>
      exact Action.attempt_pair (slotAt_pair h hf depth index) fun _ _ hv => hpush hv.2
    | pushField index =>
      exact Action.attempt_pair (fieldAt_pair h hf index) fun _ _ hv => hpush hv.2
    | storeLocal depth index =>
      refine Action.need_pair _ htop fun v v' hv =>
        Action.attempt_pair (slotAt_pair h hf depth index) fun a b hab => ?_
      rw [hab.1]
      exact .proceed (h.store.setSlot b.1 index.toNat hv) hf.operands
    | storeField index =>
      refine Action.need_pair _ htop fun v v' hv =>
        Action.attempt_pair (fieldAt_pair h hf index) fun a b hab => ?_
      rw [hab.1]
      exact .proceed (h.store.setField b.1 index.toNat hv) hf.operands
    | pop =>
      refine Action.need_pair _ htop fun _ _ _ => .proceed h.store ?_
      rw [← List.drop_one, ← List.drop_one]
      exact List.forall₂_drop 1 hf.operands
    | block index =>
      refine Action.need_pair _ (hf.blocks index.toNat) fun c d hclosure => ?_
      have hnew := h.store.newBlock ⟨hclosure, hf.environment.receiver⟩
      exact .proceed hnew.2 (.cons hnew.1 hf.operands)
    | blockReturn => exact Action.need_pair _ htop fun _ _ hv => .leave hv
    | methodReturn => exact Action.need_pair _ htop fun _ _ hv => .answer hv
    | mark file line column => exact .record _

end Machine

end Smalltalk
