/-
**One step of the machine.**

A step reads one instruction of the innermost activation and carries it out. A message either
performs a built-in operation or starts an activation; the activation that sent it goes on when
that one is over, with the answer among its operands.

To leave a method from within a block ends the activation of the method that the block was made
in, and all activations that were started since.

* `Progress` — what comes of a step;
* `Machine.enterMethod`, `enterBlock` — start an activation;
* `Machine.leave` — **end activations**, and go on with the one below;
* `Machine.send` — **send a message**;
* `Machine.execute`, `Machine.step` — **one instruction**.
-/

import Smalltalk.Machine.Perform
import Smalltalk.Machine.State

namespace Smalltalk

inductive Progress where
  | running (m : Machine)
  | finished (v : Value) (m : Machine)
  | failed (fault : Fault) (m : Machine)

namespace Machine

/-! ### Starting activations -/

/-- The variables of a new activation: the arguments, and nil for the others. -/
def slots (code : CompiledCode) (arguments : List Value) : Array Value :=
  arguments.toArray ++ Array.replicate (code.slotCount - arguments.length) .nil

@[inline] def resume (m : Machine) (f : Frame) : Machine :=
  let ⟨classes, transcript, store, stack, loops⟩ := m
  ⟨classes, transcript, store, stack.replaceTop f, loops⟩

@[inline] def make (m : Machine) (f : Store → Value × Store) : Value × Machine :=
  let ⟨classes, transcript, store, stack, loops⟩ := m
  let (v, store) := f store
  (v, ⟨classes, transcript, store, stack, loops⟩)

@[inline] def change (m : Machine) (f : Store → Store) : Machine :=
  let ⟨classes, transcript, store, stack, loops⟩ := m
  ⟨classes, transcript, f store, stack, loops⟩

def activate (m : Machine) (method : Method) (receiver : Value) (slots : Array Value) :
    Machine :=
  let ⟨classes, transcript, store, stack, loops⟩ := m
  let (activation, store) := store.newActivation slots
  ⟨classes, transcript, store, stack.push (Frame.ofMethod method ⟨receiver, activation, []⟩), loops⟩

def enterMethod (m : Machine) (method : Method) (receiver : Value) (arguments : List Value) :
    Progress :=
  if arguments.length = method.code.argumentCount then
    .running (m.activate method receiver (slots method.code arguments))
  else .failed (.internal .wrongArguments) m

def enterBlock (m : Machine) (closure : Closure Value) (arguments : List Value) : Progress :=
  if arguments.length = closure.code.argumentCount then
    let ⟨classes, transcript, store, stack, loops⟩ := m
    let (activation, store) := store.newActivation (slots closure.code arguments)
    .running ⟨classes, transcript, store, stack.push (Frame.ofBlock closure activation), loops⟩
  else .failed (.mismatchedBlockArguments closure.code.argumentCount arguments.length) m

/-! ### Built-in operations -/

def enterLoop (m : Machine) (condition body : Closure Value) (repeatWhile : Bool) : Progress :=
  let ⟨classes, transcript, store, stack, loops⟩ := m
  let loop := ⟨stack.depth - 1, condition, body, repeatWhile, false⟩
  enterBlock ⟨classes, transcript, store, stack, loop :: loops⟩ condition []

/-- Do what an operation replies, for the innermost activation `f`. -/
def follow (m : Machine) (f : Frame) : Reply → Progress
  | .value v => .running (m.resume (f.push v))
  | .newString text =>
    let (v, m) := m.make (·.newString text)
    .running (m.resume (f.push v))
  | .newArray items =>
    let (v, m) := m.make (·.newArray items)
    .running (m.resume (f.push v))
  | .newObject cls =>
    let (v, m) := m.make (·.newObject cls)
    .running (m.resume (f.push v))
  | .setItem array index v => .running ((m.change (·.setItem array index v)).resume (f.push v))
  | .writeLine text v => .running ((m.change (·.writeLine text)).resume (f.push v))
  | .invoke closure arguments => (m.resume f).enterBlock closure arguments
  | .loop condition body repeatWhile => (m.resume f).enterLoop condition body repeatWhile

def perform (m : Machine) (f : Frame) (p : Primitive) (receiver : Value) (arguments : List Value) :
    Progress :=
  match p.perform m.store receiver arguments with
  | .ok reply => m.follow f reply
  | .error fault => .failed fault m

/-! ### Messages -/

/-- The fault of a message without a method, which depends on whether the other side of the class
has one. -/
def missing (receiver : Value) (selector : String) (otherSide : Option Method) : Fault :=
  match otherSide with
  | none => .messageNotUnderstood receiver.className selector
  | some _ =>
    if receiver.isClass then .instanceMessageSentToClass receiver.className selector
    else .classMessageSentToInstance receiver.className selector

/-- The method for a message on one side: for a message to `super` the one that the superclass of
the running code has, and otherwise the one that the receiver has. -/
def methodOn? (m : Machine) (toSuper : Bool) (className : String) (receiver : Value)
    (selector : String) (classSide : Bool) : Option Method :=
  if toSuper then
    ((m.classes.get? className).bind Class.superclass).bind (·.lookup? selector classSide)
  else m.classes.findMethod? (m.classOf? receiver) selector classSide

def methodFor (m : Machine) (toSuper : Bool) (className : String) (receiver : Value)
    (selector : String) : Except Fault Method :=
  match m.methodOn? toSuper className receiver selector receiver.isClass with
  | some method => .ok method
  | none =>
    let otherSide := m.methodOn? toSuper className receiver selector (!receiver.isClass)
    .error (missing receiver selector otherSide)

/-- The top operands, in the order in which they were pushed, and the operands below. -/
def takeOperands : Nat → List Value → List Value → Option (List Value × List Value)
  | 0, taken, operands => some (taken, operands)
  | _ + 1, _, [] => none
  | n + 1, taken, v :: operands => takeOperands n (v :: taken) operands

/-- **Send a message** from the innermost activation `f`, whose top operands are the receiver and
the arguments. -/
def send (m : Machine) (f : Frame) (toSuper : Bool) (selector : String) (count : Nat) : Progress :=
  match takeOperands count [] f.operands with
  | some (arguments, receiver :: operands) =>
    let f := { f with operands := operands }
    let builtin := if toSuper then none else receiver.builtin? selector count
    match builtin with
    | some p => m.perform f p receiver arguments
    | none =>
      match m.methodFor toSuper f.code.className receiver selector with
      | .error fault => .failed fault m
      | .ok method =>
        match method.code.primitive with
        | some p => m.perform f p receiver arguments
        | none => (m.resume f).enterMethod method receiver arguments
  | _ => .failed .stackUnderflow m

/-! ### Ending activations -/

def give (m : Machine) (v : Value) : Progress :=
  match m.stack.frames with
  | [] => .finished v m
  | f :: _ => .running (m.resume (f.push v))

/-- Go on with the innermost loop, whose condition or body has answered a value. -/
def continueLoop (m : Machine) (loop : Loop) (outer : List Loop) (v : Value) : Progress :=
  let ⟨classes, transcript, store, stack, _⟩ := m
  if loop.inBody then
    enterBlock ⟨classes, transcript, store, stack, { loop with inBody := false } :: outer⟩
      loop.condition []
  else
    match v with
    | .boolean answer =>
      if answer = loop.repeatWhile then
        enterBlock ⟨classes, transcript, store, stack, { loop with inBody := true } :: outer⟩
          loop.body []
      else give ⟨classes, transcript, store, stack, outer⟩ .nil
    | other =>
      .failed (.typeError "Boolean" other.className)
        ⟨classes, transcript, store, stack, loop :: outer⟩

/-- **End the innermost `n` activations** and the loops in them, and go on with the loop or the
activation that waits for the value. -/
def leave (m : Machine) (n : Nat) (v : Value) : Progress :=
  let ⟨classes, transcript, store, stack, loops⟩ := m
  let stack := stack.drop n
  match loops.dropWhile fun loop => stack.depth ≤ loop.depth with
  | [] => give ⟨classes, transcript, store, stack, []⟩ v
  | loop :: outer =>
    if loop.depth + 1 = stack.depth then
      continueLoop ⟨classes, transcript, store, stack, loop :: outer⟩ loop outer v
    else give ⟨classes, transcript, store, stack, loop :: outer⟩ v

/-- How many activations a return from `f` ends: all down to the one of the method that the code
is part of. -/
def returnCount? (m : Machine) (f : Frame) : Option Nat :=
  if f.environment.isBlock then
    (m.stack.frames.findIdx? fun g => g.environment.activation = f.environment.home).map (· + 1)
  else some 1

/-! ### Instructions -/

def literalValue (f : Frame) (index : UInt16) (text : String) : Value :=
  .string (.literal f.method.address f.block index.toNat) text

@[inline]
def withLiteral (m : Machine) (f : Frame) (index : UInt16) (k : String → Progress) : Progress :=
  match f.code.literal? index with
  | some text => k text
  | none => .failed (.internal .literalOutOfRange) m

@[inline] def withTop (m : Machine) (f : Frame) (k : Value → List Value → Progress) : Progress :=
  match f.operands with
  | v :: operands => k v operands
  | [] => .failed .stackUnderflow m

/-- Use the activation that is some steps out. -/
@[inline]
def withActivation (m : Machine) (f : Frame) (depth : UInt16) (k : Nat → Progress) : Progress :=
  match f.environment.chain[depth.toNat]? with
  | some activation => k activation
  | none => .failed (.internal .depthOutOfRange) m

@[inline]
def withField (m : Machine) (f : Frame) (index : UInt16) (k : Nat → Value → Progress) : Progress :=
  let receiver := f.environment.receiver
  let fault := Fault.unknownField receiver.className index.toNat
  match receiver with
  | .object _ number =>
    match (m.store.fieldsOf number)[index.toNat]? with
    | some v => k number v
    | none => .failed fault m
  | _ => .failed fault m

/-- **Carry out an instruction** in the innermost activation, which is `f` with the instruction
already read. -/
def execute (m : Machine) (f : Frame) : Instruction → Progress
  | .pushNil => .running (m.resume (f.push .nil))
  | .pushTrue => .running (m.resume (f.push (.boolean true)))
  | .pushFalse => .running (m.resume (f.push (.boolean false)))
  | .pushSelf => .running (m.resume (f.push f.environment.receiver))
  | .pushInteger bits => .running (m.resume (f.push (.integer bits.toInt32)))
  | .pushFloat bits => .running (m.resume (f.push (.float ⟨bits⟩)))
  | .pushCharacter code =>
    match Text.charOf? code.toNat with
    | some c => .running (m.resume (f.push (.character c)))
    | none => .failed (.internal .invalidCharacter) m
  | .pushArray count =>
    match takeOperands count.toNat [] f.operands with
    | some (items, operands) =>
      let (v, m) := m.make (·.newArray items.toArray)
      .running (m.resume { f with operands := v :: operands })
    | none => .failed .stackUnderflow m
  | .pushLiteral literal =>
    m.withLiteral f literal fun text =>
      .running (m.resume (f.push (literalValue f literal text)))
  | .pushGlobal literal =>
    m.withLiteral f literal fun name =>
      match m.global? name with
      | some v => .running (m.resume (f.push v))
      | none => .failed (globalFault name) m
  | .pushLocal depth index =>
    m.withActivation f depth fun activation =>
      match m.store.slot? activation index.toNat with
      | some v => .running (m.resume (f.push v))
      | none => .failed (.internal .indexOutOfRange) m
  | .pushField index => m.withField f index fun _ v => .running (m.resume (f.push v))
  | .storeLocal depth index =>
    m.withTop f fun v _ =>
      m.withActivation f depth fun activation =>
        if (m.store.slot? activation index.toNat).isSome then
          .running ((m.change (·.setSlot activation index.toNat v)).resume f)
        else .failed (.internal .indexOutOfRange) m
  | .storeField index =>
    m.withTop f fun v _ =>
      m.withField f index fun object _ =>
        .running ((m.change (·.setField object index.toNat v)).resume f)
  | .pop => m.withTop f fun _ operands => .running (m.resume { f with operands := operands })
  | .send count selector =>
    m.withLiteral f selector fun selector => m.send f false selector count.toNat
  | .sendSuper count selector =>
    m.withLiteral f selector fun selector => m.send f true selector count.toNat
  | .block index =>
    match f.method.code.blocks[index.toNat]? with
    | some code =>
      let (v, m) := m.make (·.newBlock ⟨f.method, index.toNat, code, f.environment⟩)
      .running (m.resume (f.push v))
    | none => .failed (.internal .blockOutOfRange) m
  | .blockReturn => m.withTop f fun v _ => m.leave 1 v
  | .methodReturn =>
    m.withTop f fun v _ =>
      match m.returnCount? f with
      | some count => m.leave count v
      | none => .failed (.blockCannotReturn f.code.name) m
  | .mark file line column => .running (m.resume { f with mark := some ⟨file, line, column⟩ })

/-- **One step.** -/
def step (m : Machine) : Progress :=
  match m.stack.frames with
  | [] => .failed (.internal .noContext) m
  | f :: _ =>
    match Instruction.read? f.rest with
    | some (i, rest) => m.execute { f with rest := rest } i
    | none => .failed (.internal .unknownOpcode) m

end Machine

end Smalltalk
