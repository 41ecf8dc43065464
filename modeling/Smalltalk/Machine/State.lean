/-
**The state of the machine.**

A machine runs activations of methods and blocks, each with operands of its own. A loop in
progress is kept beside them: its condition and its body run by turns in the activation above the
one that started it.

* `Frame` — **an activation in progress**;
* `Loop` — a loop in progress;
* `CallStack` — the activations in progress, with their number;
* `Machine`, `Machine.new` — **the machine**, and how it starts;
* `Machine.global?` — the globals.
-/

import Smalltalk.Machine.Fault
import Smalltalk.Machine.Store
import Smalltalk.Text.Capital

namespace Smalltalk

/-! ### Activations in progress -/

/-- A place in the source that was recorded, with the file as a literal of the code. -/
structure Mark where
  file : UInt16
  line : UInt16
  column : UInt16
deriving DecidableEq, Repr, Inhabited

/-- **An activation in progress.** -/
structure Frame where
  code : CompiledCode
  rest : List UInt8
  method : Method
  /-- The number of the block in the method, if the code is one of a block. -/
  block : Option Nat
  /-- The operands, the top one first. -/
  operands : List Value
  environment : Environment Value
  mark : Option Mark

namespace Frame

def ofMethod (method : Method) (environment : Environment Value) : Frame :=
  ⟨method.code, method.code.code, method, none, [], environment, none⟩

def ofBlock (closure : Closure Value) (activation : Nat) : Frame :=
  ⟨closure.code, closure.code.code, closure.method, some closure.index, [],
    closure.environment.inner activation, none⟩

@[inline] def push (f : Frame) (v : Value) : Frame := { f with operands := v :: f.operands }

def entry (f : Frame) : TraceEntry :=
  ⟨f.code.name, f.mark.map fun mark =>
    ⟨(f.code.literal? mark.file).getD "?", mark.line.toNat, mark.column.toNat⟩⟩

end Frame

structure Loop where
  /-- The position of the activation that started the loop, counted from the outermost. -/
  depth : Nat
  condition : Closure Value
  body : Closure Value
  /-- What the condition answers for the loop to go on. -/
  repeatWhile : Bool
  inBody : Bool

/-- The activations in progress, the innermost first, and their number. -/
structure CallStack where
  frames : List Frame
  depth : Nat
  depth_eq : depth = frames.length

namespace CallStack

def empty : CallStack := ⟨[], 0, rfl⟩

def push (s : CallStack) (f : Frame) : CallStack :=
  ⟨f :: s.frames, s.depth + 1, by simp [s.depth_eq]⟩

def drop (s : CallStack) (n : Nat) : CallStack :=
  ⟨s.frames.drop n, s.depth - n, by simp [s.depth_eq]⟩

@[inline] def replaceTop (s : CallStack) (f : Frame) : CallStack :=
  match s with
  | ⟨[], depth, h⟩ => ⟨[], depth, h⟩
  | ⟨_ :: frames, depth, h⟩ => ⟨f :: frames, depth, h⟩

end CallStack

/-! ### The machine -/

/-- **The machine.**  The classes and the transcript are always the same; all else changes. -/
structure Machine where
  classes : ClassTable
  /-- The object that writes to the transcript, if there is a class for it. -/
  transcript : Option Value
  store : Store
  stack : CallStack
  /-- The loops in progress, the innermost first. -/
  loops : List Loop

namespace Machine

def new (classes : ClassTable) : Machine :=
  match classes.get? "TranscriptStream" with
  | some cls =>
    let (transcript, store) := Store.empty.newObject cls
    ⟨classes, some transcript, store, CallStack.empty, []⟩
  | none => ⟨classes, none, Store.empty, CallStack.empty, []⟩

def global? (m : Machine) (name : String) : Option Value :=
  (if name = "Transcript" then m.transcript else none) <|>
    (m.classes.get? name).map Value.classObject

def globalFault (name : String) : Fault :=
  if Text.startsWithCapital name then .unknownClass name else .undefinedGlobal name

def classOf? (m : Machine) (v : Value) : Option Class :=
  match v with
  | .object cls _ | .classObject cls => some cls
  | other => m.classes.get? other.className

def trace (m : Machine) : List TraceEntry := m.stack.frames.map Frame.entry

def summary (m : Machine) : String :=
  "VM \x7b classes: " ++ toString m.classes.size ++ ", frames: " ++ toString m.stack.depth
    ++ ", .. \x7d"

end Machine

end Smalltalk
