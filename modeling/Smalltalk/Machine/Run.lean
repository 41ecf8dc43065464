/-
**Running a program.**

A program is run by sending `main` to a new object of a class. As a program may run for ever, the
number of steps is bounded by an argument; a run that is longer has no result.

* `Machine.steps` — at most some steps;
* `Machine.start?` — how a run of a class starts;
* `Machine.run` — **run a class**.
-/

import Smalltalk.Compile.Declare
import Smalltalk.Machine.Step

namespace Smalltalk

namespace Machine

def steps : Nat → Machine → Progress
  | 0, m => .running m
  | n + 1, m =>
    match m.step with
    | .running m => steps n m
    | done => done

def clear (m : Machine) : Machine :=
  let ⟨classes, transcript, store, _, _⟩ := m
  ⟨classes, transcript, store, CallStack.empty, []⟩

/-- A machine that is about to run the main method of a new object of a class. There is nothing
to run if there is no such class or if it has no main method. -/
def start? (m : Machine) (entry : String) : Option Machine :=
  match m.classes.get? entry with
  | none => none
  | some cls =>
    match cls.lookup? mainMethod false with
    | none => none
    | some method =>
      let (receiver, m) := m.clear.make (·.newObject cls)
      some (m.activate method receiver (Array.replicate method.code.slotCount .nil))

/-- **Run a class**, in at most `n` steps: its answer or what went wrong, and the machine after
the run. If there is nothing to run the answer is nil. -/
def run (n : Nat) (m : Machine) (entry : String) :
    Option (Except RuntimeError Value × Machine) :=
  match m.start? entry with
  | none => some (.ok .nil, m)
  | some m =>
    match steps n m with
    | .running _ => none
    | .finished v m => some (.ok v, m)
    | .failed fault m => some (.error ⟨fault, m.trace⟩, m.clear)

end Machine

end Smalltalk
