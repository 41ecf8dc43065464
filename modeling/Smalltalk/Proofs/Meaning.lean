/-
**What a program means.**

A program can be run from its trees alone. Running code has a place among the routines: it can see
the activation of its own routine and those of the routines around it, and a name stands for the
innermost parameter or local variable around, else for the nearest field of the class, else for a
global, which is looked up when it is used. A message evaluates its receiver and then its arguments
from left to right. A block is a value that remembers the activations it was made in; a return in a
block leaves the activation of the method that the block was written in.

Only calls and the turns of loops can go on for ever, so only they use up fuel; a tree is gone
through from the outside in. The built-in operations and the way a method is found are those of the
machine, but no code is run: of a class only its name, its superclass, its fields, its selectors and
its built-in operations are asked for.

* `Evaluation` — **what comes of evaluating**;
* `Meaning.expr`, `Meaning.statements` — **the meaning of a tree**;
* `meaning` — **the meaning of a program**.
-/

import Smalltalk.Proofs.Units

namespace Smalltalk

/-! ### What comes of evaluating -/

/-- **What comes of evaluating something** in a store. -/
inductive Evaluation (α : Type) where
  /-- A result. -/
  | value (a : α) (s : Store)
  /-- The method with an activation is to be left with a value. -/
  | answer (home : Nat) (v : Value) (s : Store)
  /-- Something is wrong. -/
  | fault (reason : Fault) (s : Store)
  /-- There was not enough fuel, or the tree is not one that can be run. -/
  | unknown

namespace Evaluation

/-- Go on with a result. -/
def bind {α β : Type} (o : Evaluation α) (k : α → Store → Evaluation β) : Evaluation β :=
  match o with
  | .value a s => k a s
  | .answer home v s => .answer home v s
  | .fault reason s => .fault reason s
  | .unknown => .unknown

/-- Go on with what was found, if there is something. -/
def need {α β : Type} (reason : Fault) (x : Option α) (s : Store) (k : α → Evaluation β) :
    Evaluation β :=
  match x with
  | some a => k a
  | none => .fault reason s

/-- Go on with what was asked for, if there is no fault. -/
def attempt {α β : Type} (x : Except Fault α) (s : Store) (k : α → Evaluation β) : Evaluation β :=
  match x with
  | .ok a => k a
  | .error reason => .fault reason s

theorem bind_value {α : Type} (o : Evaluation α) : o.bind .value = o := by
  cases o <;> rfl

end Evaluation

/-- What can be called. -/
inductive Invocation where
  | method (method : Method) (receiver : Value) (arguments : List Value)
  | block (closure : Closure Value) (arguments : List Value)
  /-- Run the body for as long as the condition answers `repeatWhile`. -/
  | loop (condition body : Closure Value) (repeatWhile : Bool)

/-- What calls mean, with the activations in progress, the innermost first. -/
abbrev Calling := Invocation → List Nat → Store → Evaluation Value

/-! ### Numbers of texts -/

/-- A number for a text. -/
def textNumber (text : String) : Nat :=
  text.toList.foldr (fun c n => c.toNat + 1 + 0x110001 * n) 0

theorem foldr_textNumber_injective :
    Function.Injective fun cs : List Char =>
      cs.foldr (fun c n => c.toNat + 1 + 0x110001 * n) 0 := by
  have hdigit (c : Char) : c.toNat < 0x110000 := by
    rcases c.valid with h | h
    · exact Nat.lt_trans h (by decide)
    · exact h.2
  intro cs
  induction cs with
  | nil =>
    intro ds h
    cases ds with
    | nil => rfl
    | cons d ds =>
      simp only [List.foldr_nil, List.foldr_cons] at h
      omega
  | cons c cs ih =>
    intro ds h
    cases ds with
    | nil =>
      simp only [List.foldr_nil, List.foldr_cons] at h
      omega
    | cons d ds =>
      simp only [List.foldr_cons] at h
      -- The last digit is never zero, and less than the base.
      have hc := hdigit c
      have hd := hdigit d
      have hfirst : c.toNat = d.toNat := by omega
      have hrest : cs.foldr (fun c n => c.toNat + 1 + 0x110001 * n) 0
          = ds.foldr (fun c n => c.toNat + 1 + 0x110001 * n) 0 := by omega
      rw [ih hrest, Char.toNat_inj.1 hfirst]

/-- Different texts have different numbers. -/
theorem textNumber_injective : Function.Injective textNumber :=
  foldr_textNumber_injective.comp fun _ _ => String.toList_injective

/-! ### Sites -/

/-- **Where a tree is evaluated.** -/
structure Site where
  /-- The method that the tree is part of. -/
  method : Method
  /-- The routine that the tree is part of. -/
  routine : Routine
  /-- The receiver, the activation of the routine and those around it. -/
  environment : Environment Value
  /-- The activations in progress, the innermost first. -/
  active : List Nat

/-- The activation that has the variable with a name, and its number there: the innermost routine
with that name counts. -/
def slotIn? : List (List String) → List Nat → String → Option (Nat × Nat)
  | names :: outer, activation :: enclosing, name =>
    if name ∈ names then some (activation, names.idxOf name)
    else slotIn? outer enclosing name
  | _, _, _ => none

/-- A variable is where its name is declared. -/
theorem slotIn?_eq {scopes : List (List String)} {chain : List Nat}
    (h : chain.length = scopes.length) (name : String) :
    slotIn? scopes chain name =
      (slotOf? scopes name).bind fun found => chain[found.1]?.map fun a => (a, found.2) := by
  induction scopes generalizing chain with
  | nil => rfl
  | cons names outer ih =>
    cases chain with
    | nil => cases h
    | cons activation enclosing =>
      rw [slotIn?, slotOf?]
      split
      · rfl
      · rw [ih (Nat.succ.inj h), Option.bind_map]
        rfl

namespace Site

/-- The parameter or local variable that a name stands for. -/
def slotNamed? (x : Site) (name : String) : Option (Nat × Nat) :=
  slotIn? x.routine.scopes x.environment.chain name

/-- The field that a name stands for: the nearest one of the class and its superclasses. -/
def fieldNamed? (x : Site) (classes : ClassTable) (name : String) : Option Nat :=
  (classes.get? x.method.address.className).bind fun cls => fieldOf? cls.fields name

/-- The value of a parameter or local variable. -/
def slotAt (s : Store) (activation index : Nat) : Except Fault Value :=
  match s.slot? activation index with
  | some v => .ok v
  | none => .error (.internal .indexOutOfRange)

/-- The value of a literal. A text is one and the same string each time it is written in one
routine. -/
def literal (x : Site) : Literal → Value
  | .nil => .nil
  | .boolean value => .boolean value
  | .receiver => x.environment.receiver
  | .integer value => .integer value
  | .float value => .float value
  | .character value => .character value
  | .string text | .symbol text =>
    .string (.literal x.method.address x.routine.block (textNumber text)) text

/-- The block with a number, as it is made here. It has no code. -/
def closure (x : Site) (n : Nat) (parameters locals : List Token)
    (statements : List (Statement Unit)) : Closure Value :=
  let q := x.routine.inner n parameters locals statements
  ⟨x.method, n, ⟨q.name, q.address.className, [], #[], q.arity, q.slotCount - q.arity, #[], false,
    none⟩, x.environment⟩

end Site

namespace Meaning

open Evaluation (attempt need)

section Trees

/- The world is a machine of which only the classes and the transcript matter. -/
variable (world : Machine) (call : Calling)

/-! ### Messages -/

/-- What a built-in operation replies. -/
def reply (active : List Nat) (s : Store) : Reply → Evaluation Value
  | .value v => .value v s
  | .newString text => .value (s.newString text).1 (s.newString text).2
  | .newArray items => .value (s.newArray items).1 (s.newArray items).2
  | .newObject cls => .value (s.newObject cls).1 (s.newObject cls).2
  | .setItem array index v => .value v (s.setItem array index v)
  | .writeLine text v => .value v (s.writeLine text)
  | .invoke closure arguments => call (.block closure arguments) active s
  | .loop condition body repeatWhile => call (.loop condition body repeatWhile) active s

/-- Perform a built-in operation. -/
def perform (active : List Nat) (p : Primitive) (receiver : Value) (arguments : List Value)
    (s : Store) : Evaluation Value :=
  attempt (p.perform s receiver arguments) s (reply call active s)

/-- **Send a message**, to `super` from the superclass of the running method on. -/
def send (x : Site) (toSuper : Bool) (selector : String) (receiver : Value)
    (arguments : List Value) (s : Store) : Evaluation Value :=
  match if toSuper then none else receiver.builtin? selector arguments.length with
  | some p => perform call x.active p receiver arguments s
  | none =>
    attempt (world.methodFor toSuper x.method.address.className receiver selector) s fun method =>
      match method.code.primitive with
      | some p => perform call x.active p receiver arguments s
      | none => call (.method method receiver arguments) x.active s

/-! ### Variables -/

/-- The value of a name. -/
def read (x : Site) (name : String) (s : Store) : Evaluation Value :=
  match x.slotNamed? name with
  | some (activation, index) => attempt (Site.slotAt s activation index) s (.value · s)
  | none =>
    match x.fieldNamed? world.classes name with
    | some index => attempt (s.fieldAt x.environment.receiver index) s fun field => .value field.2 s
    | none => need (Machine.globalFault name) (world.global? name) s (.value · s)

/-- Store a value in the variable with a name. The value is the result. -/
def write (x : Site) (name : String) (v : Value) (s : Store) : Evaluation Value :=
  match x.slotNamed? name with
  | some (activation, index) =>
    attempt (Site.slotAt s activation index) s fun _ => .value v (s.setSlot activation index v)
  | none =>
    match x.fieldNamed? world.classes name with
    | some index =>
      attempt (s.fieldAt x.environment.receiver index) s fun field =>
        .value v (s.setField field.1 index v)
    | none => .unknown

/-! ### Trees -/

mutual

/-- **The meaning of an expression**, whose first block has the number `n`. -/
def expr (x : Site) (n : Nat) : Expr Unit → Store → Evaluation Value
  | .array _ items _, s =>
    (exprs x n items s).bind fun vs s => .value (s.newArray vs.toArray).1 (s.newArray vs.toArray).2
  | .block _ parameters locals statements _ _, s =>
    let closure := x.closure n parameters locals statements
    .value (s.newBlock closure).1 (s.newBlock closure).2
  | .group _ inner _, s => expr x n inner s
  | .literal _ _ value, s => .value (x.literal value) s
  | .unary receiver selector, s =>
    (expr x n receiver s).bind fun v s => send world call x receiver.isSuper selector.text v [] s
  | .binary receiver operator argument, s =>
    (expr x n receiver s).bind fun v s =>
      (expr x (n + exprBlockCount receiver) argument s).bind fun w s =>
        send world call x receiver.isSuper operator.text v [w] s
  | .keyword receiver keywords arguments, s =>
    (expr x n receiver s).bind fun v s =>
      (exprs x (n + exprBlockCount receiver) arguments s).bind fun ws s =>
        send world call x receiver.isSuper (joinTexts keywords) v ws s
  | .super _, s => .value x.environment.receiver s
  | .variable name, s => read world x name.text s
  | .invalid _, _ => .unknown

/-- The meaning of some expressions, from left to right. -/
def exprs (x : Site) (n : Nat) : List (Expr Unit) → Store → Evaluation (List Value)
  | [], s => .value [] s
  | e :: es, s =>
    (expr x n e s).bind fun v s =>
      (exprs x (n + exprBlockCount e) es s).bind fun vs s => .value (v :: vs) s

end

/-- **The meaning of a statement.**  A return leaves the method around it, if it is in progress. -/
def statement (x : Site) (n : Nat) : Statement Unit → Store → Evaluation Value
  | .assignment target value, s =>
    (expr world call x n value s).bind fun v s => write world x target.name v s
  | .answer _ value, s =>
    (expr world call x n value s).bind fun v s =>
      if x.environment.home ∈ x.active then .answer x.environment.home v s
      else .fault (.blockCannotReturn x.routine.name) s
  | .expression value, s => expr world call x n value s

/-- **The meaning of some statements** is that of the last one, or nil if there is none. -/
def statements (x : Site) (n : Nat) : List (Statement Unit) → Store → Evaluation Value
  | [], s => .value .nil s
  | [last], s => statement world call x n last s
  | first :: ss, s =>
    (statement world call x n first s).bind fun _ s =>
      statements x (n + statementBlockCount first) ss s

end Trees

/-! ### Calls -/

section Calls

variable (world : Machine) (programs : List Program)

/-- An activation that is left with a value answers it. -/
def catching (activation : Nat) : Evaluation Value → Evaluation Value
  | .answer home v s => if home = activation then .value v s else .answer home v s
  | other => other

/-- Start an activation of a routine, with the arguments first and nil for the local variables. The
result may depend on the value of the last statement. -/
def enter (call : Calling) (method : Method) (q : Routine) (environment : Nat → Environment Value)
    (arguments : List Value) (result : Value → Value) (active : List Nat) (s : Store) :
    Evaluation Value :=
  let row := arguments.toArray ++ Array.replicate (q.slotCount - arguments.length) .nil
  let activation := (s.newActivation row).1
  let x : Site := ⟨method, q, environment activation, activation :: active⟩
  catching activation
    ((statements world call x q.firstBlock q.statements (s.newActivation row).2).bind fun v s =>
      .value (result v) s)

/-- A method answers what it is left with, and the receiver if it is not left. -/
def invokeMethod (call : Calling) (method : Method) (receiver : Value) (arguments : List Value)
    (active : List Nat) (s : Store) : Evaluation Value :=
  match Program.routineAt? programs method.address with
  | none => .unknown
  | some r =>
    if arguments.length = r.arity then
      enter world call method r (⟨receiver, ·, []⟩) arguments (fun _ => receiver) active s
    else .fault (.internal .wrongArguments) s

/-- A block answers the value of its last statement. -/
def invokeBlock (call : Calling) (closure : Closure Value) (arguments : List Value)
    (active : List Nat) (s : Store) : Evaluation Value :=
  match (Program.routineAt? programs closure.method.address).bind (·.blocks[closure.index]?) with
  | none => .unknown
  | some q =>
    if arguments.length = q.arity then
      enter world call closure.method q closure.environment.inner arguments id active s
    else .fault (.mismatchedBlockArguments q.arity arguments.length) s

/-- **The meaning of a call**, with some fuel. -/
def call : Nat → Calling
  | 0, _, _, _ => .unknown
  | fuel + 1, .method method receiver arguments, active, s =>
    invokeMethod world programs (call fuel) method receiver arguments active s
  | fuel + 1, .block closure arguments, active, s =>
    invokeBlock world programs (call fuel) closure arguments active s
  | fuel + 1, .loop condition body repeatWhile, active, s =>
    (invokeBlock world programs (call fuel) condition [] active s).bind fun v s =>
      match v with
      | .boolean answer =>
        if answer = repeatWhile then
          (invokeBlock world programs (call fuel) body [] active s).bind fun _ s =>
            call fuel (.loop condition body repeatWhile) active s
        else .value .nil s
      | other => .fault (.typeError "Boolean" other.className) s

end Calls

end Meaning

/-- **The meaning of a program**: what comes of sending `main` to a new object of the main class. It
is nil if there is no such class or method. -/
def meaning (classes : ClassTable) (programs : List Program) (fuel : Nat) : Evaluation Value :=
  let world := Machine.new classes
  match classes.get? mainClass with
  | none => .value .nil world.store
  | some cls =>
    match cls.lookup? mainMethod false with
    | none => .value .nil world.store
    | some method =>
      let object := world.store.newObject cls
      Meaning.call world programs fuel (.method method object.1 []) [] object.2

end Smalltalk
