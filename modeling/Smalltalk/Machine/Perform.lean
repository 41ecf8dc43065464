/-
**What the built-in operations do.**

An operation looks at its receiver, its arguments and the store, and answers what is to happen.
Whatever changes the store or runs a block is left to the machine.

* `Reply` — what is to happen after an operation;
* `Primitive.perform` — **what an operation does**.
-/

import Smalltalk.Machine.Fault
import Smalltalk.Machine.Store
import Smalltalk.Number.Division
import Smalltalk.Object.Hash
import Smalltalk.Text.CodePoint

namespace Smalltalk

/-! ### Replies -/

inductive Reply where
  | value (v : Value)
  | newString (text : String)
  | newArray (items : Array Value)
  | newObject (cls : Class)
  | setItem (array index : Nat) (v : Value)
  | writeLine (text : String) (v : Value)
  | invoke (block : Closure Value) (arguments : List Value)
  /-- Run the body for as long as the condition answers `repeatWhile`. -/
  | loop (condition body : Closure Value) (repeatWhile : Bool)
deriving Inhabited

/-! ### Numbers -/

namespace Operation

def wrongKind (expected : String) (got : Value) : Fault := .typeError expected got.className

def floatOf (v : Value) : Except Fault Single :=
  match v with
  | .integer value => .ok (Value.floatOf value)
  | .float value => .ok value
  | other => .error (wrongKind "number" other)

/-- Calculate with two integers as integers, and with other numbers as floats. -/
def numeric (left right : Value) (onIntegers : Int32 → Int32 → Int32)
    (onFloats : Single → Single → Single) : Except Fault Reply :=
  match left, right with
  | .integer a, .integer b => .ok (.value (.integer (onIntegers a b)))
  | _, _ => do
    let a ← floatOf left
    let b ← floatOf right
    return .value (.float (onFloats a b))

/-- Compare two integers as integers, and other numbers as floats. What cannot be compared does
not pass. -/
def comparison (left right : Value) (test : Ordering → Bool) : Except Fault Reply :=
  match left, right with
  | .integer a, .integer b => .ok (.value (.boolean (test (compareOfLessAndEq a b))))
  | _, _ => do
    let a ← floatOf left
    let b ← floatOf right
    return .value (.boolean ((a.compare? b).any test))

def checkDivisor (v : Value) : Except Fault Unit :=
  match v with
  | .integer value => if value = 0 then .error .divisionByZero else .ok ()
  | .float value => if value.isZero then .error .divisionByZero else .ok ()
  | _ => .ok ()

/-! ### Arguments -/

def booleanOf (v : Value) : Except Fault Bool :=
  match v with
  | .boolean value => .ok value
  | other => .error (wrongKind "Boolean" other)

def blockOf (v : Value) : Except Fault (Closure Value) :=
  match v with
  | .block _ closure => .ok closure
  | other => .error (wrongKind "BlockDescriptor" other)

/-- A block with as many arguments as it has to have. -/
def invoke (closure : Closure Value) (arguments : List Value) : Except Fault Reply :=
  if closure.code.argumentCount = arguments.length then .ok (.invoke closure arguments)
  else .error (.mismatchedBlockArguments closure.code.argumentCount arguments.length)

def evaluate (branch : Value) : Except Fault Reply :=
  match branch with
  | .block _ closure => invoke closure []
  | v => .ok (.value v)

/-- The offset of an index, which counts from 1, into something of a length. -/
def offset (index : Value) (length : Nat) : Except Fault Nat :=
  match index with
  | .integer index =>
    if 1 ≤ index.toInt && index.toInt ≤ length then .ok (index.toInt.toNat - 1)
    else .error (.indexOutOfRange index length)
  | other => .error (wrongKind "Integer" other)

def countOf (v : Value) : Except Fault Nat :=
  match v with
  | .integer size =>
    if 0 ≤ size.toInt then .ok size.toInt.toNat else .error (.indexOutOfRange size 0)
  | other => .error (wrongKind "Integer" other)

def lengthOf (length : Nat) : Reply := .value (.integer (Int32.ofNat (min length 0x7fffffff)))

/-! ### Groups of operations -/

def toFloat (v : Value) : Except Fault Reply :=
  match v with
  | .integer value => .ok (.value (.float (Value.floatOf value)))
  | .float _ => .ok (.value v)
  | other => .error (wrongKind "number" other)

def toInteger (v : Value) : Except Fault Reply :=
  match v with
  | .integer _ => .ok (.value v)
  | .float value => .ok (.value (.integer value.toInt32))
  | .character value => .ok (.value (.integer (Int32.ofNat value.toNat)))
  | other => .error (wrongKind "number or character" other)

def toCharacter (v : Value) : Except Fault Reply :=
  match v with
  | .character _ => .ok (.value v)
  | .integer value =>
    let found := if 0 ≤ value.toInt then Text.charOf? value.toInt.toNat else none
    match found with
    | some c => .ok (.value (.character c))
    | none => .error (.typeError "character code" (toString value.toInt))
  | other => .error (wrongKind "integer" other)

def sizeReply (s : Store) (v : Value) : Except Fault Reply :=
  match v with
  | .string _ text => .ok (lengthOf text.length)
  | .array number => .ok (lengthOf (s.itemsOf number).size)
  | other => .error (wrongKind "String or Array" other)

def elementReply (s : Store) (v index : Value) : Except Fault Reply :=
  match v with
  | .string _ text => do
    let i ← offset index text.length
    return .value ((text.toList[i]?.map Value.character).getD .nil)
  | .array number => do
    let items := s.itemsOf number
    let i ← offset index items.size
    return .value (items.getD i .nil)
  | other => .error (wrongKind "String or Array" other)

def putReply (s : Store) (v index item : Value) : Except Fault Reply :=
  match v with
  | .array number => do
    let i ← offset index (s.itemsOf number).size
    return .setItem number i item
  | other => .error (wrongKind "Array" other)

def arrayReply (v : Value) : Except Fault Reply :=
  match v with
  | .string _ text => .ok (.newArray (text.toList.map Value.character).toArray)
  | .array _ => .ok (.value v)
  | other => .error (wrongKind "String" other)

/-- Run a block of a conditional if a condition is as expected, and answer nil otherwise. -/
def branchReply (condition : Value) (expected : Bool) (branch : Value) : Except Fault Reply := do
  if (← booleanOf condition) = expected then evaluate branch else return .value .nil

/-- Run a block with the items of an array as its arguments. -/
def spreadReply (s : Store) (v argument : Value) : Except Fault Reply := do
  let closure ← blockOf v
  match argument with
  | .array number => invoke closure (s.itemsOf number).toList
  | other => .error (wrongKind "Array" other)

def loopReply (v argument : Value) (repeatWhile : Bool) : Except Fault Reply := do
  let condition ← blockOf v
  let body ← blockOf argument
  let _ ← invoke condition []
  let _ ← invoke body []
  return .loop condition body repeatWhile

end Operation

/-! ### All operations -/

open Operation in
/-- **What an operation does** to a receiver and some arguments. An argument that is missing is
nil, and one too many is ignored, except by blocks. -/
def Primitive.perform (p : Primitive) (s : Store) (receiver : Value) (arguments : List Value) :
    Except Fault Reply :=
  let argument := arguments.headD .nil
  let second := arguments.getD 1 .nil
  match p with
  | .add => numeric receiver argument (· + ·) Single.add
  | .subtract => numeric receiver argument (· - ·) Single.sub
  | .multiply => numeric receiver argument (· * ·) Single.mul
  | .divide => do
    checkDivisor argument
    numeric receiver argument (· / ·) Single.div
  | .floorDivide => do
    checkDivisor argument
    numeric receiver argument Division.quotient fun a b => (a.div b).floor
  | .remainder | .modulo => do
    checkDivisor argument
    numeric receiver argument Division.remainder fun a b => a.sub (b.mul (a.div b).floor)
  | .less => comparison receiver argument (·.isLT)
  | .lessEqual => comparison receiver argument (·.isLE)
  | .greater => comparison receiver argument (·.isGT)
  | .greaterEqual => comparison receiver argument (·.isGE)
  | .equal => .ok (.value (.boolean (receiver.isEqual argument)))
  | .notEqual => .ok (.value (.boolean (!receiver.isEqual argument)))
  | .asFloat => toFloat receiver
  | .asInteger => toInteger receiver
  | .asCharacter => toCharacter receiver
  | .asString | .printString => .ok (.newString (s.text receiver))
  | .className => .ok (.newString receiver.className)
  | .hash => .ok (.value (.integer (receiver.hashBy Hash.ofWords s.addresses)))
  | .identical => .ok (.value (.boolean (receiver.isIdentical argument)))
  | .concatenate =>
    match receiver with
    | .string _ text => .ok (.newString (text ++ s.text argument))
    | other => .error (wrongKind "String" other)
  | .size => sizeReply s receiver
  | .elementAt => elementReply s receiver argument
  | .elementAtPut => putReply s receiver argument second
  | .asArray => arrayReply receiver
  | .ifTrue => branchReply receiver true argument
  | .ifFalse => branchReply receiver false argument
  | .ifTrueIfFalse => do evaluate (if ← booleanOf receiver then argument else second)
  | .ifFalseIfTrue => do evaluate (if ← booleanOf receiver then second else argument)
  | .logicalNot => do return .value (.boolean (!(← booleanOf receiver)))
  | .logicalAnd => do
    let a ← booleanOf receiver
    let b ← booleanOf argument
    return .value (.boolean (a && b))
  | .logicalOr => do
    let a ← booleanOf receiver
    let b ← booleanOf argument
    return .value (.boolean (a || b))
  | .value _ => do invoke (← blockOf receiver) arguments
  | .valueWithArguments => spreadReply s receiver argument
  | .numArgs => do return .value (.integer (Int32.ofNat (← blockOf receiver).code.argumentCount))
  | .whileTrue => loopReply receiver argument true
  | .whileFalse => loopReply receiver argument false
  | .basicNew =>
    match receiver with
    | .classObject cls => .ok (.newObject cls)
    | other => .error (wrongKind "class" other)
  | .newArray => do return .newArray (Array.replicate (← countOf argument) .nil)
  | .newString => do return .newString ("".pushn ' ' (← countOf argument))
  | .showLine => .ok (.writeLine (s.text argument) receiver)

end Smalltalk
