/-
**What can go wrong while a program runs.**

* `Fault` — the reasons why a run ends early;
* `TraceEntry` — an activation that was running then, and where it was;
* `RuntimeError` — **a fault and the activations that were running**.
-/

namespace Smalltalk

/-! ### Faults -/

inductive CodeFault where
  | unknownOpcode
  | invalidCharacter
  | literalOutOfRange
  | blockOutOfRange
  | depthOutOfRange
  | indexOutOfRange
  | wrongArguments
  | noContext
deriving DecidableEq, Repr, Inhabited

def CodeFault.text : CodeFault → String
  | unknownOpcode => "unknown opcode"
  | invalidCharacter => "invalid character literal"
  | literalOutOfRange => "literal index out of range"
  | blockOutOfRange => "block index out of range"
  | depthOutOfRange => "local variable depth out of range"
  | indexOutOfRange => "local variable index out of range"
  | wrongArguments => "wrong number of arguments for method"
  | noContext => "no active context"

/-- **Why a run ends early.** -/
inductive Fault where
  | messageNotUnderstood (className selector : String)
  | classMessageSentToInstance (className selector : String)
  | instanceMessageSentToClass (className selector : String)
  /-- The method that a block wants to leave has already been left. -/
  | blockCannotReturn (block : String)
  | stackUnderflow
  | undefinedGlobal (name : String)
  | unknownClass (name : String)
  | mismatchedBlockArguments (expected got : Nat)
  | indexOutOfRange (index : Int32) (size : Nat)
  | unknownField (className : String) (index : Nat)
  | typeError (expected got : String)
  | divisionByZero
  | internal (fault : CodeFault)
deriving DecidableEq, Repr, Inhabited

namespace Fault

def title : Fault → String
  | messageNotUnderstood _ _ => "Message Not Understood"
  | classMessageSentToInstance _ _ => "Class Message Sent To Instance"
  | instanceMessageSentToClass _ _ => "Instance Message Sent To Class"
  | blockCannotReturn _ => "Block Cannot Return"
  | stackUnderflow => "Stack Underflow"
  | undefinedGlobal _ => "Undefined Global"
  | unknownClass _ => "Unknown Class"
  | mismatchedBlockArguments _ _ => "Mismatched Block Arguments"
  | indexOutOfRange _ _ => "Index Out Of Range"
  | unknownField _ _ => "Unknown Field"
  | typeError _ _ => "Type Error"
  | divisionByZero => "Division By Zero"
  | internal _ => "Internal Error"

def message : Fault → String
  | messageNotUnderstood className selector => className ++ " does not understand #" ++ selector
  | classMessageSentToInstance className selector =>
    "class method #" ++ selector ++ " sent to an instance of " ++ className
  | instanceMessageSentToClass className selector =>
    "instance method #" ++ selector ++ " sent to the class " ++ className
  | blockCannotReturn block => block ++ " cannot return, its method has already returned"
  | stackUnderflow => "the operand stack is empty"
  | undefinedGlobal name => "global `" ++ name ++ "` is not defined"
  | unknownClass name => "class `" ++ name ++ "` is not defined"
  | mismatchedBlockArguments expected got =>
    "block expects " ++ toString expected ++ " arguments, got " ++ toString got
  | indexOutOfRange index size =>
    "index " ++ toString index.toInt ++ " is out of range for a collection of size "
      ++ toString size
  | unknownField className index => className ++ " has no field at " ++ toString index
  | typeError expected got => "expected `" ++ expected ++ "`, got `" ++ got ++ "`"
  | divisionByZero => "division by zero"
  | internal fault => "internal error: " ++ fault.text

end Fault

/-! ### Traces -/

structure TracePosition where
  file : String
  line : Nat
  column : Nat
deriving DecidableEq, Repr, Inhabited

structure TraceEntry where
  name : String
  /-- The place that was recorded last. -/
  position : Option TracePosition
deriving DecidableEq, Repr, Inhabited

def TraceEntry.text (e : TraceEntry) : String :=
  match e.position with
  | some ⟨file, line, column⟩ =>
    "    at " ++ e.name ++ "(" ++ file ++ ":" ++ toString line ++ ":" ++ toString column ++ ")"
  | none => "    at " ++ e.name

/-- **A fault and the activations that were running**, the innermost first. -/
structure RuntimeError where
  fault : Fault
  trace : List TraceEntry
deriving DecidableEq, Repr, Inhabited

/-- The lines of the traceback, if there are any. -/
def RuntimeError.traceback (e : RuntimeError) : Option String :=
  if e.trace.isEmpty then none else some ("\n".intercalate (e.trace.map TraceEntry.text))

end Smalltalk
