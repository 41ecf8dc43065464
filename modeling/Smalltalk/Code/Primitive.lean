/-
**The built-in operations.**

An operation is reached in two ways: directly, when a message to a value of a built-in kind asks
for it, and as the body of a method that names it in angle brackets.

* `Primitive` — the operations;
* `Primitive.name` — the name by which source code refers to an operation;
* `Primitive.ofName?` — **the operation with a name**.
-/

namespace Smalltalk

/-- How many arguments a block is invoked with. -/
inductive Arity where
  | zero
  | one
  | two
  | three
  | four
deriving DecidableEq, Repr, Inhabited

inductive Primitive where
  | add
  | subtract
  | multiply
  | divide
  | floorDivide
  /-- What division rounded down leaves over. -/
  | remainder
  /-- The same as `remainder`, under another name. -/
  | modulo
  | less
  | lessEqual
  | greater
  | greaterEqual
  | equal
  | notEqual
  | asFloat
  | asInteger
  | asCharacter
  | asString
  | printString
  | className
  | hash
  | identical
  | concatenate
  | size
  | elementAt
  | elementAtPut
  | asArray
  | ifTrue
  | ifFalse
  | ifTrueIfFalse
  | ifFalseIfTrue
  | logicalNot
  | logicalAnd
  | logicalOr
  /-- Invoke a block with up to four arguments. -/
  | value (arguments : Arity)
  | valueWithArguments
  | numArgs
  | whileTrue
  | whileFalse
  | basicNew
  | newArray
  | newString
  | showLine
deriving DecidableEq, Repr, Inhabited

namespace Primitive

def all : List Primitive :=
  [add, subtract, multiply, divide, floorDivide, remainder, modulo, less, lessEqual, greater,
    greaterEqual, equal, notEqual, asFloat, asInteger, asCharacter, asString, printString,
    className, hash, identical, concatenate, size, elementAt, elementAtPut, asArray, ifTrue,
    ifFalse, ifTrueIfFalse, ifFalseIfTrue, logicalNot, logicalAnd, logicalOr, value .zero,
    value .one, value .two, value .three, value .four, valueWithArguments, numArgs, whileTrue,
    whileFalse, basicNew, newArray, newString, showLine]

def name : Primitive → String
  | add => "Number_ADD"
  | subtract => "Number_SUB"
  | multiply => "Number_MULT"
  | divide => "Number_DIV"
  | floorDivide => "Number_FLOORDIV"
  | remainder => "Number_REM"
  | modulo => "Number_MOD"
  | less => "Number_LT"
  | lessEqual => "Number_LE"
  | greater => "Number_GT"
  | greaterEqual => "Number_GE"
  | equal => "Object_EQ"
  | notEqual => "Object_NE"
  | asFloat => "Number_ASFLOAT"
  | asInteger => "Object_ASINTEGER"
  | asCharacter => "Object_ASCHARACTER"
  | asString => "Object_ASSTRING"
  | printString => "Object_PRINTSTRING"
  | className => "Object_CLASSNAME"
  | hash => "Object_HASH"
  | identical => "Object_SAME"
  | concatenate => "String_CAT"
  | size => "Collection_SIZE"
  | elementAt => "Collection_AT"
  | elementAtPut => "Array_AT_PUT"
  | asArray => "String_ASARRAY"
  | ifTrue => "Boolean_IFTRUE"
  | ifFalse => "Boolean_IFFALSE"
  | ifTrueIfFalse => "Boolean_IFTRUE_IFFALSE"
  | ifFalseIfTrue => "Boolean_IFFALSE_IFTRUE"
  | logicalNot => "Boolean_NOT"
  | logicalAnd => "Boolean_AND"
  | logicalOr => "Boolean_OR"
  | value .zero => "BlockDescriptor_VALUE"
  | value .one => "BlockDescriptor_VALUE_1_ARG"
  | value .two => "BlockDescriptor_VALUE_2_ARGS"
  | value .three => "BlockDescriptor_VALUE_3_ARGS"
  | value .four => "BlockDescriptor_VALUE_4_ARGS"
  | valueWithArguments => "BlockDescriptor_VALUE_WITH_ARGUMENTS"
  | numArgs => "BlockDescriptor_NUMARGS"
  | whileTrue => "BlockDescriptor_WHILETRUE"
  | whileFalse => "BlockDescriptor_WHILEFALSE"
  | basicNew => "Object_Class_BASICNEW"
  | newArray => "Array_Class_NEW"
  | newString => "String_Class_NEW"
  | showLine => "TranscriptStream_SHOW"

/-- **The operation with a name.** -/
def ofName? (name : String) : Option Primitive := all.find? (·.name = name)

end Primitive

end Smalltalk
