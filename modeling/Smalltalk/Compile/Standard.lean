/-
**The standard classes.**

Every program starts from these classes, unless it is compiled without them. They are written in
the language itself, and the built-in operations they rest on are named in angle brackets.

* `Standard.fileName` — the name that tracebacks give for the place of their code;
* `Standard.source` — **their source**;
* `Standard.program` — the source as a tree.
-/

import Smalltalk.Tree.Parse

namespace Smalltalk.Standard

/-- The name that tracebacks give for the place of the code of the standard classes. -/
def fileName : String := "image.st"

def objects : String := "\"The standard classes, compiled before every program\"

class Object [
  class basicNew <primitive:#Object_Class_BASICNEW>
  class new [
    | object |
    object := self basicNew.
    object initialize.
    ^object
  ]
  class new: value [
    | object |
    object := self basicNew.
    object initialize: value.
    ^object
  ]

  initialize [^self]
  initialize: value [^self]

  asString <primitive:#Object_ASSTRING>
  printString <primitive:#Object_PRINTSTRING>
  className <primitive:#Object_CLASSNAME>
  hash <primitive:#Object_HASH>
  == other <primitive:#Object_SAME>
  = other [^self == other]
  ~= other [^(self = other) not]

  isNil [^false]
  notNil [^self isNil not]
  value [^self]
]

class UndefinedObject [
  isNil [^true]
]

class Boolean [
  and: block [^self ifTrue: [block value] ifFalse: [false]]
  or: block [^self ifTrue: [true] ifFalse: [block value]]
]
"

def numbers : String := "
class Number [
  max: other [^self > other ifTrue: [self] ifFalse: [other]]
  min: other [^self < other ifTrue: [self] ifFalse: [other]]
  negated [^0 - self]
  abs [^self < 0 ifTrue: [self negated] ifFalse: [self]]
]

class Integer : Number [
  to: limit do: block [
    | i |
    i := self.
    [i <= limit] whileTrue: [
      block value: i.
      i := i + 1
    ]
  ]
  timesRepeat: block [
    | i |
    i := 1.
    [i <= self] whileTrue: [
      block value.
      i := i + 1
    ]
  ]
]

class Float : Number []

class Character []
"

def collections : String := "
class Collection [
  do: block [
    | i |
    i := 1.
    [i <= self size] whileTrue: [
      block value: (self at: i).
      i := i + 1
    ]
  ]
  isEmpty [^self size = 0]
  notEmpty [^self isEmpty not]
]

class String : Collection [
  class new: size <primitive:#String_Class_NEW>
]

class Array : Collection [
  class new: size <primitive:#Array_Class_NEW>
]
"

def services : String := "
class BlockDescriptor [
  whileTrue: body <primitive:#BlockDescriptor_WHILETRUE>
  whileFalse: body <primitive:#BlockDescriptor_WHILEFALSE>
]

class TranscriptStream [
  show: value <primitive:#TranscriptStream_SHOW>
]
"

/-- **The source of the standard classes.** -/
def source : String := objects ++ numbers ++ collections ++ services

def program : Program := Program.parse source

end Smalltalk.Standard
