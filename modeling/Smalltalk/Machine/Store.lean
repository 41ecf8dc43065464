/-
**What a program can change.**

The store holds the variables of all activations, the fields of all objects, the items of all
arrays and the text of the transcript. Nothing is ever removed: a block may refer to the variables
of an activation that is over.

* `Store` — **the contents of all that can change**;
* `Store.newActivation`, `newObject`, `newArray`, `newString`, `newBlock` — make
  something new;
* `Store.slot?`, `fieldsOf`, `itemsOf` — read;
* `Store.setSlot`, `setField`, `setItem`, `writeLine` — change;
* `Store.text` — **how a value is shown**.
-/

import Smalltalk.Number.Decimal
import Smalltalk.Object.Hash

namespace Smalltalk

/-- **The contents of all that can change.** -/
structure Store where
  /-- The variables of each activation, arguments first. -/
  activations : Array (Array Value)
  objects : Array (Array Value)
  arrays : Array (Array Value)
  /-- The number of strings and blocks that have been made. -/
  made : Nat
  transcript : String
  /-- Where everything lives; it stays there. -/
  addresses : Addresses
deriving Inhabited

namespace Store

def empty : Store := ⟨#[], #[], #[], 0, "", .usual⟩

/-! ### Making -/

def newActivation (s : Store) (slots : Array Value) : Nat × Store :=
  let ⟨activations, objects, arrays, made, transcript, addresses⟩ := s
  (activations.size, ⟨activations.push slots, objects, arrays, made, transcript, addresses⟩)

/-- A new object of a class, whose fields are nil. -/
def newObject (s : Store) (cls : Class) : Value × Store :=
  let ⟨activations, objects, arrays, made, transcript, addresses⟩ := s
  (.object cls objects.size,
    ⟨activations, objects.push (Array.replicate cls.fields.length .nil), arrays, made, transcript,
      addresses⟩)

def newArray (s : Store) (items : Array Value) : Value × Store :=
  let ⟨activations, objects, arrays, made, transcript, addresses⟩ := s
  (.array arrays.size, ⟨activations, objects, arrays.push items, made, transcript, addresses⟩)

def newString (s : Store) (text : String) : Value × Store :=
  (.string (.made s.made) text, { s with made := s.made + 1 })

def newBlock (s : Store) (closure : Closure Value) : Value × Store :=
  (.block s.made closure, { s with made := s.made + 1 })

/-! ### Reading and changing -/

def slot? (s : Store) (activation index : Nat) : Option Value :=
  s.activations[activation]?.bind fun slots => slots[index]?

def fieldsOf (s : Store) (object : Nat) : Array Value := s.objects.getD object #[]

def itemsOf (s : Store) (array : Nat) : Array Value := s.arrays.getD array #[]

def setSlot (s : Store) (activation index : Nat) (value : Value) : Store :=
  let ⟨activations, objects, arrays, made, transcript, addresses⟩ := s
  ⟨activations.modify activation (·.setIfInBounds index value), objects, arrays, made, transcript,
    addresses⟩

def setField (s : Store) (object index : Nat) (value : Value) : Store :=
  let ⟨activations, objects, arrays, made, transcript, addresses⟩ := s
  ⟨activations, objects.modify object (·.setIfInBounds index value), arrays, made, transcript,
    addresses⟩

def setItem (s : Store) (array index : Nat) (value : Value) : Store :=
  let ⟨activations, objects, arrays, made, transcript, addresses⟩ := s
  ⟨activations, objects, arrays.modify array (·.setIfInBounds index value), made, transcript,
    addresses⟩

def writeLine (s : Store) (text : String) : Store :=
  let ⟨activations, objects, arrays, made, transcript, addresses⟩ := s
  ⟨activations, objects, arrays, made, transcript ++ text ++ "\n", addresses⟩

/-! ### Texts -/

/-- The pieces in which a value is shown, arrays within arrays down to some depth. The numbers of
the arrays that the value is within are given: an array within itself is not shown again. -/
def piecesWithin (s : Store) : Nat → List Nat → Value → List String
  | _, _, .nil => ["nil"]
  | _, _, .boolean value => [if value then "true" else "false"]
  | _, _, .integer value => [toString value.toInt]
  | _, _, .float value => [value.display]
  | _, _, .character value => ["$", value.toString]
  | _, _, .string _ text => [text]
  | _, _, .block _ _ => ["a BlockDescriptor"]
  | _, _, .object cls _ => ["a ", cls.name]
  | _, _, .classObject cls => [cls.name]
  | 0, _, .array _ => []
  | depth + 1, outer, .array number =>
    if number ∈ outer then []
    else
      ["\x7b"] ++ [". "].intercalate
        ((s.itemsOf number).toList.map (piecesWithin s depth (number :: outer))) ++ ["\x7d"]

/-- The pieces in which a value is shown. Arrays are nested at most as deep as there are arrays,
as no array is shown within itself. -/
def pieces (s : Store) (v : Value) : List String := s.piecesWithin (s.arrays.size + 1) [] v

/-- **How a value is shown.** -/
def text (s : Store) (v : Value) : String := String.join (s.pieces v)

/-- How a value is shown to a programmer: a string is put in quotes. -/
def quotedText (s : Store) (v : Value) : String :=
  match v with
  | .string _ text => "'" ++ text ++ "'"
  | v => s.text v

end Store

end Smalltalk
