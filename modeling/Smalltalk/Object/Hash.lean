/-
**Hashes of values.**

A hash is made by feeding 64-bit words to a state that is multiplied by a constant for each of
them. A string is first folded into one word, sixteen bytes at a time. All arithmetic is that of
64-bit words.

* `Hash.ofWords` — the hash of some words;
* `Hash.fold` — the word of a sequence of bytes;
* `Addresses` — **where everything lives**;
* `Value.hashBy`, `Value.hash` — **the hash of a value**.
-/

import Smalltalk.Object.Value

namespace Smalltalk

namespace Hash

/-! ### Words -/

def feed (state word : UInt64) : UInt64 := (state + word) * 0xf1357aea2e62a9c5

/-- **The hash of some words**: the state after them, turned left by 26 bits, of which the low 30
bits are kept. -/
def ofWords (words : List UInt64) : Int32 :=
  let state := words.foldl feed 0
  let turned := (state <<< 26) ||| (state >>> 38)
  Int32.ofNat (turned &&& 0x3fffffff).toNat

/-! ### Bytes -/

def mix (x y : UInt64) : UInt64 :=
  let product := x.toNat * y.toNat
  UInt64.ofNat product ^^^ UInt64.ofNat (product / 0x10000000000000000)

def word (bytes : List UInt8) : UInt64 :=
  bytes.foldr (fun b w => (w <<< 8) ||| b.toUInt64) 0

def absorb : Nat → List UInt8 → UInt64 × UInt64 → UInt64 × UInt64
  | 0, _, state => state
  | blocks + 1, bytes, (s0, s1) =>
    let x := word (bytes.take 8)
    let y := word ((bytes.drop 8).take 8)
    absorb blocks (bytes.drop 16) (s1, mix (s0 ^^^ x) (0xa4093822299f31d0 ^^^ y))

def takeLast (n : Nat) (bytes : List UInt8) : List UInt8 := bytes.drop (bytes.length - n)

/-- **The word of a sequence of bytes.**  Long sequences are taken in by blocks; then the first and
the last bytes, which may overlap, are taken in. -/
def fold (bytes : List UInt8) : UInt64 :=
  let n := bytes.length
  let s0 : UInt64 := 0x243f6a8885a308d3
  let s1 : UInt64 := 0x13198a2e03707344
  let (t0, t1) :=
    if n = 0 then (s0, s1)
    else if n < 4 then
      let first := word (bytes.take 1)
      let last := word (takeLast 1 bytes)
      let middle := word ((bytes.drop (n / 2)).take 1)
      (s0 ^^^ first, s1 ^^^ ((last <<< 8) ||| middle))
    else if n < 8 then (s0 ^^^ word (bytes.take 4), s1 ^^^ word (takeLast 4 bytes))
    else if n < 17 then (s0 ^^^ word (bytes.take 8), s1 ^^^ word (takeLast 8 bytes))
    else
      let (u0, u1) := absorb ((n - 1) / 16) bytes (s0, s1)
      (u0 ^^^ word ((takeLast 16 bytes).take 8), u1 ^^^ word (takeLast 8 bytes))
  mix t0 t1 ^^^ UInt64.ofNat n

def wordsOf (text : String) : List UInt64 := [fold text.toUTF8.toList, 0xff]

end Hash

/-! ### Addresses -/

/-- What is known by where it lives. -/
inductive Identity where
  | array (number : Nat)
  | block (number : Nat)
  | object (number : Nat)
  | classObject (name : String)

/-- **Where everything lives.**  Nothing is promised about it: what is no longer used may have lived
in the same place. -/
abbrev Addresses := Identity → UInt64

/-- Addresses where no two things live in the same place, as long as there is room for them; those
of classes are made of their names. -/
def Addresses.usual : Addresses
  | .array number => UInt64.ofNat (64 * number + 16)
  | .block number => UInt64.ofNat (64 * number + 32)
  | .object number => UInt64.ofNat (64 * number + 48)
  | .classObject name => (Hash.fold name.toUTF8.toList <<< 7) ||| 64

/-! ### Values -/

/-- **The hash of a value**, with some hash of words. An integer is its own hash; what lives
elsewhere is told apart by its address. -/
def Value.hashBy (ofWords : List UInt64 → Int32) (addresses : Addresses) : Value → Int32
  | .integer value => value
  | .nil => ofWords [0]
  | .boolean value => ofWords [if value then 1 else 0]
  | .float value => ofWords [value.bits.toUInt64]
  | .character value => ofWords [value.val.toUInt64]
  | .string _ text => ofWords (Hash.wordsOf text)
  | .array number => ofWords [addresses (.array number)]
  | .block number _ => ofWords [addresses (.block number)]
  | .object _ number => ofWords [addresses (.object number)]
  | .classObject cls => ofWords [addresses (.classObject cls.name)]

/-- The hash of a value that lives at its usual address. -/
def Value.hash (v : Value) : Int32 := v.hashBy Hash.ofWords .usual

end Smalltalk
