/-
**Floating-point numbers of 32 bits.**

A number is held as its bit pattern, since programs can tell two NaN patterns apart by their
identity and their hash. The sum, difference, product and quotient are those of IEEE arithmetic;
rounding to a whole number and reading a decimal are exact computations on the parts of the
pattern.

* `Single` — a bit pattern: sign, eight bits of exponent, twenty-three of fraction;
* `Single.significand`, `Single.exponent` — **a finite number is
  `significand * 2 ^ exponent`**, up to its sign;
* `Single.add`, `sub`, `mul`, `div` — arithmetic, with NaN operands passed on;
* `Single.floor`, `Single.truncate` — the whole numbers next to it;
* `Single.ofInt`, `Single.ofDecimal` — the nearest number;
* `Single.compare?` — the order, which NaN has no part in;
* `digitsValue` — what decimal digits stand for.
-/

namespace Smalltalk

/-- What decimal digits stand for. -/
def digitsValue (digits : List Char) : Nat :=
  digits.foldl (fun n c => 10 * n + (c.toNat - '0'.toNat)) 0

/-- A floating-point number of 32 bits, as its bit pattern. -/
structure Single where
  bits : UInt32
deriving DecidableEq, Repr, Inhabited

namespace Single

/-! ### The parts of a pattern -/

def isNegative (x : Single) : Bool := 0x80000000 ≤ x.bits.toNat

def biased (x : Single) : Nat := x.bits.toNat / 0x800000 % 256

def fraction (x : Single) : Nat := x.bits.toNat % 0x800000

def isNaN (x : Single) : Bool := x.biased = 255 && x.fraction ≠ 0

def isInfinite (x : Single) : Bool := x.biased = 255 && x.fraction = 0

/-- The whole number that `exponent` scales: the fraction, with a leading one unless the number is
subnormal. -/
def significand (x : Single) : Nat :=
  if x.biased = 0 then x.fraction else x.fraction + 0x800000

def exponent (x : Single) : Int := (max x.biased 1 : Nat) - 150

def neg (x : Single) : Single := ⟨x.bits ^^^ 0x80000000⟩

/-! ### Arithmetic -/

def toFloat32 (x : Single) : Float32 := Float32.ofBits x.bits

/-- The pattern that an invalid operation gives. -/
def invalid : Single := ⟨0xffc00000⟩

/-- The NaN that an operation on a NaN gives: the same one, no longer signalling. -/
def quiet (x : Single) : Single := ⟨x.bits ||| 0x00400000⟩

/-- An operation of two numbers. If one of them is NaN that is the result, the first one being
preferred. -/
def lift (f : Float32 → Float32 → Float32) (a b : Single) : Single :=
  if a.isNaN then a.quiet
  else if b.isNaN then b.quiet
  else
    let result : Single := ⟨(f a.toFloat32 b.toFloat32).toBits⟩
    if result.isNaN then invalid else result

def add : Single → Single → Single := lift (· + ·)

def sub : Single → Single → Single := lift (· - ·)

def mul : Single → Single → Single := lift (· * ·)

def div : Single → Single → Single := lift (· / ·)

/-! ### Conversions -/

/-- The number nearest to an integer, the even one of two. -/
def ofInt (n : Int) : Single := ⟨(Float32.ofInt n).toBits⟩

/-- The number nearest to `digits / 10 ^ places`, the even one of two. -/
def ofDecimal (digits places : Nat) : Single := ⟨(Float32.ofScientific digits true places).toBits⟩

/-- The integer between zero and a finite number that is nearest to the number. -/
def truncate (x : Single) : Int :=
  let size : Nat := x.significand * Nat.pow 2 x.exponent.toNat / Nat.pow 2 (-x.exponent).toNat
  if x.isNegative then -size else size

def floorInt (x : Single) : Int :=
  let size : Nat := x.significand * Nat.pow 2 x.exponent.toNat
  (if x.isNegative then -(size : Int) else size) / (Nat.pow 2 (-x.exponent).toNat : Nat)

def floor (x : Single) : Single :=
  if x.isNaN then x.quiet
  else if x.isInfinite then x
  else
    let whole := x.floorInt
    if whole = 0 then ⟨x.bits &&& 0x80000000⟩ else ofInt whole

/-- The number cut off to an integer of 32 bits: the nearest such integer if it is out of range,
and zero for NaN. -/
def toInt32 (x : Single) : Int32 :=
  if x.isNaN then 0
  else if x.isInfinite then if x.isNegative then Int32.minValue else Int32.maxValue
  else Int32.ofInt (max (-0x80000000) (min 0x7fffffff x.truncate))

/-! ### Order -/

/-- Equality of numbers: the two zeros are equal, and NaN is equal to nothing. -/
def beq (a b : Single) : Bool := a.toFloat32 == b.toFloat32

/-- The order of two numbers, if neither is NaN. -/
def compare? (a b : Single) : Option Ordering :=
  if a.isNaN || b.isNaN then none
  else if a.toFloat32 < b.toFloat32 then some .lt
  else if a.beq b then some .eq
  else some .gt

def isZero (x : Single) : Bool := x.biased = 0 && x.fraction = 0

end Single

end Smalltalk
