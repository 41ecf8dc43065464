/-
**Decimal texts of floating-point numbers.**

Two texts of a number are in use. Values print with a fixed number of places, rounded exactly
from the binary value, and closing zeros cut off. Listings print the fewest digits that read back
as the same number. Both are positional: no exponent is ever written.

* `roundDiv` — a quotient rounded to the nearest whole number, a half to the even one;
* `Single.fixed` — **the text with a given number of places**;
* `Single.display` — five places at most, one at least;
* `Single.shortestDigits` — the fewest digits that read back;
* `Single.shortest` — **the shortest text that reads back**.
-/

import Smalltalk.Number.Single

namespace Smalltalk

/-- The whole number nearest to `a / b`, the even one of two. -/
def roundDiv (a b : Nat) : Nat :=
  let q := a / b
  let r := a % b
  if 2 * r < b then q
  else if b < 2 * r then q + 1
  else if q % 2 = 0 then q else q + 1

def padZeros (width : Nat) (text : String) : String :=
  "".pushn '0' (width - text.length) ++ text

/-- `digits * 10 ^ power` in positional notation. -/
def positional (digits : Nat) (power : Int) : String :=
  match power with
  | .ofNat zeros => (toString digits).pushn '0' (if digits = 0 then 0 else zeros)
  | .negSucc places =>
    let scale := Nat.pow 10 (places + 1)
    toString (digits / scale) ++ "." ++ padZeros (places + 1) (toString (digits % scale))

namespace Single

/-- The text of a number that is not finite, or the given text with the sign of the number. -/
def signed (x : Single) (text : String) : String :=
  if x.isNaN then "NaN"
  else
    let size := if x.isInfinite then "inf" else text
    if x.isNegative then "-" ++ size else size

/-! ### A fixed number of places -/

/-- **The text with a given number of places**, at least one, the exact value being rounded to the
nearest and a half to the even one. -/
def fixed (places : Nat) (x : Single) : String :=
  let scaled := x.significand * Nat.pow 2 x.exponent.toNat * Nat.pow 10 places
  x.signed (positional (roundDiv scaled (Nat.pow 2 (-x.exponent).toNat)) (-(places : Int)))

/-- A decimal text with the zeros at its end cut off, but for the one that follows the point. -/
def cutZeros (text : String) : String :=
  match text.toList.reverse.dropWhile (· = '0') with
  | '.' :: cs => String.ofList ('0' :: '.' :: cs).reverse
  | cs => String.ofList cs.reverse

/-- How a value prints: five places at most, one at least. -/
def display (x : Single) : String :=
  if x.isNaN || x.isInfinite then x.signed "" else cutZeros (x.fixed 5)

/-! ### The fewest digits -/

/-- The multiple of `10 ^ power` that reads back as `x`, divided by that power, if there is one; of
two the nearer, and of two that are equally near the larger.

The numbers that read back as `x` lie between the points half-way to its neighbours, which belong
to them if the significand is even. All is counted in quarters of the unit of the significand,
as the lower neighbour of a power of two is half as far away. -/
def onGrid? (x : Single) (power : Int) : Option Nat :=
  let m := x.significand
  let quarter := x.exponent - 2
  let up := Nat.pow 2 quarter.toNat * Nat.pow 10 (-power).toNat
  let down := Nat.pow 2 (-quarter).toNat * Nat.pow 10 power.toNat
  let value := 4 * m * up
  let low := (if m = 0x800000 && 1 < x.biased then 4 * m - 1 else 4 * m - 2) * up
  let high := (4 * m + 2) * up
  let inside (n : Nat) : Bool :=
    if m % 2 = 0 then low ≤ n * down && n * down ≤ high else low < n * down && n * down < high
  let below := value / down
  let nearerAbove : Bool := down ≤ 2 * (value % down)
  if inside (below + 1) && (nearerAbove || !inside below) then some (below + 1)
  else if inside below then some below
  else none

/-- The digits and the power of ten of the first grid, counting down from `power`, on which a
number reads back as `x`. -/
def digitsFrom (x : Single) : Nat → Int → Nat × Int
  | 0, power => (x.significand, power)
  | steps + 1, power =>
    match x.onGrid? power with
    | some digits => (digits, power)
    | none => digitsFrom x steps (power - 1)

/-- **The fewest digits that read back** as a finite number that is not zero, and the power of ten
that scales them. All such numbers lie between `10 ^ 39` and `10 ^ (-46)`. -/
def shortestDigits (x : Single) : Nat × Int := digitsFrom x 100 39

/-- **The shortest text that reads back**: a whole number is written without a point. -/
def shortest (x : Single) : String :=
  if x.isNaN || x.isInfinite then x.signed ""
  else if x.isZero then x.signed "0"
  else
    let (digits, power) := x.shortestDigits
    x.signed (positional digits power)

end Single

end Smalltalk
