/-
**Division of integers, rounded down.**

Integers are 32 bits wide and wrap around. The machine divides towards zero; here the quotient is
rounded down instead, and what is left over has the sign of the divisor.

* `Division.quotient` — **the quotient, rounded down**;
* `Division.remainder` — **what is left over**.
-/

namespace Smalltalk.Division

/-- **The quotient, rounded down.**  It is one less than the quotient towards zero if something is
left over and the signs differ. -/
def quotient (a b : Int32) : Int32 :=
  if a % b ≠ 0 ∧ (a < 0 ↔ ¬ b < 0) then a / b - 1 else a / b

/-- **What is left over**, which has the sign of the divisor. -/
def remainder (a b : Int32) : Int32 :=
  let rest := a % b
  if rest ≠ 0 ∧ (rest < 0 ↔ ¬ b < 0) then rest + b else rest

end Smalltalk.Division
