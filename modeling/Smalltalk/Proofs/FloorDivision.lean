/-
**Division is rounded down.**

The quotient is corrected by the signs of the operands, what is left over by its own sign. As what
is left over towards zero has the sign of the dividend, both corrections are made together.

* `Division.rounds_down` — **quotient and remainder** of two words.
-/

import Mathlib.Algebra.Group.Int.Defs
import Mathlib.Data.List.Basic
import Smalltalk.Machine.Perform

namespace Smalltalk.Division

/-! ### Integers -/

section

variable {a b : Int}

theorem floor_div_of_pos (hb : 0 < b) : ((a : Rat) / b).floor = a.fdiv b := by
  have hlt (x : Int) : ((a : Rat) / b).floor < x ↔ a.fdiv b < x := by
    rw [Rat.floor_lt_iff, Rat.div_lt_iff (Rat.intCast_pos.2 hb), ← Rat.intCast_mul,
      Rat.intCast_lt_intCast, Int.fdiv_eq_ediv_of_nonneg a (Int.le_of_lt hb),
      Int.ediv_lt_iff_lt_mul hb]
  have hfloor := hlt (((a : Rat) / b).floor + 1)
  have hfdiv := hlt (a.fdiv b + 1)
  omega

theorem floor_div_eq_fdiv (hb : b ≠ 0) : ((a : Rat) / b).floor = a.fdiv b := by
  obtain hneg | hpos := Int.lt_or_gt_of_ne hb
  · rw [← Rat.divInt_eq_div, ← Rat.neg_divInt_neg, Rat.divInt_eq_div, ← Int.neg_fdiv_neg]
    exact floor_div_of_pos (Int.neg_pos.2 hneg)
  · exact floor_div_of_pos hpos

theorem fdiv_eq_ite (hb : b ≠ 0) :
    a.fdiv b = if a.tmod b ≠ 0 ∧ (a < 0 ↔ ¬ b < 0) then a.tdiv b - 1 else a.tdiv b := by
  have hsign : b.sign = if b < 0 then -1 else 1 := by
    obtain h | h := Int.lt_or_gt_of_ne hb
    · rw [if_pos h, Int.sign_eq_neg_one_of_neg h]
    · rw [if_neg (Int.not_lt.2 (Int.le_of_lt h)), Int.sign_eq_one_of_pos h]
  simp only [Int.fdiv_eq_tdiv, hsign, ne_eq, ← Int.dvd_iff_tmod_eq_zero]
  split_ifs <;> omega

theorem tmod_neg_iff (h : a.tmod b ≠ 0) : a.tmod b < 0 ↔ a < 0 := by
  have hneg := Int.tmod_nonneg (a := -a) b
  have hpos := Int.tmod_nonneg (a := a) b
  rw [Int.neg_tmod] at hneg
  omega

theorem fmod_eq_ite (hb : b ≠ 0) :
    a.fmod b = if a.tmod b ≠ 0 ∧ (a.tmod b < 0 ↔ ¬ b < 0) then a.tmod b + b else a.tmod b := by
  have hsigns : a.tmod b ≠ 0 ∧ (a.tmod b < 0 ↔ ¬ b < 0) ↔ a.tmod b ≠ 0 ∧ (a < 0 ↔ ¬ b < 0) :=
    and_congr_right fun h => by rw [tmod_neg_iff h]
  have hfmod := Int.mul_fdiv_add_fmod a b
  have htmod := Int.mul_tdiv_add_tmod a b
  simp only [hsigns]
  rw [fdiv_eq_ite hb] at hfmod
  split at hfmod <;> grind

theorem fmod_between (hb : b ≠ 0) :
    (a.fmod b).natAbs < b.natAbs ∧ (a.fmod b = 0 ∨ (a.fmod b).sign = b.sign) := by
  obtain hneg | hpos := Int.lt_or_gt_of_ne hb
  · have hlt := Int.fmod_lt_of_pos (-a) (Int.neg_pos.2 hneg)
    have hnonneg := Int.fmod_nonneg_of_pos (-a) (Int.neg_pos.2 hneg)
    rw [Int.neg_fmod_neg] at hlt hnonneg
    grind
  · have hlt := Int.fmod_lt_of_pos a hpos
    have hnonneg := Int.fmod_nonneg_of_pos a hpos
    grind

/-- Only the least word divided by minus one leaves the range. -/
theorem fdiv_bounds (hle : -2 ^ 31 ≤ a) (hlt : a < 2 ^ 31) (hb : b ≠ 0)
    (h : a ≠ -2 ^ 31 ∨ b ≠ -1) : -2 ^ 31 ≤ a.fdiv b ∧ a.fdiv b < 2 ^ 31 := by
  obtain hneg | hpos := Int.lt_or_gt_of_ne hb
  · rw [← Int.neg_fdiv_neg, Int.fdiv_eq_ediv_of_nonneg _ (by omega)]
    exact ⟨Int.le_ediv_of_mul_le (by omega) (by omega), Int.ediv_lt_of_lt_mul (by omega) (by omega)⟩
  · rw [Int.fdiv_eq_ediv_of_nonneg a (Int.le_of_lt hpos)]
    exact ⟨Int.le_ediv_of_mul_le hpos (by omega), Int.ediv_lt_of_lt_mul hpos (by omega)⟩

end

/-! ### Words -/

variable {a b : Int32}

theorem lt_zero_iff (a : Int32) : a < 0 ↔ a.toInt < 0 := Int32.lt_iff_toInt_lt

theorem eq_zero_iff (a : Int32) : a = 0 ↔ a.toInt = 0 := Int32.toInt_inj.symm

theorem quotient_eq_ofInt (hb : b ≠ 0) : quotient a b = Int32.ofInt (a.toInt.fdiv b.toInt) := by
  have hdiv : a / b = Int32.ofInt (a.toInt.tdiv b.toInt) := by
    rw [← Int32.toInt_inj, Int32.toInt_div, Int32.toInt_ofInt]
  rw [quotient, fdiv_eq_ite (mt (eq_zero_iff b).2 hb), apply_ite Int32.ofInt, Int32.ofInt_sub,
    ← hdiv]
  simp only [ne_eq, eq_zero_iff, lt_zero_iff, Int32.toInt_mod]
  rfl

theorem quotient_toInt_ne_iff (hb : b ≠ 0) :
    (quotient a b).toInt ≠ a.toInt.fdiv b.toInt ↔ a = Int32.minValue ∧ b = -1 := by
  constructor
  · contrapose!
    intro h
    have hends : a.toInt ≠ -2 ^ 31 ∨ b.toInt ≠ -1 := by
      by_cases ha : a = Int32.minValue
      · exact .inr fun h' => h ha (Int32.toInt_inj.1 h')
      · exact .inl fun h' => ha (Int32.toInt_inj.1 h')
    have hbounds := fdiv_bounds a.le_toInt a.toInt_lt (mt (eq_zero_iff b).2 hb) hends
    rw [quotient_eq_ofInt hb, Int32.toInt_ofInt_of_le hbounds.1 hbounds.2]
  · rintro ⟨rfl, rfl⟩
    decide

/-- Words of different signs have a sum within the range. -/
theorem rest_add_toInt (h : a % b < 0 ↔ ¬ b < 0) : (a % b + b).toInt = (a % b).toInt + b.toInt := by
  have hrest := (a % b).le_toInt
  have hrest' := (a % b).toInt_lt
  have hb := b.le_toInt
  have hb' := b.toInt_lt
  rw [lt_zero_iff, lt_zero_iff] at h
  rw [Int32.toInt_add]
  exact Int.bmod_eq_of_le (by omega) (by omega)

theorem remainder_toInt (hb : b ≠ 0) : (remainder a b).toInt = a.toInt.fmod b.toInt := by
  rw [fmod_eq_ite (mt (eq_zero_iff b).2 hb), ← Int32.toInt_mod]
  simp only [remainder, ← lt_zero_iff, ← eq_zero_iff, ne_eq]
  split
  next h => exact rest_add_toInt h.2
  next => rfl

theorem quotient_mul_add_remainder (hb : b ≠ 0) : quotient a b * b + remainder a b = a := by
  rw [quotient_eq_ofInt hb, ← Int32.ofInt_toInt (remainder a b), remainder_toInt hb]
  nth_rewrite 2 [← Int32.ofInt_toInt b]
  rw [← Int32.ofInt_mul, ← Int32.ofInt_add, Int.mul_comm, Int.mul_fdiv_add_fmod, Int32.ofInt_toInt]

/-- **Quotient and remainder.**  The quotient is rounded down and wraps around, which it does for
the least word and minus one only; the remainder is exact, lies between zero and the divisor, and
is found without leaving the range. The operations on integers answer these two. -/
theorem rounds_down (hb : b ≠ 0) :
    let floor := ((a.toInt : Rat) / b.toInt).floor
    let rest := remainder a b
    quotient a b = Int32.ofInt floor ∧
      ((quotient a b).toInt ≠ floor ↔ a = Int32.minValue ∧ b = -1) ∧
      rest.toInt = a.toInt - b.toInt * floor ∧
      rest.toInt.natAbs < b.toInt.natAbs ∧ (rest = 0 ∨ rest.toInt.sign = b.toInt.sign) ∧
      (a % b ≠ 0 ∧ (a % b < 0 ↔ ¬ b < 0) → (a % b + b).toInt = (a % b).toInt + b.toInt) ∧
      quotient a b * b + rest = a ∧
      ∀ s : Store,
        Primitive.floorDivide.perform s (.integer a) [.integer b]
          = .ok (.value (.integer (quotient a b))) ∧
        Primitive.remainder.perform s (.integer a) [.integer b] = .ok (.value (.integer rest)) ∧
        Primitive.modulo.perform s (.integer a) [.integer b] = .ok (.value (.integer rest)) := by
  have hrest := remainder_toInt (a := a) hb
  have hbetween := fmod_between (a := a.toInt) (mt (eq_zero_iff b).2 hb)
  simp only [floor_div_eq_fdiv (mt (eq_zero_iff b).2 hb)]
  refine ⟨quotient_eq_ofInt hb, quotient_toInt_ne_iff hb, by rw [hrest, Int.fmod_def], ?_, ?_,
    fun h => rest_add_toInt h.2, quotient_mul_add_remainder hb, ?_⟩
  · rw [hrest]
    exact hbetween.1
  · rw [eq_zero_iff, hrest]
    exact hbetween.2
  · intro s
    have hcheck : Operation.checkDivisor (.integer b) = .ok () := if_neg hb
    simp only [Primitive.perform, List.headD_cons, hcheck]
    exact ⟨rfl, rfl, rfl⟩

/-- The least word by minus one: the quotient wraps around, and nothing is left over. -/
theorem rounds_down_least : (-1 : Int32) ≠ 0 ∧
    (quotient Int32.minValue (-1)).toInt ≠ ((Int32.minValue.toInt : Rat) / (-1 : Int32).toInt).floor :=
  ⟨by decide, (rounds_down (by decide)).2.1.2 ⟨rfl, rfl⟩⟩

end Smalltalk.Division
