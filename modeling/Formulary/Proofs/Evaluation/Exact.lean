import Mathlib.Algebra.Field.Basic
import Mathlib.Algebra.Field.Rat
import Mathlib.Data.Rat.Floor
import Formulary.Arithmetic

/-!
# Exact arithmetic

The numbers of a formula can be read in any field. Its arithmetic is exact if nothing is rounded and
nothing is out of range, so that only what is undefined fails.

* `Operations.Exact` — the operators are those of the field, powers and functions being left open;
* `Arithmetic.Exact` — an arithmetic that is the field's, and `Arithmetic.Exact.operations` the
  operators that it makes;
* `Arithmetic.rational` — the arithmetic of rational numbers.
-/

namespace Formulary

variable {K : Type} [Field K]

/-- The variable may have any value, and sums, differences, products and quotients are those of the
field. A quotient has no value only where the divisor is zero. -/
structure Operations.Exact (ops : Operations K) : Prop where
  /-- every number is finite -/
  admits (x : K) : ops.admits x = true
  /-- sums -/
  add (x y : K) : ops.binary .add x y = .ok (x + y)
  /-- differences -/
  subtract (x y : K) : ops.binary .subtract x y = .ok (x - y)
  /-- products -/
  multiply (x y : K) : ops.binary .multiply x y = .ok (x * y)
  /-- quotients -/
  divide (x : K) {y : K} (hy : y ≠ 0) : ops.binary .divide x y = .ok (x / y)
  /-- what is not a quotient -/
  divide_zero (x : K) : ops.binary .divide x 0 = .error .divisionByZero

namespace Arithmetic

/-- An arithmetic whose numbers are those of the field, all of them in range. -/
structure Exact (A : Arithmetic K) : Prop where
  /-- whole numbers -/
  ofInt (n : Int) : A.ofInt n = n
  /-- nothing is out of range -/
  isFinite (x : K) : A.isFinite x = true
  /-- equality -/
  eq_iff (x y : K) : A.eq x y = true ↔ x = y
  /-- sums -/
  add (x y : K) : A.add x y = x + y
  /-- differences -/
  sub (x y : K) : A.sub x y = x - y
  /-- products -/
  mul (x y : K) : A.mul x y = x * y
  /-- quotients -/
  div (x y : K) : A.div x y = x / y

variable {A : Arithmetic K}

theorem Exact.inRange (h : A.Exact) (x : K) : A.inRange x = .ok x :=
  if_pos (h.isFinite x)

theorem Exact.zero (h : A.Exact) : A.zero = 0 := by
  rw [Arithmetic.zero, h.ofInt, Int.cast_zero]

/-- **An exact arithmetic makes exact operators.** -/
theorem Exact.operations (h : A.Exact) : A.operations.Exact where
  admits := h.isFinite
  add x y := by simp only [Arithmetic.operations, binary, h.inRange, h.add]
  subtract x y := by simp only [Arithmetic.operations, binary, h.inRange, h.sub]
  multiply x y := by simp only [Arithmetic.operations, binary, h.inRange, h.mul]
  divide x y hy := by
    have hne : ¬ A.eq y A.zero = true := by rwa [h.zero, h.eq_iff]
    simp only [Arithmetic.operations, binary, quotient, if_neg hne, h.inRange, h.div]
  divide_zero x := by
    have heq : A.eq 0 A.zero = true := by rw [h.zero, h.eq_iff]
    simp only [Arithmetic.operations, binary, quotient, if_pos heq]

/-- The arithmetic of rational numbers, with a choice of functions. Halves are rounded away from
zero. -/
def rational (sqrt sin cos exp ln : ℚ → ℚ) : Arithmetic ℚ where
  ofInt n := n
  constant c := c.value.digits * (10 : ℚ) ^ c.value.exponent
  isFinite _ := true
  eq x y := x == y
  lt x y := x < y
  add x y := x + y
  sub x y := x - y
  mul x y := x * y
  div x y := x / y
  round x := if 0 ≤ x then ⌊x + 1 / 2⌋ else ⌈x - 1 / 2⌉
  toInt x := if 0 ≤ x then ⌊x⌋ else ⌈x⌉
  abs x := |x|
  sqrt := sqrt
  sin := sin
  cos := cos
  exp := exp
  ln := ln

theorem exact_rational (sqrt sin cos exp ln : ℚ → ℚ) :
    (rational sqrt sin cos exp ln).Exact where
  ofInt _ := rfl
  isFinite _ := rfl
  eq_iff _ _ := beq_iff_eq
  add _ _ := rfl
  sub _ _ := rfl
  mul _ _ := rfl
  div _ _ := rfl

end Arithmetic

end Formulary
