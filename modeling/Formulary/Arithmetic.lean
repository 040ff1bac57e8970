import Formulary.Constant
import Formulary.Function
import Formulary.Operator

/-!
# Arithmetic with failures

What evaluating a formula asks of numbers, in two layers:

* `Arithmetic α` — bare operations on numbers of a type, which always give some number;
* `Operations α` — the operators and functions of formulas, each of which gives a number or says why
  it has none.

`Arithmetic.operations` makes the second from the first. It refuses what is undefined before it
computes, and results out of range afterwards. An arithmetic whose `isFinite` always holds is exact
arithmetic, and an `Operations α` that is made by hand can leave functions abstract.
-/

namespace Formulary

/-! ## Failures -/

/-- Why a calculation has no result. -/
inductive CalculationError
  | divisionByZero
  | zeroToNegativePower
  | negativeBaseNonIntegerExponent
  | tanUndefined
  | cotanUndefined
  | logOfNonPositive
  | sqrtOfNegative
  | overflow
  | nonFiniteInput
  deriving DecidableEq

namespace CalculationError

/-- All reasons. -/
def all : List CalculationError :=
  [divisionByZero, zeroToNegativePower, negativeBaseNonIntegerExponent, tanUndefined,
    cotanUndefined, logOfNonPositive, sqrtOfNegative, overflow, nonFiniteInput]

/-- The name under which a reason is stored. -/
def name : CalculationError → String
  | divisionByZero => "DivisionByZero"
  | zeroToNegativePower => "ZeroToNegativePower"
  | negativeBaseNonIntegerExponent => "NegativeBaseNonIntegerExponent"
  | tanUndefined => "TanUndefined"
  | cotanUndefined => "CotanUndefined"
  | logOfNonPositive => "LogOfNonPositive"
  | sqrtOfNegative => "SqrtOfNegative"
  | overflow => "Overflow"
  | nonFiniteInput => "NonFiniteInput"

/-- A reason in words. -/
def description : CalculationError → String
  | divisionByZero => "division by zero"
  | zeroToNegativePower => "zero raised to a negative power"
  | negativeBaseNonIntegerExponent => "negative base with a non-integer exponent"
  | tanUndefined => "tangent undefined where the cosine is zero"
  | cotanUndefined => "cotangent undefined where the sine is zero"
  | logOfNonPositive => "logarithm of a non-positive number"
  | sqrtOfNegative => "square root of a negative number"
  | overflow => "result out of floating-point range"
  | nonFiniteInput => "variable value is not a finite number"

end CalculationError

/-! ## Operations -/

/-- The operators and functions of formulas over numbers of type `α`. -/
structure Operations (α : Type) where
  /-- the value of a constant -/
  constant : Constant → α
  /-- whether the variable may have a value -/
  admits : α → Bool
  /-- an operator on its left and right side -/
  binary : Operator → α → α → Except CalculationError α
  /-- a function of a number -/
  apply : Pointwise → α → Except CalculationError α

/-- Numbers of type `α` with operations that always give some number. -/
structure Arithmetic (α : Type) where
  /-- a whole number -/
  ofInt : Int → α
  /-- the value of a constant -/
  constant : Constant → α
  /-- whether a result is in range -/
  isFinite : α → Bool
  /-- equality of numbers -/
  eq : α → α → Bool
  /-- strict order of numbers -/
  lt : α → α → Bool
  /-- the sum -/
  add : α → α → α
  /-- the difference -/
  sub : α → α → α
  /-- the product -/
  mul : α → α → α
  /-- the quotient -/
  div : α → α → α
  /-- the nearest whole number, halves going away from zero -/
  round : α → α
  /-- the value of a whole number -/
  toInt : α → Int
  /-- the absolute value -/
  abs : α → α
  /-- the square root -/
  sqrt : α → α
  /-- the sine -/
  sin : α → α
  /-- the cosine -/
  cos : α → α
  /-- the exponential function -/
  exp : α → α
  /-- the natural logarithm -/
  ln : α → α

namespace Arithmetic

variable {α : Type} (A : Arithmetic α)

/-- Zero. -/
def zero : α := A.ofInt 0

/-- One. -/
def one : α := A.ofInt 1

/-- A result, if it is in range. -/
def inRange (x : α) : Except CalculationError α :=
  if A.isFinite x then .ok x else .error .overflow

/-- The quotient of two numbers, unless the divisor is zero. -/
def quotient (x y : α) : Except CalculationError α :=
  if A.eq y A.zero then .error .divisionByZero else A.inRange (A.div x y)

/-! ### Powers -/

/-- `result * factor ^ count` by repeated squaring: each binary digit of the count squares the
factor, and a digit one multiplies it to the result. -/
def squaring (result factor : α) (count : Nat) : α :=
  if count = 0 then result
  else
    squaring (if count % 2 = 1 then A.mul result factor else result) (A.mul factor factor)
      (count / 2)
  termination_by count

/-- A power with a whole exponent. Any number to the power zero is one, and zero has no negative
powers. -/
def integerPower (base : α) (exponent : Int16) : Except CalculationError α :=
  if exponent < 0 ∧ A.eq base A.zero then .error .zeroToNegativePower
  else
    let power := A.squaring A.one base exponent.toInt.natAbs
    A.inRange (if exponent < 0 then A.div A.one power else power)

/-- The whole number that an exponent is, if it is one with at most 16 bits. -/
def wholeExponent? (exponent : α) : Option Int16 :=
  let rounded := A.round exponent
  if A.eq rounded exponent && !A.lt rounded (A.ofInt Int16.minValue.toInt) &&
      !A.lt (A.ofInt Int16.maxValue.toInt) rounded then
    some (.ofIntClamp (A.toInt rounded))
  else none

/-- A power. Whole exponents of at most 16 bits are multiplied out, so they also suit a negative
base; any other exponent goes through the logarithm of the base, which has to be positive. A power
of zero is zero for a positive exponent. -/
def power (base exponent : α) : Except CalculationError α :=
  match A.wholeExponent? exponent with
  | some whole => A.integerPower base whole
  | none =>
    if A.lt A.zero base then A.inRange (A.exp (A.mul exponent (A.ln base)))
    else if A.eq base A.zero then
      if A.lt A.zero exponent then .ok A.zero else .error .zeroToNegativePower
    else .error .negativeBaseNonIntegerExponent

/-! ### Functions -/

/-- Minus one, zero or one. -/
def sign (x : α) : α :=
  if A.lt A.zero x then A.one else if A.lt x A.zero then A.ofInt (-1) else A.zero

/-- A function of a number, where it is defined and in range. -/
def apply : Pointwise → α → Except CalculationError α
  | .sin, x => .ok (A.sin x)
  | .cos, x => .ok (A.cos x)
  | .tan, x =>
    if A.eq (A.cos x) A.zero then .error .tanUndefined
    else A.inRange (A.div (A.sin x) (A.cos x))
  | .cotan, x =>
    if A.eq (A.sin x) A.zero then .error .cotanUndefined
    else A.inRange (A.div (A.cos x) (A.sin x))
  | .exp, x => A.inRange (A.exp x)
  | .ln, x =>
    if A.lt x A.zero || A.eq x A.zero then .error .logOfNonPositive else .ok (A.ln x)
  | .sqrt, x => if A.lt x A.zero then .error .sqrtOfNegative else .ok (A.sqrt x)
  | .sign, x => .ok (A.sign x)
  | .abs, x => .ok (A.abs x)

/-- An operator between two numbers. -/
def binary : Operator → α → α → Except CalculationError α
  | .add, x, y => A.inRange (A.add x y)
  | .subtract, x, y => A.inRange (A.sub x y)
  | .multiply, x, y => A.inRange (A.mul x y)
  | .divide, x, y => A.quotient x y
  | .power, x, y => A.power x y

/-- The operators and functions of formulas, computed with this arithmetic. -/
def operations : Operations α where
  constant := A.constant
  admits := A.isFinite
  binary := A.binary
  apply := A.apply

end Arithmetic

end Formulary
