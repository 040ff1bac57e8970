import Formulary.Arithmetic
import Formulary.Binary64.Arithmetic
import Formulary.Expr

/-!
# Evaluation

A formula is evaluated at a point: a value of its variable, and, where this is a sample of a
series, the number of the sample and the series. The series is what `DELTA` looks at.

An operator evaluates its right side first and its left side next, and the first failure ends the
evaluation. A calculation that fails is something else than a value that is not there, such as the
difference between the first sample and the one before it.

* `Point` — where a formula is evaluated;
* `Operations.evaluate` — the value of a formula at a point, over any numbers;
* `Expr.evaluate` — the value over double-precision numbers;
* `plainValue` — an outcome as one number, for those who cannot take a failure.
-/

namespace Formulary

/-- Why an evaluation has no value. -/
inductive Failure
  /-- a calculation has no result -/
  | calculation (error : CalculationError)
  /-- there is nothing to evaluate -/
  | noValue
  deriving DecidableEq

namespace Failure

/-- A failure in words. -/
def message : Failure → String
  | calculation error => "Calculation error: " ++ error.description
  | noValue => "No value"

end Failure

/-- Where a formula is evaluated. -/
structure Point (α : Type) where
  /-- the value of the variable, absent behind the end of a series -/
  value : Option α
  /-- the number of the sample in the series, absent outside of a series -/
  index : Option Nat
  /-- the series -/
  series : List α

namespace Point

variable {α : Type}

/-- A value outside of any series. -/
def ofValue (x : α) : Point α := ⟨some x, none, []⟩

/-- The sample of a series with the given number. -/
def ofSample (series : List α) (index : Nat) : Point α := ⟨series[index]?, some index, series⟩

/-- A value with a sample number, which is negative outside of a series. -/
def ofIndexed (x : α) (index : Int) (series : List α) : Point α :=
  ⟨some x, if index < 0 then none else some index.toNat, series⟩

/-- The sample before the one at the point, if there is one in the series. -/
def previous? (p : Point α) : Option (Point α) :=
  match p.index with
  | some (n + 1) => p.series[n]?.map fun x => ⟨some x, some n, p.series⟩
  | _ => none

end Point

namespace Operations

variable {α : Type} (ops : Operations α)

/-- The value of the variable at a point. -/
def variableValue (p : Point α) : Except Failure α :=
  match p.value with
  | none => .error .noValue
  | some x => if ops.admits x then .ok x else .error (.calculation .nonFiniteInput)

/-- The result of a calculation as the result of an evaluation. -/
def calculated (result : Except CalculationError α) : Except Failure α :=
  result.mapError .calculation

/-- The value of a formula at a point. `DELTA` is the difference of its argument here and at the
sample before. -/
def evaluate (p : Point α) : Expr α → Except Failure α
  | .number x => .ok x
  | .constant c => .ok (ops.constant c)
  | .freeVariable => ops.variableValue p
  | .binary left op right => do
    let r ← evaluate p right
    let l ← evaluate p left
    calculated (ops.binary op l r)
  | .call (.pointwise f) arg => do
    let x ← evaluate p arg
    calculated (ops.apply f x)
  | .call .delta arg =>
    match p.previous? with
    | none => .error .noValue
    | some before => do
      let current ← evaluate p arg
      let previous ← evaluate before arg
      calculated (ops.binary .subtract current previous)

end Operations

/-- The value of a formula at a point, computed with double-precision numbers. -/
def Expr.evaluate (e : Expr Binary64) (p : Point Binary64) : Except Failure Binary64 :=
  Binary64.arithmetic.operations.evaluate p e

/-- The largest finite number. -/
def Binary64.largest : Binary64 := ofPlace false (infinityPlace - 1)

/-- The number that stands for a failed calculation. -/
def calculationErrorValue : Binary64 := .largest

/-- The number that stands for a missing value. -/
def missingValue : Binary64 := -.largest

/-- The number that stands for a failure. -/
def Failure.plainValue : Failure → Binary64
  | calculation _ => calculationErrorValue
  | noValue => missingValue

/-- An outcome as one number. -/
def plainValue : Except Failure Binary64 → Binary64
  | .ok x => x
  | .error failure => failure.plainValue

end Formulary
