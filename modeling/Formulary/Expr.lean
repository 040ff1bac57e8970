import Formulary.Constant
import Formulary.Function
import Formulary.Operator

/-!
# Expressions

A formula as a tree. The numbers in it are of any type, so that one tree can be computed with
double-precision numbers or read over an exact field. There is no node for a sign: a negative
number is a number, and any other negative term is a product with minus one.

* `nodeCount`, `depth` — how large and how high the tree is;
* `variableFree`, `isLinear` — whether the variable occurs, and whether it occurs only in a sum of
  multiples of it.
-/

namespace Formulary

/-- A formula over numbers of type `α`. -/
inductive Expr (α : Type)
  /-- a number -/
  | number (value : α)
  /-- a physical constant -/
  | constant (c : Constant)
  /-- the free variable -/
  | freeVariable
  /-- two terms with an operator between them -/
  | binary (left : Expr α) (op : Operator) (right : Expr α)
  /-- a function of a term -/
  | call (f : Function) (arg : Expr α)
  deriving DecidableEq

namespace Expr

variable {α : Type}

/-- How many nodes the tree has. -/
def nodeCount : Expr α → Nat
  | number _ | constant _ | freeVariable => 1
  | binary left _ right => 1 + left.nodeCount + right.nodeCount
  | call _ arg => 1 + arg.nodeCount

/-- How many nodes the longest way from the root to a leaf passes. -/
def depth : Expr α → Nat
  | number _ | constant _ | freeVariable => 1
  | binary left _ right => 1 + max left.depth right.depth
  | call _ arg => 1 + arg.depth

/-- Whether two trees have the same shape and equal numbers. -/
def eqBy (eq : α → α → Bool) : Expr α → Expr α → Bool
  | number x, number y => eq x y
  | constant c, constant d => c == d
  | freeVariable, freeVariable => true
  | binary l op r, binary l' op' r' => op == op' && eqBy eq l l' && eqBy eq r r'
  | call f a, call f' a' => f == f' && eqBy eq a a'
  | _, _ => false

/-- Whether the variable occurs nowhere. -/
def variableFree : Expr α → Bool
  | freeVariable => false
  | number _ | constant _ => true
  | binary left _ right => left.variableFree && right.variableFree
  | call _ arg => arg.variableFree

/-- Whether the shape of the tree says that it is `a * x + b` for terms `a` and `b` without the
variable `x`. Only the shape counts: a power of the variable is refused whatever its exponent. -/
def isLinear : Expr α → Bool
  | number _ | constant _ | freeVariable => true
  | call _ arg => arg.variableFree
  | binary left .add right | binary left .subtract right => left.isLinear && right.isLinear
  | binary left .multiply right =>
    left.variableFree && right.isLinear || right.variableFree && left.isLinear
  | binary left .divide right => left.isLinear && right.variableFree
  | binary left .power right => left.variableFree && right.variableFree

/-- A term without the variable is linear. -/
theorem isLinear_of_variableFree {e : Expr α} (h : e.variableFree = true) :
    e.isLinear = true := by
  induction e with
  | number _ | constant _ | freeVariable => rfl
  | binary l op r ihl ihr =>
    simp only [variableFree, Bool.and_eq_true] at h
    cases op <;> simp [isLinear, h.1, h.2, ihl h.1, ihr h.2]
  | call _ a _ => exact h

end Expr

end Formulary
