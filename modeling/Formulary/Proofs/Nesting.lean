import Formulary.Binary64.Nearest
import Formulary.Expr

/-!
# How deeply a tree is nested

The height of a tree is one measure of its nesting. Reading and writing a formula also depend on
two others:

* `deltaNesting` — how many `DELTA` stand inside one another;
* `bracketNesting` — how many brackets are open at once in the text that is written for the tree.

`negated` is the tree that a minus sign in front of a term makes of it.
-/

namespace Formulary

namespace Expr

/-- How many `DELTA` stand inside one another at most. -/
def deltaNesting {α : Type} : Expr α → Nat
  | number _ | constant _ | freeVariable => 0
  | binary left _ right => max left.deltaNesting right.deltaNesting
  | call f arg => (if f = .delta then 1 else 0) + arg.deltaNesting

/-- How many brackets are open at once at most in the text of a tree: a number with a sign and
every operation is written in brackets, and so is the argument of a function. -/
def bracketNesting : Expr Binary64 → Nat
  | number x => if x.negative then 1 else 0
  | constant _ | freeVariable => 0
  | binary left _ right => 1 + max left.bracketNesting right.bracketNesting
  | call _ arg => 1 + arg.bracketNesting

/-! ## A minus sign in front of a term -/

/-- The negative of a term: a number changes its sign, any other term is multiplied by minus
one. -/
def negated : Expr Binary64 → Expr Binary64
  | number x => number (-x)
  | e => binary (number (-1)) .multiply e

theorem deltaNesting_negated (e : Expr Binary64) : e.negated.deltaNesting = e.deltaNesting := by
  cases e <;> simp [negated, deltaNesting]

theorem depth_le_depth_negated (e : Expr Binary64) : e.depth ≤ e.negated.depth := by
  cases e <;> simp only [negated, depth] <;> omega

end Expr

end Formulary
