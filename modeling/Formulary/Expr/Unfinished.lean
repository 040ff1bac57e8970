import Formulary.Expr.Node

/-!
# Expressions of which a part has been read

The grammar of formulas, from the weakest operators to the strongest:

* an expression is a sum of terms with `+` and `-` between them; signs in front of the first term
  and after an operator are counted, and an odd number of `-` makes the term negative;
* a term is a product of powers with `*` and `/`;
* a power is a chain of primaries with `^`, taken from the left like all chains;
* a primary is a number, a constant, the variable, an expression in brackets, a function of an
  expression in brackets, or `E^` before a primary.

`Unfinished` is an expression that has been read up to some primary, or up to the end of one. It
keeps one left side for each level of the grammar, and `closePower`, `closeProduct` and `closeSum`
join these to what follows them, one level after the other.
-/

namespace Formulary

/-- What has been read of an expression. It stands between two tokens, where a term or an operator
comes next. -/
structure Unfinished where
  /-- the terms before the current one, added up -/
  sum : Option Node := none
  /-- whether the current term counts negatively -/
  negative : Bool := false
  /-- the powers of the current term before the current one, multiplied up, and the operator after
  them -/
  product : Option (Node × Operator) := none
  /-- the primaries of the current power before the current one -/
  power : Option Node := none
  /-- how many `E^` stand before the current primary -/
  exponentials : Nat := 0

namespace Unfinished

/-- Whether a sign may come next: nothing of the current term has been read. -/
def takesSign (u : Unfinished) : Bool :=
  u.product.isNone && u.power.isNone && u.exponentials == 0

/-- The current power, its last primary being `node`. -/
def closePower (limits : Limits) (u : Unfinished) (node : Node) : Option Node :=
  match u.power with
  | none => some node
  | some left => limits.accept (left.binary .power node)

/-- The current term, its last power being `node`. -/
def closeProduct (limits : Limits) (u : Unfinished) (node : Node) : Option Node :=
  match u.product with
  | none => some node
  | some (left, op) => limits.accept (left.binary op node)

/-- The whole expression, its last term being `node`. -/
def closeSum (limits : Limits) (u : Unfinished) (node : Node) : Option Node :=
  match u.sum with
  | none => if u.negative then limits.negate node else some node
  | some left => limits.accept (left.binary (if u.negative then .subtract else .add) node)

end Unfinished

/-- What an open bracket belongs to. -/
inductive Opener
  /-- a bracket around an expression -/
  | group
  /-- the bracket around the argument of a function -/
  | call (f : Function)
  deriving DecidableEq

end Formulary
