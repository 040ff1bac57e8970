import Formulary.Binary64.Nearest
import Formulary.Expr

/-!
# Trees with their depth

While a formula is read its tree grows, and the tree must not become too high. So a tree that is
being built knows its depth, and the bound is checked wherever a node is added.

* `Node` — a tree together with its depth, which is a field and never counted again;
* `Limits` — the bounds; `Limits.accept` passes a tree that is low enough, and `Limits.negate` puts
  a minus sign in front of a tree.
-/

namespace Formulary

/-- A tree together with its depth. -/
structure Node where
  /-- the tree -/
  expr : Expr Binary64
  /-- its depth -/
  depth : Nat
  /-- the depth is that of the tree -/
  depth_eq : depth = expr.depth

namespace Node

/-- A number as a tree. -/
def ofNumber (x : Binary64) : Node := ⟨.number x, 1, rfl⟩

/-- A constant as a tree. -/
def ofConstant (c : Constant) : Node := ⟨.constant c, 1, rfl⟩

/-- The variable as a tree. -/
def freeVariable : Node := ⟨.freeVariable, 1, rfl⟩

/-- Two trees with an operator between them. -/
def binary (left : Node) (op : Operator) (right : Node) : Node :=
  ⟨.binary left.expr op right.expr, 1 + max left.depth right.depth, by
    rw [Expr.depth, left.depth_eq, right.depth_eq]⟩

/-- A function of a tree. -/
def call (f : Function) (arg : Node) : Node :=
  ⟨.call f arg.expr, 1 + arg.depth, by rw [Expr.depth, arg.depth_eq]⟩

end Node

/-- The bounds on the nesting of a formula. -/
structure Limits where
  /-- how many brackets, calls and `E^` may be open at once -/
  nesting : Nat
  /-- how high the tree may be -/
  depth : Nat

namespace Limits

/-- A tree, unless it is too high. -/
def accept (limits : Limits) (node : Node) : Option Node :=
  if limits.depth < node.depth then none else some node

/-- The negative of a tree: a number changes its sign, any other tree is multiplied by minus
one. -/
def negate (limits : Limits) (node : Node) : Option Node :=
  match node.expr with
  | .number x => some (.ofNumber (-x))
  | _ => limits.accept (.binary (.ofNumber (-1)) .multiply node)

end Limits

end Formulary
