import Formulary.Binary64.Shortest
import Formulary.Expr

/-!
# Formula text

A tree is written as a formula with brackets around every operation, so that the text means the
same under any rule of precedence. A number with a sign is written as the negative of its absolute
value, in brackets.
-/

namespace Formulary

namespace Expr

/-- The formula text of a number. -/
def renderNumber (x : Binary64) : List Char :=
  if x.negative then "(-".toList ++ (-x).text ++ [')'] else x.text

/-- The formula text of a tree with a name for the variable, and `rest` after it. -/
def renderBefore (name : List Char) : Expr Binary64 → List Char → List Char
  | number x, rest => renderNumber x ++ rest
  | constant c, rest => constantMark :: (c.symbol.toList ++ rest)
  | freeVariable, rest => name ++ rest
  | binary left op right, rest =>
    '(' :: left.renderBefore name (op.symbol :: right.renderBefore name (')' :: rest))
  | call f arg, rest => f.keyword.toList ++ '(' :: arg.renderBefore name (')' :: rest)

/-- The formula text of a tree, with a name for the variable. -/
def render (name : List Char) (e : Expr Binary64) : List Char := e.renderBefore name []

/-- The formula text of a tree as a string. -/
def formula (name : String) (e : Expr Binary64) : String := .ofList (e.render name.toList)

end Expr

end Formulary
