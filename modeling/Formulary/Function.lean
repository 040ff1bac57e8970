import Formulary.Text.Letter

/-!
# Functions

The functions of one argument that a formula can call. Nine of them act on a number alone; the
tenth, `DELTA`, compares its argument at a sample with its argument at the sample before.

* `Function.keyword` — the word that is written for a function;
* `Function.ofKeyword?` — the function that a word names, whatever the case of its letters.
-/

namespace Formulary

/-- A function from numbers to numbers. -/
inductive Pointwise
  | sin
  | cos
  | tan
  | cotan
  | exp
  | ln
  | sqrt
  | sign
  | abs
  deriving DecidableEq

/-- A function that a formula can call. -/
inductive Function
  /-- a function of the argument's value -/
  | pointwise (f : Pointwise)
  /-- the difference to the preceding sample -/
  | delta
  deriving DecidableEq

namespace Function

/-- All functions. -/
def all : List Function :=
  [pointwise .sin, pointwise .cos, pointwise .tan, pointwise .cotan, pointwise .exp,
    pointwise .ln, pointwise .sqrt, pointwise .sign, pointwise .abs, delta]

/-- The name under which a function is stored. -/
def name : Function → String
  | pointwise .sin => "Sin"
  | pointwise .cos => "Cos"
  | pointwise .tan => "Tan"
  | pointwise .cotan => "Cotan"
  | pointwise .exp => "Exp"
  | pointwise .ln => "Ln"
  | pointwise .sqrt => "Sqrt"
  | pointwise .sign => "Sign"
  | pointwise .abs => "Abs"
  | delta => "Delta"

/-- The word that is written for a function. -/
def keyword : Function → String
  | pointwise .sin => "SIN"
  | pointwise .cos => "COS"
  | pointwise .tan => "TAN"
  | pointwise .cotan => "COTAN"
  | pointwise .exp => "EXP"
  | pointwise .ln => "LN"
  | pointwise .sqrt => "WURZEL"
  | pointwise .sign => "SIGN"
  | pointwise .abs => "ABS"
  | delta => "DELTA"

/-- A second word for the square root. -/
def rootKeyword : String := "SQRT"

/-- The function that a word names; case does not matter. -/
def ofKeyword? (word : List Char) : Option Function :=
  let upper := upperWord word
  if upper = rootKeyword.toList then some (pointwise .sqrt)
  else all.find? fun f => f.keyword.toList = upper

theorem ofKeyword?_keyword (f : Function) : ofKeyword? f.keyword.toList = some f := by
  cases f with
  | pointwise f => cases f <;> decide
  | delta => decide

end Function

end Formulary
