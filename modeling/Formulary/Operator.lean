/-!
# Binary operators

The five operators between two terms, and how strongly they bind.
-/

namespace Formulary

/-- How strongly an operator binds, the weakest first. -/
inductive Precedence
  | additive
  | multiplicative
  | power
  deriving DecidableEq

/-- An operator between two terms. -/
inductive Operator
  | add
  | subtract
  | multiply
  | divide
  | power
  deriving DecidableEq

namespace Precedence

/-- The name of a strength. -/
def name : Precedence → String
  | additive => "Additive"
  | multiplicative => "Multiplicative"
  | power => "Power"

end Precedence

namespace Operator

/-- All operators. -/
def all : List Operator := [add, subtract, multiply, divide, power]

/-- The name under which an operator is stored. -/
def name : Operator → String
  | add => "Add"
  | subtract => "Subtract"
  | multiply => "Multiply"
  | divide => "Divide"
  | power => "Power"

/-- The sign that is written between the terms. -/
def symbol : Operator → Char
  | add => '+'
  | subtract => '-'
  | multiply => '*'
  | divide => '/'
  | power => '^'

/-- How strongly an operator binds. -/
def precedence : Operator → Precedence
  | add | subtract => .additive
  | multiply | divide => .multiplicative
  | power => .power

end Operator

end Formulary
