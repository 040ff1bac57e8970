import Formulary.Proofs.Nesting
import Formulary.Token

/-!
# The grammar of formulas

The grammar says which token lists are formulas, without any bound and without saying how they are
read:

    sum      ::=  sign*  product  |  sum  sign+  product
    product  ::=  power           |  product  ( "*" | "/" )  power
    power    ::=  primary         |  power  "^"  primary
    primary  ::=  number | constant | variable | "(" sum ")" | function "(" sum ")" | "E^" primary

A derivation is a value of the type `Derivation`, and everything else is read off it: its tokens,
the tree that it prescribes, and how many brackets, calls and `E^` are open in it at once. The
three chains lean to the left because their constructors do.
-/

namespace Formulary

/-! ## Signs -/

/-- A sign in front of a term. -/
inductive Sign
  | plus
  | minus
  deriving DecidableEq

namespace Sign

/-- The operator that is written like a sign. -/
def operator : Sign → Operator
  | plus => .add
  | minus => .subtract

/-- The token of a sign. -/
def token (s : Sign) : Token := .operator s.operator

/-- Whether a run of signs makes a term negative: it does if it holds an odd number of minus
signs. -/
def oddMinus (signs : List Sign) : Bool := signs.count minus % 2 == 1

theorem oddMinus_nil : oddMinus [] = false := rfl

theorem oddMinus_plus (signs : List Sign) : oddMinus (plus :: signs) = oddMinus signs := by
  simp [oddMinus]

theorem oddMinus_minus (signs : List Sign) : oddMinus (minus :: signs) = !oddMinus signs := by
  rw [oddMinus, oddMinus, List.count_cons_self]
  rcases Nat.mod_two_eq_zero_or_one (signs.count minus) with h | h
  · rw [h, show (signs.count minus + 1) % 2 = 1 by omega]
    rfl
  · rw [h, show (signs.count minus + 1) % 2 = 0 by omega]
    rfl

/-- A sign after a run turns it if it is a minus. -/
theorem oddMinus_concat (signs : List Sign) (s : Sign) :
    oddMinus (signs ++ [s]) = Bool.xor (oddMinus signs) (s == minus) := by
  induction signs with
  | nil => cases s <;> rfl
  | cons first signs ih =>
    rw [List.cons_append]
    cases first with
    | plus => rw [oddMinus_plus, oddMinus_plus, ih]
    | minus => rw [oddMinus_minus, oddMinus_minus, ih, Bool.not_xor]

end Sign

/-! ## Derivations -/

/-- The levels of the grammar, from what binds most strongly to what binds least. -/
inductive Level
  | primary
  | power
  | product
  | sum
  deriving DecidableEq

/-- A derivation of the grammar from one of its levels. -/
inductive Derivation : Level → Type
  /-- a number -/
  | number (x : Binary64) : Derivation .primary
  /-- a constant -/
  | constant (c : Constant) : Derivation .primary
  /-- the free variable -/
  | freeVariable : Derivation .primary
  /-- an expression in brackets -/
  | group (inner : Derivation .sum) : Derivation .primary
  /-- a function of an expression in brackets -/
  | call (f : Function) (arg : Derivation .sum) : Derivation .primary
  /-- `E^` before a primary -/
  | exponential (arg : Derivation .primary) : Derivation .primary
  /-- a power of a single primary -/
  | ofPrimary (d : Derivation .primary) : Derivation .power
  /-- a power and one more exponent -/
  | raise (left : Derivation .power) (right : Derivation .primary) : Derivation .power
  /-- a product of a single power -/
  | ofPower (d : Derivation .power) : Derivation .product
  /-- a product and one more factor or divisor -/
  | scale (left : Derivation .product) (op : Operator)
      (multiplicative : op.precedence = .multiplicative) (right : Derivation .power) :
      Derivation .product
  /-- a single term with signs in front of it -/
  | ofProduct (signs : List Sign) (d : Derivation .product) : Derivation .sum
  /-- a sum and one more term, with a run of signs between them -/
  | join (left : Derivation .sum) (sign : Sign) (signs : List Sign)
      (right : Derivation .product) : Derivation .sum

namespace Derivation

variable {level : Level}

/-- The tokens that are derived. -/
def tokens {level : Level} : Derivation level → List Token
  | number x => [.number x]
  | constant c => [.constant c]
  | freeVariable => [.freeVariable]
  | group inner => .openBracket :: (inner.tokens ++ [.closeBracket])
  | call f arg => .function f :: .openBracket :: (arg.tokens ++ [.closeBracket])
  | exponential arg => .exponential :: arg.tokens
  | ofPrimary d => d.tokens
  | raise left right => left.tokens ++ .operator .power :: right.tokens
  | ofPower d => d.tokens
  | scale left op _ right => left.tokens ++ .operator op :: right.tokens
  | ofProduct signs d => signs.map Sign.token ++ d.tokens
  | join left sign signs right =>
    left.tokens ++ sign.token :: (signs.map Sign.token ++ right.tokens)

/-- The tree that a derivation prescribes. -/
def tree {level : Level} : Derivation level → Expr Binary64
  | number x => .number x
  | constant c => .constant c
  | freeVariable => .freeVariable
  | group inner => inner.tree
  | call f arg => .call f arg.tree
  | exponential arg => .call (.pointwise .exp) arg.tree
  | ofPrimary d => d.tree
  | raise left right => .binary left.tree .power right.tree
  | ofPower d => d.tree
  | scale left op _ right => .binary left.tree op right.tree
  | ofProduct signs d => if Sign.oddMinus signs then d.tree.negated else d.tree
  | join left sign signs right =>
    .binary left.tree (if Sign.oddMinus (sign :: signs) then .subtract else .add) right.tree

/-- How many brackets, calls and `E^` are open at once at most. -/
def nesting {level : Level} : Derivation level → Nat
  | number _ | constant _ | freeVariable => 0
  | group inner => 1 + inner.nesting
  | call _ arg => 1 + arg.nesting
  | exponential arg => 1 + arg.nesting
  | ofPrimary d => d.nesting
  | raise left right => max left.nesting right.nesting
  | ofPower d => d.nesting
  | scale left _ _ right => max left.nesting right.nesting
  | ofProduct _ d => d.nesting
  | join left _ _ right => max left.nesting right.nesting

theorem tokens_ne_nil (d : Derivation level) : d.tokens ≠ [] := by
  induction d with
  | number | constant | freeVariable | group | call | exponential => exact List.cons_ne_nil _ _
  | ofPrimary _ ih | ofPower _ ih => exact ih
  | raise | scale | join => simp [tokens]
  | ofProduct signs d ih => simp [tokens, ih]

/-- Text that is no part of a formula has no place in the grammar. -/
theorem not_isError_of_mem {t : Token} (d : Derivation level) (ht : t ∈ d.tokens) :
    t.isError = false := by
  have hsign : ∀ signs : List Sign, t ∈ signs.map Sign.token → t.isError = false := by
    intro signs h
    obtain ⟨s, -, rfl⟩ := List.mem_map.mp h
    rfl
  induction d with
  | number | constant | freeVariable =>
    obtain rfl := List.mem_singleton.mp ht
    rfl
  | group inner ih =>
    simp only [tokens, List.mem_cons, List.mem_append, List.not_mem_nil, or_false] at ht
    rcases ht with rfl | h | rfl
    · rfl
    · exact ih h
    · rfl
  | call f arg ih =>
    simp only [tokens, List.mem_cons, List.mem_append, List.not_mem_nil, or_false] at ht
    rcases ht with rfl | rfl | h | rfl
    · rfl
    · rfl
    · exact ih h
    · rfl
  | exponential arg ih =>
    rcases List.mem_cons.mp ht with rfl | h
    · rfl
    · exact ih h
  | ofPrimary _ ih | ofPower _ ih => exact ih ht
  | raise left right ihl ihr | scale left _ _ right ihl ihr =>
    simp only [tokens, List.mem_append, List.mem_cons] at ht
    rcases ht with h | rfl | h
    · exact ihl h
    · rfl
    · exact ihr h
  | ofProduct signs d ih =>
    rcases List.mem_append.mp ht with h | h
    · exact hsign signs h
    · exact ih h
  | join left sign signs right ihl ihr =>
    simp only [tokens, List.mem_append, List.mem_cons] at ht
    rcases ht with h | rfl | h | h
    · exact ihl h
    · rfl
    · exact hsign signs h
    · exact ihr h

end Derivation

end Formulary
