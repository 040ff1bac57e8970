import Formulary.Binary64.Shortest
import Formulary.Constant
import Formulary.Function
import Formulary.Operator

/-!
# Tokens

The units that a formula is made of, and what each of them can do in a formula: stand for a term,
call a function, begin a term, or join two terms. Three kinds of token stand for text that is no
part of any formula; a text is not read beyond the first of them.
-/

namespace Formulary

/-- A unit of formula text. -/
inductive Token
  /-- a number literal, `PI` or `E` -/
  | number (value : Binary64)
  /-- a constant by its symbol -/
  | constant (c : Constant)
  /-- the free variable -/
  | freeVariable
  /-- a sign between two terms -/
  | operator (op : Operator)
  /-- the bracket `(` -/
  | openBracket
  /-- the bracket `)` -/
  | closeBracket
  /-- a function's keyword -/
  | function (f : Function)
  /-- the two characters `E^`: the exponential function of the primary that follows -/
  | exponential
  /-- the end of the text -/
  | endOfText
  /-- a character that belongs to no formula -/
  | illegal (c : Char)
  /-- a word or a symbol that names nothing -/
  | unknown (word : List Char)
  /-- digits that make up no number -/
  | malformed (digits : List Char)
  deriving DecidableEq

namespace Token

/-- Tokens that are terms by themselves. -/
def isOperand : Token → Bool
  | number _ | constant _ | freeVariable => true
  | _ => false

/-- Tokens that apply a function to what follows. -/
def isCall : Token → Bool
  | function _ | exponential => true
  | _ => false

/-- Tokens that a term can begin with. -/
def startsTerm (t : Token) : Bool := t.isOperand || t.isCall || t == openBracket

/-- Tokens that stand for text outside every formula. -/
def isError : Token → Bool
  | illegal _ | unknown _ | malformed _ => true
  | _ => false

/-- The operator that a token is. -/
def operator? : Token → Option Operator
  | operator op => some op
  | _ => none

/-- How strongly a token binds between two terms. -/
def precedence? (t : Token) : Option Precedence := t.operator?.map Operator.precedence

/-- The text that shows a token. -/
def text : Token → List Char
  | number n => n.text
  | constant c => constantMark :: c.symbol.toList
  | freeVariable => "VARIABLE".toList
  | operator op => [op.symbol]
  | openBracket => ['(']
  | closeBracket => [')']
  | function f => f.keyword.toList
  | exponential => "E^".toList
  | endOfText => "EOF".toList
  | illegal c => "ILLEGAL(".toList ++ [c, ')']
  | unknown word => "UNKNOWN(".toList ++ word ++ [')']
  | malformed digits => "MALFORMED(".toList ++ digits ++ [')']

end Token

/-- A token and the place of its first character in the text, counted from zero. -/
structure Located where
  /-- the token -/
  token : Token
  /-- how many characters come before it -/
  start : Nat
  deriving DecidableEq

end Formulary
