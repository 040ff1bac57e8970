/-!
# Syntax errors

Why a text is no formula, and where that shows. Every kind of error has a number and a key that
stay the same for good, so that a user interface can word the error itself.
-/

namespace Formulary

/-- Why a text is no formula. -/
inductive SyntaxErrorKind
  | missingOpeningBracket
  | missingClosingBracket
  | missingOperator
  | missingTerm
  | illegalCharacter
  | emptyFormula
  | unknownIdentifier
  | tooDeeplyNested
  deriving DecidableEq

namespace SyntaxErrorKind

/-- All kinds, in the order of their numbers. -/
def all : List SyntaxErrorKind :=
  [missingOpeningBracket, missingClosingBracket, missingOperator, missingTerm, illegalCharacter,
    emptyFormula, unknownIdentifier, tooDeeplyNested]

/-- The number of a kind. Zero means that there is no error and is never given. -/
def code : SyntaxErrorKind → Nat
  | missingOpeningBracket => 1
  | missingClosingBracket => 2
  | missingOperator => 3
  | missingTerm => 4
  | illegalCharacter => 5
  | emptyFormula => 6
  | unknownIdentifier => 7
  | tooDeeplyNested => 8

/-- The kind with a number. -/
def ofCode? (code : Nat) : Option SyntaxErrorKind := all.find? fun kind => kind.code = code

theorem ofCode?_code (kind : SyntaxErrorKind) : ofCode? kind.code = some kind := by
  cases kind <;> decide

/-- The name under which a kind is stored. -/
def name : SyntaxErrorKind → String
  | missingOpeningBracket => "MissingOpeningBracket"
  | missingClosingBracket => "MissingClosingBracket"
  | missingOperator => "MissingOperator"
  | missingTerm => "MissingTerm"
  | illegalCharacter => "IllegalCharacter"
  | emptyFormula => "EmptyFormula"
  | unknownIdentifier => "UnknownIdentifier"
  | tooDeeplyNested => "TooDeeplyNested"

/-- The key under which a user interface finds its wording. -/
def messageKey : SyntaxErrorKind → String
  | missingOpeningBracket => "formula.error.missing_opening_bracket"
  | missingClosingBracket => "formula.error.missing_closing_bracket"
  | missingOperator => "formula.error.missing_operator"
  | missingTerm => "formula.error.missing_term"
  | illegalCharacter => "formula.error.illegal_character"
  | emptyFormula => "formula.error.empty_formula"
  | unknownIdentifier => "formula.error.unknown_identifier"
  | tooDeeplyNested => "formula.error.too_deeply_nested"

/-- A kind in words. -/
def description : SyntaxErrorKind → String
  | missingOpeningBracket => "missing opening bracket"
  | missingClosingBracket => "missing closing bracket"
  | missingOperator => "missing operator"
  | missingTerm => "missing term"
  | illegalCharacter => "illegal character"
  | emptyFormula => "no formula defined"
  | unknownIdentifier => "unknown identifier"
  | tooDeeplyNested => "formula nested too deeply"

end SyntaxErrorKind

/-- What is wrong with a text, and at which character. -/
structure SyntaxError where
  /-- what is wrong -/
  kind : SyntaxErrorKind
  /-- how many characters come before the place where it shows -/
  position : Nat
  deriving DecidableEq

namespace SyntaxError

/-- An error in words. -/
def message (e : SyntaxError) : String :=
  s!"Syntax error {e.kind.code} at position {e.position}: {e.kind.description}"

end SyntaxError

end Formulary
