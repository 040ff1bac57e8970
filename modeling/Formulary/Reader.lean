import Formulary.Expr.Reading
import Formulary.Token.Scan

/-!
# Reading formulas

* `Expr.ofText` — the tree of a text, or the first error in it;
* `Reader` — a text that is read again and again. A formula takes up the whole text, so a second
  one is only read after an error: from the token on at which the error showed, and with the
  brackets that were open there still counted.
-/

namespace Formulary

/-- A text that is being read as formulas. -/
structure Reader where
  /-- the bounds on nesting -/
  limits : Limits
  /-- the tokens that are left -/
  rest : List Located
  /-- the place of the end of the text -/
  finish : Nat
  /-- how many brackets, calls and `E^` an error has left open -/
  nesting : Nat
  /-- how many `DELTA` an error has left open -/
  deltaNesting : Nat

namespace Reader

/-- A text, nothing of it read. -/
def ofText (settings : Settings) (text : String) : Reader :=
  let (tokens, finish) := (Scanner.ofText settings.variableName text).tokens
  ⟨⟨settings.maxNesting, settings.maxDepth⟩, tokens, finish, 0, 0⟩

/-- Reads a formula that takes up all that is left. After an error the tokens from its place on are
left, and what was open there stays counted. -/
def read (r : Reader) : Except SyntaxError (Expr Binary64) × Reader :=
  match r.rest with
  | [] => (.error ⟨.emptyFormula, 0⟩, r)
  | tokens =>
    let start : Progress := { nesting := r.nesting, deltaNesting := r.deltaNesting }
    let o := (Stage.term start).run r.limits r.finish tokens
    (o.answer, { r with rest := o.rest, nesting := o.nesting, deltaNesting := o.deltaNesting })

end Reader

/-- The tree of a text, or the first error in it. -/
def Expr.ofText (settings : Settings) (text : String) : Except SyntaxError (Expr Binary64) :=
  (Reader.ofText settings text).read.1

end Formulary
