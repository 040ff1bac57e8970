import Formulary.Expr.Unfinished
import Formulary.Settings
import Formulary.SyntaxError
import Formulary.Token

/-!
# From tokens to a tree

Tokens are read from left to right, one at a time, with a stack of the expressions that have been
begun and are not finished. Nothing is read twice, and the token at which an error shows is the one
that comes next.

* `Progress` — how far the reading has come: the innermost expression, those around it, and how
  many brackets are open;
* `Progress.settle` — finishes what binds more strongly than the operator that comes next;
* `Stage` — what has to come next; `Stage.next` is what one token does to it, and `Stage.finish`
  what the end of the text does;
* `Stage.run` — the whole reading, and `Outcome` its answer: the tree or the first error, and what
  is left then.
-/

namespace Formulary

/-- How far the reading has come. -/
structure Progress where
  /-- the innermost expression -/
  current : Unfinished := {}
  /-- the open brackets from the inside to the outside, each with the expression it stands in -/
  enclosing : List (Opener × Unfinished) := []
  /-- how many brackets, calls and `E^` are open -/
  nesting : Nat
  /-- how many `DELTA` are open -/
  deltaNesting : Nat

/-- What the reading of a formula leaves: an answer, the tokens from the one where the reading
ended, and what is open there. -/
structure Outcome where
  /-- the tree, or the first error -/
  answer : Except SyntaxError (Expr Binary64)
  /-- the tokens that are left -/
  rest : List Located
  /-- how many brackets, calls and `E^` are open -/
  nesting : Nat
  /-- how many `DELTA` are open -/
  deltaNesting : Nat

namespace Progress

/-! ## Errors -/

/-- What is reported at a token where the grammar has `kind` to report. Text that belongs to no
formula is reported as such, whatever else is wrong at its place. -/
def kindAt (kind : SyntaxErrorKind) : Token → SyntaxErrorKind
  | .illegal _ => .illegalCharacter
  | .unknown _ => .unknownIdentifier
  | .malformed _ => .missingTerm
  | _ => kind

/-- The error at the first of the given tokens, or at the end of the text. -/
def errorAt (finish : Nat) (kind : SyntaxErrorKind) : List Located → SyntaxError
  | [] => ⟨kind, finish⟩
  | t :: _ => ⟨kindAt kind t.token, t.start⟩

/-! ## Opening and closing -/

/-- Counts one more open bracket, call or `E^`, if the bound allows it. -/
def deepen (limits : Limits) (p : Progress) : Option Progress :=
  if limits.nesting ≤ p.nesting then none else some { p with nesting := p.nesting + 1 }

/-- Counts one more open `DELTA` where the bracket is that of a `DELTA`, if the bound allows it. -/
def deepenDelta (opener : Opener) (p : Progress) : Option Progress :=
  if opener = .call .delta then
    if maxDeltaNesting ≤ p.deltaNesting then none
    else some { p with deltaNesting := p.deltaNesting + 1 }
  else some p

/-- Begins the expression inside a bracket. If a bound is exceeded, the reading ends with what has
been counted until then. -/
def opened (limits : Limits) (p : Progress) (opener : Opener) : Except Progress Progress :=
  match p.deepen limits with
  | none => .error p
  | some p =>
    match p.deepenDelta opener with
    | none => .error p
    | some p => .ok { p with current := {}, enclosing := (opener, p.current) :: p.enclosing }

/-- Goes back to the expression around a bracket. -/
def closed (p : Progress) (opener : Opener) (around : Unfinished)
    (enclosing : List (Opener × Unfinished)) : Progress where
  current := around
  enclosing := enclosing
  nesting := p.nesting - 1
  deltaNesting := if opener = .call .delta then p.deltaNesting - 1 else p.deltaNesting

/-- The primary that a closed bracket makes of the expression in it. -/
def bracketed (limits : Limits) (node : Node) : Opener → Option Node
  | .group => some node
  | .call f => limits.accept (.call f node)

/-- Applies the `E^` before a primary to it, the last one first, `count` of them being left. -/
def applyExponentials (limits : Limits) : Nat → Progress → Node → Except Progress (Progress × Node)
  | 0, p, node => .ok ({ p with current := { p.current with exponentials := 0 } }, node)
  | count + 1, p, node =>
    let p := { p with nesting := p.nesting - 1 }
    match limits.accept (.call (.pointwise .exp) node) with
    | none => .error p
    | some node => applyExponentials limits count p node

/-- Finishes what binds more strongly than the operator that comes next, which is `none` where no
operator comes. The result is the left side of the operator, or the whole expression. -/
def settle (limits : Limits) (p : Progress) (node : Node) (next : Option Operator) :
    Except Progress (Progress × Node) :=
  match p.applyExponentials limits p.current.exponentials node with
  | .error p => .error p
  | .ok (p, node) =>
    let level := next.map Operator.precedence
    let finished :=
      (p.current.closePower limits node).bind fun node =>
        if level = some .power then some node
        else
          (p.current.closeProduct limits node).bind fun node =>
            if level = some .multiplicative then some node
            else p.current.closeSum limits node
    match finished with
    | none => .error p
    | some node => .ok (p, node)

/-- The state after an operator whose left side is `left`. -/
def awaiting (p : Progress) (left : Node) : Operator → Progress
  | .add => { p with current := { sum := some left } }
  | .subtract => { p with current := { sum := some left, negative := true } }
  | .power => { p with current := { p.current with power := some left } }
  | op => { p with current := { p.current with power := none, product := some (left, op) } }

/-- The state after a sign in front of a term, unless a part of the term has already been read or
the operator is no sign. -/
def signed? (p : Progress) : Operator → Option Progress
  | .add => if p.current.takesSign then some p else none
  | .subtract =>
    if p.current.takesSign then
      some { p with current := { p.current with negative := !p.current.negative } }
    else none
  | _ => none

end Progress

/-! ## Reading -/

/-- What has to come next, with the state in which it is awaited. -/
inductive Stage
  /-- a term, or a part of one, has to begin -/
  | term (p : Progress)
  /-- a function has been named, and the bracket around its argument has to open -/
  | keyword (p : Progress) (f : Function)
  /-- a primary has ended: an operator, a closing bracket or the end has to come -/
  | primary (p : Progress) (node : Node)
  /-- the last token has exceeded a bound, and nothing can come any more -/
  | exceeded (p : Progress)

/-- Why the next token, or the end of the text, cannot come here. -/
structure Refusal where
  /-- what is wrong, as far as the grammar and the bounds are concerned -/
  kind : SyntaxErrorKind
  /-- what has been read until then -/
  progress : Progress

/-- The reading ends with an error at the first of the tokens that are left. -/
def Refusal.outcome (r : Refusal) (finish : Nat) (rest : List Located) : Outcome :=
  ⟨.error (Progress.errorAt finish r.kind rest), rest, r.progress.nesting,
    r.progress.deltaNesting⟩

namespace Stage

/-- The stage after an opening bracket. -/
def afterOpening (limits : Limits) (p : Progress) (opener : Opener) : Stage :=
  match p.opened limits opener with
  | .error p => exceeded p
  | .ok p => term p

/-- The stage after `E^`. -/
def afterExponential (limits : Limits) (p : Progress) : Stage :=
  match p.deepen limits with
  | none => exceeded p
  | some p =>
    term { p with current := { p.current with exponentials := p.current.exponentials + 1 } }

/-- The stage after a closing bracket with the expression `whole` in front of it. -/
def afterClosing (limits : Limits) (p : Progress) (whole : Node) : Except Refusal Stage :=
  match p.enclosing with
  | [] => .error ⟨.missingOpeningBracket, p⟩
  | (opener, around) :: enclosing =>
    let p := p.closed opener around enclosing
    match Progress.bracketed limits whole opener with
    | none => .ok (exceeded p)
    | some node => .ok (primary p node)

/-- What a token does where a term, or a part of one, has to begin. -/
def beginTerm (limits : Limits) (p : Progress) : Token → Except Refusal Stage
  | .number x => .ok (primary p (.ofNumber x))
  | .constant c => .ok (primary p (.ofConstant c))
  | .freeVariable => .ok (primary p .freeVariable)
  | .openBracket => .ok (afterOpening limits p .group)
  | .function f => .ok (keyword p f)
  | .exponential => .ok (afterExponential limits p)
  | .operator op =>
    match p.signed? op with
    | none => .error ⟨.missingTerm, p⟩
    | some p => .ok (term p)
  | _ => .error ⟨.missingTerm, p⟩

/-- What a token does after the end of the primary `node`. -/
def continueTerm (limits : Limits) (p : Progress) (node : Node) : Token → Except Refusal Stage
  | .operator op =>
    match p.settle limits node (some op) with
    | .error p => .error ⟨.tooDeeplyNested, p⟩
    | .ok (p, left) => .ok (term (p.awaiting left op))
  | token =>
    match p.settle limits node none with
    | .error p => .error ⟨.tooDeeplyNested, p⟩
    | .ok (p, whole) =>
      if token = .closeBracket then afterClosing limits p whole
      else .error ⟨.missingOperator, p⟩

/-- What a token does. -/
def next (limits : Limits) : Stage → Token → Except Refusal Stage
  | term p, token => beginTerm limits p token
  | keyword p f, token =>
    if token = .openBracket then .ok (afterOpening limits p (.call f))
    else .error ⟨.missingOpeningBracket, p⟩
  | primary p node, token => continueTerm limits p node token
  | exceeded p, _ => .error ⟨.tooDeeplyNested, p⟩

/-- What the end of the text does: it finishes the whole expression if nothing is missing. -/
def finish (limits : Limits) : Stage → Except Refusal (Progress × Node)
  | term p => .error ⟨.missingTerm, p⟩
  | keyword p _ => .error ⟨.missingOpeningBracket, p⟩
  | primary p node =>
    match p.settle limits node none with
    | .error p => .error ⟨.tooDeeplyNested, p⟩
    | .ok (p, whole) =>
      match p.enclosing with
      | [] => .ok (p, whole)
      | _ => .error ⟨.missingClosingBracket, p⟩
  | exceeded p => .error ⟨.tooDeeplyNested, p⟩

/-- Reads tokens up to the end of the text, whose place is `finish`, or up to the first that cannot
come where it stands. -/
def run (limits : Limits) (finish : Nat) : Stage → List Located → Outcome
  | s, [] =>
    match s.finish limits with
    | .error r => r.outcome finish []
    | .ok (p, whole) => ⟨.ok whole.expr, [], p.nesting, p.deltaNesting⟩
  | s, t :: rest =>
    match s.next limits t.token with
    | .error r => r.outcome finish (t :: rest)
    | .ok s => s.run limits finish rest

end Stage

end Formulary
