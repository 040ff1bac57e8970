import Formulary.Evaluation
import Formulary.Reader
import Formulary.Trace

/-!
# Formulas

A formula as its user holds it: a text, the settings it is read with, and the tree or the error
that the text gives. A text that is no formula can be kept and replaced; until then it has no value
anywhere. What happens to a formula is told to the trace: functions that say something return
their events next to their result.
-/

namespace Formulary

/-- A text with its tree or its error. -/
structure Formula where
  /-- the text -/
  text : String
  /-- the settings that the text is read with -/
  settings : Settings
  /-- the tree of the text, or what is wrong with it -/
  tree : Except SyntaxError (Expr Binary64)

namespace Formula

/-- What the trace says after a text has been read. -/
def readEvent (text : String) : Except SyntaxError (Expr Binary64) → Event
  | .ok tree =>
    .debug "PARSE" s!"compiled '{text}' ({tree.nodeCount} nodes, depth {tree.depth})"
  | .error e => .info "PARSE" s!"'{text}' rejected: code {e.kind.code} at {e.position}"

/-- The formula of a text. -/
def ofText (settings : Settings) (text : String) : Formula × List Event :=
  let tree := Expr.ofText settings text
  (⟨text, settings, tree⟩, [readEvent text tree])

/-- The formula with another text. Nothing is kept of the tree before. -/
def setText (f : Formula) (text : String) : Formula × List Event := ofText f.settings text

/-- Whether the text is a formula. -/
def isValid (f : Formula) : Bool := f.tree.isOk

/-- What is wrong with the text. -/
def error? (f : Formula) : Option SyntaxError :=
  match f.tree with
  | .ok _ => none
  | .error e => some e

/-- The value at a point; a text that is no formula has none. -/
def evaluateAt (f : Formula) (p : Point Binary64) : Except Failure Binary64 :=
  match f.tree with
  | .ok tree => tree.evaluate p
  | .error _ => .error .noValue

/-- The value for a value of the variable. -/
def evaluate (f : Formula) (x : Binary64) : Except Failure Binary64 := f.evaluateAt (.ofValue x)

/-- The value for a value of the variable as one number. -/
def evaluatePlain (f : Formula) (x : Binary64) : Binary64 := plainValue (f.evaluate x)

/-- How many results are failed calculations. -/
def failedCount (results : List (Except Failure Binary64)) : Nat :=
  results.countP fun
    | .error (.calculation _) => true
    | _ => false

/-- How many results are missing values. -/
def missingCount (results : List (Except Failure Binary64)) : Nat :=
  results.countP fun
    | .error .noValue => true
    | _ => false

/-- What the trace says about the evaluation of a series. -/
def seriesEvents (text : String) (results : List (Except Failure Binary64)) : List Event :=
  let size := results.length
  let failed := failedCount results
  let missing := missingCount results
  [.entered "D" "EVAL" "evaluate_series" s!"formula={text} samples={size}"] ++
    (if 0 < failed then
      [.warn "EVAL" s!"{failed} of {size} points failed to calculate for {text}"]
    else []) ++
    [.exited "D" "EVAL" "evaluate_series" s!"failed={failed} missing={missing}"]

/-- The values at all samples of a series. A text that is no formula has no value at any of them,
and then the trace says nothing. -/
def evaluateSeries (f : Formula) (series : List Binary64) :
    List (Except Failure Binary64) × List Event :=
  let results := (List.range series.length).map fun index => f.evaluateAt (.ofSample series index)
  (results, if f.isValid then seriesEvents f.text results else [])

/-- Whether the formula is linear by its shape; a text that is no formula is not. -/
def isLinear (f : Formula) : Bool :=
  match f.tree with
  | .ok tree => tree.isLinear
  | .error _ => false

end Formula

end Formulary
