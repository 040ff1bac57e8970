import Formulary.Evaluation
import Formulary.Json.Read
import Formulary.Settings
import Formulary.SyntaxError

/-!
# Stored forms

Settings and errors as JSON values. A structure is an object with its fields, and is also read from
an array of their values in order. A choice is the name of what is chosen, and is also read from an
object that gives the name its content; `null` is the content of a choice that has none.

These are the forms of encoders that are derived from the declarations of the types, and they have
to agree with those encoders: in the names of fields and choices and the order of fields when they
are written, and in what may be missing, unknown or given twice when they are read.

* `toJson`, `ofJson?` — the stored form of a value, and the value of a stored form;
* `Settings.ofStored` — settings from the text of their stored form, checked before use.
-/

namespace Formulary

namespace Json

/-- A text that is a sequence of characters. -/
def text? : Json → Option String
  | .string text => text
  | _ => none

/-- A whole number that fits into 64 bits. -/
def count? : Json → Option Nat
  | .integer n => if 0 ≤ n ∧ n < 0x10000000000000000 then some n.toNat else none
  | _ => none

/-- The member of an object with a name; `some none` if there is none, `none` if there are two. -/
def member? (members : List (Option String × Json)) (name : String) : Option (Option Json) :=
  match members.filter fun member => member.1 = some name with
  | [] => some none
  | [(_, value)] => some (some value)
  | _ => none

/-- The first of the given choices that a value names. -/
def choice? {α : Type} (choices : List α) (name : α → String) : Json → Option α
  | .string (some text) => choices.find? fun choice => name choice = text
  | .object [(some text, .null)] => choices.find? fun choice => name choice = text
  | _ => none

end Json

/-! ## Settings -/

namespace Settings

/-- The stored form of settings. -/
def toJson (s : Settings) : Json :=
  .ofMembers
    [("variable_name", .ofString s.variableName), ("max_depth", .integer s.maxNesting),
      ("max_tree_depth", .integer s.maxDepth)]

/-- Settings from their fields; a field that is missing has its usual value. -/
def ofFields? (name nesting depth : Option Json) : Option Settings := do
  let usual : Settings := {}
  let name ← name.elim (some usual.variableName) Json.text?
  let nesting ← nesting.elim (some usual.maxNesting) Json.count?
  let depth ← depth.elim (some usual.maxDepth) Json.count?
  return ⟨name, nesting, depth⟩

/-- The settings of a stored form, usable or not. Fields may be missing, and fields with other names
are passed over. -/
def ofJson? : Json → Option Settings
  | .object members => do
    guard (members.all fun member => member.1.isSome)
    ofFields? (← Json.member? members "variable_name") (← Json.member? members "max_depth")
      (← Json.member? members "max_tree_depth")
  | .array items => do
    guard (items.length ≤ 3)
    ofFields? items[0]? items[1]? items[2]?
  | _ => none

/-- Why a text gives no settings. -/
inductive StoredError
  /-- it is not the stored form of any settings -/
  | malformed
  /-- it is that of settings that cannot be used -/
  | refused (error : SettingsError)

/-- The settings in a text. Settings that cannot be used are refused as soon as they are complete,
before the rest of the text is looked at. -/
def ofStored (text : String) : Except StoredError Settings :=
  match Json.read? text with
  | none => .error .malformed
  | some (value, rest) =>
    match ofJson? value with
    | none => .error .malformed
    | some settings =>
      match settings.check with
      | .error error => .error (.refused error)
      | .ok () => if rest.isEmpty then .ok settings else .error .malformed

end Settings

/-! ## Errors and the parts of formulas -/

namespace SyntaxErrorKind

/-- The stored form of a kind of error. -/
def toJson (kind : SyntaxErrorKind) : Json := .ofString kind.name

/-- The kind of error of a stored form. -/
def ofJson? : Json → Option SyntaxErrorKind := Json.choice? all name

end SyntaxErrorKind

namespace SyntaxError

/-- The stored form of an error. -/
def toJson (e : SyntaxError) : Json :=
  .ofMembers [("kind", e.kind.toJson), ("position", .integer e.position)]

/-- The error of a stored form. Both fields are needed; fields with other names are passed over. -/
def ofJson? : Json → Option SyntaxError
  | .object members => do
    guard (members.all fun member => member.1.isSome)
    let kind ← SyntaxErrorKind.ofJson? (← (← Json.member? members "kind"))
    let position ← Json.count? (← (← Json.member? members "position"))
    return ⟨kind, position⟩
  | .array [kind, position] => do
    return ⟨← SyntaxErrorKind.ofJson? kind, ← Json.count? position⟩
  | _ => none

end SyntaxError

namespace CalculationError

/-- The stored form of a reason. -/
def toJson (e : CalculationError) : Json := .ofString e.name

/-- The reason of a stored form. -/
def ofJson? : Json → Option CalculationError := Json.choice? all name

end CalculationError

namespace Failure

/-- The stored form of a failure. -/
def toJson : Failure → Json
  | calculation error => .ofMembers [("Calculation", error.toJson)]
  | noValue => .ofString "NoValue"

/-- The failure of a stored form. -/
def ofJson? : Json → Option Failure
  | .object [(some "Calculation", value)] => (CalculationError.ofJson? value).map calculation
  | value => Json.choice? [noValue] (fun _ => "NoValue") value

end Failure

namespace Operator

/-- The stored form of an operator. -/
def toJson (op : Operator) : Json := .ofString op.name

/-- The operator of a stored form. -/
def ofJson? : Json → Option Operator := Json.choice? all name

end Operator

namespace Function

/-- The stored form of a function. -/
def toJson (f : Function) : Json := .ofString f.name

/-- The function of a stored form. -/
def ofJson? : Json → Option Function := Json.choice? all name

end Function

end Formulary
