import Formulary.Function
import Formulary.Text.Quoted

/-!
# Settings

What can be chosen for the reading of formulas: the name of the free variable, and bounds on how
deeply a formula may be nested.

* `Settings.check` — whether settings can be used, with the first reason if they cannot;
* `Settings.ofName`, `Settings.withNesting`, `Settings.withDepth` — settings that have been checked.
-/

namespace Formulary

/-- The choices for the reading of formulas. -/
structure Settings where
  /-- the name of the free variable; the case of its letters does not matter -/
  variableName : String := "x"
  /-- how many brackets, calls and `E^` may be open at once -/
  maxNesting : Nat := 100
  /-- how high the tree may be; a long sum is a high tree without any nesting -/
  maxDepth : Nat := 1000
  deriving DecidableEq

/-- How many `DELTA` may be open at once. Each one evaluates its argument twice. -/
def maxDeltaNesting : Nat := 8

/-- Why settings cannot be used. -/
inductive SettingsError
  /-- the name is not a word of letters -/
  | invalidName (name : String)
  /-- the name already means something in formulas -/
  | reservedName (name : String)
  /-- a bound is zero -/
  | zeroBound
  deriving DecidableEq

namespace SettingsError

/-- The kind of an error in one word. -/
def name : SettingsError → String
  | invalidName _ => "InvalidVariableName"
  | reservedName _ => "ReservedVariableName"
  | zeroBound => "ZeroDepth"

/-- An error in words. -/
def message : SettingsError → String
  | invalidName name =>
    "Variable name must be non-empty and consist of ASCII letters: " ++ quoted name
  | reservedName name => "Variable name collides with a reserved word: " ++ name
  | zeroBound => "Depth limits must be at least 1"

end SettingsError

namespace Settings

/-- Whether a word names a number or a function. -/
def isReserved (word : List Char) : Bool :=
  upperWord word = "PI".toList || upperWord word = "E".toList ||
    (Function.ofKeyword? word).isSome

/-- The first reason why settings cannot be used: the name has to be a word of letters that names
nothing else, and the bounds have to be positive. -/
def check (s : Settings) : Except SettingsError Unit :=
  let word := s.variableName.toList
  if word.isEmpty || !word.all Char.isAlpha then .error (.invalidName s.variableName)
  else if isReserved word then .error (.reservedName s.variableName)
  else if s.maxNesting = 0 ∨ s.maxDepth = 0 then .error .zeroBound
  else .ok ()

/-- Settings as they are, if they can be used. -/
def checked (s : Settings) : Except SettingsError Settings := s.check.map fun _ => s

/-- The usual settings with another name for the variable. -/
def ofName (name : String) : Except SettingsError Settings :=
  { variableName := name : Settings }.checked

/-- The same settings with another bound on nesting. -/
def withNesting (s : Settings) (bound : Nat) : Except SettingsError Settings :=
  { s with maxNesting := bound }.checked

/-- The same settings with another bound on the height of the tree. -/
def withDepth (s : Settings) (bound : Nat) : Except SettingsError Settings :=
  { s with maxDepth := bound }.checked

/-- What the check asks for. -/
theorem check_eq_ok_iff {s : Settings} :
    s.check = .ok () ↔ s.variableName.toList ≠ [] ∧
      (∀ c ∈ s.variableName.toList, c.isAlpha = true) ∧
      isReserved s.variableName.toList = false ∧ 0 < s.maxNesting ∧ 0 < s.maxDepth := by
  simp only [check]
  constructor
  · intro h
    split at h
    · cases h
    · next hword =>
      split at h
      · cases h
      · next hreserved =>
        split at h
        · cases h
        · next hbounds =>
          simp only [Bool.or_eq_true, Bool.not_eq_true', not_or, Bool.not_eq_true,
            Bool.not_eq_false, List.isEmpty_eq_false_iff, List.all_eq_true] at hword
          refine ⟨hword.1, hword.2, Bool.eq_false_iff.mpr hreserved, ?_⟩
          omega
  · rintro ⟨hne, halpha, hreserved, hnesting, hdepth⟩
    have hword : ¬ (s.variableName.toList.isEmpty ||
        !s.variableName.toList.all Char.isAlpha) = true := by
      rw [List.isEmpty_eq_false_iff.mpr hne, List.all_eq_true.mpr halpha]
      exact Bool.false_ne_true
    rw [if_neg hword, hreserved, if_neg Bool.false_ne_true, if_neg (by omega)]

theorem check_default : ({} : Settings).check = .ok () := rfl

end Settings

end Formulary
