import Formulary.Decimal

/-!
# Physical constants

The catalogue of constants that a formula can name, with their values in SI units. In a formula a
constant is the mark `#` and its symbol.

* `Constant` — the entries, in catalogue order in `Constant.all`;
* `Constant.find?` — the entry for a symbol as somebody wrote it.
-/

namespace Formulary

/-- An entry of the catalogue. -/
inductive Constant
  | elementaryCharge
  | vacuumPermittivity
  | speedOfLight
  | vacuumPermeability
  | gravitationalAcceleration
  | planck
  | electronMass
  | gravitational
  | comptonWavelength
  deriving DecidableEq

/-- The character that introduces a symbol. -/
def constantMark : Char := '#'

/-- The characters of symbols: letters and digits of the basic alphabet, `_` for a subscript and
`~` for a bar above. -/
def isSymbolChar (c : Char) : Bool := c.isAlphanum || c == '_' || c == '~'

namespace Constant

/-- The catalogue in its order. -/
def all : List Constant :=
  [elementaryCharge, vacuumPermittivity, speedOfLight, vacuumPermeability,
    gravitationalAcceleration, planck, electronMass, gravitational, comptonWavelength]

theorem mem_all (c : Constant) : c ∈ all := by cases c <;> decide

/-- The symbol, without the mark. -/
def symbol : Constant → String
  | elementaryCharge => "e"
  | vacuumPermittivity => "eps_0"
  | speedOfLight => "c"
  | vacuumPermeability => "mu_0"
  | gravitationalAcceleration => "g"
  | planck => "h"
  | electronMass => "m_e"
  | gravitational => "G"
  | comptonWavelength => "lambda_C"

/-- The key under which a user interface finds the name to show. -/
def displayNameKey : Constant → String
  | elementaryCharge => "constant.elementary_charge"
  | vacuumPermittivity => "constant.vacuum_permittivity"
  | speedOfLight => "constant.speed_of_light"
  | vacuumPermeability => "constant.vacuum_permeability"
  | gravitationalAcceleration => "constant.gravitational_acceleration"
  | planck => "constant.planck"
  | electronMass => "constant.electron_mass"
  | gravitational => "constant.gravitational_constant"
  | comptonWavelength => "constant.compton_wavelength"

/-- The value in SI units. -/
def value : Constant → Decimal
  | elementaryCharge => ⟨1602176634, -28⟩
  | vacuumPermittivity => ⟨88541878128, -22⟩
  | speedOfLight => ⟨299792458, 0⟩
  | vacuumPermeability => ⟨125663706212, -17⟩
  | gravitationalAcceleration => ⟨980665, -5⟩
  | planck => ⟨662607015, -42⟩
  | electronMass => ⟨91093837015, -41⟩
  | gravitational => ⟨667430, -16⟩
  | comptonWavelength => ⟨242631023867, -23⟩

/-- The entry for a symbol. The symbol as written decides, so `g` and `G` stay apart; failing that,
case is ignored if a single entry then fits. -/
def find? (name : List Char) : Option Constant :=
  match all.find? fun c => c.symbol.toList == name with
  | some c => some c
  | none =>
    match all.filter fun c => c.symbol.toList.map Char.toLower == name.map Char.toLower with
    | [c] => some c
    | _ => none

theorem find?_symbol (c : Constant) : find? c.symbol.toList = some c := by cases c <;> decide

theorem isSymbolChar_symbol (c : Constant) : c.symbol.toList.all isSymbolChar = true := by
  cases c <;> decide

end Constant

end Formulary
