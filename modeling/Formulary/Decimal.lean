/-!
# Decimals

A decimal is a whole number of units of one power of ten. Number literals, the catalogue of
constants and the text of a result all pass through this type:

* `Decimal.numerator`, `Decimal.denominator` — its value as a fraction of whole numbers;
* `digitsValue` — the number that a run of digits denotes;
* `Decimal.text` — the positional form, without an exponent and without a superfluous point.
-/

namespace Formulary

/-- The number `digits * 10 ^ exponent`. -/
structure Decimal where
  /-- the digits, read as one whole number -/
  digits : Nat
  /-- the power of ten that the last digit counts -/
  exponent : Int
  deriving DecidableEq

/-- The whole number that a run of decimal digits denotes; nothing denotes zero. -/
def digitsValue (cs : List Char) : Nat := Nat.ofDigitChars 10 cs 0

namespace Decimal

/-- The upper part of the value as a fraction. -/
def numerator (d : Decimal) : Nat :=
  match d.exponent with
  | .ofNat places => d.digits * Nat.pow 10 places
  | .negSucc _ => d.digits

/-- The lower part of the value as a fraction: a power of ten, never zero. -/
def denominator (d : Decimal) : Nat :=
  match d.exponent with
  | .ofNat _ => 1
  | .negSucc places => Nat.pow 10 (places + 1)

theorem denominator_pos (d : Decimal) : 0 < d.denominator := by
  rw [denominator]
  split
  · exact Nat.one_pos
  · exact Nat.pow_pos (by decide)

/-- A run of digits with a point before its last `places` digits. Zeros are put in front where the
run is too short, so that a digit always stands before the point. -/
def withPoint (places : Nat) (cs : List Char) : List Char :=
  let padded := List.replicate (places + 1 - cs.length) '0' ++ cs
  padded.take (padded.length - places) ++ '.' :: padded.drop (padded.length - places)

/-- The positional form: a multiple of one is written with all its zeros and no point, anything
else with as many places as the exponent asks for. -/
def text (d : Decimal) : List Char :=
  match d.exponent with
  | .ofNat zeros => Nat.toDigits 10 d.digits ++ List.replicate zeros '0'
  | .negSucc places => withPoint (places + 1) (Nat.toDigits 10 d.digits)

example : (⟨15, -1⟩ : Decimal).text = "1.5".toList := by decide
example : (⟨1, -7⟩ : Decimal).text = "0.0000001".toList := by decide
example : (⟨1, 21⟩ : Decimal).text = "1000000000000000000000".toList := by decide

end Decimal

end Formulary
