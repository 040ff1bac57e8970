import Formulary.Binary64.Nearest

/-!
# The shortest decimal that reads back

A number is shown by the fewest decimal digits from which it can be read again. For every count of
digits only the two decimals next to the value have to be looked at, the one at or below it and
the one above it: if any decimal with that many digits reads back, one of these two does. The test
is the reader itself, so the result reads back by construction.

* `shortest` — these digits, and between two candidates the nearer one, upwards from the middle;
* `text` — the positional form of the result, with a sign, and names for what is not finite.
-/

namespace Formulary

namespace Binary64

/-- Every place has a value below a power of ten; this is the least exponent of such a power. -/
def leadingExponent (place : Nat) : Int :=
  (Nat.toDigits 10 (unitsAt place * Nat.pow 10 324 / unitsOfOne)).length - 324

/-- The value of a place in units of `10 ^ exponent`, as a fraction. -/
def scaledFraction (place : Nat) (exponent : Int) : Nat × Nat :=
  match exponent with
  | .ofNat zeros => (unitsAt place, unitsOfOne * Nat.pow 10 zeros)
  | .negSucc places => (unitsAt place * Nat.pow 10 (places + 1), unitsOfOne)

/-- The decimal in units of `10 ^ exponent` that reads back as `place`, if there is one. -/
def candidate? (place : Nat) (exponent : Int) : Option Decimal :=
  let (a, b) := scaledFraction place exponent
  let below : Decimal := ⟨a / b, exponent⟩
  let above : Decimal := ⟨a / b + 1, exponent⟩
  match placeOfDecimal below == place, placeOfDecimal above == place with
  | true, true => if 2 * a < (2 * (a / b) + 1) * b then some below else some above
  | true, false => some below
  | false, true => some above
  | false, false => none

/-- All the digits of the value: a unit is `5 ^ 1074 * 10 ^ -1074`. -/
def exactDecimal (place : Nat) : Decimal := ⟨unitsAt place * Nat.pow 5 halvings, -halvings⟩

/-- The fewest digits that read back as a finite place. Seventeen always suffice; the exact value
stands behind the search. -/
def shortest (place : Nat) : Decimal :=
  if place = 0 then ⟨0, 0⟩
  else
    let top := leadingExponent place
    ((List.range 18).findSome? fun (count : Nat) => candidate? place (top - count)).getD
      (exactDecimal place)

/-- How a number is written: the shortest digits in positional form, `inf` beyond the finite
numbers, a minus sign wherever the sign is set, and `NaN`, which has no sign. -/
def text (x : Binary64) : List Char :=
  if x.isNaN then "NaN".toList
  else
    (if x.negative then ['-'] else []) ++
      (if x.isFinite then (shortest x.magnitude).text else "inf".toList)

end Binary64

end Formulary
