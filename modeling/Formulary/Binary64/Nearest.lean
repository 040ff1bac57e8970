import Formulary.Decimal
import Formulary.Binary64

/-!
# The nearest double-precision number

A decimal is read as the double-precision number closest to it; of two equally close ones the one
with an even significand is taken, and what lies beyond the largest finite number becomes infinite.

* `roundHalfEven` — the whole number nearest to a fraction;
* `nearestPlace` — the place nearest to a fraction;
* `Binary64.ofDecimal` — the number nearest to a decimal, `Binary64.ofInt` that nearest to a whole
  number.
-/

namespace Formulary

/-- The whole number nearest to `a / b`; of two equally near ones the even one. -/
def roundHalfEven (a b : Nat) : Nat :=
  let q := a / b
  let r := a % b
  if 2 * r < b then q
  else if b < 2 * r then q + 1
  else q + q % 2

namespace Binary64

/-- The place nearest to `a / b`. The value is counted in units of `2 ^ scale` smallest positive
numbers, where the scale is the least one that leaves at most 53 binary digits. A significand
that rounds up to a 54th digit is the first of the next binade, and the formula gives that place
too. Fractions out of range go to infinity. -/
def nearestPlace (a b : Nat) : Nat :=
  let units := a * unitsOfOne
  let scale := (units / b).log2 - 52
  min infinityPlace (scale * placesPerBinade + roundHalfEven units (b * Nat.pow 2 scale))

/-- The place nearest to a decimal. Exponents that are certainly too large or too small settle it
without a power of ten that large: `10 ^ 342` is beyond the largest number, and as `8 < 10` a
decimal is below `2 ^ (digits.log2 + 1 + 3 * exponent)` when its exponent is negative. -/
def placeOfDecimal (d : Decimal) : Nat :=
  if d.digits = 0 then 0
  else if 341 < d.exponent then infinityPlace
  else if d.digits.log2 + 1077 + 3 * d.exponent < 0 then 0
  else nearestPlace d.numerator d.denominator

/-- The number nearest to a decimal. -/
def ofDecimal (d : Decimal) : Binary64 := ofPlace false (placeOfDecimal d)

/-- The number nearest to a whole number. -/
def ofInt (n : Int) : Binary64 := ofPlace (n < 0) (nearestPlace n.natAbs 1)

instance (n : Nat) : OfNat Binary64 n := ⟨ofInt n⟩

theorem nearestPlace_le (a b : Nat) : nearestPlace a b ≤ infinityPlace := Nat.min_le_left _ _

theorem placeOfDecimal_le (d : Decimal) : placeOfDecimal d ≤ infinityPlace := by
  rw [placeOfDecimal]
  split
  · exact Nat.zero_le _
  · split
    · exact Nat.le_refl _
    · split
      · exact Nat.zero_le _
      · exact nearestPlace_le _ _

end Binary64

end Formulary
