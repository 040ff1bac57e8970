/-!
# Double-precision numbers

The values that formulas are computed with are the numbers of the binary64 format. A value is kept
as its sign and its *magnitude*: the place that its absolute value takes when all absolute values
are numbered upwards from zero. So the order of the numbers is the order of their places, the next
larger number is the next place, and changing a sign touches nothing else.

* `infinityPlace` — the place of infinity; those below it are finite, those above it not numbers;
* `significandAt`, `scaleAt`, `unitsAt` — the value of a finite place, counted in units of the
  smallest positive number, `2 ^ -1074`;
* `eq`, `lt` — comparison as in arithmetic: the two zeros are equal, and what is not a number
  compares with nothing;
* `bits`, `ofBits` — the 64 bits of a number.
-/

namespace Formulary

/-- A double-precision number: a sign, and the place of its absolute value among all absolute
values. -/
structure Binary64 where
  /-- whether the sign is set; zero has a sign too -/
  negative : Bool
  /-- the place of the absolute value, counted upwards from zero -/
  magnitude : Nat
  /-- sign aside, there are 63 bits -/
  magnitude_lt : magnitude < 0x8000000000000000
  deriving DecidableEq

namespace Binary64

/-! ## Places -/

/-- How many places share one power of two. -/
def placesPerBinade : Nat := 0x10000000000000

/-- The place of infinity: finite places come before it. -/
def infinityPlace : Nat := 2047 * placesPerBinade

/-- The binary digits of a finite place. Places of the first binade have no leading one. -/
def significandAt (place : Nat) : Nat :=
  if place < placesPerBinade then place else placesPerBinade + place % placesPerBinade

/-- The power of two that the last binary digit counts, in units. -/
def scaleAt (place : Nat) : Nat := place / placesPerBinade - 1

/-- The value of a finite place in units. -/
def unitsAt (place : Nat) : Nat := significandAt place * Nat.pow 2 (scaleAt place)

/-- How often one has to be halved to get a unit. Irreducible, for elaboration should not try to
compute powers as high as this. -/
@[irreducible] def halvings : Nat := 1074

/-- One is this many units. -/
def unitsOfOne : Nat := Nat.pow 2 halvings

/-- The number at a place, with a sign. Places that do not exist are cut off at the last one. -/
def ofPlace (negative : Bool) (place : Nat) : Binary64 :=
  ⟨negative, min place 0x7fffffffffffffff, by omega⟩

/-! ## Classes -/

/-- Neither infinite nor missing. -/
def isFinite (x : Binary64) : Bool := x.magnitude < infinityPlace

/-- What is not a number. -/
def isNaN (x : Binary64) : Bool := infinityPlace < x.magnitude

/-! ## Sign -/

/-- The same absolute value with the other sign. -/
def neg (x : Binary64) : Binary64 := { x with negative := !x.negative }

/-- The absolute value. -/
def abs (x : Binary64) : Binary64 := { x with negative := false }

instance : Neg Binary64 := ⟨neg⟩

@[simp] theorem neg_negative (x : Binary64) : (-x).negative = !x.negative := rfl

@[simp] theorem neg_neg (x : Binary64) : - -x = x := by
  obtain ⟨s, m, h⟩ := x
  simp [Neg.neg, neg]

/-! ## Order -/

/-- The place with its sign: two values of one rank are one number. -/
def rank (x : Binary64) : Int := if x.negative then -(x.magnitude : Int) else x.magnitude

/-- Equality of numbers: zero equals zero whatever the signs, and what is not a number equals
nothing. -/
def eq (x y : Binary64) : Bool := !x.isNaN && !y.isNaN && x.rank == y.rank

/-- Strict order of numbers. -/
def lt (x y : Binary64) : Bool := !x.isNaN && !y.isNaN && x.rank < y.rank

/-! ## Bits -/

/-- The 64 bits: the sign first, then the place. -/
def bits (x : Binary64) : UInt64 :=
  .ofNat ((if x.negative then 0x8000000000000000 else 0) + x.magnitude)

/-- The number with the given bits. -/
def ofBits (b : UInt64) : Binary64 :=
  ⟨0x8000000000000000 ≤ b.toNat, b.toNat % 0x8000000000000000, Nat.mod_lt _ (by decide)⟩

theorem ofBits_bits (x : Binary64) : ofBits x.bits = x := by
  obtain ⟨s, m, h⟩ := x
  cases s <;> simp [ofBits, bits] <;> omega

/-- The machine number with the same bits. -/
def toFloat (x : Binary64) : Float := Float.ofBits x.bits

/-- The number that a machine number is. -/
def ofFloat (f : Float) : Binary64 := ofBits f.toBits

end Binary64

end Formulary
