import Formulary.Arithmetic
import Formulary.Binary64.Nearest

/-!
# Arithmetic of double-precision numbers

The arithmetic that formulas are evaluated with. The four operations are those of the machine, and
rounding to whole numbers is done on places. The square root, the sine, the cosine, the exponential
function and the logarithm come from a library and may be exchanged.

* `Binary64.Elementary` — a choice of these functions, `Elementary.machine` being the usual one;
* `Binary64.arithmeticWith` — the arithmetic with a choice of functions;
* `Binary64.arithmetic` — the arithmetic that formulas are evaluated with.
-/

namespace Formulary

namespace Binary64

/-- A function of machine numbers as a function of numbers. -/
def lift₁ (f : Float → Float) (x : Binary64) : Binary64 := ofFloat (f x.toFloat)

/-- An operation on machine numbers as an operation on numbers. -/
def lift₂ (f : Float → Float → Float) (x y : Binary64) : Binary64 :=
  ofFloat (f x.toFloat y.toFloat)

/-- The nearest whole number, halves going away from zero; the sign stays. What is not finite is
left alone. -/
def round (x : Binary64) : Binary64 :=
  if x.isFinite then
    ofPlace x.negative
      (nearestPlace ((2 * unitsAt x.magnitude + unitsOfOne) / (2 * unitsOfOne)) 1)
  else x

/-- The whole number next to a finite number in the direction of zero; zero for what is not
finite. -/
def toInt (x : Binary64) : Int :=
  if x.isFinite then
    let whole := unitsAt x.magnitude / unitsOfOne
    if x.negative then -(whole : Int) else whole
  else 0

/-- A choice of the functions that a library computes. -/
structure Elementary where
  /-- the square root -/
  sqrt : Binary64 → Binary64
  /-- the sine -/
  sin : Binary64 → Binary64
  /-- the cosine -/
  cos : Binary64 → Binary64
  /-- the exponential function -/
  exp : Binary64 → Binary64
  /-- the natural logarithm -/
  ln : Binary64 → Binary64

/-- The functions of the machine. -/
def Elementary.machine : Elementary where
  sqrt := lift₁ Float.sqrt
  sin := lift₁ Float.sin
  cos := lift₁ Float.cos
  exp := lift₁ Float.exp
  ln := lift₁ Float.log

/-- The arithmetic of double-precision numbers with a choice of functions. -/
def arithmeticWith (f : Elementary) : Arithmetic Binary64 where
  ofInt := ofInt
  constant c := ofDecimal c.value
  isFinite := isFinite
  eq := eq
  lt := lt
  add := lift₂ (· + ·)
  sub := lift₂ (· - ·)
  mul := lift₂ (· * ·)
  div := lift₂ (· / ·)
  round := round
  toInt := toInt
  abs := abs
  sqrt := f.sqrt
  sin := f.sin
  cos := f.cos
  exp := f.exp
  ln := f.ln

/-- The arithmetic that formulas are evaluated with. -/
def arithmetic : Arithmetic Binary64 := arithmeticWith .machine

end Binary64

end Formulary
