import Formulary.Binary64.Nearest

/-!
# Number literals

A number literal is a run of digits, then perhaps a point or a comma with a run of digits, then
perhaps the letter `e` or `E` with a sign and a run of digits. The letter only belongs to the
literal if a digit or a sign comes next.

* `Numeral.read` — the longest literal at the front of a text, with the rest of the text;
* `Numeral.written`, `Numeral.text` — its characters, and these with a point for the comma;
* `Numeral.value?` — the number it denotes, if no part lacks its digits and the number is finite.
-/

namespace Formulary

namespace Numeral

/-- The part after the whole digits. -/
structure Fraction where
  /-- a point or a comma -/
  separator : Char
  /-- the digits after it -/
  digits : List Char

/-- The power of ten. -/
structure Power where
  /-- the letter that introduces it -/
  mark : Char
  /-- a plus or a minus -/
  sign : Option Char
  /-- the digits after them -/
  digits : List Char

end Numeral

/-- A number literal in its parts. A part is there as soon as it has begun, even if its digits are
missing. -/
structure Numeral where
  /-- the digits in front -/
  whole : List Char
  /-- the part after a point or comma -/
  fraction : Option Numeral.Fraction
  /-- the power of ten -/
  power : Option Numeral.Power

namespace Numeral

/-! ## Reading -/

/-- The digits at the front of a text, and the rest. -/
def readDigits (cs : List Char) : List Char × List Char :=
  (cs.takeWhile Char.isDigit, cs.dropWhile Char.isDigit)

/-- A point or a comma and the digits after it. -/
def readFraction : List Char → Option Fraction × List Char
  | [] => (none, [])
  | c :: cs =>
    if c = '.' ∨ c = ',' then
      let (digits, rest) := readDigits cs
      (some ⟨c, digits⟩, rest)
    else (none, c :: cs)

/-- The letter `e`, if a digit or a sign comes next, with these. -/
def readPower : List Char → Option Power × List Char
  | mark :: next :: cs =>
    if mark = 'e' ∨ mark = 'E' then
      if next = '+' ∨ next = '-' then
        let (digits, rest) := readDigits cs
        (some ⟨mark, some next, digits⟩, rest)
      else if next.isDigit then
        let (digits, rest) := readDigits (next :: cs)
        (some ⟨mark, none, digits⟩, rest)
      else (none, mark :: next :: cs)
    else (none, mark :: next :: cs)
  | cs => (none, cs)

/-- The literal at the front of a text that begins with a digit. A separator without digits ends
it. -/
def read (cs : List Char) : Numeral × List Char :=
  let (whole, rest) := readDigits cs
  match readFraction rest with
  | (some ⟨separator, []⟩, rest) => (⟨whole, some ⟨separator, []⟩, none⟩, rest)
  | (fraction, rest) =>
    let (power, rest) := readPower rest
    (⟨whole, fraction, power⟩, rest)

/-! ## Text and value -/

/-- The characters of the power as written. -/
def Power.written (p : Power) : List Char := p.mark :: (p.sign.toList ++ p.digits)

/-- The characters of the literal as written. -/
def written (n : Numeral) : List Char :=
  n.whole ++ (n.fraction.elim [] fun f => f.separator :: f.digits) ++
    n.power.elim [] Power.written

/-- The literal with a point as its separator. -/
def text (n : Numeral) : List Char :=
  n.whole ++ (n.fraction.elim [] fun f => '.' :: f.digits) ++ n.power.elim [] Power.written

/-- Whether every part that has begun has digits. -/
def isComplete (n : Numeral) : Bool :=
  (n.fraction.all fun f => !f.digits.isEmpty) && n.power.all fun p => !p.digits.isEmpty

/-- The exponent that the power of ten states; without one it is zero. -/
def statedExponent (n : Numeral) : Int :=
  match n.power with
  | none => 0
  | some p => if p.sign = some '-' then -(digitsValue p.digits : Int) else digitsValue p.digits

/-- The digits after the separator. -/
def places (n : Numeral) : List Char := n.fraction.elim [] Fraction.digits

/-- The decimal that the literal denotes: each digit after the separator lowers the exponent. -/
def decimal (n : Numeral) : Decimal :=
  ⟨digitsValue (n.whole ++ n.places), n.statedExponent - n.places.length⟩

/-- The number that the literal denotes, unless a part lacks its digits or the number is out of
range. -/
def value? (n : Numeral) : Option Binary64 :=
  let x := Binary64.ofDecimal n.decimal
  if n.isComplete && x.isFinite then some x else none

/-! ## Nothing is lost -/

theorem readDigits_append (cs : List Char) : (readDigits cs).1 ++ (readDigits cs).2 = cs :=
  List.takeWhile_append_dropWhile

theorem readFraction_append (cs : List Char) :
    ((readFraction cs).1.elim [] fun f => f.separator :: f.digits) ++ (readFraction cs).2 = cs := by
  cases cs with
  | nil => rfl
  | cons c cs =>
    by_cases h : c = '.' ∨ c = ','
    · simpa [readFraction, h] using readDigits_append cs
    · simp [readFraction, h]

theorem readPower_append (cs : List Char) :
    ((readPower cs).1.elim [] Power.written) ++ (readPower cs).2 = cs := by
  rw [readPower.eq_def]
  split
  · split
    · split
      · simpa [Power.written] using readDigits_append _
      · split
        · simpa [Power.written] using readDigits_append _
        · rfl
    · rfl
  · rfl

/-- A literal and what is left of the text make up the text. -/
theorem read_append (cs : List Char) : (read cs).1.written ++ (read cs).2 = cs := by
  have hd := readDigits_append cs
  have hf := readFraction_append (readDigits cs).2
  simp only [read]
  split
  · next separator rest h =>
    have hf : separator :: rest = (readDigits cs).2 := by simpa [h] using hf
    simp only [written, Option.elim, List.append_nil, List.append_assoc, List.cons_append,
      List.nil_append]
    rw [hf, hd]
  · next fraction rest _ h =>
    rw [h] at hf
    have hp := readPower_append rest
    simp only [written, List.append_assoc]
    rw [hp, hf, hd]

/-- A text that begins with a digit has a literal that begins with this digit. -/
theorem read_whole {c : Char} (h : c.isDigit = true) (cs : List Char) :
    (read (c :: cs)).1.whole = c :: cs.takeWhile Char.isDigit := by
  simp only [read]
  split <;> simp [readDigits, h]

end Numeral

end Formulary
