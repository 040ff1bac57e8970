import Formulary.Proofs.Literal.Taken
import Formulary.Proofs.Rounding

/-!
# What a number literal denotes

The texts that a literal can have if none of its digits are missing are those of the grammar
`digits[.digits][e[sign]digits]`. Here is the grammar with the values of its texts.

* `Numeral.Denotes` — the texts of the grammar and the numbers they denote;
* `Numeral.Denotes.unique` — a text denotes at most one number;
* `Numeral.Takes.denotes_text` — a literal with all its digits denotes its decimal.
-/

namespace Formulary

namespace Numeral

variable {cs text more rest whole : List Char} {n : Numeral} {fraction : Option Fraction}
  {power : Option Power} {q r : ℚ} {e : Int} {mark : Char}

/-! ## The grammar -/

/-- One or more digits. -/
structure DigitRun (cs : List Char) : Prop where
  /-- there is a digit -/
  ne_nil : cs ≠ []
  /-- there is nothing else -/
  isDigit : ∀ c ∈ cs, c.isDigit = true

/-- The texts `digits[.digits]` with their values. -/
inductive Positional : List Char → ℚ → Prop
  /-- a whole number -/
  | whole {digits : List Char} (h : DigitRun digits) : Positional digits (digitsValue digits)
  /-- a number with a fraction -/
  | pointed {whole digits : List Char} (hwhole : DigitRun whole) (hdigits : DigitRun digits) :
    Positional (whole ++ '.' :: digits)
      (digitsValue whole + digitsValue digits / 10 ^ digits.length)

/-- The texts `[sign]digits` with their values. -/
inductive Signed : List Char → Int → Prop
  /-- without a sign -/
  | unsigned {digits : List Char} (h : DigitRun digits) : Signed digits (digitsValue digits)
  /-- with a plus -/
  | plus {digits : List Char} (h : DigitRun digits) : Signed ('+' :: digits) (digitsValue digits)
  /-- with a minus -/
  | minus {digits : List Char} (h : DigitRun digits) :
    Signed ('-' :: digits) (-digitsValue digits)

/-- The texts `digits[.digits][e[sign]digits]` with their values. -/
inductive Denotes : List Char → ℚ → Prop
  /-- without a power -/
  | positional {cs : List Char} {q : ℚ} (h : Positional cs q) : Denotes cs q
  /-- with a power of ten -/
  | scaled {mark : Char} {cs exponent : List Char} {q : ℚ} {e : Int} (h : Positional cs q)
    (hmark : mark = 'e' ∨ mark = 'E') (he : Signed exponent e) :
    Denotes (cs ++ mark :: exponent) (q * 10 ^ e)

/-- The value of a literal without its power of ten. -/
def significand (n : Numeral) : ℚ :=
  digitsValue n.whole + digitsValue n.places / 10 ^ n.places.length

theorem significand_whole (whole : List Char) (power : Option Power) :
    (⟨whole, none, power⟩ : Numeral).significand = digitsValue whole := by
  simp [significand, places, digitsValue]

theorem digitsValue_append (cs ds : List Char) :
    digitsValue (cs ++ ds) = digitsValue cs * 10 ^ ds.length + digitsValue ds := by
  rw [digitsValue, Nat.ofDigitChars_append, Nat.ofDigitChars_eq_ofDigitChars_zero, Nat.mul_comm]
  rfl

theorem toRat_decimal (n : Numeral) : n.decimal.toRat = n.significand * 10 ^ n.statedExponent := by
  have hpow : (10 : ℚ) ^ n.places.length ≠ 0 := by positivity
  rw [Decimal.toRat, decimal, significand, digitsValue_append, zpow_sub₀ (by norm_num),
    zpow_natCast, add_div' _ _ _ hpow, div_mul_eq_mul_div, mul_div_assoc]
  push_cast
  rfl

/-! ## Every text with a value is a literal -/

theorem takesDigits_append (h : DigitRun cs) (hmore : ∀ c ∈ more.head?, c.isDigit = false) :
    TakesDigits (cs ++ more) cs more :=
  ⟨rfl, h.isDigit, hmore⟩

/-- What is taken of a number without a power. -/
theorem Positional.taken (h : Positional cs q)
    (hmore : ∀ c ∈ more.head?, c.isDigit = false ∧ isSeparator c = false) :
    ∃ whole fraction later, TakesDigits (cs ++ more) whole later ∧
      TakesFraction later fraction more ∧ (∀ separator, fraction ≠ some ⟨separator, []⟩) ∧
      ∀ power, (⟨whole, fraction, power⟩ : Numeral).significand = q := by
  cases h with
  | whole hwhole =>
    exact ⟨cs, none, more, takesDigits_append hwhole fun c hc => (hmore c hc).1,
      .absent fun c hc => (hmore c hc).2, nofun, significand_whole cs⟩
  | @pointed whole digits hwhole hdigits =>
    refine ⟨whole, some ⟨'.', digits⟩, '.' :: (digits ++ more), ?_,
      .present rfl (takesDigits_append hdigits fun c hc => (hmore c hc).1), ?_, fun power => rfl⟩
    · rw [List.append_assoc]
      refine takesDigits_append hwhole ?_
      rintro c ⟨⟩
      rfl
    · rintro separator ⟨⟩
      exact hdigits.ne_nil rfl

/-- What is taken of a power of ten that ends the text. -/
theorem Signed.taken (h : Signed cs e) (hmark : mark = 'e' ∨ mark = 'E') :
    ∃ power, TakesPower (mark :: cs) power [] ∧
      ∀ whole fraction, (⟨whole, fraction, power⟩ : Numeral).statedExponent = e := by
  have hdigits {ds : List Char} (h : DigitRun ds) : TakesDigits ds ds [] :=
    ⟨(List.append_nil ds).symm, h.isDigit, nofun⟩
  cases h with
  | unsigned h => exact ⟨_, .unsigned hmark h.ne_nil (hdigits h), fun _ _ => rfl⟩
  | plus h => exact ⟨_, .signed hmark (.inl rfl) (hdigits h), fun _ _ => rfl⟩
  | minus h => exact ⟨_, .signed hmark (.inr rfl) (hdigits h), fun _ _ => rfl⟩

theorem Denotes.exists_takes (h : Denotes cs q) :
    ∃ n, Takes cs n [] ∧ n.decimal.toRat = q := by
  cases h with
  | positional h =>
    have hend : ∀ c ∈ ([] : List Char).head?, c.isDigit = false ∧ isSeparator c = false := nofun
    obtain ⟨whole, fraction, later, hwhole, hfraction, hdigits, hvalue⟩ := h.taken hend
    rw [List.append_nil] at hwhole
    refine ⟨_, .full hwhole hfraction hdigits (.absent nofun), ?_⟩
    rw [toRat_decimal, hvalue]
    exact mul_one q
  | @scaled mark cs exponent q e h hmark he =>
    have hend : ∀ c ∈ (mark :: exponent).head?, c.isDigit = false ∧ isSeparator c = false := by
      rintro c ⟨⟩
      rcases hmark with rfl | rfl <;> decide
    obtain ⟨whole, fraction, later, hwhole, hfraction, hdigits, hvalue⟩ := h.taken hend
    obtain ⟨power, hpower, hexponent⟩ := he.taken hmark
    refine ⟨_, .full hwhole hfraction hdigits hpower, ?_⟩
    rw [toRat_decimal, hvalue, hexponent]

/-- **A text denotes at most one number.** -/
theorem Denotes.unique (h : Denotes cs q) (h' : Denotes cs r) : q = r := by
  obtain ⟨n, htakes, rfl⟩ := h.exists_takes
  obtain ⟨n', htakes', rfl⟩ := h'.exists_takes
  obtain ⟨rfl, -⟩ := Prod.mk.inj ((takes_iff.mp htakes).symm.trans (takes_iff.mp htakes'))
  rfl

/-! ## Every literal with all its digits has a value -/

/-- The characters in front of a power, with a point as their separator. -/
theorem TakesFraction.positional (h : TakesFraction text fraction rest) (hwhole : DigitRun whole)
    (hdigits : ∀ separator, fraction ≠ some ⟨separator, []⟩) (power : Option Power) :
    Positional (whole ++ fraction.elim [] fun f => '.' :: f.digits)
      (⟨whole, fraction, power⟩ : Numeral).significand := by
  cases h with
  | absent =>
    rw [significand_whole, Option.elim_none, List.append_nil]
    exact .whole hwhole
  | @present c _ digits _ _ htaken =>
    refine .pointed hwhole ⟨?_, htaken.isDigit⟩
    rintro rfl
    exact hdigits c rfl

/-- The characters of a power. -/
theorem TakesPower.signed_exponent {p : Power} (h : TakesPower text (some p) rest)
    (hdigits : p.digits ≠ []) (whole : List Char) (fraction : Option Fraction) :
    (p.mark = 'e' ∨ p.mark = 'E') ∧
      Signed (p.sign.toList ++ p.digits) (⟨whole, fraction, some p⟩ : Numeral).statedExponent := by
  cases h with
  | signed hmark hsign htaken =>
    refine ⟨hmark, ?_⟩
    rcases hsign with rfl | rfl
    · exact .plus ⟨hdigits, htaken.isDigit⟩
    · exact .minus ⟨hdigits, htaken.isDigit⟩
  | unsigned hmark _ htaken => exact ⟨hmark, .unsigned ⟨hdigits, htaken.isDigit⟩⟩

/-- **A literal with all its digits denotes its decimal.** -/
theorem Takes.denotes_text (h : Takes text n rest) (hwhole : n.whole ≠ [])
    (hcomplete : n.isComplete = true) : Denotes n.text n.decimal.toRat := by
  rw [Numeral.isComplete_iff] at hcomplete
  rw [toRat_decimal]
  obtain ⟨whole, fraction, power⟩ := n
  cases h with
  | bare => exact absurd rfl (hcomplete.1 _)
  | full htaken hfraction hdigits hpower =>
    have hpositional := hfraction.positional ⟨hwhole, htaken.isDigit⟩ hdigits power
    rcases power with _ | p
    · rw [Numeral.text, Option.elim_none, List.append_nil]
      have hone : (⟨whole, fraction, none⟩ : Numeral).statedExponent = 0 := rfl
      rw [hone, zpow_zero, mul_one]
      exact .positional hpositional
    · have hp : p.digits ≠ [] := by
        intro hnil
        obtain ⟨mark, sign, digits⟩ := p
        obtain rfl : digits = [] := hnil
        exact hcomplete.2 mark sign rfl
      obtain ⟨hmark, hexponent⟩ := hpower.signed_exponent hp whole fraction
      exact .scaled hpositional hmark hexponent

end Numeral

end Formulary
