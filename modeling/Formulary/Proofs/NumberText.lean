import Formulary.Proofs.Nearest
import Formulary.Proofs.NumeralParts
import Formulary.Proofs.TokenText

/-!
# The text of a number reads back

A finite number without a sign is written as digits, with a point among them where it is no multiple
of one, and this text is read as the same number.

* `exists_read_text` — the text of a decimal is one number literal, and stands for the same place;
* `lexes_text` — the text of a number is one token, whatever follows it in the text of a formula.
-/

namespace Formulary

/-! ## Literals -/

namespace Numeral

variable {whole digits more : List Char}

theorem readDigits_of_append (hdigits : ∀ c ∈ digits, c.isDigit = true)
    (hmore : ∀ c ∈ more.head?, c.isDigit = false) :
    readDigits (digits ++ more) = (digits, more) := by
  obtain ⟨htake, hdrop⟩ := takeWhile_dropWhile_append hdigits hmore
  rw [readDigits, htake, hdrop]

theorem readFraction_of_delimited (h : Delimited more) : readFraction more = (none, more) :=
  readFraction_none (h.head_eq_false (by decide))

theorem readPower_of_delimited (h : Delimited more) : readPower more = (none, more) := by
  refine readPower_none ?_
  rintro mark next rest rfl
  have hmark : (mark == 'e' || mark == 'E') = false :=
    h.head_eq_false (p := fun c => c == 'e' || c == 'E') (by decide) mark rfl
  rw [opensPower, hmark, Bool.false_and]

/-- Digits alone are a literal. -/
theorem read_whole_append (hwhole : ∀ c ∈ whole, c.isDigit = true) (h : Delimited more) :
    read (whole ++ more) = (⟨whole, none, none⟩, more) := by
  have hdigits := readDigits_of_append hwhole (h.head_eq_false (by decide))
  simp only [read, hdigits, readFraction_of_delimited h, readPower_of_delimited h]

/-- Digits with a point among them are a literal. -/
theorem read_fraction_append (hwhole : ∀ c ∈ whole, c.isDigit = true)
    (hdigits : ∀ c ∈ digits, c.isDigit = true) (hne : digits ≠ []) (h : Delimited more) :
    read (whole ++ '.' :: (digits ++ more)) = (⟨whole, some ⟨'.', digits⟩, none⟩, more) := by
  have hfront : readDigits (whole ++ '.' :: (digits ++ more)) =
      (whole, '.' :: (digits ++ more)) := by
    refine readDigits_of_append hwhole ?_
    intro c hc
    obtain rfl := Option.some.inj hc
    rfl
  have hback := readDigits_of_append hdigits (h.head_eq_false (by decide))
  have hfraction : readFraction ('.' :: (digits ++ more)) = (some ⟨'.', digits⟩, more) := by
    rw [readFraction_separator rfl, hback]
  have hpart : readFraction (readDigits (whole ++ '.' :: (digits ++ more))).2 =
      (some ⟨'.', digits⟩, more) := by
    rw [hfront, hfraction]
  -- a point without a digit after it would end the literal
  have hdigit (separator : Char) : some (⟨'.', digits⟩ : Fraction) ≠ some ⟨separator, []⟩ := by
    intro heq
    exact hne (Fraction.mk.inj (Option.some.inj heq)).2
  rw [read_of_fraction hpart hdigit, readPower_of_delimited h, hfront]

end Numeral

/-! ## The text of a decimal -/

theorem digitsValue_toDigits (n : Nat) : digitsValue (Nat.toDigits 10 n) = n :=
  Nat.ofDigitChars_ten_toDigits

theorem isDigit_of_mem_toDigits {n : Nat} {c : Char} (h : c ∈ Nat.toDigits 10 n) :
    c.isDigit = true :=
  Nat.isDigit_of_mem_toDigits (by decide) (by decide) h

theorem isDigit_of_mem_replicate {n : Nat} {c : Char} (h : c ∈ List.replicate n '0') :
    c.isDigit = true := by
  obtain rfl := List.eq_of_mem_replicate h
  rfl

/-- Zeros behind a run of digits count as a power of ten. -/
theorem digitsValue_append_zeros (cs : List Char) (zeros : Nat) :
    digitsValue (cs ++ List.replicate zeros '0') = digitsValue cs * 10 ^ zeros := by
  rw [digitsValue, Nat.ofDigitChars_append, Nat.ofDigitChars_replicate_zero, Nat.mul_comm,
    digitsValue]

/-- Zeros in front of a run of digits count nothing. -/
theorem digitsValue_zeros_append (zeros : Nat) (cs : List Char) :
    digitsValue (List.replicate zeros '0' ++ cs) = digitsValue cs := by
  rw [digitsValue, Nat.ofDigitChars_append, Nat.ofDigitChars_replicate_zero, Nat.mul_zero,
    digitsValue]

/-- A decimal in range may be written out as a multiple of one. -/
theorem Binary64.placeOfDecimal_mul_pow {digits zeros : Nat}
    (h : placeOfDecimal ⟨digits, .ofNat zeros⟩ ≠ infinityPlace) :
    placeOfDecimal ⟨digits * 10 ^ zeros, .ofNat 0⟩ = placeOfDecimal ⟨digits, .ofNat zeros⟩ := by
  by_cases hzero : digits = 0
  · subst hzero
    rw [Nat.zero_mul, placeOfDecimal, placeOfDecimal, if_pos rfl, if_pos rfl]
  · have hne : digits * 10 ^ zeros ≠ 0 :=
      Nat.ne_of_gt (Nat.mul_pos (Nat.pos_of_ne_zero hzero) (Nat.pow_pos (by decide)))
    -- beyond that the exponent alone settles the place
    have hlarge : Int.ofNat zeros ≤ 341 := by
      by_contra hlarge
      rw [placeOfDecimal, if_neg hzero, if_pos (Int.not_le.mp hlarge)] at h
      exact h rfl
    have hsmall (n : Nat) (e : Nat) : (0 : Int) ≤ n + 1077 + 3 * Int.ofNat e := by
      rw [Int.ofNat_eq_natCast]
      omega
    rw [placeOfDecimal_eq_nearestPlace ⟨_, .ofNat 0⟩ hne (show (0 : Int) ≤ 341 by decide)
      (hsmall _ 0), placeOfDecimal_eq_nearestPlace ⟨_, _⟩ hzero hlarge (hsmall _ zeros),
      Decimal.numerator_ofNat, Decimal.numerator_ofNat, Decimal.denominator_ofNat,
      Decimal.denominator_ofNat, Nat.pow_zero, Nat.mul_one]

/-- A run of digits with a point among them is still that run without the point. -/
theorem Decimal.exists_withPoint (places : Nat) {cs : List Char}
    (hcs : ∀ c ∈ cs, c.isDigit = true) :
    ∃ whole digits, withPoint places cs = whole ++ '.' :: digits ∧ whole ≠ [] ∧
      digits.length = places ∧ (∀ c ∈ whole ++ digits, c.isDigit = true) ∧
      digitsValue (whole ++ digits) = digitsValue cs := by
  have hlength : places < (List.replicate (places + 1 - cs.length) '0' ++ cs).length := by
    rw [List.length_append, List.length_replicate]
    omega
  refine ⟨_, _, rfl, ?_, ?_, ?_, ?_⟩
  · refine List.ne_nil_of_length_pos ?_
    rw [List.length_take]
    omega
  · rw [List.length_drop]
    omega
  · rw [List.take_append_drop]
    intro c hc
    rcases List.mem_append.mp hc with hc | hc
    · exact isDigit_of_mem_replicate hc
    · exact hcs c hc
  · rw [List.take_append_drop, digitsValue_zeros_append]

/-- The text of a decimal begins with a digit. -/
theorem Decimal.exists_text_cons (d : Decimal) :
    ∃ c cs, d.text = c :: cs ∧ c.isDigit = true := by
  obtain ⟨digits, zeros | places⟩ := d
  · obtain ⟨c, cs, heq⟩ := List.exists_cons_of_ne_nil (Nat.toDigits_ne_nil (n := digits) (b := 10))
    have htext : (⟨digits, .ofNat zeros⟩ : Decimal).text =
      Nat.toDigits 10 digits ++ List.replicate zeros '0' := rfl
    refine ⟨c, _, by rw [htext, heq, List.cons_append], ?_⟩
    exact isDigit_of_mem_toDigits (n := digits) (by rw [heq]; exact List.mem_cons_self)
  · obtain ⟨whole, fraction, heq, hne, -, hdigits, -⟩ :=
      exists_withPoint (places + 1) fun c (hc : c ∈ Nat.toDigits 10 digits) =>
        isDigit_of_mem_toDigits hc
    obtain ⟨c, cs, rfl⟩ := List.exists_cons_of_ne_nil hne
    exact ⟨c, cs ++ '.' :: fraction, heq, hdigits c List.mem_cons_self⟩

/-- **The text of a decimal is one literal**, whose parts are all complete and which stands for the
same place. -/
theorem exists_read_text {d : Decimal} (hd : Binary64.placeOfDecimal d ≠ Binary64.infinityPlace)
    {more : List Char} (h : Delimited more) :
    ∃ n : Numeral, Numeral.read (d.text ++ more) = (n, more) ∧ n.isComplete = true ∧
      Binary64.placeOfDecimal n.decimal = Binary64.placeOfDecimal d := by
  obtain ⟨digits, zeros | places⟩ := d
  · refine ⟨⟨Nat.toDigits 10 digits ++ List.replicate zeros '0', none, none⟩, ?_, rfl, ?_⟩
    · refine Numeral.read_whole_append ?_ h
      intro c hc
      rcases List.mem_append.mp hc with hc | hc
      · exact isDigit_of_mem_toDigits hc
      · exact isDigit_of_mem_replicate hc
    · rw [← Binary64.placeOfDecimal_mul_pow hd]
      simp [Numeral.decimal, Numeral.places, Numeral.statedExponent, digitsValue_append_zeros,
        digitsValue_toDigits]
  · obtain ⟨whole, fraction, heq, -, hlength, hdigits, hvalue⟩ :=
      Decimal.exists_withPoint (places + 1) fun c (hc : c ∈ Nat.toDigits 10 digits) =>
        isDigit_of_mem_toDigits hc
    have hne : fraction ≠ [] := List.ne_nil_of_length_pos (by omega)
    have htext : (⟨digits, .negSucc places⟩ : Decimal).text = whole ++ '.' :: fraction := heq
    refine ⟨⟨whole, some ⟨'.', fraction⟩, none⟩, ?_, ?_, ?_⟩
    · rw [htext, List.append_assoc, List.cons_append]
      exact Numeral.read_fraction_append (fun c hc => hdigits c (List.mem_append_left _ hc))
        (fun c hc => hdigits c (List.mem_append_right _ hc)) hne h
    · simp [Numeral.isComplete, hne]
    · rw [digitsValue_toDigits] at hvalue
      simp [Numeral.decimal, Numeral.places, Numeral.statedExponent, hvalue, hlength,
        Int.negSucc_eq]

/-! ## The text of a number -/

namespace Binary64

/-- A number without a sign is the one at its place. -/
theorem ofPlace_magnitude {x : Binary64} (hsign : x.negative = false) :
    ofPlace false x.magnitude = x := by
  obtain ⟨negative, magnitude, hlt⟩ := x
  obtain rfl : negative = false := hsign
  rw [ofPlace]
  congr
  exact Nat.min_eq_left (by dsimp only; omega)

/-- A finite number without a sign is written as the digits that are shown for its place. -/
theorem text_eq {x : Binary64} (hfinite : x.isFinite = true) (hsign : x.negative = false) :
    x.text = (shortest x.magnitude).text := by
  have hplace : x.magnitude < infinityPlace := by simpa [isFinite] using hfinite
  have hnumber : x.isNaN = false := by
    rw [isNaN, decide_eq_false_iff_not]
    exact Nat.not_lt.mpr (Nat.le_of_lt hplace)
  rw [text, hnumber, hsign, hfinite]
  rfl

/-- **The text of a finite number without a sign is one literal**, and its value is the number. -/
theorem exists_read_text {x : Binary64} (hfinite : x.isFinite = true) (hsign : x.negative = false)
    {more : List Char} (h : Delimited more) :
    ∃ n : Numeral, Numeral.read (x.text ++ more) = (n, more) ∧ n.value? = some x := by
  have hplace : x.magnitude < infinityPlace := by simpa [isFinite] using hfinite
  have hshortest := placeOfDecimal_shortest hplace
  obtain ⟨n, hread, hcomplete, hdecimal⟩ :=
    Formulary.exists_read_text (by rw [hshortest]; exact Nat.ne_of_lt hplace) h
  have hvalue : ofDecimal n.decimal = x := by
    rw [ofDecimal, hdecimal, hshortest, ofPlace_magnitude hsign]
  refine ⟨n, by rw [text_eq hfinite hsign, hread], ?_⟩
  rw [Numeral.value?, hvalue, hcomplete, hfinite]
  rfl

end Binary64

/-! ## The token of a number -/

/-- **The text of a finite number without a sign is one token**, the token of that number, whatever
follows it in a formula. -/
theorem lexes_text {x : Binary64} (hfinite : x.isFinite = true) (hsign : x.negative = false)
    {more : List Char} (h : Delimited more) (name : List Char) :
    Lexes name (x.text ++ more) [.number x] more := by
  obtain ⟨n, hread, hvalue⟩ := Binary64.exists_read_text hfinite hsign h
  obtain ⟨c, cs, htext, hc⟩ := (Binary64.shortest x.magnitude).exists_text_cons
  rw [← Binary64.text_eq hfinite hsign] at htext
  rw [htext, List.cons_append] at hread ⊢
  refine .single n.written (isBlank_of_isDigit hc) rfl ?_
  rw [lexeme_of_isDigit hc, numberLexeme, hread]
  dsimp only
  rw [hvalue]

end Formulary
