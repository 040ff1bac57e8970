import Formulary.Numeral

/-!
# The parts of a number literal

How a literal is read hangs on the character after its whole digits, and on two characters where its
power of ten may begin. Here is what each part is for each of these beginnings.

* `Numeral.readFraction_cases` — whether the text begins with a point or a comma;
* `Numeral.readPower_cases` — whether it begins with a power of ten;
* `Numeral.read_of_bare`, `Numeral.read_of_fraction` — the literal from its parts.
-/

namespace Formulary

namespace Numeral

variable {cs more : List Char}

/-- A point or a comma begins the part after the whole digits. -/
def isSeparator (c : Char) : Bool := c == '.' || c == ','

/-- Two characters that begin a power of ten. -/
def opensPower (mark next : Char) : Bool :=
  (mark == 'e' || mark == 'E') && (next == '+' || next == '-' || next.isDigit)

/-! ## The part after the whole digits -/

theorem readFraction_none (h : ∀ c ∈ more.head?, isSeparator c = false) :
    readFraction more = (none, more) := by
  rcases more with _ | ⟨c, more⟩
  · rfl
  · have hc := h c rfl
    simp only [isSeparator, Bool.or_eq_false_iff, beq_eq_false_iff_ne] at hc
    rw [readFraction, if_neg (not_or.mpr hc)]

theorem readFraction_separator {c : Char} (hsep : isSeparator c = true) (rest : List Char) :
    readFraction (c :: rest) = (some ⟨c, (readDigits rest).1⟩, (readDigits rest).2) := by
  rw [isSeparator, Bool.or_eq_true, beq_iff_eq, beq_iff_eq] at hsep
  rw [readFraction, if_pos hsep]

theorem readFraction_cases (cs : List Char) :
    ((∀ c ∈ cs.head?, isSeparator c = false) ∧ readFraction cs = (none, cs)) ∨
    ∃ c rest, cs = c :: rest ∧ isSeparator c = true ∧
      readFraction cs = (some ⟨c, (readDigits rest).1⟩, (readDigits rest).2) := by
  rcases hc : cs.head?.any isSeparator with _ | _
  · have hhead : ∀ c ∈ cs.head?, isSeparator c = false := by
      intro c hmem
      rw [Option.mem_def.mp hmem] at hc
      exact hc
    exact .inl ⟨hhead, readFraction_none hhead⟩
  · rcases cs with _ | ⟨c, rest⟩
    · cases hc
    · have hsep : isSeparator c = true := hc
      exact .inr ⟨c, rest, rfl, hsep, readFraction_separator hsep rest⟩

/-! ## The power of ten -/

theorem readPower_sign {mark sign : Char} (hmark : mark = 'e' ∨ mark = 'E')
    (hsign : sign = '+' ∨ sign = '-') (rest : List Char) :
    readPower (mark :: sign :: rest) =
      (some ⟨mark, some sign, (readDigits rest).1⟩, (readDigits rest).2) := by
  rw [readPower, if_pos hmark, if_pos hsign]

theorem readPower_digit {mark d : Char} (hmark : mark = 'e' ∨ mark = 'E')
    (hd : d.isDigit = true) (rest : List Char) :
    readPower (mark :: d :: rest) =
      (some ⟨mark, none, (readDigits (d :: rest)).1⟩, (readDigits (d :: rest)).2) := by
  have hsign : ¬ (d = '+' ∨ d = '-') := by rintro (rfl | rfl) <;> cases hd
  rw [readPower, if_pos hmark, if_neg hsign, if_pos hd]

/-- The texts that begin with no power of ten. -/
def NoPower (cs : List Char) : Prop :=
  ∀ mark next rest, cs = mark :: next :: rest → opensPower mark next = false

theorem readPower_none (h : NoPower cs) : readPower cs = (none, cs) := by
  rcases cs with _ | ⟨mark, _ | ⟨next, rest⟩⟩
  · rfl
  · rfl
  · have hopens := h mark next rest rfl
    rw [readPower]
    split
    · next hmark =>
      have hnext : (next == '+' || next == '-' || next.isDigit) = false := by
        rcases hmark with rfl | rfl <;> simpa [opensPower] using hopens
      simp only [Bool.or_eq_false_iff, beq_eq_false_iff_ne] at hnext
      rw [if_neg (not_or.mpr hnext.1), if_neg (by rw [hnext.2]; exact Bool.false_ne_true)]
    · rfl

theorem readPower_cases (cs : List Char) :
    NoPower cs ∨
    (∃ mark sign rest, cs = mark :: sign :: rest ∧ (mark = 'e' ∨ mark = 'E') ∧
      (sign = '+' ∨ sign = '-')) ∨
    ∃ mark d rest, cs = mark :: d :: rest ∧ (mark = 'e' ∨ mark = 'E') ∧ d.isDigit = true := by
  rcases cs with _ | ⟨mark, _ | ⟨next, rest⟩⟩
  · exact .inl nofun
  · exact .inl nofun
  · rcases hopens : opensPower mark next with _ | _
    · left
      rintro _ _ _ ⟨⟩
      exact hopens
    · right
      simp only [opensPower, Bool.and_eq_true, Bool.or_eq_true, beq_iff_eq] at hopens
      obtain ⟨hmark, hsign | hd⟩ := hopens
      · exact .inl ⟨mark, next, rest, rfl, hmark, hsign⟩
      · exact .inr ⟨mark, next, rest, rfl, hmark, hd⟩

/-! ## The literal -/

/-- A separator without digits ends a literal. -/
theorem read_of_bare {separator : Char} {rest : List Char}
    (h : readFraction (readDigits cs).2 = (some ⟨separator, []⟩, rest)) :
    read cs = (⟨(readDigits cs).1, some ⟨separator, []⟩, none⟩, rest) := by
  simp only [read, h]

/-- Otherwise a power may follow. -/
theorem read_of_fraction {fraction : Option Fraction} {rest : List Char}
    (h : readFraction (readDigits cs).2 = (fraction, rest))
    (hfraction : ∀ separator, fraction ≠ some ⟨separator, []⟩) :
    read cs = (⟨(readDigits cs).1, fraction, (readPower rest).1⟩, (readPower rest).2) := by
  simp only [read, h]

end Numeral

end Formulary
