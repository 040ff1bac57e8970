import Formulary.Proofs.NumeralParts
import Formulary.Proofs.TokenText

/-!
# Where a token ends

A token is as long as possible, so where it ends hangs on the text after it; but no more than two
characters of that are ever looked at, and a blank ends every token. So another text may follow a
token as long as it begins alike, or breaks off.

* `EndsAlike` — the texts that may follow a token instead of the one that follows it;
* `Numeral.read_of_endsAlike`, `wordLexeme_of_endsAlike`, `constantLexeme_of_endsAlike` — each kind
  of token in front of another text;
* `lexeme_of_endsAlike` — any token.
-/

namespace Formulary

/-! ## Texts after a token -/

/-- A text that ends any token in front of it: it is empty, or it begins with a blank. -/
def Breaks (more : List Char) : Prop := ∀ c ∈ more.head?, isBlank c = true

/-- A text `more` that may stand after a token in the place of `rest`: it has the same first two
characters, or it has fewer of them and breaks off there. -/
inductive EndsAlike : List Char → List Char → Prop
  /-- it breaks off at once -/
  | breaks {rest more : List Char} (h : Breaks more) : EndsAlike rest more
  /-- it breaks off after the first character -/
  | second {c : Char} {rest more : List Char} (h : Breaks more) : EndsAlike (c :: rest) (c :: more)
  /-- it has the same two characters in front -/
  | same {c d : Char} {rest more : List Char} : EndsAlike (c :: d :: rest) (c :: d :: more)

namespace EndsAlike

variable {rest more : List Char}

theorem refl (rest : List Char) : EndsAlike rest rest := by
  rcases rest with _ | ⟨c, _ | ⟨d, rest⟩⟩
  · exact .breaks nofun
  · exact .second nofun
  · exact .same

theorem cons (h : EndsAlike rest more) (c : Char) : EndsAlike (c :: rest) (c :: more) := by
  cases h with
  | breaks h => exact .second h
  | second _ | same => exact .same

theorem append (h : EndsAlike rest more) (cs : List Char) :
    EndsAlike (cs ++ rest) (cs ++ more) := by
  induction cs with
  | nil => exact h
  | cons c cs ih => exact ih.cons c

/-- Blanks may be put anywhere after a token. -/
theorem insert {w : List Char} (hw : ∀ c ∈ w, isBlank c = true) (u v : List Char) :
    EndsAlike (u ++ v) (u ++ (w ++ v)) := by
  rcases w with _ | ⟨b, w⟩
  · exact refl _
  · refine append (.breaks ?_) u
    rintro c ⟨⟩
    exact hw _ List.mem_cons_self

/-- A run of characters without blanks ends where it has ended before. -/
theorem head_eq_false (h : EndsAlike rest more) {p : Char → Bool}
    (hp : ∀ c, isBlank c = true → p c = false) (hrest : ∀ c ∈ rest.head?, p c = false) :
    ∀ c ∈ more.head?, p c = false := by
  cases h with
  | breaks h => exact fun c hc => hp c (h c hc)
  | second _ | same => exact hrest

/-- The same for a run that has been taken from the front of a text. -/
theorem takeWhile_dropWhile {p : Char → Bool} {cs : List Char}
    (h : EndsAlike (cs.dropWhile p) more) (hp : ∀ c, isBlank c = true → p c = false) :
    (cs.takeWhile p ++ more).takeWhile p = cs.takeWhile p ∧
      (cs.takeWhile p ++ more).dropWhile p = more := by
  refine takeWhile_dropWhile_append (fun c hc => List.mem_takeWhile_imp hc)
    (h.head_eq_false hp ?_)
  intro c hc
  have hhead := List.head?_dropWhile_not p cs
  rw [Option.mem_def.mp hc] at hhead
  exact hhead

end EndsAlike

/-! ## No token holds a blank -/

theorem isDigit_of_isBlank {c : Char} (h : isBlank c = true) : c.isDigit = false := by
  by_contra hc
  rw [isBlank_of_isDigit (Bool.not_eq_false _ ▸ hc)] at h
  cases h

theorem isAlpha_of_isBlank {c : Char} (h : isBlank c = true) : c.isAlpha = false := by
  by_contra hc
  rw [isBlank_of_isAlpha (Bool.not_eq_false _ ▸ hc)] at h
  cases h

theorem isSymbolChar_of_isBlank {c : Char} (h : isBlank c = true) : isSymbolChar c = false := by
  rw [isSymbolChar, Char.isAlphanum, isAlpha_of_isBlank h, isDigit_of_isBlank h]
  by_contra hc
  simp only [Bool.or_self, Bool.false_or, Bool.not_eq_false, Bool.or_eq_true, beq_iff_eq] at hc
  rcases hc with rfl | rfl <;> cases h

/-! ## Number literals -/

namespace Numeral

variable {cs more : List Char}

theorem readDigits_of_endsAlike (cs : List Char) (h : EndsAlike (readDigits cs).2 more) :
    readDigits ((readDigits cs).1 ++ more) = ((readDigits cs).1, more) := by
  obtain ⟨htake, hdrop⟩ := h.takeWhile_dropWhile fun c => isDigit_of_isBlank
  exact Prod.ext htake hdrop

theorem isSeparator_of_isBlank {c : Char} (h : isBlank c = true) : isSeparator c = false := by
  by_contra hc
  rw [Bool.not_eq_false, isSeparator, Bool.or_eq_true, beq_iff_eq, beq_iff_eq] at hc
  rcases hc with rfl | rfl <;> cases h

theorem opensPower_of_isBlank {c : Char} (h : isBlank c = true) (d : Char) :
    opensPower c d = false ∧ opensPower d c = false := by
  have hmark : ¬ (c = 'e' ∨ c = 'E') := by rintro (rfl | rfl) <;> cases h
  have hsign : ¬ (c = '+' ∨ c = '-') := by rintro (rfl | rfl) <;> cases h
  rw [not_or] at hmark hsign
  simp [opensPower, hmark, hsign, isDigit_of_isBlank h]

theorem readFraction_of_endsAlike (cs : List Char)
    (h : EndsAlike (readFraction cs).2 more) :
    readFraction (((readFraction cs).1.elim [] fun f => f.separator :: f.digits) ++ more) =
      ((readFraction cs).1, more) := by
  rcases readFraction_cases cs with ⟨hhead, heq⟩ | ⟨c, rest, rfl, hsep, heq⟩
  · rw [heq] at h ⊢
    exact readFraction_none (h.head_eq_false (fun c => isSeparator_of_isBlank) hhead)
  · rw [heq] at h ⊢
    have hdigits := readDigits_of_endsAlike _ h
    simp only [Option.elim, List.cons_append]
    rw [readFraction_separator hsep, hdigits]

theorem NoPower.of_endsAlike (h : NoPower cs) (hmore : EndsAlike cs more) : NoPower more := by
  cases hmore with
  | breaks hbreaks =>
    intro mark next rest heq
    rw [heq] at hbreaks
    exact (opensPower_of_isBlank (hbreaks mark rfl) next).1
  | second hbreaks =>
    intro mark next rest heq
    obtain ⟨rfl, htail⟩ := List.cons.inj heq
    rw [htail] at hbreaks
    exact (opensPower_of_isBlank (hbreaks next rfl) _).2
  | same =>
    intro mark next rest heq
    obtain ⟨rfl, htail⟩ := List.cons.inj heq
    obtain ⟨rfl, -⟩ := List.cons.inj htail
    exact h _ _ _ rfl

theorem readPower_of_endsAlike (cs : List Char) (h : EndsAlike (readPower cs).2 more) :
    readPower (((readPower cs).1.elim [] Power.written) ++ more) = ((readPower cs).1, more) := by
  rcases readPower_cases cs with
    hnone | ⟨mark, sign, rest, rfl, hmark, hsign⟩ | ⟨mark, d, rest, rfl, hmark, hd⟩
  · rw [readPower_none hnone] at h ⊢
    exact readPower_none (hnone.of_endsAlike h)
  · rw [readPower_sign hmark hsign] at h ⊢
    have hdigits := readDigits_of_endsAlike _ h
    simp only [Option.elim, Power.written, Option.toList, List.cons_append, List.nil_append]
    rw [readPower_sign hmark hsign, hdigits]
  · rw [readPower_digit hmark hd] at h ⊢
    have hdigits := readDigits_of_endsAlike _ h
    -- the digit that made the power is the first of its digits
    have hfirst : (readDigits (d :: rest)).1 = d :: (readDigits rest).1 := by
      simp [readDigits, hd]
    simp only [Option.elim, Power.written, Option.toList, List.cons_append, List.nil_append]
    rw [hfirst, List.cons_append] at hdigits ⊢
    rw [readPower_digit hmark hd, hdigits]

/-- **A literal is the same literal** in front of another text that may follow it. -/
theorem read_of_endsAlike (h : EndsAlike (read cs).2 more) :
    read ((read cs).1.written ++ more) = ((read cs).1, more) := by
  rcases hf : readFraction (readDigits cs).2 with ⟨fraction, rest⟩
  have hfraction := readFraction_append (readDigits cs).2
  rw [hf] at hfraction
  by_cases hbare : ∃ separator, fraction = some ⟨separator, []⟩
  · obtain ⟨separator, rfl⟩ := hbare
    rw [read_of_bare hf] at h ⊢
    -- the parts of the literal are read one after the other
    have hback : readFraction (separator :: more) = (some ⟨separator, []⟩, more) := by
      have hread := readFraction_of_endsAlike (readDigits cs).2 (by rw [hf]; exact h)
      rwa [hf] at hread
    have hfront : readDigits ((readDigits cs).1 ++ separator :: more) =
        ((readDigits cs).1, separator :: more) := by
      refine readDigits_of_endsAlike cs ?_
      rw [← hfraction]
      exact h.cons separator
    have htext : (⟨(readDigits cs).1, some ⟨separator, []⟩, none⟩ : Numeral).written ++ more =
        (readDigits cs).1 ++ separator :: more := by
      simp [written]
    rw [htext, read_of_bare (by rw [hfront]; exact hback), hfront]
  · rw [not_exists] at hbare
    have hpower := readPower_append rest
    rw [read_of_fraction hf hbare] at h ⊢
    have hend := readPower_of_endsAlike _ h
    have hmiddle : EndsAlike rest (((readPower rest).1.elim [] Power.written) ++ more) := by
      have happend := h.append ((readPower rest).1.elim [] Power.written)
      rwa [hpower] at happend
    have hback := readFraction_of_endsAlike (readDigits cs).2 (by rw [hf]; exact hmiddle)
    rw [hf] at hback
    have hfront := readDigits_of_endsAlike cs
      (hfraction ▸ hmiddle.append (fraction.elim [] fun f => f.separator :: f.digits))
    have htext : (⟨(readDigits cs).1, fraction, (readPower rest).1⟩ : Numeral).written ++ more =
        (readDigits cs).1 ++ ((fraction.elim [] fun f => f.separator :: f.digits) ++
          ((readPower rest).1.elim [] Power.written ++ more)) := by
      simp only [written, List.append_assoc]
    rw [htext, read_of_fraction (by rw [hfront]; exact hback) hbare, hfront, hend]

end Numeral

/-! ## Tokens -/

/-- The text of a token begins with its first character, and what follows is left. -/
theorem exists_written_cons (name : List Char) (c : Char) (cs : List Char) :
    ∃ written, (lexeme name c cs).written = c :: written ∧
      written ++ (lexeme name c cs).rest = cs := by
  have happend := lexeme_append name c cs
  obtain ⟨d, written, heq⟩ := List.exists_cons_of_ne_nil (written_ne_nil name c cs)
  rw [heq, List.cons_append] at happend
  obtain ⟨rfl, hrest⟩ := List.cons.inj happend
  exact ⟨written, heq, hrest⟩

section

variable {name cs more written : List Char}

/-- The letter `E` with a `^` right after it. -/
theorem wordLexeme_exponential {rest : List Char} (hrest : cs.dropWhile Char.isAlpha = '^' :: rest)
    (hbase : upperWord (cs.takeWhile Char.isAlpha) = "E".toList) :
    wordLexeme name cs = ⟨.exponential, cs.takeWhile Char.isAlpha ++ ['^'], rest⟩ := by
  simp only [wordLexeme, hrest]
  rw [if_pos hbase]

/-- Any other word. -/
theorem wordLexeme_word (h : ∀ rest, cs.dropWhile Char.isAlpha = '^' :: rest →
      upperWord (cs.takeWhile Char.isAlpha) ≠ "E".toList) :
    wordLexeme name cs = ⟨wordToken name (cs.takeWhile Char.isAlpha), cs.takeWhile Char.isAlpha,
      cs.dropWhile Char.isAlpha⟩ := by
  simp only [wordLexeme]
  split
  · next rest hrest => rw [if_neg (h rest hrest), hrest]
  · rfl

theorem wordLexeme_of_endsAlike (h : EndsAlike (wordLexeme name cs).rest more) :
    wordLexeme name ((wordLexeme name cs).written ++ more) =
      { wordLexeme name cs with rest := more } := by
  by_cases hexp : ∃ rest, cs.dropWhile Char.isAlpha = '^' :: rest ∧
      upperWord (cs.takeWhile Char.isAlpha) = "E".toList
  · obtain ⟨rest, hrest, hbase⟩ := hexp
    have hword : ∀ c ∈ cs.takeWhile Char.isAlpha, c.isAlpha = true :=
      fun c hc => List.mem_takeWhile_imp hc
    have hend : ∀ c ∈ ('^' :: more).head?, c.isAlpha = false := by
      rintro c ⟨⟩
      rfl
    obtain ⟨htake, hdrop⟩ := takeWhile_dropWhile_append hword hend
    rw [wordLexeme_exponential hrest hbase]
    simp only [List.append_assoc, List.cons_append, List.nil_append]
    rw [wordLexeme_exponential hdrop (by rw [htake]; exact hbase), htake]
  · have hword : ∀ rest, cs.dropWhile Char.isAlpha = '^' :: rest →
        upperWord (cs.takeWhile Char.isAlpha) ≠ "E".toList :=
      fun rest hrest hbase => hexp ⟨rest, hrest, hbase⟩
    rw [wordLexeme_word hword] at h ⊢
    obtain ⟨htake, hdrop⟩ := h.takeWhile_dropWhile fun c => isAlpha_of_isBlank
    -- a `^` that follows now has followed before
    have hmore : ∀ rest, more = '^' :: rest →
        upperWord (cs.takeWhile Char.isAlpha) ≠ "E".toList := by
      rintro rest rfl
      generalize hbefore : cs.dropWhile Char.isAlpha = before at h
      cases h with
      | breaks hbreaks => cases hbreaks '^' rfl
      | second _ | same => exact hword _ hbefore
    rw [wordLexeme_word (by rw [htake, hdrop]; exact hmore), htake, hdrop]

theorem constantLexeme_of_endsAlike (h : EndsAlike (constantLexeme cs).rest more) :
    constantLexeme (cs.takeWhile isSymbolChar ++ more) =
      { constantLexeme cs with rest := more } := by
  obtain ⟨htake, hdrop⟩ :=
    EndsAlike.takeWhile_dropWhile (p := isSymbolChar) h fun c => isSymbolChar_of_isBlank
  simp only [constantLexeme, htake, hdrop]

theorem numberLexeme_of_endsAlike (h : EndsAlike (numberLexeme cs).rest more) :
    numberLexeme ((numberLexeme cs).written ++ more) =
      { numberLexeme cs with rest := more } := by
  have hread := Numeral.read_of_endsAlike h
  simp only [numberLexeme, hread]

/-- **A token is the same token** in front of another text that may follow it. -/
theorem lexeme_of_endsAlike {c : Char} (h : EndsAlike (lexeme name c cs).rest more)
    (hwritten : (lexeme name c cs).written = c :: written) :
    lexeme name c (written ++ more) = { lexeme name c cs with rest := more } := by
  rcases firstChar_cases c with
    ⟨t, hsign⟩ | rfl | hdigit | halpha | ⟨hsign, hmark, hdigit, halpha⟩
  · rw [lexeme_of_signToken? hsign] at hwritten
    obtain ⟨-, rfl⟩ := List.cons.inj hwritten
    rw [lexeme_of_signToken? hsign, lexeme_of_signToken? hsign, List.nil_append]
  · rw [lexeme_constantMark] at h hwritten
    obtain ⟨-, rfl⟩ := List.cons.inj hwritten
    exact constantLexeme_of_endsAlike h
  · rw [lexeme_of_isDigit hdigit] at h hwritten
    have hnumber := numberLexeme_of_endsAlike h
    rw [hwritten, List.cons_append] at hnumber
    rw [lexeme_of_isDigit hdigit, lexeme_of_isDigit hdigit, hnumber]
  · rw [lexeme_of_isAlpha halpha] at h hwritten
    have hword := wordLexeme_of_endsAlike h
    rw [hwritten, List.cons_append] at hword
    rw [lexeme_of_isAlpha halpha, lexeme_of_isAlpha halpha, hword]
  · rw [lexeme_of_other hsign hmark hdigit halpha] at hwritten
    obtain ⟨-, rfl⟩ := List.cons.inj hwritten
    rw [lexeme_of_other hsign hmark hdigit halpha, lexeme_of_other hsign hmark hdigit halpha,
      List.nil_append]

end

end Formulary
