import Formulary.Proofs.Scanning
import Formulary.Settings

/-!
# The text of a token

Where an operator, a bracket or the end follows, a symbol, a keyword or the name of the variable is
cut off right behind its last character. So each token of a written formula is read back as itself,
whatever stands next to it.

* `Delimited` — what may follow a token in the text of a formula;
* `lexeme_of_isDigit`, `lexeme_of_isAlpha` — what a digit and a letter are the beginning of;
* `lexes_operator`, `lexes_constant`, `lexes_keyword`, `lexes_name` — the text of each token.
-/

namespace Formulary

/-! ## What follows a token -/

/-- The characters that are tokens by themselves. -/
def delimiters : List Char := ['+', '-', '*', '/', '^', '(', ')']

/-- What comes after a number, a name or a symbol in the text of a formula: its end, an operator or
a bracket. -/
def Delimited (more : List Char) : Prop := ∀ c ∈ more.head?, c ∈ delimiters

theorem delimited_nil : Delimited [] := nofun

theorem delimited_cons {c : Char} (hc : c ∈ delimiters) (more : List Char) :
    Delimited (c :: more) := by
  intro d hd
  obtain rfl := Option.some.inj hd
  exact hc

/-- No delimiter is one of the characters of a number, a name or a symbol. -/
theorem eq_false_of_mem_delimiters {p : Char → Bool}
    (hp : (delimiters.all fun c => !p c) = true) {c : Char} (hc : c ∈ delimiters) :
    p c = false := by
  have hall := List.all_eq_true.mp hp c hc
  rwa [Bool.not_eq_true'] at hall

theorem Delimited.head_eq_false {more : List Char} (h : Delimited more) {p : Char → Bool}
    (hp : (delimiters.all fun c => !p c) = true) : ∀ c ∈ more.head?, p c = false := by
  intro c hc
  exact eq_false_of_mem_delimiters hp (h c hc)

/-- A run of characters that ends where no more of its kind come. -/
theorem takeWhile_dropWhile_append {p : Char → Bool} {cs more : List Char}
    (hcs : ∀ c ∈ cs, p c = true) (hmore : ∀ c ∈ more.head?, p c = false) :
    (cs ++ more).takeWhile p = cs ∧ (cs ++ more).dropWhile p = more := by
  rw [List.takeWhile_append_of_pos hcs, List.dropWhile_append_of_pos hcs]
  cases more with
  | nil => exact ⟨List.append_nil cs, rfl⟩
  | cons c more =>
    have hc : ¬ p c = true := by
      rw [hmore c rfl]
      exact Bool.false_ne_true
    rw [List.takeWhile_cons_of_neg hc, List.dropWhile_cons_of_neg hc]
    exact ⟨List.append_nil cs, rfl⟩

/-! ## The first character -/

theorem isDigit_iff {c : Char} : c.isDigit = true ↔ 48 ≤ c.toNat ∧ c.toNat ≤ 57 := by
  have heq : c.isDigit = (decide (48 ≤ c.toNat) && decide (c.toNat ≤ 57)) := rfl
  rw [heq, Bool.and_eq_true, decide_eq_true_eq, decide_eq_true_eq]

theorem isAlpha_iff {c : Char} :
    c.isAlpha = true ↔ 65 ≤ c.toNat ∧ c.toNat ≤ 90 ∨ 97 ≤ c.toNat ∧ c.toNat ≤ 122 := by
  have heq : c.isAlpha = (decide (65 ≤ c.toNat ∧ c.toNat ≤ 90) ||
      decide (97 ≤ c.toNat) && decide (c.toNat ≤ 122)) := rfl
  rw [heq]
  simp only [Bool.or_eq_true, Bool.and_eq_true, decide_eq_true_eq]

/-- No character but a delimiter is a token by itself. -/
theorem signToken?_eq_none {c : Char} (hc : c ∉ delimiters) : signToken? c = none := by
  rw [signToken?.eq_def]
  split <;> first | rfl | exact absurd (by decide) hc

/-- A digit is the beginning of a number literal. -/
theorem lexeme_of_isDigit {c : Char} (hc : c.isDigit = true) (name cs : List Char) :
    lexeme name c cs = numberLexeme (c :: cs) := by
  have hsign : c ∉ delimiters := by
    intro hmem
    rw [eq_false_of_mem_delimiters (p := Char.isDigit) (by decide) hmem] at hc
    cases hc
  have hmark : c ≠ constantMark := by
    rintro rfl
    cases hc
  rw [lexeme, signToken?_eq_none hsign]
  dsimp only
  rw [if_neg hmark, if_pos hc]

/-- A letter is the beginning of a word. -/
theorem lexeme_of_isAlpha {c : Char} (hc : c.isAlpha = true) (name cs : List Char) :
    lexeme name c cs = wordLexeme name (c :: cs) := by
  have hsign : c ∉ delimiters := by
    intro hmem
    rw [eq_false_of_mem_delimiters (p := Char.isAlpha) (by decide) hmem] at hc
    cases hc
  have hmark : c ≠ constantMark := by
    rintro rfl
    cases hc
  have hdigit : ¬ c.isDigit = true := by
    rw [isDigit_iff]
    rw [isAlpha_iff] at hc
    omega
  rw [lexeme, signToken?_eq_none hsign]
  dsimp only
  rw [if_neg hmark, if_neg hdigit, if_pos hc]

theorem lexeme_of_signToken? {c : Char} {t : Token} (hc : signToken? c = some t)
    (name cs : List Char) : lexeme name c cs = ⟨t, [c], cs⟩ := by
  rw [lexeme, hc]

/-- The mark is the beginning of a constant. -/
theorem lexeme_constantMark (name cs : List Char) :
    lexeme name constantMark cs = constantLexeme cs := rfl

/-- Any other character belongs to no formula. -/
theorem lexeme_of_other {c : Char} (hsign : signToken? c = none) (hmark : c ≠ constantMark)
    (hdigit : c.isDigit = false) (halpha : c.isAlpha = false) (name cs : List Char) :
    lexeme name c cs = ⟨.illegal c, [c], cs⟩ := by
  rw [lexeme, hsign]
  dsimp only
  rw [if_neg hmark, hdigit, halpha, if_neg Bool.false_ne_true, if_neg Bool.false_ne_true]

/-- The first character of a token tells of which kind it is. -/
theorem firstChar_cases (c : Char) :
    (∃ t, signToken? c = some t) ∨ c = constantMark ∨ c.isDigit = true ∨ c.isAlpha = true ∨
      signToken? c = none ∧ c ≠ constantMark ∧ c.isDigit = false ∧ c.isAlpha = false := by
  rcases hsign : signToken? c with _ | t
  · right
    by_cases hmark : c = constantMark
    · exact .inl hmark
    · rcases hdigit : c.isDigit with _ | _
      · rcases halpha : c.isAlpha with _ | _
        · exact .inr (.inr (.inr ⟨rfl, hmark, rfl, rfl⟩))
        · exact .inr (.inr (.inl rfl))
      · exact .inr (.inl rfl)
  · exact .inl ⟨t, rfl⟩

theorem isBlank_of_isDigit {c : Char} (hc : c.isDigit = true) : isBlank c = false := by
  rw [isDigit_iff] at hc
  exact isBlank_eq_false_of_graphic (by omega) (by omega)

theorem isBlank_of_isAlpha {c : Char} (hc : c.isAlpha = true) : isBlank c = false := by
  rw [isAlpha_iff] at hc
  exact isBlank_eq_false_of_graphic (by omega) (by omega)

/-! ## Operators, brackets and symbols -/

section

variable (name : List Char) {more : List Char}

/-- A character that is a token by itself. -/
theorem lexes_sign {c : Char} {t : Token} (hsign : signToken? c = some t)
    (hc : isBlank c = false) (ht : t.isError = false) (more : List Char) :
    Lexes name (c :: more) [t] more :=
  .single [c] hc ht (by rw [lexeme, hsign])

theorem lexes_openBracket (more : List Char) : Lexes name ('(' :: more) [.openBracket] more :=
  lexes_sign name rfl rfl rfl more

theorem lexes_closeBracket (more : List Char) : Lexes name (')' :: more) [.closeBracket] more :=
  lexes_sign name rfl rfl rfl more

theorem lexes_operator (op : Operator) (more : List Char) :
    Lexes name (op.symbol :: more) [.operator op] more := by
  cases op <;> exact lexes_sign name rfl rfl rfl more

/-- A symbol after its mark. -/
theorem lexes_constant (c : Constant) (h : Delimited more) :
    Lexes name (constantMark :: (c.symbol.toList ++ more)) [.constant c] more := by
  have hsymbol : ∀ d ∈ c.symbol.toList, isSymbolChar d = true :=
    List.all_eq_true.mp (Constant.isSymbolChar_symbol c)
  obtain ⟨htake, hdrop⟩ := takeWhile_dropWhile_append hsymbol (h.head_eq_false (by decide))
  refine .single (constantMark :: c.symbol.toList) rfl rfl ?_
  rw [lexeme, show signToken? constantMark = none from rfl]
  dsimp only
  rw [if_pos rfl, constantLexeme, htake, hdrop, Constant.find?_symbol]

/-! ## Words -/

/-- A word that is not the letter of `E^`. -/
theorem lexes_word {word : List Char} (hne : word ≠ []) (hword : ∀ c ∈ word, c.isAlpha = true)
    (hbase : upperWord word ≠ "E".toList) (ht : (wordToken name word).isError = false)
    (h : Delimited more) : Lexes name (word ++ more) [wordToken name word] more := by
  obtain ⟨htake, hdrop⟩ := takeWhile_dropWhile_append hword (h.head_eq_false (by decide))
  have hlexeme : wordLexeme name (word ++ more) = ⟨wordToken name word, word, more⟩ := by
    rw [wordLexeme, htake, hdrop]
    split
    -- a power sign after the word does not turn it into `E^`
    · rw [if_neg hbase]
    · rfl
  obtain ⟨c, cs, rfl⟩ := List.exists_cons_of_ne_nil hne
  have hc := hword c List.mem_cons_self
  refine .single (c :: cs) (isBlank_of_isAlpha hc) ht ?_
  rw [lexeme_of_isAlpha hc]
  exact hlexeme

/-- The keyword of a function. -/
theorem lexes_keyword (f : Function) (h : Delimited more) :
    Lexes name (f.keyword.toList ++ more) [.function f] more := by
  have hword : f.keyword.toList ≠ [] ∧ f.keyword.toList.all Char.isAlpha = true ∧
      upperWord f.keyword.toList ≠ "PI".toList ∧ upperWord f.keyword.toList ≠ "E".toList := by
    cases f with
    | pointwise f => cases f <;> decide
    | delta => decide
  obtain ⟨hne, halpha, hcircle, hbase⟩ := hword
  have htoken : wordToken name f.keyword.toList = .function f := by
    rw [wordToken, if_neg hcircle, if_neg hbase, Function.ofKeyword?_keyword]
  have hlexes := lexes_word name hne (List.all_eq_true.mp halpha) hbase (by rw [htoken]; rfl) h
  rwa [htoken] at hlexes

/-- The name of the variable, which a check keeps apart from everything else a word can mean. -/
theorem lexes_name {settings : Settings} (hs : settings.check = .ok ()) (h : Delimited more) :
    Lexes settings.variableName.toList (settings.variableName.toList ++ more) [.freeVariable]
      more := by
  obtain ⟨hne, halpha, hreserved, -⟩ := Settings.check_eq_ok_iff.mp hs
  simp only [Settings.isReserved, Bool.or_eq_false_iff, decide_eq_false_iff_not,
    Option.isSome_eq_false_iff, Option.isNone_iff_eq_none] at hreserved
  obtain ⟨⟨hcircle, hbase⟩, hkeyword⟩ := hreserved
  have htoken : wordToken settings.variableName.toList settings.variableName.toList =
      .freeVariable := by
    rw [wordToken, if_neg hcircle, if_neg hbase, hkeyword]
    dsimp only
    rw [if_pos (by rw [sameLetters, beq_self_eq_true])]
  have hlexes := lexes_word _ hne halpha hbase (by rw [htoken]; rfl) h
  rwa [htoken] at hlexes

end

end Formulary
