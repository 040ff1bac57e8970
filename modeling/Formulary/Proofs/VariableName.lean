import Formulary.Proofs.Acceptance
import Formulary.Proofs.LetterCase
import Formulary.Proofs.Lossless

/-!
# Names that can be used

The check of the settings asks of the name of the variable that it is a word of letters which names
nothing else. These are the names that a text can mention: for any other name no text has the
variable among its tokens.

* `wordToken_eq_freeVariable_iff` — the words that stand for the variable;
* `exists_word_of_lexeme` — the variable stands in a text only as such a word;
* `lexeme_variant` — a name that has been checked is scanned as the variable, whatever the case of
  its letters;
* `Settings.check_iff_exists_text` — the check accepts a name if and only if some text mentions it.
-/

namespace Formulary

/-! ## Words for the variable -/

theorem sameLetters_iff {v w : List Char} : sameLetters v w = true ↔ Recased v w := beq_iff_eq

/-- A word stands for the variable if it names nothing else and has the letters of the name. -/
theorem wordToken_eq_freeVariable_iff {name word : List Char} :
    wordToken name word = .freeVariable ↔
      Settings.isReserved word = false ∧ Recased word name := by
  rw [wordToken, Settings.isReserved]
  by_cases hcircle : upperWord word = "PI".toList
  · rw [if_pos hcircle, decide_eq_true hcircle]
    simp
  · rw [if_neg hcircle, decide_eq_false hcircle]
    by_cases hbase : upperWord word = "E".toList
    · rw [if_pos hbase, decide_eq_true hbase]
      simp
    · rw [if_neg hbase, decide_eq_false hbase]
      rcases Function.ofKeyword? word with _ | f
      · by_cases hletters : sameLetters word name = true <;> simp [hletters, ← sameLetters_iff]
      · simp

theorem isReserved_recased {v w : List Char} (h : Recased v w) :
    Settings.isReserved v = Settings.isReserved w := by
  rw [Settings.isReserved, Settings.isReserved, Function.ofKeyword?, Function.ofKeyword?,
    h.upperWord_eq]

/-- **The variable stands in a text only as a word** that has the letters of its name and names
nothing else. -/
theorem exists_word_of_lexeme {name cs : List Char} {c : Char}
    (h : (lexeme name c cs).token = .freeVariable) :
    ∃ word, word ≠ [] ∧ (∀ d ∈ word, d.isAlpha = true) ∧ Settings.isReserved word = false ∧
      Recased word name := by
  rcases firstChar_cases c with ⟨t, hsign⟩ | rfl | hdigit | halpha | ⟨hsign, hmark, hdigit, halpha⟩
  · rw [lexeme_of_signToken? hsign] at h
    obtain rfl : t = .freeVariable := h
    rw [signToken?.eq_def] at hsign
    split at hsign <;> cases hsign
  · rw [lexeme_constantMark] at h
    simp only [constantLexeme] at h
    split at h <;> cases h
  · rw [lexeme_of_isDigit hdigit] at h
    simp only [numberLexeme] at h
    split at h <;> cases h
  · rw [lexeme_of_isAlpha halpha] at h
    refine ⟨(c :: cs).takeWhile Char.isAlpha, by simp [halpha],
      fun d hd => List.mem_takeWhile_imp hd, wordToken_eq_freeVariable_iff.mp ?_⟩
    simp only [wordLexeme] at h
    split at h
    · split at h
      · cases h
      · exact h
    · exact h
  · rw [lexeme_of_other hsign hmark hdigit halpha] at h
    cases h

/-- A name that has been checked is one token, whatever the case of its letters. -/
theorem lexeme_variant {settings : Settings} (hs : settings.check = .ok ()) {c : Char}
    {cs : List Char} (h : Recased (c :: cs) settings.variableName.toList) :
    c.isAlpha = true ∧
      lexeme settings.variableName.toList c cs = ⟨.freeVariable, c :: cs, []⟩ := by
  obtain ⟨-, halpha, hreserved, -⟩ := Settings.check_eq_ok_iff.mp hs
  rw [← isReserved_recased h] at hreserved
  have hword := Recased.forall_mem h.symm isAlpha_toLower halpha
  have hc := hword c List.mem_cons_self
  have htoken := wordToken_eq_freeVariable_iff.mpr ⟨hreserved, h⟩
  have hends : ∀ d ∈ ([] : List Char).head?, d.isAlpha = false := nofun
  obtain ⟨htake, hdrop⟩ := takeWhile_dropWhile_append hword hends
  rw [List.append_nil] at htake hdrop
  refine ⟨hc, ?_⟩
  rw [lexeme_of_isAlpha hc, wordLexeme, hdrop, htake, htoken]

/-! ## Names and texts -/

namespace Scanner

/-- A text that has the variable for one of its tokens has a word for it. -/
theorem exists_word_of_tokenAt {name text : String} {call : Nat}
    (h : (ofText name text).tokenAt call = .freeVariable) :
    ∃ word, word ≠ [] ∧ (∀ d ∈ word, d.isAlpha = true) ∧ Settings.isReserved word = false ∧
      Recased word name.toList := by
  have hname : ((ofText name text).after call).name = name.toList := name_after _ call
  rw [tokenAt] at h
  rcases next_cases ((ofText name text).after call) with
    ⟨-, hnext⟩ | ⟨-, -, hnext⟩ | ⟨_, c, cs, -, -, -, -, hnext⟩ <;> rw [hnext] at h
  · cases h
  · cases h
  · rw [hname] at h
    exact exists_word_of_lexeme h

/-- **A name that has been checked is scanned as the variable**, and then the text ends. -/
theorem next_variant {settings : Settings} (hs : settings.check = .ok ()) {variant : String}
    (h : Recased variant.toList settings.variableName.toList) :
    ∃ after, (ofText settings.variableName variant).next = (.freeVariable, after) ∧
      after.next.1 = .endOfText := by
  obtain ⟨hne, -⟩ := Settings.check_eq_ok_iff.mp hs
  obtain ⟨c, cs, htext⟩ : ∃ c cs, variant.toList = c :: cs := by
    refine List.exists_cons_of_ne_nil fun hnil => hne ?_
    rw [hnil] at h
    exact List.map_eq_nil_iff.mp h.symm
  rw [htext] at h
  obtain ⟨hc, hlexeme⟩ := lexeme_variant hs h
  have hdrop : variant.toList.dropWhile isBlank = c :: cs := by
    simp [htext, isBlank_of_isAlpha hc]
  have hnext := next_of_lexeme (s := ofText settings.variableName variant) rfl hdrop
  rw [show (ofText settings.variableName variant).name = settings.variableName.toList from rfl,
    hlexeme] at hnext
  exact ⟨_, hnext, by rw [next_of_blanks rfl rfl]⟩

end Scanner

/-- Such a text is the formula that is nothing but the variable. -/
theorem Expr.ofText_variant {settings : Settings} (hs : settings.check = .ok ()) {variant : String}
    (h : Recased variant.toList settings.variableName.toList) :
    ofText settings variant = .ok .freeVariable := by
  obtain ⟨after, hnext, hend⟩ := Scanner.next_variant hs h
  have htokens : tokensOf settings variant = [.freeVariable] := by
    have hafter : after.next = (.endOfText, after.next.2) := Prod.ext hend rfl
    have hne : Token.freeVariable ≠ .endOfText := nofun
    rw [tokensOf, locatedOf, Scanner.tokens_of_token hnext hne, Scanner.tokens_of_end hafter]
    rfl
  obtain ⟨hnesting, hdepth⟩ := Settings.limits_pos hs
  exact ofText_of_fits (d := .ofProduct [] (.ofPower (.ofPrimary .freeVariable))) hs htokens.symm
    (Derivation.fits_start_iff.mpr ⟨Nat.zero_le _, Nat.zero_le _, hdepth⟩)

/-- **The check accepts exactly the names that a text can mention.** A name passes if and only if
there is a text that has the variable of this name among its tokens; and then, whatever the case of
its letters, the name is scanned as the variable and nothing else, and read as the formula that is
nothing but the variable. -/
theorem Settings.check_iff_exists_text {settings : Settings} (hnesting : 0 < settings.maxNesting)
    (hdepth : 0 < settings.maxDepth) :
    (settings.check = .ok () ↔
      ∃ text call, (Scanner.ofText settings.variableName text).tokenAt call = .freeVariable) ∧
    (settings.check = .ok () → ∀ variant : String,
      sameLetters variant.toList settings.variableName.toList = true →
        (Scanner.ofText settings.variableName variant).tokenAt 0 = .freeVariable ∧
        (∀ call, 1 ≤ call →
          (Scanner.ofText settings.variableName variant).tokenAt call = .endOfText) ∧
        Expr.ofText settings variant = .ok .freeVariable) := by
  refine ⟨⟨fun hs => ?_, ?_⟩, fun hs variant hvariant => ?_⟩
  · obtain ⟨_, hnext, -⟩ := Scanner.next_variant hs (Eq.refl (settings.variableName.toList.map _))
    exact ⟨settings.variableName, 0, congrArg Prod.fst hnext⟩
  · rintro ⟨text, call, htoken⟩
    obtain ⟨word, hne, halpha, hreserved, hword⟩ := Scanner.exists_word_of_tokenAt htoken
    refine check_eq_ok_iff.mpr ⟨?_, hword.forall_mem isAlpha_toLower halpha, ?_, hnesting, hdepth⟩
    · intro hnil
      rw [Recased, hnil] at hword
      exact hne (List.map_eq_nil_iff.mp hword)
    · rw [← isReserved_recased hword, hreserved]
  · have h := sameLetters_iff.mp hvariant
    obtain ⟨after, hnext, hend⟩ := Scanner.next_variant hs h
    refine ⟨congrArg Prod.fst hnext, fun call hcall => ?_, Expr.ofText_variant hs h⟩
    have hsecond : (Scanner.ofText settings.variableName variant).tokenAt 1 = .endOfText := by
      rw [Scanner.tokenAt, Scanner.after, Scanner.after, hnext]
      exact hend
    rcases Nat.eq_or_lt_of_le hcall with rfl | hlater
    · exact hsecond
    · exact (Scanner.after_of_end _ hsecond hlater).2

/-- A name in two cases, and one that no text can mention, as the dotless i is not a letter of the
basic alphabet. -/
theorem Settings.check_iff_exists_text_theta :
    Expr.ofText { variableName := "theta" } "Theta" = .ok .freeVariable ∧
      ∀ text call, (Scanner.ofText "sın" text).tokenAt call ≠ .freeVariable := by
  constructor
  · have hcheck : Settings.check { variableName := "theta" } = .ok () := rfl
    exact ((check_iff_exists_text (by decide) (by decide)).2 hcheck "Theta" (by decide)).2.2
  · intro text call htoken
    have hcheck : Settings.check { variableName := "sın" } = .ok () :=
      (check_iff_exists_text (by decide) (by decide)).1.mpr ⟨text, call, htoken⟩
    cases hcheck

end Formulary
