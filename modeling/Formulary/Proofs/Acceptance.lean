import Formulary.Proofs.Reading.Complete
import Formulary.Proofs.Reading.Sound
import Formulary.Proofs.Scanning
import Formulary.Reader

/-!
# Which texts are formulas

A text is accepted if and only if its tokens are derived by the grammar and the three bounds allow
the derivation; the answer is then the tree that the derivation prescribes.

* `tokensOf`, `finishOf` — the tokens of a text and the place of its end;
* `Expr.ofText_of_fits`, `Expr.ofText_of_not_fits` — the answer to a text with a derivation;
* `Expr.exists_derivation_of_ofText` — a text with a tree has a derivation;
* `Expr.ofText_eq_ok_iff` — both together.
-/

namespace Formulary

variable {settings : Settings} {text : String} {t : Expr Binary64}

/-! ## Tokens and bounds -/

/-- The tokens of a text, with their places. -/
def locatedOf (settings : Settings) (text : String) : List Located :=
  (Scanner.ofText settings.variableName text).tokens.1

/-- The tokens of a text. -/
def tokensOf (settings : Settings) (text : String) : List Token :=
  (locatedOf settings text).map Located.token

/-- The place of the end of a text, as far as it is read. -/
def finishOf (settings : Settings) (text : String) : Nat :=
  (Scanner.ofText settings.variableName text).tokens.2

/-- The bounds of the settings. -/
def Settings.limits (settings : Settings) : Limits := ⟨settings.maxNesting, settings.maxDepth⟩

theorem cut_ofText (settings : Settings) (text : String) :
    Cut settings.variableName.toList 0 text.toList (locatedOf settings text)
      (finishOf settings text) :=
  (Scanner.ofText settings.variableName text).cut rfl

theorem Settings.limits_pos (hs : settings.check = .ok ()) :
    0 < settings.limits.nesting ∧ 0 < settings.limits.depth := by
  obtain ⟨-, -, -, hbounds⟩ := Settings.check_eq_ok_iff.mp hs
  exact hbounds

namespace Expr

/-! ## The answer to a text -/

/-- A text without tokens is no formula, and its error has no place. -/
theorem ofText_of_nil (h : locatedOf settings text = []) :
    ofText settings text = .error ⟨.emptyFormula, 0⟩ := by
  have hrest : (Reader.ofText settings text).rest = [] := h
  rw [ofText, Reader.read]
  simp only [hrest]

/-- The answer to any other text is that of the reading. -/
theorem ofText_eq_run (h : locatedOf settings text ≠ []) :
    ofText settings text = ((Stage.term .start).run settings.limits (finishOf settings text)
      (locatedOf settings text)).answer := by
  have hrest : (Reader.ofText settings text).rest = locatedOf settings text := rfl
  rw [ofText, Reader.read]
  split
  · next hnil => exact absurd hnil h
  · rfl

theorem locatedOf_ne_nil {d : Derivation .sum} (hd : d.tokens = tokensOf settings text) :
    locatedOf settings text ≠ [] := by
  intro h
  rw [tokensOf, h] at hd
  exact d.tokens_ne_nil hd

/-- The answer to a formula that fits into the bounds is the tree that its derivation
prescribes. -/
theorem ofText_of_fits (hs : settings.check = .ok ()) {d : Derivation .sum}
    (hd : d.tokens = tokensOf settings text) (h : d.Fits settings.limits .start) :
    ofText settings text = .ok d.tree := by
  rw [ofText_eq_run (locatedOf_ne_nil hd)]
  exact d.answer_of_fits (Settings.limits_pos hs).2 h hd.symm _

/-- The answer to any other formula is that it is nested too deeply. -/
theorem ofText_of_not_fits (hs : settings.check = .ok ()) {d : Derivation .sum}
    (hd : d.tokens = tokensOf settings text) (h : ¬ d.Fits settings.limits .start) :
    ∃ position, ofText settings text = .error ⟨.tooDeeplyNested, position⟩ := by
  rw [ofText_eq_run (locatedOf_ne_nil hd)]
  exact d.answer_of_not_fits (Settings.limits_pos hs).2 h hd.symm _

/-- A text that is read as a tree has a derivation of this tree. -/
theorem exists_derivation_of_ofText (h : ofText settings text = .ok t) :
    ∃ d : Derivation .sum, d.tokens = tokensOf settings text ∧ d.tree = t := by
  by_cases hnil : locatedOf settings text = []
  · rw [ofText_of_nil hnil] at h
    cases h
  · rw [ofText_eq_run hnil] at h
    rcases Stage.exists_split settings.limits (.term .start) (locatedOf settings text) with
      ⟨s, p, whole, hafter, hfinish⟩ | ⟨before, rest, s, r, heq, hafter, hrefuses⟩
    · obtain ⟨d, htokens, htree⟩ :=
        (Stage.records_start.after hafter).exists_derivation hfinish
      rw [Stage.answer_of_finish hafter hfinish] at h
      exact ⟨d, htokens, htree.trans (Except.ok.inj h)⟩
    · rw [heq, Stage.run_append hafter, Stage.answer_of_refuses hrefuses] at h
      cases h

/-- The bounds allow this derivation. -/
theorem exists_fits_of_ofText (hs : settings.check = .ok ()) (h : ofText settings text = .ok t) :
    ∃ d : Derivation .sum, d.tokens = tokensOf settings text ∧ d.tree = t ∧
      d.Fits settings.limits .start := by
  obtain ⟨d, htokens, htree⟩ := exists_derivation_of_ofText h
  refine ⟨d, htokens, htree, ?_⟩
  by_contra hnot
  obtain ⟨position, herror⟩ := ofText_of_not_fits hs htokens hnot
  rw [h] at herror
  cases herror

/-- **A text is read as a tree if and only if** it holds no token that is an error, its tokens are
derived by the grammar, with this tree prescribed, and the bounds allow what is open at once in it,
the height of the tree, and the `DELTA` inside one another. -/
theorem ofText_eq_ok_iff (hs : settings.check = .ok ()) (text : String) (t : Expr Binary64) :
    ofText settings text = .ok t ↔
      (∀ token ∈ tokensOf settings text, token.isError = false) ∧
      (∃ d : Derivation .sum, d.tokens = tokensOf settings text ∧ d.tree = t ∧
        d.nesting ≤ settings.maxNesting) ∧
      t.depth ≤ settings.maxDepth ∧ t.deltaNesting ≤ maxDeltaNesting := by
  constructor
  · intro h
    obtain ⟨d, htokens, rfl, hfits⟩ := exists_fits_of_ofText hs h
    obtain ⟨hnesting, hdelta, hdepth⟩ := Derivation.fits_start_iff.mp hfits
    refine ⟨?_, ⟨d, htokens, rfl, hnesting⟩, hdepth, hdelta⟩
    intro token htoken
    rw [← htokens] at htoken
    exact d.not_isError_of_mem htoken
  · rintro ⟨-, ⟨d, htokens, rfl, hnesting⟩, hdepth, hdelta⟩
    exact ofText_of_fits hs htokens (Derivation.fits_start_iff.mpr ⟨hnesting, hdelta, hdepth⟩)

/-- A minus in front of a term that is no number makes a product of it; with two of them the term
stays as it is. -/
theorem ofText_signs :
    ofText {} "-x" = .ok (.binary (.number (-1)) .multiply .freeVariable) ∧
      ofText {} " - - x" = .ok .freeVariable := by
  constructor
  · refine (ofText_eq_ok_iff rfl "-x" _).mpr ⟨by decide +kernel, ?_, by decide, by decide⟩
    exact ⟨.ofProduct [.minus] (.ofPower (.ofPrimary .freeVariable)), by decide +kernel, rfl,
      by decide⟩
  · refine (ofText_eq_ok_iff rfl " - - x" _).mpr ⟨by decide +kernel, ?_, by decide, by decide⟩
    exact ⟨.ofProduct [.minus, .minus] (.ofPower (.ofPrimary .freeVariable)), by decide +kernel,
      rfl, by decide⟩

end Expr

end Formulary
