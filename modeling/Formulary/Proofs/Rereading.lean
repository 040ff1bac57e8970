import Formulary.Proofs.Rendering

/-!
# Formulas that have been read are read again

The tree of a text that has been accepted is written with brackets around every operation, so its
text may nest more brackets than the text that was read. This is all that can keep it from being
read again: the tree itself is within the bounds, and all its numbers are finite.

* `Derivation.finite_tree`, `Expr.finite_of_ofText` — a tree that has been read holds finite numbers
  only;
* `Expr.ofText_formula_iff` — its text is read again exactly if it is not nested too deeply.
-/

namespace Formulary

/-! ## Numbers in a tree -/

theorem isFinite_minusOne : (-1 : Binary64).isFinite = true := by decide +kernel

theorem Expr.Finite.negated {t : Expr Binary64} (h : t.Finite) : t.negated.Finite := by
  cases t with
  | number x => exact h
  | constant | freeVariable | binary | call => exact ⟨isFinite_minusOne, h⟩

/-- The numbers of a tree are those of its tokens, and minus one. -/
theorem Derivation.finite_tree {level : Level} (d : Derivation level)
    (h : ∀ x, .number x ∈ d.tokens → x.isFinite = true) : d.tree.Finite := by
  induction d with
  | number x => exact h x List.mem_cons_self
  | constant | freeVariable => exact trivial
  | group inner ih => exact ih fun x hx => h x (by simp [tokens, hx])
  | call f arg ih => exact ih fun x hx => h x (by simp [tokens, hx])
  | exponential arg ih => exact ih fun x hx => h x (by simp [tokens, hx])
  | ofPrimary d ih | ofPower d ih => exact ih h
  | raise left right ihl ihr | scale left _ _ right ihl ihr | join left _ _ right ihl ihr =>
    exact ⟨ihl fun x hx => h x (by simp [tokens, hx]), ihr fun x hx => h x (by simp [tokens, hx])⟩
  | ofProduct signs d ih =>
    have hd := ih fun x hx => h x (by simp [tokens, hx])
    rw [tree]
    split
    · exact hd.negated
    · exact hd

/-! ## Reading again -/

namespace Expr

variable {settings : Settings} {text : String} {t : Expr Binary64}

/-- **A tree that has been read holds finite numbers only.** -/
theorem finite_of_ofText (h : ofText settings text = .ok t) : t.Finite := by
  obtain ⟨d, htokens, rfl⟩ := exists_derivation_of_ofText h
  refine d.finite_tree ?_
  intro x hx
  rw [htokens] at hx
  obtain ⟨located, hmem, htoken⟩ := List.mem_map.mp hx
  have hreadable := (cut_ofText settings text).readable_of_mem hmem
  rw [htoken] at hreadable
  exact hreadable

/-- **A formula that has been read is read again** from the text that is written for its tree if and
only if the brackets of this text are not nested too deeply; and this is all that is ever wrong with
it. -/
theorem ofText_formula_iff (hs : settings.check = .ok ()) (h : ofText settings text = .ok t) :
    (ofText settings (t.formula settings.variableName) = .ok t ↔
      t.bracketNesting ≤ settings.maxNesting) ∧
    (settings.maxNesting < t.bracketNesting →
      ∃ position, ofText settings (t.formula settings.variableName) =
        .error ⟨.tooDeeplyNested, position⟩) := by
  have hfinite := finite_of_ofText h
  obtain ⟨d, -, rfl, hfits⟩ := exists_fits_of_ofText hs h
  obtain ⟨-, hdelta, hdepth⟩ := Derivation.fits_start_iff.mp hfits
  -- the tree is within the other bounds, for it has been read under them
  have hdeep (hlt : settings.maxNesting < d.tree.bracketNesting) :
      ∃ position, ofText settings (d.tree.formula settings.variableName) =
        .error ⟨.tooDeeplyNested, position⟩ :=
    ofText_formula_of_not_le hs hfinite fun hbounds => Nat.not_lt.mpr hbounds.1 hlt
  refine ⟨⟨?_, ?_⟩, hdeep⟩
  · intro hok
    by_contra hnesting
    obtain ⟨position, herror⟩ := hdeep (Nat.not_le.mp hnesting)
    rw [hok] at herror
    cases herror
  · intro hnesting
    exact ofText_formula_of_le hs hfinite ⟨hnesting, hdepth, hdelta⟩

/-- A short sum is read again. -/
theorem ofText_formula_of_shortSum :
    ofText {} "x+x" = .ok (.binary .freeVariable .add .freeVariable) ∧
      ofText {} "(x+x)" = .ok (.binary .freeVariable .add .freeVariable) := by
  have hread : ofText {} "x+x" = .ok (.binary .freeVariable .add .freeVariable) := by
    decide +kernel
  exact ⟨hread, (ofText_formula_iff rfl hread).1.mpr (by decide)⟩

/-- A sum without a bracket can be read where a single bracket may be open, and the text that is
written for it cannot. -/
theorem ofText_formula_of_longSum :
    ∃ t, ofText { maxNesting := 1 } "x+x+x" = .ok t ∧ t.formula "x" = "((x+x)+x)" ∧
      ofText { maxNesting := 1 } "((x+x)+x)" = .error ⟨.tooDeeplyNested, 2⟩ :=
  ⟨.binary (.binary .freeVariable .add .freeVariable) .add .freeVariable, by decide +kernel,
    by decide +kernel, by decide +kernel⟩

end Expr

end Formulary
