import Formulary.Expr.Render
import Formulary.Proofs.Acceptance
import Formulary.Proofs.NumberText

/-!
# Written formulas are read back

The text that is written for a tree is a formula, and the tree that it prescribes is the one it was
written for. So it is read back unless a bound is exceeded, and the bound on nesting is compared
with the brackets of the text.

* `Derivation.written` — the derivation of the text of a tree;
* `lexes_renderBefore` — the text of a tree is cut into the tokens of this derivation;
* `Expr.ofText_formula_of_le`, `Expr.ofText_formula_of_not_le` — the answer to the text of a tree,
  within the bounds and beyond them;
* `Expr.ofText_formula` — both together.
-/

namespace Formulary

/-! ## The derivation of a written formula -/

/-- Every number in the tree is finite. -/
def Expr.Finite : Expr Binary64 → Prop
  | number x => x.isFinite = true
  | constant _ | freeVariable => True
  | binary left _ right => left.Finite ∧ right.Finite
  | call _ arg => arg.Finite

namespace Derivation

/-- A sum of a single primary. -/
def single (d : Derivation .primary) : Derivation .sum := .ofProduct [] (.ofPower (.ofPrimary d))

/-- Two primaries with an operator between them. -/
def operation (left : Derivation .primary) (op : Operator) (right : Derivation .primary) :
    Derivation .sum :=
  match op with
  | .add => .join left.single .plus [] (.ofPower (.ofPrimary right))
  | .subtract => .join left.single .minus [] (.ofPower (.ofPrimary right))
  | .multiply =>
    .ofProduct [] (.scale (.ofPower (.ofPrimary left)) .multiply rfl (.ofPrimary right))
  | .divide => .ofProduct [] (.scale (.ofPower (.ofPrimary left)) .divide rfl (.ofPrimary right))
  | .power => .ofProduct [] (.ofPower (.raise (.ofPrimary left) right))

/-- A number as it is written: one with a sign is the negative of its absolute value, in
brackets. -/
def ofNumber (x : Binary64) : Derivation .primary :=
  if x.negative then .group (.ofProduct [.minus] (.ofPower (.ofPrimary (.number (-x)))))
  else .number x

/-- The derivation of the text that is written for a tree. -/
def written : Expr Binary64 → Derivation .primary
  | .number x => ofNumber x
  | .constant c => .constant c
  | .freeVariable => .freeVariable
  | .binary left op right => .group (operation (written left) op (written right))
  | .call f arg => .call f (written arg).single

section

variable (left right d : Derivation .primary) (op : Operator)

@[simp] theorem tokens_single : d.single.tokens = d.tokens := rfl

@[simp] theorem tree_single : d.single.tree = d.tree := rfl

@[simp] theorem nesting_single : d.single.nesting = d.nesting := rfl

@[simp] theorem tokens_operation :
    (operation left op right).tokens = left.tokens ++ .operator op :: right.tokens := by
  cases op <;> rfl

@[simp] theorem tree_operation :
    (operation left op right).tree = .binary left.tree op right.tree := by
  cases op <;> rfl

@[simp] theorem nesting_operation :
    (operation left op right).nesting = max left.nesting right.nesting := by
  cases op <;> rfl

end

theorem tree_ofNumber (x : Binary64) : (ofNumber x).tree = .number x := by
  rw [ofNumber]
  split
  · change Expr.number (- -x) = .number x
    rw [Binary64.neg_neg]
  · rfl

theorem nesting_ofNumber (x : Binary64) :
    (ofNumber x).nesting = (Expr.number x).bracketNesting := by
  rw [ofNumber, Expr.bracketNesting]
  split <;> rfl

/-- **What is written for a tree prescribes this tree.** -/
theorem tree_written (t : Expr Binary64) : (written t).tree = t := by
  induction t with
  | number x => exact tree_ofNumber x
  | constant | freeVariable => rfl
  | binary left op right ihl ihr => rw [written, tree, tree_operation, ihl, ihr]
  | call f arg ih => rw [written, tree, tree_single, ih]

/-- **As many brackets are open in it as the tree says.** -/
theorem nesting_written (t : Expr Binary64) : (written t).nesting = t.bracketNesting := by
  induction t with
  | number x => exact nesting_ofNumber x
  | constant | freeVariable => rfl
  | binary left op right ihl ihr =>
    rw [written, nesting, nesting_operation, ihl, ihr, Expr.bracketNesting]
  | call f arg ih => rw [written, nesting, nesting_single, ih, Expr.bracketNesting]

end Derivation

/-! ## Its tokens -/

section

variable (name : List Char) {more : List Char}

/-- The text of a number. -/
theorem lexes_renderNumber {x : Binary64} (hfinite : x.isFinite = true) (h : Delimited more) :
    Lexes name (Expr.renderNumber x ++ more) (Derivation.ofNumber x).tokens more := by
  rw [Expr.renderNumber, Derivation.ofNumber]
  rcases hsign : x.negative with _ | _
  · exact lexes_text hfinite hsign h name
  · -- the sign and the brackets are tokens of their own
    have hnumber : Lexes name ((-x).text ++ ')' :: more) [.number (-x)] (')' :: more) := by
      refine lexes_text (x := -x) hfinite ?_ (delimited_cons (c := ')') (by decide) more) name
      rw [Binary64.neg_negative, hsign]
      rfl
    have hlexes := (lexes_openBracket name _).append ((lexes_operator name .subtract _).append
      (hnumber.append (lexes_closeBracket name more)))
    have htext : "(-".toList ++ (-x).text ++ [')'] ++ more =
        '(' :: '-' :: ((-x).text ++ ')' :: more) := by simp
    rw [if_pos rfl, if_pos rfl, htext]
    exact hlexes

/-- **The text of a tree is cut into the tokens of its derivation**, whatever follows it in a
formula. -/
theorem lexes_renderBefore {settings : Settings} (hs : settings.check = .ok ())
    {t : Expr Binary64} (ht : t.Finite) (h : Delimited more) :
    Lexes settings.variableName.toList (t.renderBefore settings.variableName.toList more)
      (Derivation.written t).tokens more := by
  -- the text that follows changes from one part to the next
  induction t generalizing more with
  | number x => exact lexes_renderNumber _ ht h
  | constant c => exact lexes_constant _ c h
  | freeVariable => exact lexes_name hs h
  | binary left op right ihl ihr =>
    have hop : op.symbol ∈ delimiters := by cases op <;> decide
    rw [Expr.renderBefore, Derivation.written, Derivation.tokens, Derivation.tokens_operation]
    have hright := (ihr ht.2 (delimited_cons (by decide) more)).append (lexes_closeBracket _ more)
    have hleft := (ihl ht.1 (delimited_cons hop _)).append ((lexes_operator _ op _).append hright)
    simpa using (lexes_openBracket _ _).append hleft
  | call f arg ih =>
    rw [Expr.renderBefore, Derivation.written, Derivation.tokens, Derivation.tokens_single]
    have harg := (ih ht (delimited_cons (by decide) more)).append (lexes_closeBracket _ more)
    have hkeyword := lexes_keyword settings.variableName.toList f
      (delimited_cons (c := '(') (by decide) (arg.renderBefore settings.variableName.toList
        (')' :: more)))
    simpa using hkeyword.append ((lexes_openBracket _ _).append harg)

end

/-! ## The answer -/

namespace Expr

variable {settings : Settings} {t : Expr Binary64}

/-- The tokens of the text of a tree. -/
theorem tokensOf_formula (hs : settings.check = .ok ()) (ht : t.Finite) :
    tokensOf settings (t.formula settings.variableName) = (Derivation.written t).single.tokens := by
  have hcut := cut_ofText settings (t.formula settings.variableName)
  rw [formula, String.toList_ofList] at hcut
  exact (lexes_renderBefore hs ht delimited_nil).map_token_eq hcut

/-- The bounds that the text of a tree is compared with. -/
theorem fits_written (settings : Settings) (t : Expr Binary64) :
    (Derivation.written t).single.Fits settings.limits .start ↔
      t.bracketNesting ≤ settings.maxNesting ∧ t.depth ≤ settings.maxDepth ∧
        t.deltaNesting ≤ maxDeltaNesting := by
  rw [Derivation.fits_start_iff, Derivation.nesting_single, Derivation.tree_single,
    Derivation.nesting_written, Derivation.tree_written, and_comm (a := t.deltaNesting ≤ _)]
  rfl

/-- What is written for a tree is read back as this tree if the bounds allow it. -/
theorem ofText_formula_of_le (hs : settings.check = .ok ()) (ht : t.Finite)
    (hbounds : t.bracketNesting ≤ settings.maxNesting ∧ t.depth ≤ settings.maxDepth ∧
      t.deltaNesting ≤ maxDeltaNesting) :
    ofText settings (t.formula settings.variableName) = .ok t := by
  rw [ofText_of_fits hs (tokensOf_formula hs ht).symm ((fits_written settings t).mpr hbounds),
    Derivation.tree_single, Derivation.tree_written]

/-- Otherwise the answer is that it is nested too deeply. -/
theorem ofText_formula_of_not_le (hs : settings.check = .ok ()) (ht : t.Finite)
    (hbounds : ¬ (t.bracketNesting ≤ settings.maxNesting ∧ t.depth ≤ settings.maxDepth ∧
      t.deltaNesting ≤ maxDeltaNesting)) :
    ∃ position, ofText settings (t.formula settings.variableName) =
      .error ⟨.tooDeeplyNested, position⟩ := by
  rw [← fits_written] at hbounds
  exact ofText_of_not_fits hs (tokensOf_formula hs ht).symm hbounds

/-- **Reading undoes writing**: the text of a tree whose numbers are finite is read back as this
very tree if the bounds allow it, and otherwise the only answer is that it is nested too deeply. -/
theorem ofText_formula (hs : settings.check = .ok ()) (ht : t.Finite) :
    (t.bracketNesting ≤ settings.maxNesting ∧ t.depth ≤ settings.maxDepth ∧
        t.deltaNesting ≤ maxDeltaNesting →
      ofText settings (t.formula settings.variableName) = .ok t) ∧
    (¬ (t.bracketNesting ≤ settings.maxNesting ∧ t.depth ≤ settings.maxDepth ∧
        t.deltaNesting ≤ maxDeltaNesting) →
      ∃ position, ofText settings (t.formula settings.variableName) =
        .error ⟨.tooDeeplyNested, position⟩) :=
  ⟨ofText_formula_of_le hs ht, ofText_formula_of_not_le hs ht⟩

/-- A zero with a sign keeps its sign. -/
theorem ofText_formula_negativeZero :
    ofText { variableName := "t" } "((-0)^DELTA(t))" =
      .ok (.binary (.number (-0)) .power (.call .delta .freeVariable)) := by
  have htext : "((-0)^DELTA(t))" =
      formula "t" (.binary (.number (-0)) .power (.call .delta .freeVariable)) := by decide +kernel
  have hcheck : ({ variableName := "t" } : Settings).check = .ok () := rfl
  have hzero : (-0 : Binary64).isFinite = true := by decide +kernel
  have hfinite : Finite (.binary (.number (-0)) .power (.call .delta .freeVariable)) :=
    ⟨hzero, trivial⟩
  rw [htext]
  exact (ofText_formula hcheck hfinite).1 ⟨by decide, by decide, by decide⟩

end Expr

end Formulary
