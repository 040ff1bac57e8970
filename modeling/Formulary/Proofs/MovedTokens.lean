import Formulary.Proofs.FirstError
import Formulary.Proofs.Reading.Wider
import Mathlib.Data.List.Forall2

/-!
# The same tokens at other places

A reading looks at tokens and not at their places, and of a token that is an error it only reports
which error it is. So two texts with such tokens in the same order have the same answer, but for the
place of an error.

* `Token.Alike` — tokens that a reading does not tell apart; `Located.Moved` — the same with their
  places;
* `Stage.run_moved` — a run over tokens that have been moved;
* `Expr.ofText_moved` — the answers to two texts with such tokens.
-/

namespace Formulary

/-! ## Tokens that are read alike -/

/-- Two tokens that a reading does not tell apart: they are the same, or both are errors and
reported as the same error. -/
def Token.Alike (t u : Token) : Prop :=
  t = u ∨ t.isError = true ∧ u.isError = true ∧
    ∀ kind, Progress.kindAt kind t = Progress.kindAt kind u

theorem Token.Alike.refl (t : Token) : t.Alike t := .inl rfl

theorem Token.Alike.isError_eq {t u : Token} (h : t.Alike u) : u.isError = t.isError := by
  rcases h with rfl | ⟨ht, hu, -⟩
  · rfl
  · rw [ht, hu]

/-- Tokens that are read alike, the place of the second being given by that of the first. -/
structure Located.Moved (move : Nat → Nat) (t u : Located) : Prop where
  /-- the tokens -/
  token : t.token.Alike u.token
  /-- the places -/
  start : u.start = move t.start

/-- An error at another place. -/
def SyntaxError.moved (move : Nat → Nat) (e : SyntaxError) : SyntaxError :=
  ⟨e.kind, move e.position⟩

namespace Stage

variable {limits : Limits} {s : Stage} {r : Refusal} {move : Nat → Nat}

/-- **A run over tokens that have been moved** has the same answer, but for the place of an error.
The place of the end matters only if no token is an error. -/
theorem run_moved {located moved : List Located}
    (h : List.Forall₂ (Located.Moved move) located moved) {finish finish' : Nat}
    (hfinish : (∀ t ∈ located, t.token.isError = false) → finish' = move finish) (s : Stage) :
    (s.run limits finish' moved).answer =
      (s.run limits finish located).answer.mapError (.moved move) := by
  induction h generalizing s with
  | nil =>
    rw [hfinish nofun, run, run]
    rcases s.finish limits with r | ⟨p, whole⟩ <;> rfl
  | @cons t u located moved htu _ ih =>
    rw [run, run]
    rcases htu.token with heq | ⟨ht, hu, hkind⟩
    · rw [← heq]
      rcases hn : s.next limits t.token with r | s'
      · simp only [Refusal.outcome, Progress.errorAt, heq, htu.start]
        rfl
      · -- a token that is read is no error
        refine ih (fun herrors => hfinish ?_) s'
        exact List.forall_mem_cons.mpr ⟨not_isError_of_next hn, herrors⟩
    · obtain ⟨r, hr⟩ := exists_next_error ht limits s
      obtain ⟨r', hr'⟩ := exists_next_error hu limits s
      rw [hr, hr']
      simp only [Refusal.outcome, Progress.errorAt, htu.start, ← hkind,
        Progress.kindAt_of_isError ht r'.kind r.kind]
      rfl

/-! ## Errors of a reading -/

/-- No reading that has begun finds nothing to read. -/
theorem Refuses.kind_ne_emptyFormula {rest : List Located} (h : s.Refuses limits r rest) :
    r.kind ≠ .emptyFormula := by
  intro hempty
  have hdeep : r.kind ≠ .tooDeeplyNested := by
    rw [hempty]
    decide
  rcases rest with _ | ⟨t, rest⟩
  · have h : s.finish limits = .error r := h
    cases s with
    | primary p node =>
      obtain ⟨-, hkind⟩ := kind_of_finish_primary h hdeep
      rw [hkind] at hempty
      cases hempty
    | term | keyword | exceeded =>
      obtain rfl := Except.error.inj h
      cases hempty
  · have h : s.next limits t.token = .error r := h
    cases s with
    | term p =>
      rw [kind_of_next_term h] at hempty
      cases hempty
    | keyword p f =>
      rw [(kind_of_next_keyword h).2] at hempty
      cases hempty
    | primary p node =>
      rcases kind_of_next_primary h hdeep with ⟨-, -, hkind⟩ | ⟨-, -, hkind⟩ <;>
      · rw [hkind] at hempty
        cases hempty
    | exceeded p =>
      obtain rfl := Except.error.inj h
      cases hempty

end Stage

theorem Progress.kindAt_ne_emptyFormula {kind : SyntaxErrorKind} (h : kind ≠ .emptyFormula)
    (t : Token) : kindAt kind t ≠ .emptyFormula := by
  cases t with
  | illegal | unknown | malformed => exact nofun
  | number | constant | freeVariable | operator | openBracket | closeBracket | function
  | exponential | endOfText => exact h

/-! ## Texts -/

namespace Expr

variable {settings settings' : Settings} {text text' : String} {move : Nat → Nat} {e : SyntaxError}

/-- A text with tokens never has the error that there is nothing to read. -/
theorem kind_ne_emptyFormula_of_ofText (hnil : locatedOf settings text ≠ [])
    (h : ofText settings text = .error e) : e.kind ≠ .emptyFormula := by
  obtain ⟨before, rest, s, r, -, -, hrefuses, rfl⟩ := exists_refusal_of_ofText hnil h
  have hkind := hrefuses.kind_ne_emptyFormula
  cases rest with
  | nil => exact hkind
  | cons t rest => exact Progress.kindAt_ne_emptyFormula hkind t.token

/-- **Two texts with the same tokens in the same order** have the same answer, but for the place of
an error. -/
theorem ofText_moved (hlimits : settings'.limits = settings.limits)
    (h : List.Forall₂ (Located.Moved move) (locatedOf settings text) (locatedOf settings' text'))
    (hfinish : (∀ t ∈ locatedOf settings text, t.token.isError = false) →
      finishOf settings' text' = move (finishOf settings text))
    (hnil : locatedOf settings text ≠ []) :
    ofText settings' text' = (ofText settings text).mapError (.moved move) := by
  have hnil' : locatedOf settings' text' ≠ [] := by
    intro hnil'
    rw [hnil'] at h
    exact hnil (List.forall₂_nil_right_iff.mp h)
  rw [ofText_eq_run hnil, ofText_eq_run hnil', hlimits]
  exact Stage.run_moved h hfinish _

end Expr

end Formulary
