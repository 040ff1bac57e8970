import Formulary.Proofs.Reading.Steps

/-!
# Reading under wider bounds

No state of the reading holds a bound: bounds only decide whether a step is made. So a step that is
made under some bounds is made under wider ones, and leads to the same stage, unless the token has
exceeded a bound; and a token that is refused for another reason than a bound is refused for the
same reason.

* `Limits.accept_mono`, …, `Progress.settleAt_mono` — what succeeds still succeeds;
* `Stage.Widened` — the stages that one token leads to under some bounds and under wider ones;
* `Stage.next_mono`, `Stage.after_mono` — one step, and any number of steps;
* `Stage.Refuses.mono`, `Stage.finish_mono` — where the reading ends.
-/

namespace Formulary

/-- Bounds are compared one by one. -/
instance : LE Limits := ⟨fun limits wider => limits.nesting ≤ wider.nesting ∧
  limits.depth ≤ wider.depth⟩

variable {limits wider : Limits}

/-! ## Trees -/

theorem Limits.accept_mono (hle : limits ≤ wider) {node n : Node}
    (h : limits.accept node = some n) : wider.accept node = some n := by
  have hdepth : limits.depth ≤ wider.depth := hle.2
  rw [accept] at h ⊢
  split at h
  · cases h
  · rw [if_neg (by omega)]
    exact h

theorem Limits.negate_mono (hle : limits ≤ wider) {node n : Node}
    (h : limits.negate node = some n) : wider.negate node = some n := by
  obtain ⟨expr, depth, rfl⟩ := node
  cases expr with
  | number x => exact h
  | constant | freeVariable | binary | call => exact accept_mono hle h

namespace Unfinished

variable {u : Unfinished} {node n : Node}

theorem closePower_mono (hle : limits ≤ wider) (h : u.closePower limits node = some n) :
    u.closePower wider node = some n := by
  rcases hu : u.power with _ | left
  · rw [closePower_none hu] at h ⊢
    exact h
  · rw [closePower_some hu] at h ⊢
    exact Limits.accept_mono hle h

theorem closeProduct_mono (hle : limits ≤ wider) (h : u.closeProduct limits node = some n) :
    u.closeProduct wider node = some n := by
  rcases hu : u.product with _ | ⟨left, op⟩
  · rw [closeProduct_none hu] at h ⊢
    exact h
  · rw [closeProduct_some hu] at h ⊢
    exact Limits.accept_mono hle h

theorem closeSum_mono (hle : limits ≤ wider) (h : u.closeSum limits node = some n) :
    u.closeSum wider node = some n := by
  rcases hu : u.sum with _ | left
  · rw [closeSum_none hu] at h ⊢
    split at h
    · next hneg =>
      rw [if_pos hneg]
      exact Limits.negate_mono hle h
    · next hneg =>
      rw [if_neg hneg]
      exact h
  · rw [closeSum_some hu] at h ⊢
    exact Limits.accept_mono hle h

end Unfinished

/-! ## States -/

namespace Progress

variable {p q : Progress} {node n : Node} {level : Level} {opener : Opener}

theorem applyExponentials_mono (hle : limits ≤ wider) {count : Nat}
    (h : p.applyExponentials limits count node = .ok (q, n)) :
    p.applyExponentials wider count node = .ok (q, n) := by
  induction count generalizing p node with
  | zero => exact h
  | succ count ih =>
    rw [applyExponentials] at h ⊢
    rcases ha : limits.accept (.call (.pointwise .exp) node) with _ | m
    · simp only [ha] at h
      cases h
    · simp only [ha] at h
      simp only [Limits.accept_mono hle ha]
      exact ih h

/-- One more level under wider bounds. -/
theorem bind_settleBy_mono {close close' : Unfinished → Node → Option Node}
    {result result' : Except Progress (Progress × Node)}
    (hresult : ∀ m, result = .ok (q, m) → result' = .ok (q, m))
    (hclose : ∀ m, close q.current m = some n → close' q.current m = some n)
    (h : result >>= settleBy close = .ok (q, n)) :
    result' >>= settleBy close' = .ok (q, n) := by
  obtain ⟨m, hm, hn⟩ := bind_settleBy_eq_ok h
  rw [hresult m hm]
  exact settleBy_some (hclose m hn)

/-- What can be finished under some bounds can be finished under wider ones. -/
theorem settleAt_mono (hle : limits ≤ wider) (h : p.settleAt limits node level = .ok (q, n)) :
    p.settleAt wider node level = .ok (q, n) := by
  -- each level is finished from the one before it
  have hprimary (n : Node) (h : p.settleAt limits node .primary = .ok (q, n)) :
      p.settleAt wider node .primary = .ok (q, n) := applyExponentials_mono hle h
  have hpower (n : Node) (h : p.settleAt limits node .power = .ok (q, n)) :
      p.settleAt wider node .power = .ok (q, n) :=
    bind_settleBy_mono hprimary (fun m => Unfinished.closePower_mono hle) h
  have hproduct (n : Node) (h : p.settleAt limits node .product = .ok (q, n)) :
      p.settleAt wider node .product = .ok (q, n) :=
    bind_settleBy_mono hpower (fun m => Unfinished.closeProduct_mono hle) h
  cases level with
  | primary => exact hprimary n h
  | power => exact hpower n h
  | product => exact hproduct n h
  | sum => exact bind_settleBy_mono hproduct (fun m => Unfinished.closeSum_mono hle) h

theorem deepen_mono (hle : limits ≤ wider) (h : p.deepen limits = some q) :
    p.deepen wider = some q := by
  have hnesting : limits.nesting ≤ wider.nesting := hle.1
  rw [deepen] at h ⊢
  split at h
  · cases h
  · rw [if_neg (by omega)]
    exact h

theorem opened_mono (hle : limits ≤ wider) (h : p.opened limits opener = .ok q) :
    p.opened wider opener = .ok q := by
  rw [opened] at h ⊢
  rcases hd : p.deepen limits with _ | p₁
  · simp only [hd] at h
    cases h
  · simp only [hd] at h
    simp only [deepen_mono hle hd]
    exact h

theorem bracketed_mono (hle : limits ≤ wider) (h : bracketed limits node opener = some n) :
    bracketed wider node opener = some n := by
  cases opener with
  | group => exact h
  | call f => exact Limits.accept_mono hle h

end Progress

/-! ## Stages -/

namespace Stage

variable {s s' : Stage} {p : Progress} {t : Token} {ts : List Token} {r : Refusal}

/-- A stage under some bounds and the stage under wider bounds: they are the same unless a bound has
been exceeded. -/
def Widened (s s' : Stage) : Prop := s' = s ∨ ∃ p, s = exceeded p

theorem Widened.refl (s : Stage) : s.Widened s := .inl rfl

theorem widened_exceeded (p : Progress) (s : Stage) : (exceeded p).Widened s := .inr ⟨p, rfl⟩

theorem widened_afterOpening (hle : limits ≤ wider) (p : Progress) (opener : Opener) :
    (afterOpening limits p opener).Widened (afterOpening wider p opener) := by
  rw [afterOpening, afterOpening]
  rcases ho : p.opened limits opener with q | q
  · exact widened_exceeded q _
  · simp only [Progress.opened_mono hle ho]
    exact .refl _

theorem widened_afterExponential (hle : limits ≤ wider) (p : Progress) :
    (afterExponential limits p).Widened (afterExponential wider p) := by
  rw [afterExponential, afterExponential]
  rcases hd : p.deepen limits with _ | q
  · exact widened_exceeded p _
  · simp only [Progress.deepen_mono hle hd]
    exact .refl _

theorem afterClosing_mono (hle : limits ≤ wider) {whole : Node}
    (h : afterClosing limits p whole = .ok s) :
    ∃ s', afterClosing wider p whole = .ok s' ∧ s.Widened s' := by
  rcases he : p.enclosing with _ | ⟨⟨opener, around⟩, enclosing⟩
  · simp only [afterClosing, he] at h
    cases h
  · simp only [afterClosing, he] at h ⊢
    rcases hb : Progress.bracketed limits whole opener with _ | node
    · simp only [hb] at h
      obtain rfl := Except.ok.inj h
      rcases Progress.bracketed wider whole opener with _ | node
      · exact ⟨_, rfl, widened_exceeded _ _⟩
      · exact ⟨_, rfl, widened_exceeded _ _⟩
    · simp only [hb] at h
      obtain rfl := Except.ok.inj h
      rw [Progress.bracketed_mono hle hb]
      exact ⟨_, rfl, .refl _⟩

/-- Whether a bracket is open that can be closed is no matter of bounds. -/
theorem afterClosing_error_mono {whole : Node} (h : afterClosing limits p whole = .error r)
    (wider : Limits) : afterClosing wider p whole = .error r := by
  rcases he : p.enclosing with _ | ⟨⟨opener, around⟩, enclosing⟩
  · simp only [afterClosing, he] at h ⊢
    exact h
  · simp only [afterClosing, he] at h
    split at h <;> cases h

/-- **One step.** A token that is not refused is not refused under wider bounds either. -/
theorem next_mono (hle : limits ≤ wider) (h : s.next limits t = .ok s') :
    ∃ s'', s.next wider t = .ok s'' ∧ s'.Widened s'' := by
  cases s with
  | exceeded p => cases h
  | keyword p f =>
    rw [next] at h ⊢
    split at h
    · next ht =>
      obtain rfl := Except.ok.inj h
      exact ⟨_, if_pos ht, widened_afterOpening hle p _⟩
    · cases h
  | term p =>
    cases t with
    | number | constant | freeVariable | function => exact ⟨_, h, .refl _⟩
    | openBracket =>
      obtain rfl := Except.ok.inj h
      exact ⟨_, rfl, widened_afterOpening hle p _⟩
    | exponential =>
      obtain rfl := Except.ok.inj h
      exact ⟨_, rfl, widened_afterExponential hle p⟩
    | operator op => exact ⟨_, h, .refl _⟩
    | closeBracket | endOfText | illegal | unknown | malformed => cases h
  | primary p node =>
    rcases next_primary_cases h with
      ⟨op, q, left, rfl, hsettle, rfl⟩ | ⟨q, whole, rfl, hsettle, hclosing⟩
    · exact ⟨_, next_operator (Progress.settleAt_mono hle hsettle), .refl _⟩
    · rw [next_closeBracket (Progress.settleAt_mono hle hsettle)]
      exact afterClosing_mono hle hclosing

/-- **Any number of steps.** -/
theorem after_mono (hle : limits ≤ wider) (h : s.after limits ts = .ok s') :
    ∃ s'', s.after wider ts = .ok s'' ∧ s'.Widened s'' := by
  induction ts generalizing s with
  | nil =>
    obtain rfl := Except.ok.inj h
    exact ⟨s, rfl, .refl _⟩
  | cons t ts ih =>
    obtain ⟨middle, hn, hlater⟩ := exists_of_after_cons h
    obtain ⟨middle', hn', rfl | ⟨p, rfl⟩⟩ := next_mono hle hn
    · rw [after_cons_ok hn']
      exact ih hlater
    · -- a bound has been exceeded, so this was the last token
      cases ts with
      | nil =>
        obtain rfl := Except.ok.inj hlater
        exact ⟨middle', after_cons_ok hn' [], widened_exceeded p _⟩
      | cons t' ts =>
        rw [after_cons_error (r := ⟨.tooDeeplyNested, p⟩) rfl] at hlater
        cases hlater

/-! ### Where the reading ends -/

/-- A token that is refused, but not for a bound, is refused for the same reason. -/
theorem next_error_mono (hle : limits ≤ wider) (h : s.next limits t = .error r)
    (hr : r.kind ≠ .tooDeeplyNested) : s.next wider t = .error r := by
  cases s with
  | exceeded p =>
    obtain rfl := Except.error.inj h
    exact absurd rfl hr
  | keyword p f =>
    rw [next] at h ⊢
    split at h
    · cases h
    · next ht =>
      rw [if_neg ht]
      exact h
  | term p =>
    cases t with
    | number | constant | freeVariable | openBracket | function | exponential => cases h
    | operator | closeBracket | endOfText | illegal | unknown | malformed => exact h
  | primary p node =>
    rcases hl : p.settleAt limits node t.level with q | ⟨q, whole⟩
    · rw [next_of_settleAt_error hl] at h
      obtain rfl := Except.error.inj h
      exact absurd rfl hr
    · have hl' := Progress.settleAt_mono hle hl
      rcases t.cases_after_primary with ⟨op, rfl⟩ | rfl | ⟨hop, hclose⟩
      · rw [next_operator hl] at h
        cases h
      · rw [next_closeBracket hl] at h
        rw [next_closeBracket hl']
        exact afterClosing_error_mono h wider
      · rw [next_of_other hl hop hclose] at h
        rw [next_of_other hl' hop hclose]
        exact h

/-- The end finishes the expression under wider bounds too. -/
theorem finish_mono (hle : limits ≤ wider) {whole : Node} (h : s.finish limits = .ok (p, whole)) :
    s.finish wider = .ok (p, whole) := by
  cases s with
  | term | keyword | exceeded => cases h
  | primary q node =>
    obtain ⟨hsettle, henclosing⟩ := finish_primary_eq_ok h
    exact finish_primary (Progress.settleAt_mono hle hsettle) henclosing

theorem finish_error_mono (hle : limits ≤ wider) (h : s.finish limits = .error r)
    (hr : r.kind ≠ .tooDeeplyNested) : s.finish wider = .error r := by
  cases s with
  | term | keyword | exceeded => exact h
  | primary p node =>
    rcases hl : p.settleAt limits node .sum with q | ⟨q, whole⟩
    · rw [finish_of_settleAt_error hl] at h
      obtain rfl := Except.error.inj h
      exact absurd rfl hr
    · have hl' := Progress.settleAt_mono hle hl
      by_cases he : q.enclosing = []
      · rw [finish_primary hl he] at h
        cases h
      · rw [finish_primary_of_ne_nil hl he] at h
        rw [finish_primary_of_ne_nil hl' he]
        exact h

/-- **What is refused, but not for a bound**, is refused for the same reason. -/
theorem Refuses.mono (hle : limits ≤ wider) {rest : List Located}
    (h : s.Refuses limits r rest) (hr : r.kind ≠ .tooDeeplyNested) :
    s.Refuses wider r rest := by
  cases rest with
  | nil => exact finish_error_mono hle h hr
  | cons t rest => exact next_error_mono hle h hr

/-- Once a bound is exceeded, nothing else is ever reported. -/
theorem Refuses.kind_of_exceeded {rest : List Located}
    (h : (exceeded p).Refuses limits r rest) : r.kind = .tooDeeplyNested := by
  cases rest <;>
  · obtain rfl := Except.error.inj h
    rfl

/-- No token that is an error is ever read. -/
theorem not_isError_of_next (h : s.next limits t = .ok s') : t.isError = false := by
  cases s with
  | exceeded p => cases h
  | keyword p f =>
    rw [next] at h
    split at h
    · next hopen =>
      rw [hopen]
      rfl
    · cases h
  | term p =>
    cases t with
    | illegal | unknown | malformed => cases h
    | number | constant | freeVariable | operator | openBracket | closeBracket | function
    | exponential | endOfText => rfl
  | primary p node =>
    rcases next_primary_cases h with ⟨op, _, _, rfl, -⟩ | ⟨_, _, rfl, -⟩ <;> rfl

/-- A token that is an error is refused in every stage, whatever the bounds are. -/
theorem exists_next_error (ht : t.isError = true) (limits : Limits) (s : Stage) :
    ∃ r, s.next limits t = .error r := by
  rcases hn : s.next limits t with r | s'
  · exact ⟨r, rfl⟩
  · rw [not_isError_of_next hn] at ht
    cases ht

end Stage

end Formulary
