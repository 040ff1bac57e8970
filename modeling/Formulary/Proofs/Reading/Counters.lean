import Formulary.Proofs.Reading.Sound

/-!
# What is counted as open

The reading counts brackets, calls and `E^` as they open and close. It may begin with counters that
are not zero, for an error leaves them as they are. What it adds to them is at any moment what it
has open itself, so it never takes off more than it has added.

* `Progress.Counts` — the counters are what they were at the beginning and what is open since;
* `Stage.Counts.next`, `Stage.Counts.after` — one step, and any number of steps;
* `Stage.Counts.finish` — where the end finishes the expression, nothing is open;
* `Progress.Covers` — the counters hold all that the next token can take off them;
* `Stage.within_next`, `Stage.within_after` — the counters do not exceed their bounds.
-/

namespace Formulary

namespace Progress

variable {limits : Limits} {p q : Progress} {node : Node} {opener : Opener} {nesting delta : Nat}

/-! ## What is open -/

/-- How many brackets, calls and `E^` are open in these brackets. -/
def nestingAround : List (Opener × Unfinished) → Nat
  | [] => 0
  | (_, around) :: enclosing => around.exponentials + 1 + nestingAround enclosing

/-- How many of these brackets are those of a `DELTA`. -/
def deltasAround : List (Opener × Unfinished) → Nat
  | [] => 0
  | (opener, _) :: enclosing => opener.deltas + deltasAround enclosing

/-- How many brackets, calls and `E^` a state has open. -/
def openNesting (p : Progress) : Nat := p.current.exponentials + nestingAround p.enclosing

/-- How many `DELTA` a state has open. -/
def openDeltas (p : Progress) : Nat := deltasAround p.enclosing

/-- The counters of a state are what they were before anything was read, and what is open since. -/
structure Counts (nesting delta : Nat) (p : Progress) : Prop where
  /-- brackets, calls and `E^` -/
  nesting : p.nesting = nesting + p.openNesting
  /-- `DELTA` -/
  delta : p.deltaNesting = delta + p.openDeltas

theorem counts_start (nesting delta : Nat) :
    Counts nesting delta { nesting := nesting, deltaNesting := delta } := ⟨rfl, rfl⟩

/-- An opening bracket. -/
theorem Counts.inside (h : p.Counts nesting delta) (opener : Opener) :
    (p.inside opener).Counts nesting delta := by
  have hnesting := h.nesting
  have hdelta := h.delta
  rw [openNesting] at hnesting
  rw [openDeltas] at hdelta
  constructor
  · simp only [Progress.inside, openNesting, nestingAround]
    omega
  · simp only [Progress.inside, openDeltas, deltasAround]
    omega

/-- The `E^` in front of a primary are closed with it. -/
theorem Counts.settled (h : p.Counts nesting delta) : p.settled.Counts nesting delta := by
  have hnesting := h.nesting
  rw [openNesting] at hnesting
  constructor
  · simp only [Progress.settled, openNesting]
    omega
  · exact h.delta

/-- An operator opens nothing. -/
theorem Counts.awaiting (h : p.Counts nesting delta) (hexp : p.current.exponentials = 0)
    (left : Node) (op : Operator) : (p.awaiting left op).Counts nesting delta := by
  have hnesting := h.nesting
  rw [openNesting, hexp] at hnesting
  cases op <;>
    exact ⟨by simpa [Progress.awaiting, openNesting, hexp] using hnesting, h.delta⟩

/-- A closing bracket. -/
theorem Counts.closed (h : p.Counts nesting delta) (hexp : p.current.exponentials = 0)
    {around : Unfinished} {enclosing : List (Opener × Unfinished)}
    (he : p.enclosing = (opener, around) :: enclosing) :
    (p.closed opener around enclosing).Counts nesting delta := by
  have hnesting := h.nesting
  have hdelta := h.delta
  simp only [openNesting, hexp, he, nestingAround] at hnesting
  simp only [openDeltas, he, deltasAround] at hdelta
  constructor
  · simp only [Progress.closed, openNesting]
    omega
  · simp only [Progress.closed, openDeltas]
    by_cases ho : opener = .call .delta
    · rw [Opener.deltas, if_pos ho] at hdelta
      rw [if_pos ho]
      omega
    · rw [Opener.deltas, if_neg ho] at hdelta
      rw [if_neg ho]
      omega

/-- The counters hold all that can be taken off them next: the `E^` in front of a primary, and then
the innermost bracket, with its `DELTA`. -/
structure Covers (p : Progress) : Prop where
  /-- the `E^` -/
  exponentials : p.current.exponentials ≤ p.nesting
  /-- the bracket -/
  bracket : ∀ bracket ∈ p.enclosing.head?, p.current.exponentials + 1 ≤ p.nesting ∧
    bracket.1.deltas ≤ p.deltaNesting

theorem Counts.covers (h : p.Counts nesting delta) : p.Covers := by
  have hnesting := h.nesting
  have hdelta := h.delta
  rw [openNesting] at hnesting
  rw [openDeltas] at hdelta
  constructor
  · omega
  · intro bracket hbracket
    obtain ⟨enclosing, he⟩ := List.head?_eq_some_iff.mp hbracket
    rw [he, nestingAround] at hnesting
    rw [he, deltasAround] at hdelta
    omega

/-! ## Bounds -/

/-- What has fewer open is within the same bounds. -/
theorem Within.of_le (hw : p.Within limits) (hnesting : q.nesting ≤ p.nesting)
    (hdelta : q.deltaNesting ≤ p.deltaNesting) : q.Within limits :=
  ⟨Nat.le_trans hnesting hw.nesting, Nat.le_trans hdelta hw.delta⟩

theorem nesting_of_applyExponentials_error {count : Nat}
    (h : p.applyExponentials limits count node = .error q) :
    q.nesting ≤ p.nesting ∧ q.deltaNesting = p.deltaNesting := by
  induction count generalizing p node with
  | zero => cases h
  | succ count ih =>
    rw [applyExponentials] at h
    rcases ha : limits.accept (.call (.pointwise .exp) node) with _ | n
    · simp only [ha] at h
      obtain rfl := Except.error.inj h
      exact ⟨Nat.sub_le _ _, rfl⟩
    · simp only [ha] at h
      obtain ⟨hnesting, hdelta⟩ := ih h
      exact ⟨Nat.le_trans hnesting (Nat.sub_le _ _), hdelta⟩

theorem bind_settleBy_eq_error {close : Unfinished → Node → Option Node}
    {result : Except Progress (Progress × Node)} (h : result >>= settleBy close = .error q) :
    result = .error q ∨ ∃ n, result = .ok (q, n) := by
  rcases result with r | ⟨p, n⟩
  · exact .inl h
  · have h : settleBy close (p, n) = .error q := h
    rw [settleBy] at h
    split at h
    · obtain rfl := Except.error.inj h
      exact .inr ⟨n, rfl⟩
    · cases h

/-- Settling opens nothing, also where it is refused. -/
theorem nesting_of_settleAt_error {level : Level} (h : p.settleAt limits node level = .error q) :
    q.nesting ≤ p.nesting ∧ q.deltaNesting = p.deltaNesting := by
  have hok {level : Level} {n : Node} (h : p.settleAt limits node level = .ok (q, n)) :
      q.nesting ≤ p.nesting ∧ q.deltaNesting = p.deltaNesting := by
    rw [eq_settled_of_settleAt h]
    exact ⟨Nat.sub_le _ _, rfl⟩
  -- every refusal shows where all levels are finished, so it is enough to go down from there
  have hsum := settleAt_error_of_le level.rank_le_sum h
  rw [settleAt_sum] at hsum
  rcases bind_settleBy_eq_error hsum with hproduct | ⟨n, hproduct⟩
  · rw [settleAt_product] at hproduct
    rcases bind_settleBy_eq_error hproduct with hpower | ⟨n, hpower⟩
    · rw [settleAt_power] at hpower
      rcases bind_settleBy_eq_error hpower with hprimary | ⟨n, hprimary⟩
      · exact nesting_of_applyExponentials_error hprimary
      · exact hok hprimary
    · exact hok hpower
  · exact hok hproduct

/-- A bracket is counted if the bounds allow it; where only its `DELTA` is too many, the bracket
stays counted. -/
theorem Within.opened (hw : p.Within limits) (opener : Opener) :
    (∀ q, p.opened limits opener = .ok q → q.Within limits) ∧
      ∀ q, p.opened limits opener = .error q → q.Within limits := by
  have hnesting := hw.nesting
  have hdelta := hw.delta
  rw [Progress.opened, deepen]
  by_cases hn : limits.nesting ≤ p.nesting
  · simp only [if_pos hn]
    exact ⟨by rintro q ⟨⟩, fun q hq => Except.error.inj hq ▸ hw⟩
  · simp only [if_neg hn, deepenDelta]
    by_cases ho : opener = .call .delta
    · by_cases hd : maxDeltaNesting ≤ p.deltaNesting
      · simp only [if_pos ho, if_pos hd]
        refine ⟨by rintro q ⟨⟩, ?_⟩
        rintro q ⟨⟩
        exact ⟨Nat.lt_of_not_le hn, hdelta⟩
      · simp only [if_pos ho, if_neg hd]
        refine ⟨?_, by rintro q ⟨⟩⟩
        rintro q ⟨⟩
        exact ⟨Nat.lt_of_not_le hn, Nat.lt_of_not_le hd⟩
    · simp only [if_neg ho]
      refine ⟨?_, by rintro q ⟨⟩⟩
      rintro q ⟨⟩
      exact ⟨Nat.lt_of_not_le hn, hdelta⟩

end Progress

namespace Stage

variable {limits : Limits} {s s' : Stage} {p q : Progress} {t : Token} {ts : List Token}
  {r : Refusal} {nesting delta : Nat}

/-- The state of a stage. -/
def progress : Stage → Progress
  | term p | keyword p _ | primary p _ | exceeded p => p

/-! ## Steps -/

/-- What one step does to the state: it changes nothing but a sign, opens a bracket or an `E^`, ends
the left side of an operator, or closes a bracket. -/
theorem next_cases (h : s.next limits t = .ok s') :
    (∀ p, s ≠ exceeded p) ∧
    ((∃ negative, s'.progress = { s.progress with
        current := { s.progress.current with negative := negative } }) ∨
      (∃ opener, s' = afterOpening limits s.progress opener) ∨
      s' = afterExponential limits s.progress ∨
      (∃ left op, s' = term (s.progress.settled.awaiting left op)) ∨
      ∃ whole, afterClosing limits s.progress.settled whole = .ok s') := by
  cases s with
  | exceeded p => cases h
  | keyword p f =>
    refine ⟨by rintro _ ⟨⟩, ?_⟩
    rw [next] at h
    split at h
    · obtain rfl := Except.ok.inj h
      exact .inr (.inl ⟨_, rfl⟩)
    · cases h
  | term p =>
    refine ⟨by rintro _ ⟨⟩, ?_⟩
    cases t with
    | number | constant | freeVariable | function =>
      obtain rfl := Except.ok.inj h
      exact .inl ⟨p.current.negative, rfl⟩
    | openBracket =>
      obtain rfl := Except.ok.inj h
      exact .inr (.inl ⟨_, rfl⟩)
    | exponential =>
      obtain rfl := Except.ok.inj h
      exact .inr (.inr (.inl rfl))
    | operator op =>
      rcases hp : p.signed? op with _ | q
      · simp only [next, beginTerm, hp] at h
        cases h
      · simp only [next, beginTerm, hp] at h
        obtain rfl := Except.ok.inj h
        cases op with
        | add | subtract =>
          obtain ⟨-, heq⟩ := Option.ite_none_right_eq_some.mp hp
          obtain rfl := Option.some.inj heq
          exact .inl ⟨_, rfl⟩
        | multiply | divide | power => cases hp
    | closeBracket | endOfText | illegal | unknown | malformed => cases h
  | primary p node =>
    refine ⟨by rintro _ ⟨⟩, ?_⟩
    rcases next_primary_cases h with
      ⟨op, q, left, -, hsettle, rfl⟩ | ⟨q, whole, -, hsettle, h⟩
    · obtain rfl := Progress.eq_settled_of_settleAt hsettle
      exact .inr (.inr (.inr (.inl ⟨left, op, rfl⟩)))
    · obtain rfl := Progress.eq_settled_of_settleAt hsettle
      exact .inr (.inr (.inr (.inr ⟨whole, h⟩)))

/-! ## What is counted -/

/-- The counters of a stage are what they were before anything was read, and what is open since.
Nothing is said of a stage that no token can lead out of. -/
def Counts (nesting delta : Nat) : Stage → Prop
  | exceeded _ => True
  | s => s.progress.Counts nesting delta

theorem counts_of_progress (h : s.progress.Counts nesting delta) : s.Counts nesting delta := by
  cases s with
  | exceeded p => trivial
  | term | keyword | primary => exact h

theorem Counts.progress (h : s.Counts nesting delta) (hs : ∀ p, s ≠ exceeded p) :
    s.progress.Counts nesting delta := by
  cases s with
  | exceeded p => exact absurd rfl (hs p)
  | term | keyword | primary => exact h

theorem counts_afterOpening (h : p.Counts nesting delta) (opener : Opener) :
    (afterOpening limits p opener).Counts nesting delta := by
  rw [afterOpening]
  rcases ho : p.opened limits opener with q | q
  · trivial
  · obtain rfl := Progress.eq_inside_of_opened ho
    exact h.inside opener

theorem counts_afterExponential (h : p.Counts nesting delta) :
    (afterExponential limits p).Counts nesting delta := by
  have hnesting := h.nesting
  rw [Progress.openNesting] at hnesting
  rw [afterExponential, Progress.deepen]
  by_cases hn : limits.nesting ≤ p.nesting
  · simp only [if_pos hn]
    trivial
  · simp only [if_neg hn]
    refine ⟨?_, h.delta⟩
    simp only [Stage.progress, Progress.openNesting]
    omega

theorem counts_afterClosing {whole : Node} (h : p.Counts nesting delta)
    (hexp : p.current.exponentials = 0) (hs : afterClosing limits p whole = .ok s') :
    s'.Counts nesting delta := by
  rcases he : p.enclosing with _ | ⟨⟨opener, around⟩, enclosing⟩
  · simp only [afterClosing, he] at hs
    cases hs
  · simp only [afterClosing, he] at hs
    split at hs <;>
    · obtain rfl := Except.ok.inj hs
      exact counts_of_progress (h.closed hexp he)

/-- **One step** takes off the counters what it closes, and adds to them what it opens. -/
theorem Counts.next (h : s.Counts nesting delta) (hs : s.next limits t = .ok s') :
    s'.Counts nesting delta := by
  obtain ⟨hexceeded, hcases⟩ := next_cases hs
  have h := h.progress hexceeded
  rcases hcases with ⟨negative, heq⟩ | ⟨opener, rfl⟩ | rfl | ⟨left, op, rfl⟩ | ⟨whole, hclosing⟩
  · refine counts_of_progress ?_
    rw [heq]
    exact ⟨h.nesting, h.delta⟩
  · exact counts_afterOpening h opener
  · exact counts_afterExponential h
  · exact h.settled.awaiting rfl left op
  · exact counts_afterClosing h.settled rfl hclosing

/-- **Any number of steps.** -/
theorem Counts.after (h : s.Counts nesting delta) (hs : s.after limits ts = .ok s') :
    s'.Counts nesting delta :=
  after_preserves Counts.next h hs

/-- **Where the end finishes the expression**, nothing is open any more. -/
theorem Counts.finish {whole : Node} (h : s.Counts nesting delta)
    (hs : s.finish limits = .ok (q, whole)) : q.nesting = nesting ∧ q.deltaNesting = delta := by
  cases s with
  | term | keyword | exceeded => cases hs
  | primary p node =>
    obtain ⟨hsettle, henclosing⟩ := finish_primary_eq_ok hs
    have h : p.Counts nesting delta := h
    obtain rfl := Progress.eq_settled_of_settleAt hsettle
    have hnesting := h.settled.nesting
    have hdelta := h.settled.delta
    rw [Progress.openNesting, henclosing] at hnesting
    rw [Progress.openDeltas, henclosing] at hdelta
    exact ⟨hnesting, hdelta⟩

/-! ## Bounds -/

theorem within_afterOpening (hw : p.Within limits) (opener : Opener) :
    (afterOpening limits p opener).progress.Within limits := by
  rw [afterOpening]
  rcases ho : p.opened limits opener with q | q
  · exact (hw.opened opener).2 q ho
  · exact (hw.opened opener).1 q ho

theorem within_afterExponential (hw : p.Within limits) :
    (afterExponential limits p).progress.Within limits := by
  rw [afterExponential, Progress.deepen]
  by_cases hn : limits.nesting ≤ p.nesting
  · simp only [if_pos hn]
    exact hw
  · simp only [if_neg hn]
    exact ⟨Nat.lt_of_not_le hn, hw.delta⟩

theorem within_afterClosing {whole : Node} (hw : p.Within limits)
    (hs : afterClosing limits p whole = .ok s') : s'.progress.Within limits := by
  rcases he : p.enclosing with _ | ⟨⟨opener, around⟩, enclosing⟩
  · simp only [afterClosing, he] at hs
    cases hs
  · have hclosed : (p.closed opener around enclosing).Within limits := by
      refine hw.of_le (Nat.sub_le _ _) ?_
      simp only [Progress.closed]
      split
      · exact Nat.sub_le _ _
      · exact Nat.le_refl _
    simp only [afterClosing, he] at hs
    split at hs <;>
    · obtain rfl := Except.ok.inj hs
      exact hclosed

/-- **One step** does not exceed the bounds. -/
theorem within_next (hw : s.progress.Within limits) (hs : s.next limits t = .ok s') :
    s'.progress.Within limits := by
  have hsettled : s.progress.settled.Within limits := hw.of_le (Nat.sub_le _ _) (Nat.le_refl _)
  obtain ⟨-, ⟨negative, heq⟩ | ⟨opener, rfl⟩ | rfl | ⟨left, op, rfl⟩ | ⟨whole, hclosing⟩⟩ :=
    next_cases hs
  · rw [heq]
    exact ⟨hw.nesting, hw.delta⟩
  · exact within_afterOpening hw opener
  · exact within_afterExponential hw
  · exact hsettled.awaiting left op
  · exact within_afterClosing hsettled hclosing

/-- **Any number of steps.** -/
theorem within_after (hw : s.progress.Within limits) (hs : s.after limits ts = .ok s') :
    s'.progress.Within limits :=
  after_preserves (P := fun s => s.progress.Within limits) within_next hw hs

/-- The end of the text opens nothing. -/
theorem within_finish {whole : Node} (hw : s.progress.Within limits)
    (hs : s.finish limits = .ok (q, whole)) : q.Within limits := by
  cases s with
  | term | keyword | exceeded => cases hs
  | primary p node =>
    obtain ⟨hsettle, -⟩ := finish_primary_eq_ok hs
    obtain rfl := Progress.eq_settled_of_settleAt hsettle
    exact hw.of_le (Nat.sub_le _ _) (Nat.le_refl _)

/-! ## Refusals -/

theorem progress_of_next_term (h : (term p).next limits t = .error r) : r.progress = p := by
  cases t with
  | number | constant | freeVariable | openBracket | function | exponential => cases h
  | operator op =>
    rcases hp : p.signed? op with _ | q
    · simp only [next, beginTerm, hp] at h
      obtain rfl := Except.error.inj h
      rfl
    · simp only [next, beginTerm, hp] at h
      cases h
  | closeBracket | endOfText | illegal | unknown | malformed =>
    obtain rfl := Except.error.inj h
    rfl

/-- After a primary a refusal shows where the levels in front of it are finished, or after that. -/
theorem progress_of_next_primary {node : Node} (h : (primary p node).next limits t = .error r) :
    (∃ level, p.settleAt limits node level = .error r.progress) ∨ r.progress = p.settled := by
  rcases hl : p.settleAt limits node t.level with q | ⟨q, whole⟩
  · rw [next_of_settleAt_error hl] at h
    obtain rfl := Except.error.inj h
    exact .inl ⟨_, hl⟩
  · obtain rfl := Progress.eq_settled_of_settleAt hl
    rcases t.cases_after_primary with ⟨op, rfl⟩ | rfl | ⟨hop, hclose⟩
    · rw [next_operator hl] at h
      cases h
    · rw [next_closeBracket hl] at h
      rcases he : p.settled.enclosing with _ | ⟨⟨opener, around⟩, enclosing⟩
      · simp only [afterClosing, he] at h
        obtain rfl := Except.error.inj h
        exact .inr rfl
      · simp only [afterClosing, he] at h
        split at h <;> cases h
    · rw [next_of_other hl hop hclose] at h
      obtain rfl := Except.error.inj h
      exact .inr rfl

theorem progress_of_finish_primary {node : Node} (h : (primary p node).finish limits = .error r) :
    (∃ level, p.settleAt limits node level = .error r.progress) ∨ r.progress = p.settled := by
  rcases hl : p.settleAt limits node .sum with q | ⟨q, whole⟩
  · rw [finish_of_settleAt_error hl] at h
    obtain rfl := Except.error.inj h
    exact .inl ⟨_, hl⟩
  · obtain rfl := Progress.eq_settled_of_settleAt hl
    by_cases he : p.settled.enclosing = []
    · rw [finish_primary hl he] at h
      cases h
    · rw [finish_primary_of_ne_nil hl he] at h
      obtain rfl := Except.error.inj h
      exact .inr rfl

/-- What a refusal leaves counted is within the bounds. -/
theorem Refuses.within {rest : List Located} (h : s.Refuses limits r rest)
    (hw : s.progress.Within limits) : r.progress.Within limits := by
  have hprimary {p : Progress} {node : Node} (hw : p.Within limits)
      (hr : (∃ level, p.settleAt limits node level = .error r.progress) ∨
        r.progress = p.settled) : r.progress.Within limits := by
    rcases hr with ⟨level, hr⟩ | hr
    · obtain ⟨hnesting, hdelta⟩ := Progress.nesting_of_settleAt_error hr
      exact hw.of_le hnesting (Nat.le_of_eq hdelta)
    · rw [hr]
      exact hw.of_le (Nat.sub_le _ _) (Nat.le_refl _)
  rcases rest with _ | ⟨t, rest⟩
  · have h : s.finish limits = .error r := h
    cases s with
    | primary p node => exact hprimary hw (progress_of_finish_primary h)
    | term | keyword | exceeded =>
      obtain rfl := Except.error.inj h
      exact hw
  · have h : s.next limits t.token = .error r := h
    cases s with
    | primary p node => exact hprimary hw (progress_of_next_primary h)
    | exceeded p =>
      obtain rfl := Except.error.inj h
      exact hw
    | keyword p f =>
      rw [next] at h
      split at h
      · cases h
      · obtain rfl := Except.error.inj h
        exact hw
    | term p =>
      rw [progress_of_next_term h]
      exact hw

end Stage

end Formulary
