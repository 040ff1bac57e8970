import Formulary.Proofs.Reading.Bounds
import Formulary.Proofs.Reading.Records

/-!
# What a stage has read

A stage of the reading stands for the tokens that have led to it: those of the expressions that are
open, from the outermost bracket to the innermost. A step of the reading adds one token to them.

* `Progress.Records`, `Stage.Records` — the tokens that a state stands for;
* `Stage.Records.next` — one step; `Stage.Records.after` — any number of steps;
* `Stage.Records.exists_derivation` — where the end finishes the expression, the tokens are those
  of a derivation, and the tree is the one that it prescribes;
* `Stage.Records.viable` — in any stage the tokens are the beginning of a formula.
-/

namespace Formulary

/-! ## The beginnings of formulas -/

/-- Tokens that are the beginning of some formula. -/
def Viable (ts : List Token) : Prop :=
  ∃ (d : Derivation .sum) (more : List Token), d.tokens = ts ++ more

theorem Viable.of_append {ts us : List Token} (h : Viable (ts ++ us)) : Viable ts := by
  obtain ⟨d, more, hd⟩ := h
  exact ⟨d, us ++ more, by rw [hd, List.append_assoc]⟩

/-! ## Open brackets -/

namespace Opener

/-- The tokens in front of the innermost open bracket, and the bracket. -/
def Encloses : List (Opener × Unfinished) → List Token → Prop
  | [], ts => ts = []
  | (opener, u) :: enclosing, ts => ∃ before us,
    Encloses enclosing before ∧ u.Records us ∧ ts = before ++ us ++ opener.tokens

/-- An expression inside brackets that are still open is the beginning of a formula. -/
theorem Encloses.viable {enclosing : List (Opener × Unfinished)} {ts : List Token}
    (h : Encloses enclosing ts) (d : Derivation .sum) : Viable (ts ++ d.tokens) := by
  induction enclosing generalizing ts d with
  | nil =>
    obtain rfl : ts = [] := h
    exact ⟨d, [], by simp⟩
  | cons bracket enclosing ih =>
    obtain ⟨opener, u⟩ := bracket
    obtain ⟨before, us, hbefore, hu, rfl⟩ := h
    -- closing the bracket makes a primary of it, and that completes the expression around it
    obtain ⟨d', htokens, -⟩ := Progress.exists_sum (p := { Progress.start with current := u }) hu
      (Node.expr_ofExpr (opener.derivation d).tree)
    have hviable := ih hbefore d'
    rw [htokens, opener.tokens_derivation] at hviable
    refine @Viable.of_append _ [.closeBracket] ?_
    simpa only [List.append_assoc] using hviable

end Opener

namespace Progress

variable {p q : Progress} {ts : List Token}

/-- The tokens that have been read up to a state. -/
def Records (p : Progress) (ts : List Token) : Prop :=
  ∃ before us, Opener.Encloses p.enclosing before ∧ p.current.Records us ∧ ts = before ++ us

theorem records_start : start.Records [] := ⟨[], [], rfl, Unfinished.records_nil, rfl⟩

/-- A primary can come wherever a term is awaited. -/
theorem Records.viable (h : p.Records ts) (d : Derivation .primary) :
    Viable (ts ++ d.tokens) := by
  obtain ⟨before, us, hbefore, hu, rfl⟩ := h
  obtain ⟨d', htokens, -⟩ := exists_sum hu (Node.expr_ofExpr d.tree)
  have hviable := hbefore.viable d'
  rwa [htokens, ← List.append_assoc] at hviable

theorem Records.inside (h : p.Records ts) (opener : Opener) :
    (p.inside opener).Records (ts ++ opener.tokens) := by
  obtain ⟨before, us, hbefore, hu, rfl⟩ := h
  exact ⟨_, [], ⟨before, us, hbefore, hu, rfl⟩, Unfinished.records_nil, by simp⟩

theorem eq_inside_of_opened {limits : Limits} {opener : Opener}
    (h : p.opened limits opener = .ok q) : q = p.inside opener := by
  rw [opened, deepen] at h
  by_cases hn : limits.nesting ≤ p.nesting
  · simp only [if_pos hn] at h
    cases h
  · simp only [if_neg hn, deepenDelta] at h
    by_cases ho : opener = .call .delta
    · by_cases hd : maxDeltaNesting ≤ p.deltaNesting
      · simp only [if_pos ho, if_pos hd] at h
        cases h
      · simp only [if_pos ho, if_neg hd] at h
        obtain rfl := Except.ok.inj h
        simp [Progress.inside, Opener.deltas, ho]
    · simp only [if_neg ho] at h
      obtain rfl := Except.ok.inj h
      simp [Progress.inside, Opener.deltas, ho]

end Progress

/-! ## Stages -/

namespace Stage

variable {limits : Limits} {s s' : Stage} {t : Token} {ts : List Token} {p q : Progress}

/-- The tokens that have led to a stage. -/
def Records : Stage → List Token → Prop
  | term p, ts => p.Records ts
  | keyword p f, ts => ∃ before, p.Records before ∧ ts = before ++ [.function f]
  | primary p node, ts => ∃ (before : List Token) (d : Derivation .primary),
    p.Records before ∧ node.expr = d.tree ∧ ts = before ++ d.tokens
  | exceeded _, ts => Viable ts

theorem records_start : (term .start).Records [] := Progress.records_start

/-- **In any stage the tokens are the beginning of a formula.** -/
theorem Records.viable (h : s.Records ts) : Viable ts := by
  -- any primary completes what awaits one
  cases s with
  | term p => exact (Progress.Records.viable h (.number 0)).of_append
  | keyword p f =>
    obtain ⟨before, hbefore, rfl⟩ := h
    have hviable := hbefore.viable (.call f (.ofProduct [] (.ofPower (.ofPrimary (.number 0)))))
    rw [Derivation.tokens, List.append_cons] at hviable
    exact hviable.of_append
  | primary p node =>
    obtain ⟨before, d, hbefore, -, rfl⟩ := h
    exact hbefore.viable d
  | exceeded p => exact h

/-- An opening bracket. -/
theorem records_afterOpening (h : p.Records ts) (opener : Opener) :
    (afterOpening limits p opener).Records (ts ++ opener.tokens) := by
  have hinside := h.inside opener
  rw [afterOpening]
  rcases ho : p.opened limits opener with q | q
  · exact Records.viable (s := term _) hinside
  · obtain rfl := Progress.eq_inside_of_opened ho
    exact hinside

/-- `E^`. -/
theorem records_afterExponential (h : p.Records ts) :
    (afterExponential limits p).Records (ts ++ [.exponential]) := by
  obtain ⟨before, us, hbefore, hu, rfl⟩ := h
  have hmore : ({ p with current := { p.current with
      exponentials := p.current.exponentials + 1 } } : Progress).Records
        (before ++ us ++ [.exponential]) :=
    ⟨before, _, hbefore, hu.exponential, by rw [List.append_assoc]⟩
  rw [afterExponential, Progress.deepen]
  by_cases hn : limits.nesting ≤ p.nesting
  · simp only [if_pos hn]
    exact Records.viable (s := term _) hmore
  · simp only [if_neg hn]
    exact hmore

/-- A closing bracket: the expression in front of it and the bracket make a primary. -/
theorem records_afterClosing {whole : Node} {before : List Token} {d : Derivation .sum}
    (hbefore : Opener.Encloses p.enclosing before) (htree : whole.expr = d.tree)
    (hs : afterClosing limits p whole = .ok s') :
    s'.Records (before ++ d.tokens ++ [.closeBracket]) := by
  rcases he : p.enclosing with _ | ⟨⟨opener, around⟩, enclosing⟩
  · simp only [afterClosing, he] at hs
    cases hs
  · rw [he] at hbefore
    obtain ⟨outer, vs, houter, hv, rfl⟩ := hbefore
    have hrecords : (p.closed opener around enclosing).Records (outer ++ vs) :=
      ⟨outer, vs, houter, hv, rfl⟩
    have htokens : outer ++ vs ++ opener.tokens ++ d.tokens ++ [.closeBracket] =
        outer ++ vs ++ (opener.derivation d).tokens := by
      simp only [opener.tokens_derivation, List.append_assoc]
    rw [htokens]
    simp only [afterClosing, he] at hs
    rcases hb : Progress.bracketed limits whole opener with _ | node
    · -- the call is too high: the tokens are still those of a primary
      rw [hb] at hs
      obtain rfl := Except.ok.inj hs
      exact hrecords.viable _
    · rw [hb] at hs
      obtain rfl := Except.ok.inj hs
      refine ⟨_, opener.derivation d, hrecords, ?_, rfl⟩
      cases opener with
      | group =>
        obtain rfl := Option.some.inj hb
        exact htree
      | call f =>
        rw [Limits.eq_of_accept hb]
        simp only [Node.call, htree, Opener.derivation, Derivation.tree]

/-- **One step**: a token that is not refused is one more token that has been read. -/
theorem Records.next (h : s.Records ts) (hs : s.next limits t = .ok s') :
    s'.Records (ts ++ [t]) := by
  cases s with
  | exceeded p => cases hs
  | keyword p f =>
    obtain ⟨before, hbefore, rfl⟩ := h
    rw [Stage.next] at hs
    split at hs
    · next ht =>
      obtain rfl := Except.ok.inj hs
      rw [ht, List.append_assoc]
      exact records_afterOpening hbefore (.call f)
    · cases hs
  | term p =>
    have h : p.Records ts := h
    cases t with
    | number x =>
      obtain rfl := Except.ok.inj hs
      exact ⟨ts, .number x, h, rfl, rfl⟩
    | constant c =>
      obtain rfl := Except.ok.inj hs
      exact ⟨ts, .constant c, h, rfl, rfl⟩
    | freeVariable =>
      obtain rfl := Except.ok.inj hs
      exact ⟨ts, .freeVariable, h, rfl, rfl⟩
    | openBracket =>
      obtain rfl := Except.ok.inj hs
      exact records_afterOpening h .group
    | function f =>
      obtain rfl := Except.ok.inj hs
      exact ⟨ts, h, rfl⟩
    | exponential =>
      obtain rfl := Except.ok.inj hs
      exact records_afterExponential h
    | operator op =>
      rcases hp : p.signed? op with _ | q
      · simp only [Stage.next, beginTerm, hp] at hs
        cases hs
      · simp only [Stage.next, beginTerm, hp] at hs
        obtain rfl := Except.ok.inj hs
        obtain ⟨before, us, hbefore, hu, rfl⟩ := h
        obtain ⟨hq, henclosing⟩ := Progress.records_signed hu hp
        refine ⟨before, _, ?_, hq, by rw [List.append_assoc]⟩
        rw [henclosing]
        exact hbefore
    | closeBracket | endOfText | illegal | unknown | malformed => cases hs
  | primary p node =>
    obtain ⟨_, d, ⟨before, us, hbefore, hu, rfl⟩, hnode, rfl⟩ := h
    rcases next_primary_cases hs with
      ⟨op, q, left, rfl, hsettle, rfl⟩ | ⟨q, whole, rfl, hsettle, hs⟩
    · refine ⟨before, _, ?_, Progress.records_awaiting hu hnode hsettle, by
        simp only [List.append_assoc]⟩
      rw [Progress.enclosing_awaiting, Progress.enclosing_of_settleAt hsettle]
      exact hbefore
    · obtain ⟨d', htokens, htree⟩ := Progress.exists_sum hu hnode
      have hq : Opener.Encloses q.enclosing before := by
        rw [Progress.enclosing_of_settleAt hsettle]
        exact hbefore
      have hrecords := records_afterClosing hq (htree limits q whole hsettle) hs
      rwa [htokens, ← List.append_assoc] at hrecords

/-- **Any number of steps.** -/
theorem Records.after {us : List Token} (h : s.Records ts) (hs : s.after limits us = .ok s') :
    s'.Records (ts ++ us) := by
  induction us generalizing s ts with
  | nil =>
    obtain rfl := Except.ok.inj hs
    rwa [List.append_nil]
  | cons t us ih =>
    obtain ⟨middle, hn, hlater⟩ := exists_of_after_cons hs
    have hrecords := ih (h.next hn) hlater
    rwa [List.append_assoc] at hrecords

/-- **Where the end finishes the expression**, the tokens are those of a derivation, and the tree is
the one that it prescribes. -/
theorem Records.exists_derivation {whole : Node} (h : s.Records ts)
    (hs : s.finish limits = .ok (q, whole)) :
    ∃ d : Derivation .sum, d.tokens = ts ∧ d.tree = whole.expr := by
  cases s with
  | term p => cases hs
  | keyword p f => cases hs
  | exceeded p => cases hs
  | primary p node =>
    obtain ⟨_, d, ⟨before, us, hbefore, hu, rfl⟩, hnode, rfl⟩ := h
    obtain ⟨d', htokens, htree⟩ := Progress.exists_sum hu hnode
    obtain ⟨hsettle, henclosing⟩ := finish_primary_eq_ok hs
    rw [Progress.enclosing_of_settleAt hsettle] at henclosing
    rw [henclosing] at hbefore
    obtain rfl : before = [] := hbefore
    exact ⟨d', htokens, (htree limits q whole hsettle).symm⟩

end Stage

end Formulary
