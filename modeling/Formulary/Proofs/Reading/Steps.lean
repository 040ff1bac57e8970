import Formulary.Proofs.Reading.Settle

/-!
# Reading token by token

The reading is a run of single steps, and what a list of tokens does is what its parts do one after
the other:

* `Stage.after` — the stage after some tokens, or the first refusal;
* `Stage.exists_split` — every run stops at one place, before which no token is refused;
* `Stage.exists_refusal_of_run` — the error of a run is a refusal at that place;
* `Stage.Blocked` — a stage that no token can lead out of because a bound is exceeded there. Every
  token that leaves the level of the excess complete is refused (`Blocked.next`), and so is the end
  of the text (`Blocked.finish`).
-/

namespace Formulary

/-- At a token that stands for itself, an error is reported as it is. -/
theorem Progress.kindAt_of_not_isError {t : Token} (h : t.isError = false)
    (kind : SyntaxErrorKind) : kindAt kind t = kind := by
  cases t with
  | illegal | unknown | malformed => cases h
  | number | constant | freeVariable | operator | openBracket | closeBracket | function
  | exponential | endOfText => rfl

/-- A token that is an error decides alone what is reported at it. -/
theorem Progress.kindAt_of_isError {t : Token} (h : t.isError = true)
    (kind other : SyntaxErrorKind) : kindAt kind t = kindAt other t := by
  cases t with
  | illegal | unknown | malformed => rfl
  | number | constant | freeVariable | operator | openBracket | closeBracket | function
  | exponential | endOfText => cases h

namespace Stage

variable {limits : Limits} {s s' : Stage} {t : Token} {ts us : List Token} {r : Refusal}

/-! ## Lists of tokens -/

/-- The stage after some tokens, or the first refusal. -/
def after (limits : Limits) (s : Stage) (ts : List Token) : Except Refusal Stage :=
  ts.foldlM (next limits) s

@[simp] theorem after_nil (limits : Limits) (s : Stage) : s.after limits [] = .ok s := rfl

theorem after_cons_ok (h : s.next limits t = .ok s') (ts : List Token) :
    s.after limits (t :: ts) = s'.after limits ts := by
  rw [after, List.foldlM_cons, h]
  rfl

theorem after_cons_error (h : s.next limits t = .error r) (ts : List Token) :
    s.after limits (t :: ts) = .error r := by
  rw [after, List.foldlM_cons, h]
  rfl

/-- Where a list of tokens is read, its first token is, and then the rest. -/
theorem exists_of_after_cons (h : s.after limits (t :: ts) = .ok s') :
    ∃ middle, s.next limits t = .ok middle ∧ middle.after limits ts = .ok s' := by
  rcases hn : s.next limits t with r | middle
  · rw [after_cons_error hn] at h
    cases h
  · rw [after_cons_ok hn] at h
    exact ⟨middle, rfl, h⟩

/-- What every step preserves is preserved by any number of steps. -/
theorem after_preserves {P : Stage → Prop}
    (hnext : ∀ {s s' t}, P s → s.next limits t = .ok s' → P s') (hs : P s)
    (h : s.after limits ts = .ok s') : P s' := by
  induction ts generalizing s with
  | nil =>
    obtain rfl := Except.ok.inj h
    exact hs
  | cons t ts ih =>
    obtain ⟨middle, hn, hlater⟩ := exists_of_after_cons h
    exact ih (hnext hs hn) hlater

theorem after_append_ok (h : s.after limits ts = .ok s') (us : List Token) :
    s.after limits (ts ++ us) = s'.after limits us := by
  rw [after] at h
  rw [after, List.foldlM_append, h]
  rfl

theorem after_append_error (h : s.after limits ts = .error r) (us : List Token) :
    s.after limits (ts ++ us) = .error r := by
  rw [after] at h
  rw [after, List.foldlM_append, h]
  rfl

/-- A list is refused at one of its tokens. -/
theorem exists_of_after_error {located : List Located}
    (h : s.after limits (located.map Located.token) = .error r) :
    ∃ before t rest s', located = before ++ t :: rest ∧
      s.after limits (before.map Located.token) = .ok s' ∧
      s'.next limits t.token = .error r := by
  induction located generalizing s with
  | nil => cases h
  | cons t rest ih =>
    rcases hn : s.next limits t.token with r' | s₁
    · rw [List.map_cons, after_cons_error hn] at h
      obtain rfl := Except.error.inj h
      exact ⟨[], t, rest, s, rfl, rfl, hn⟩
    · rw [List.map_cons, after_cons_ok hn] at h
      obtain ⟨before, t', rest', s', rfl, hafter, hnext⟩ := ih h
      refine ⟨t :: before, t', rest', s', rfl, ?_, hnext⟩
      rw [List.map_cons, after_cons_ok hn]
      exact hafter

/-! ## The run -/

theorem run_append {before : List Located}
    (h : s.after limits (before.map Located.token) = .ok s') (finish : Nat)
    (rest : List Located) :
    s.run limits finish (before ++ rest) = s'.run limits finish rest := by
  induction before generalizing s with
  | nil =>
    obtain rfl := Except.ok.inj h
    rfl
  | cons t before ih =>
    obtain ⟨middle, hn, hlater⟩ := exists_of_after_cons h
    rw [List.cons_append, run, hn]
    exact ih hlater

/-- The refusal that a stage has for what is left: for the next token, or for the end. -/
def Refuses (limits : Limits) (s : Stage) (r : Refusal) : List Located → Prop
  | [] => s.finish limits = .error r
  | t :: _ => s.next limits t.token = .error r

theorem run_of_refuses {rest : List Located} (h : s.Refuses limits r rest) (finish : Nat) :
    s.run limits finish rest = r.outcome finish rest := by
  cases rest with
  | nil =>
    rw [Refuses] at h
    rw [run, h]
  | cons t rest =>
    rw [Refuses] at h
    rw [run, h]

/-- **A run stops at one place**: all tokens are read and the end finishes the expression, or what
comes after some of them is refused. -/
theorem exists_split (limits : Limits) (s : Stage) (located : List Located) :
    (∃ s' p whole, s.after limits (located.map Located.token) = .ok s' ∧
      s'.finish limits = .ok (p, whole)) ∨
    ∃ before rest s' r, located = before ++ rest ∧
      s.after limits (before.map Located.token) = .ok s' ∧ s'.Refuses limits r rest := by
  induction located generalizing s with
  | nil =>
    rcases hf : s.finish limits with r | ⟨p, whole⟩
    · exact .inr ⟨[], [], s, r, rfl, rfl, hf⟩
    · exact .inl ⟨s, p, whole, rfl, hf⟩
  | cons t rest ih =>
    rcases hn : s.next limits t.token with r | s₁
    · exact .inr ⟨[], t :: rest, s, r, rfl, rfl, hn⟩
    · rcases ih s₁ with ⟨s', p, whole, hafter, hf⟩ | ⟨before, rest', s', r, rfl, hafter, hr⟩
      · refine .inl ⟨s', p, whole, ?_, hf⟩
        rw [List.map_cons, after_cons_ok hn]
        exact hafter
      · refine .inr ⟨t :: before, rest', s', r, rfl, ?_, hr⟩
        rw [List.map_cons, after_cons_ok hn]
        exact hafter

theorem answer_of_refuses {rest : List Located} (h : s.Refuses limits r rest) (finish : Nat) :
    (s.run limits finish rest).answer = .error (Progress.errorAt finish r.kind rest) := by
  rw [run_of_refuses h]
  rfl

/-- Once all tokens are read, only the end is left. -/
theorem run_of_after {located : List Located}
    (h : s.after limits (located.map Located.token) = .ok s') (finish : Nat) :
    s.run limits finish located = s'.run limits finish [] := by
  have hrun := run_append h finish []
  rwa [List.append_nil] at hrun

theorem answer_of_finish {located : List Located} {p : Progress} {whole : Node}
    (hafter : s.after limits (located.map Located.token) = .ok s')
    (hfinish : s'.finish limits = .ok (p, whole)) (finish : Nat) :
    (s.run limits finish located).answer = .ok whole.expr := by
  rw [run_of_after hafter, run, hfinish]

/-- Where an error shows, the tokens before it have been read, and what comes next is refused. -/
theorem exists_refusal_of_run {finish : Nat} {located : List Located} {e : SyntaxError}
    (h : (s.run limits finish located).answer = .error e) :
    ∃ before rest s' r, located = before ++ rest ∧
      s.after limits (before.map Located.token) = .ok s' ∧ s'.Refuses limits r rest ∧
      e = Progress.errorAt finish r.kind rest := by
  rcases exists_split limits s located with
    ⟨s', p, whole, hafter, hfinish⟩ | ⟨before, rest, s', r, rfl, hafter, hrefuses⟩
  · rw [answer_of_finish hafter hfinish] at h
    cases h
  · rw [run_append hafter, answer_of_refuses hrefuses] at h
    exact ⟨before, rest, s', r, rfl, hafter, hrefuses, (Except.error.inj h).symm⟩

/-! ## What comes after a primary -/

variable {p q : Progress} {node whole : Node} {level : Level}

theorem next_operator {op : Operator} (h : p.settleAt limits node op.level = .ok (q, whole)) :
    (primary p node).next limits (.operator op) = .ok (term (q.awaiting whole op)) := by
  rw [next, continueTerm, Progress.settle_some, h]

theorem next_closeBracket (h : p.settleAt limits node .sum = .ok (q, whole)) :
    (primary p node).next limits .closeBracket = afterClosing limits q whole := by
  rw [next, continueTerm, Progress.settle_none, h]
  · exact if_pos rfl
  · exact nofun

/-- Nothing but an operator or a closing bracket can come. -/
theorem next_of_other (h : p.settleAt limits node t.level = .ok (q, whole))
    (hop : t.operator? = none) (hclose : t ≠ .closeBracket) :
    (primary p node).next limits t = .error ⟨.missingOperator, q⟩ := by
  rw [Token.level_of_operator?_eq_none hop] at h
  rw [next, continueTerm, Progress.settle_none, h]
  · exact if_neg hclose
  · rintro op rfl
    cases hop

/-- A token is refused if what it leaves complete exceeds a bound. -/
theorem next_of_settleAt_error (h : p.settleAt limits node t.level = .error q) :
    (primary p node).next limits t = .error ⟨.tooDeeplyNested, q⟩ := by
  cases t with
  | operator op =>
    have hs : p.settleAt limits node op.level = .error q := h
    rw [next, continueTerm, Progress.settle_some, hs]
  | number | constant | freeVariable | openBracket | closeBracket | function | exponential
  | endOfText | illegal | unknown | malformed =>
    have hs : p.settleAt limits node .sum = .error q := h
    simp only [next, continueTerm, Progress.settle_none, hs]

theorem finish_primary (h : p.settleAt limits node .sum = .ok (q, whole))
    (henclosing : q.enclosing = []) : (primary p node).finish limits = .ok (q, whole) := by
  simp only [finish, Progress.settle_none, h, henclosing]

/-- The text cannot end inside a bracket. -/
theorem finish_primary_of_ne_nil (h : p.settleAt limits node .sum = .ok (q, whole))
    (henclosing : q.enclosing ≠ []) :
    (primary p node).finish limits = .error ⟨.missingClosingBracket, q⟩ := by
  obtain ⟨bracket, enclosing, he⟩ := List.exists_cons_of_ne_nil henclosing
  simp only [finish, Progress.settle_none, h, he]

theorem finish_of_settleAt_error (h : p.settleAt limits node .sum = .error q) :
    (primary p node).finish limits = .error ⟨.tooDeeplyNested, q⟩ := by
  simp only [finish, Progress.settle_none, h]

theorem finish_primary_eq_ok (h : (primary p node).finish limits = .ok (q, whole)) :
    p.settleAt limits node .sum = .ok (q, whole) ∧ q.enclosing = [] := by
  rcases hl : p.settleAt limits node .sum with r | ⟨r, n⟩
  · rw [finish_of_settleAt_error hl] at h
    cases h
  · by_cases he : r.enclosing = []
    · rw [finish_primary hl he] at h
      obtain ⟨rfl, rfl⟩ := Prod.mk.inj (Except.ok.inj h)
      exact ⟨rfl, he⟩
    · rw [finish_primary_of_ne_nil hl he] at h
      cases h

/-- Only an operator or a closing bracket can come after a primary. -/
theorem next_primary_cases (h : (primary p node).next limits t = .ok s') :
    (∃ op q left, t = .operator op ∧ p.settleAt limits node op.level = .ok (q, left) ∧
      s' = term (q.awaiting left op)) ∨
    ∃ q whole, t = .closeBracket ∧ p.settleAt limits node .sum = .ok (q, whole) ∧
      afterClosing limits q whole = .ok s' := by
  rcases hl : p.settleAt limits node t.level with q | ⟨q, whole⟩
  · rw [next_of_settleAt_error hl] at h
    cases h
  · rcases t.cases_after_primary with ⟨op, rfl⟩ | rfl | ⟨hop, hclose⟩
    · rw [next_operator hl] at h
      exact .inl ⟨op, q, whole, rfl, hl, (Except.ok.inj h).symm⟩
    · rw [next_closeBracket hl] at h
      exact .inr ⟨q, whole, rfl, hl, h⟩
    · rw [next_of_other hl hop hclose] at h
      cases h

/-! ## Where a bound is exceeded -/

/-- A stage that the excess of a bound keeps from going on: the excess has been noticed already, or
it shows as soon as the given level is finished. -/
def Blocked (limits : Limits) (level : Level) : Stage → Prop
  | exceeded _ => True
  | primary p node => ∃ q, p.settleAt limits node level = .error q
  | _ => False

theorem Blocked.of_le {weaker : Level} (h : s.Blocked limits level)
    (hle : level.rank ≤ weaker.rank) : s.Blocked limits weaker := by
  cases s with
  | term p => exact h
  | keyword p f => exact h
  | primary p node =>
    obtain ⟨q, hq⟩ := h
    exact ⟨q, Progress.settleAt_error_of_le hle hq⟩
  | exceeded p => trivial

theorem Blocked.next (h : s.Blocked limits level) (hle : level.rank ≤ t.level.rank) :
    ∃ p, s.next limits t = .error ⟨.tooDeeplyNested, p⟩ := by
  cases s with
  | term p => exact h.elim
  | keyword p f => exact h.elim
  | exceeded p => exact ⟨p, rfl⟩
  | primary p node =>
    obtain ⟨q, hq⟩ := h.of_le hle
    exact ⟨q, next_of_settleAt_error hq⟩

theorem Blocked.finish (h : s.Blocked limits level) :
    ∃ p, s.finish limits = .error ⟨.tooDeeplyNested, p⟩ := by
  cases s with
  | term p => exact h.elim
  | keyword p f => exact h.elim
  | exceeded p => exact ⟨p, rfl⟩
  | primary p node =>
    obtain ⟨q, hq⟩ := h.of_le level.rank_le_sum
    exact ⟨q, finish_of_settleAt_error hq⟩

/-- Tokens that exceed a bound: one of them is refused for that reason, or the stage after them is
blocked. -/
def Overruns (limits : Limits) (level : Level) : Except Refusal Stage → Prop
  | .error r => r.kind = .tooDeeplyNested
  | .ok s => s.Blocked limits level

theorem Overruns.of_le {weaker : Level} {result : Except Refusal Stage}
    (h : Overruns limits level result) (hle : level.rank ≤ weaker.rank) :
    Overruns limits weaker result := by
  cases result with
  | error r => exact h
  | ok s => exact Blocked.of_le h hle

/-- Once a bound is exceeded, it stays so: the next token is refused if it leaves the level
complete. -/
theorem Overruns.append (h : Overruns limits level (s.after limits ts))
    (hle : level.rank ≤ t.level.rank) (weaker : Level) (us : List Token) :
    Overruns limits weaker (s.after limits (ts ++ t :: us)) := by
  rcases ha : s.after limits ts with r | s'
  · rw [ha] at h
    rw [after_append_error ha]
    exact h
  · rw [ha] at h
    obtain ⟨p, hp⟩ := Blocked.next h hle
    rw [after_append_ok ha, after_cons_error hp]
    rfl

theorem overruns_exceeded (p : Progress) (hne : ts ≠ []) :
    Overruns limits level ((exceeded p).after limits ts) := by
  cases ts with
  | nil => exact absurd rfl hne
  | cons t ts =>
    rw [after_cons_error (r := ⟨.tooDeeplyNested, p⟩) rfl]
    rfl

end Stage

end Formulary
