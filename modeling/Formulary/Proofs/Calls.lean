import Formulary.Proofs.Acceptance
import Formulary.Proofs.Reading.Counters
import Formulary.Proofs.Reading.Wider

/-!
# Reading one text again and again

A reader may be called any number of times. An error leaves it at the token where it showed, with
the counters that it had there, so a call begins with whatever the calls before it have left.

* `Reader.after`, `Reader.answer` — the reader after some calls, and the answer of a call;
* `Reader.read_cases` — what a call does; `Reader.read_rest` — it takes tokens from the front, or it
  changes nothing;
* `Reader.answer_of_isError`, `Reader.answer_of_ok` — the calls after some errors and after a tree;
* `Reader.Reaches` — the stages that a call passes through;
* `Reader.Reusable` — what holds of all calls on one text; `Reader.reusable_ofText` — it does.
-/

namespace Formulary

/-! ## One call -/

namespace Stage

variable {limits : Limits} {s s' : Stage} {t : Token} {ts : List Token}

/-- No token that is an error is ever read. -/
theorem not_isError_of_after (h : s.after limits ts = .ok s') (ht : t ∈ ts) :
    t.isError = false := by
  induction ts generalizing s with
  | nil => cases ht
  | cons u ts ih =>
    obtain ⟨middle, hn, hlater⟩ := exists_of_after_cons h
    rcases List.mem_cons.mp ht with rfl | ht
    · exact not_isError_of_next hn
    · exact ih hlater ht

end Stage

namespace Reader

variable {r : Reader} {t : Expr Binary64} {e : SyntaxError}

/-- The stage in which a call begins. -/
def start (r : Reader) : Stage := .term { nesting := r.nesting, deltaNesting := r.deltaNesting }

theorem read_of_nil (h : r.rest = []) : r.read = (.error ⟨.emptyFormula, 0⟩, r) := by
  rw [read]
  simp only [h]

theorem read_of_ne_nil (h : r.rest ≠ []) :
    r.read = ((r.start.run r.limits r.finish r.rest).answer,
      { r with
        rest := (r.start.run r.limits r.finish r.rest).rest
        nesting := (r.start.run r.limits r.finish r.rest).nesting
        deltaNesting := (r.start.run r.limits r.finish r.rest).deltaNesting }) := by
  rw [read]
  split
  · next hnil => exact absurd hnil h
  · rfl

/-- What a call does: all tokens are read and the end finishes the expression, or what comes after
some of them is refused. -/
theorem read_cases (h : r.rest ≠ []) :
    (∃ s p whole, r.start.after r.limits (r.rest.map Located.token) = .ok s ∧
      s.finish r.limits = .ok (p, whole) ∧ r.read = (.ok whole.expr,
        { r with rest := [], nesting := p.nesting, deltaNesting := p.deltaNesting })) ∨
    ∃ before rest s refusal, r.rest = before ++ rest ∧
      r.start.after r.limits (before.map Located.token) = .ok s ∧
      s.Refuses r.limits refusal rest ∧
      r.read = (.error (Progress.errorAt r.finish refusal.kind rest),
        { r with
          rest := rest
          nesting := refusal.progress.nesting
          deltaNesting := refusal.progress.deltaNesting }) := by
  rw [read_of_ne_nil h]
  rcases Stage.exists_split r.limits r.start r.rest with
    ⟨s, p, whole, hafter, hfinish⟩ | ⟨before, rest, s, refusal, heq, hafter, hrefuses⟩
  · refine .inl ⟨s, p, whole, hafter, hfinish, ?_⟩
    rw [Stage.run_of_after hafter, Stage.run, hfinish]
  · refine .inr ⟨before, rest, s, refusal, heq, hafter, hrefuses, ?_⟩
    rw [heq, Stage.run_append hafter, Stage.run_of_refuses hrefuses]
    rfl

/-- After a tree nothing is left to read, and the counters are as they were. -/
theorem read_ok (h : r.read.1 = .ok t) :
    r.read.2.rest = [] ∧ r.read.2.nesting = r.nesting ∧ r.read.2.deltaNesting = r.deltaNesting := by
  by_cases hnil : r.rest = []
  · rw [read_of_nil hnil] at h
    cases h
  · rcases read_cases hnil with
      ⟨s, p, whole, hafter, hfinish, hread⟩ | ⟨before, rest, s, refusal, -, -, -, hread⟩
    · have hcounts : s.Counts r.nesting r.deltaNesting :=
        Stage.Counts.after (s := r.start) (Progress.counts_start _ _) hafter
      obtain ⟨hnesting, hdelta⟩ := hcounts.finish hfinish
      rw [hread]
      exact ⟨rfl, hnesting, hdelta⟩
    · rw [hread] at h
      cases h

/-- A call that is refused its first token changes nothing. -/
theorem read_of_refused {u : Located} {later : List Located} {refusal : Refusal}
    (h : r.rest = u :: later) (hn : r.start.next r.limits u.token = .error refusal) :
    r.read.2 = r := by
  have hrefuses : r.start.Refuses r.limits refusal r.rest := by
    rw [h]
    exact hn
  rw [read_of_ne_nil (by rw [h]; exact List.cons_ne_nil _ _), Stage.run_of_refuses hrefuses,
    Refusal.outcome, Stage.progress_of_next_term hn]

/-- A call takes tokens from the front, or it changes nothing. -/
theorem read_rest (r : Reader) :
    ∃ before, r.rest = before ++ r.read.2.rest ∧ (before = [] → r.read.2 = r) := by
  by_cases hnil : r.rest = []
  · rw [read_of_nil hnil]
    exact ⟨[], rfl, fun _ => rfl⟩
  · rcases read_cases hnil with
      ⟨s, p, whole, -, -, hread⟩ | ⟨before, rest, s, refusal, heq, hafter, hrefuses, hread⟩
    · rw [hread]
      exact ⟨r.rest, (List.append_nil _).symm, fun h => absurd h hnil⟩
    · refine ⟨before, by rw [hread, heq], ?_⟩
      rintro rfl
      -- nothing has been read, so it is the first token that is refused
      obtain rfl := Except.ok.inj hafter
      rcases rest with _ | ⟨u, rest⟩
      · exact absurd heq hnil
      · exact read_of_refused heq hrefuses

/-- A token that is an error is never passed. -/
theorem mem_rest_read {t : Located} (ht : t ∈ r.rest) (herror : t.token.isError = true) :
    t ∈ r.read.2.rest := by
  have hnot {before : List Located} {s : Stage}
      (hafter : r.start.after r.limits (before.map Located.token) = .ok s) : t ∉ before := by
    intro hmem
    rw [Stage.not_isError_of_after hafter (List.mem_map_of_mem hmem)] at herror
    cases herror
  rcases read_cases (List.ne_nil_of_mem ht) with
    ⟨s, p, whole, hafter, -, -⟩ | ⟨before, rest, s, refusal, heq, hafter, -, hread⟩
  · exact absurd ht (hnot hafter)
  · rw [heq] at ht
    rw [hread]
    exact (List.mem_append.mp ht).resolve_left (hnot hafter)

/-- A call that ends at a token which is an error reports it. -/
theorem read_error_of_rest {t : Located} {later : List Located}
    (h : r.read.2.rest = t :: later) (herror : t.token.isError = true) (kind : SyntaxErrorKind) :
    r.read.1 = .error ⟨Progress.kindAt kind t.token, t.start⟩ := by
  by_cases hnil : r.rest = []
  · rw [read_of_nil hnil, hnil] at h
    cases h
  · rcases read_cases hnil with
      ⟨s, p, whole, -, -, hread⟩ | ⟨before, rest, s, refusal, -, -, -, hread⟩
    · rw [hread] at h
      cases h
    · rw [hread] at h ⊢
      obtain rfl : rest = t :: later := h
      rw [Progress.errorAt, Progress.kindAt_of_isError herror]

/-- A call that begins at a token which is an error changes nothing. -/
theorem read_of_isError {t : Located} {later : List Located} (h : r.rest = t :: later)
    (herror : t.token.isError = true) : r.read.2 = r := by
  obtain ⟨refusal, hn⟩ := Stage.exists_next_error herror r.limits r.start
  exact read_of_refused h hn

/-- What a call leaves counted is within the bounds. -/
theorem within_read (hw : r.start.progress.Within r.limits) :
    r.read.2.start.progress.Within r.limits := by
  by_cases hnil : r.rest = []
  · rw [read_of_nil hnil]
    exact hw
  · rcases read_cases hnil with
      ⟨s, p, whole, hafter, hfinish, hread⟩ | ⟨before, rest, s, refusal, -, hafter, hrefuses, hread⟩
    · have hp := Stage.within_finish (Stage.within_after hw hafter) hfinish
      rw [hread]
      exact ⟨hp.nesting, hp.delta⟩
    · have hp := hrefuses.within (Stage.within_after hw hafter)
      rw [hread]
      exact ⟨hp.nesting, hp.delta⟩

/-! ## Any number of calls -/

/-- The reader after some calls. -/
def after (r : Reader) (calls : Nat) : Reader := (fun r => r.read.2)^[calls] r

/-- The answer of the call that comes after some others. -/
def answer (r : Reader) (calls : Nat) : Except SyntaxError (Expr Binary64) :=
  (r.after calls).read.1

theorem after_succ (r : Reader) (calls : Nat) : r.after (calls + 1) = (r.after calls).read.2 :=
  Function.iterate_succ_apply' _ calls r

/-- Where a call changes nothing, no later call does. -/
theorem after_of_fixed {calls later : Nat} (h : (r.after calls).read.2 = r.after calls)
    (hle : calls ≤ later) : r.after later = r.after calls := by
  induction later, hle using Nat.le_induction with
  | base => rfl
  | succ later _ ih => rw [after_succ, ih, h]

theorem answer_of_fixed {calls later : Nat} (h : (r.after calls).read.2 = r.after calls)
    (hle : calls ≤ later) : r.answer later = r.answer calls := by
  rw [answer, answer, after_of_fixed h hle]

/-- As long as calls change anything, each of them takes a token. -/
theorem length_after_add_le (r : Reader) (calls : Nat) :
    (r.after calls).read.2 = r.after calls ∨
      (r.after calls).rest.length + calls ≤ r.rest.length := by
  induction calls with
  | zero => exact .inr (Nat.le_refl _)
  | succ calls ih =>
    obtain ⟨before, heq, hsame⟩ := (r.after calls).read_rest
    rcases ih with hfixed | hle
    · rw [after_succ, hfixed]
      exact .inl hfixed
    · rcases before with _ | ⟨u, before⟩
      · rw [after_succ, hsame rfl]
        exact .inl (hsame rfl)
      · have hlength := congrArg List.length heq
        rw [List.length_append, List.length_cons] at hlength
        rw [after_succ]
        exact .inr (by omega)

/-- After as many calls as there are tokens, nothing changes any more. -/
theorem read_after_length (r : Reader) :
    (r.after r.rest.length).read.2 = r.after r.rest.length := by
  rcases r.length_after_add_le r.rest.length with hfixed | hle
  · exact hfixed
  · rw [read_of_nil (List.eq_nil_of_length_eq_zero (by omega))]

/-- The bounds are those of the reader at first. -/
theorem limits_after (r : Reader) (calls : Nat) : (r.after calls).limits = r.limits := by
  induction calls with
  | zero => rfl
  | succ calls ih =>
    rw [after_succ, ← ih, read]
    split <;> rfl

theorem within_after (hw : r.start.progress.Within r.limits) (calls : Nat) :
    (r.after calls).start.progress.Within r.limits := by
  induction calls with
  | zero => exact hw
  | succ calls ih =>
    rw [← r.limits_after calls] at ih ⊢
    rw [after_succ]
    exact within_read ih

theorem mem_rest_after {t : Located} (ht : t ∈ r.rest) (herror : t.token.isError = true)
    (calls : Nat) : t ∈ (r.after calls).rest := by
  induction calls with
  | zero => exact ht
  | succ calls ih =>
    rw [after_succ]
    exact mem_rest_read ih herror

/-- Once calls have come to a token that is an error, each of them reports it, and so has the one
that came to it. -/
theorem answer_of_isError {calls : Nat} {t : Located} {later : List Located}
    (h : (r.after calls).rest = t :: later) (herror : t.token.isError = true)
    (kind : SyntaxErrorKind) {call : Nat} (hle : calls ≤ call + 1) :
    r.answer call = .error ⟨Progress.kindAt kind t.token, t.start⟩ := by
  have hfixed := read_of_isError h herror
  have hread : (r.after call).read.2.rest = t :: later := by
    rw [← after_succ, after_of_fixed hfixed hle, h]
  exact read_error_of_rest hread herror kind

/-- After a tree every call finds nothing to read. -/
theorem answer_of_ok {calls later : Nat} (h : r.answer calls = .ok t) (hlt : calls < later) :
    r.answer later = .error ⟨.emptyFormula, 0⟩ := by
  obtain ⟨hnil, -, -⟩ := read_ok h
  rw [← after_succ] at hnil
  have hread := read_of_nil hnil
  have hfixed : (r.after (calls + 1)).read.2 = r.after (calls + 1) := by rw [hread]
  rw [answer_of_fixed hfixed hlt, answer, hread]

/-! ## All calls on one text -/

/-- A stage that a call passes through. -/
def Reaches (r : Reader) (s : Stage) : Prop :=
  ∃ before rest, r.rest = before ++ rest ∧
    r.start.after r.limits (before.map Located.token) = .ok s

/-- What a stage has counted is within the bounds, and the next token takes nothing off the counters
that is not on them. -/
theorem Reaches.within {s : Stage} (h : r.Reaches s) (hw : r.start.progress.Within r.limits) :
    s.progress.Within r.limits ∧ ((∀ p, s ≠ .exceeded p) → s.progress.Covers) := by
  obtain ⟨before, rest, -, hafter⟩ := h
  refine ⟨Stage.within_after hw hafter, ?_⟩
  intro hexceeded
  have hcounts : s.Counts r.nesting r.deltaNesting :=
    Stage.Counts.after (s := r.start) (Progress.counts_start _ _) hafter
  exact (hcounts.progress hexceeded).covers

/-- What holds of all calls on a text, in whatever order they give trees and errors. -/
structure Reusable (r : Reader) : Prop where
  /-- In every stage of every call the counters are within their bounds, and they hold what the next
  token takes off them. -/
  counters : ∀ calls s, (r.after calls).Reaches s →
    s.progress.Within r.limits ∧ ((∀ p, s ≠ .exceeded p) → s.progress.Covers)
  /-- So they are between two calls. -/
  counters_after : ∀ calls, (r.after calls).nesting ≤ r.limits.nesting ∧
    (r.after calls).deltaNesting ≤ maxDeltaNesting
  /-- A call that gives a tree leaves them as it has found them. -/
  counters_ok : ∀ calls t, r.answer calls = .ok t →
    (r.after (calls + 1)).nesting = (r.after calls).nesting ∧
      (r.after (calls + 1)).deltaNesting = (r.after calls).deltaNesting
  /-- A token that is an error is never passed. -/
  error_mem : ∀ t ∈ r.rest, t.token.isError = true → ∀ calls, t ∈ (r.after calls).rest
  /-- The call that comes to such a token reports it, and so do all later calls. -/
  error_stays : ∀ calls t later, (r.after calls).rest = t :: later → t.token.isError = true →
    ∀ call kind, calls ≤ call + 1 →
      r.answer call = .error ⟨Progress.kindAt kind t.token, t.start⟩
  /-- A call takes tokens from the front, or it changes nothing. -/
  tokens : ∀ calls, ∃ taken, (r.after calls).rest = taken ++ (r.after (calls + 1)).rest ∧
    (taken = [] → r.after (calls + 1) = r.after calls)
  /-- After as many calls as there are tokens, the answer is the same for good. -/
  settles : ∀ calls, r.rest.length ≤ calls → r.answer calls = r.answer r.rest.length
  /-- After a tree there is nothing to read, so no other call gives one. -/
  ok_last : ∀ calls t, r.answer calls = .ok t →
    ∀ later, calls < later → r.answer later = .error ⟨.emptyFormula, 0⟩

/-- **A text can be read again and again.** -/
theorem reusable_ofText (settings : Settings) (text : String) :
    (ofText settings text).Reusable := by
  set r := ofText settings text with hr
  have hw : r.start.progress.Within r.limits := ⟨Nat.zero_le _, Nat.zero_le _⟩
  constructor
  case counters =>
    intro calls s hs
    have hwithin := within_after hw calls
    rw [← r.limits_after calls] at hwithin ⊢
    exact hs.within hwithin
  case counters_after =>
    intro calls
    have hwithin := within_after hw calls
    exact ⟨hwithin.nesting, hwithin.delta⟩
  case counters_ok =>
    intro calls t h
    rw [after_succ]
    exact (read_ok h).2
  case error_mem =>
    intro t ht herror calls
    exact mem_rest_after ht herror calls
  case error_stays =>
    intro calls t later h herror call kind hle
    exact answer_of_isError h herror kind hle
  case tokens =>
    intro calls
    rw [after_succ]
    exact read_rest _
  case settles =>
    intro calls hle
    exact answer_of_fixed r.read_after_length hle
  case ok_last =>
    intro calls t h later hlt
    exact answer_of_ok h hlt

/-- An error inside a bracket leaves the bracket counted, and the next call reads what is left. -/
example :
    (List.range 3).map (ofText {} "(x x").answer =
      [.error ⟨.missingOperator, 3⟩, .ok .freeVariable, .error ⟨.emptyFormula, 0⟩] ∧
    ((ofText {} "(x x").after 3).nesting = 1 := by
  decide +kernel

end Reader

end Formulary
