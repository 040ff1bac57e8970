import Formulary.Proofs.FirstError
import Formulary.Proofs.Reading.Wider

/-!
# Texts under wider bounds

Bounds only ever keep a text from being read further. The answer to it is the same under wider
bounds, unless it says that the text is nested too deeply.

* `Progress.position_le_of_mem_places` — an error shows before everything that is left;
* `Stage.run_widen` — a run under some bounds and under wider ones;
* `Expr.ofText_widen` — the answers to a text.
-/

namespace Formulary

/-! ## Where an error shows -/

namespace Progress

variable {finish position : Nat} {kind : SyntaxErrorKind} {before rest : List Located}

theorem position_mem_places (finish : Nat) (kind : SyntaxErrorKind) (rest : List Located) :
    (errorAt finish kind rest).position ∈ places rest finish := by
  cases rest with
  | nil => exact List.mem_singleton_self _
  | cons t rest => exact List.mem_cons_self

/-- An error shows before everything that is left. -/
theorem position_le_of_mem_places (h : (places rest finish).Pairwise (· < ·))
    (hposition : position ∈ places rest finish) :
    (errorAt finish kind rest).position ≤ position := by
  cases rest with
  | nil =>
    obtain rfl := List.mem_singleton.mp hposition
    exact Nat.le_refl _
  | cons t rest =>
    rcases List.mem_cons.mp hposition with rfl | hlater
    · exact Nat.le_refl _
    · exact Nat.le_of_lt (List.rel_of_pairwise_cons h hlater)

/-- The place of an error tells at which token it shows. -/
theorem eq_cons_of_position_eq {t : Located} (h : (places (before ++ rest) finish).Pairwise (· < ·))
    (ht : t ∈ before ++ rest) (hposition : (errorAt finish kind rest).position = t.start) :
    ∃ later, rest = t :: later := by
  rw [places_append] at h
  obtain ⟨-, hrest, hbefore⟩ := List.pairwise_append.mp h
  rcases List.mem_append.mp ht with ht | ht
  · -- all places before the error are smaller
    have hlt := hbefore _ (List.mem_map_of_mem ht) _ (position_mem_places finish kind rest)
    rw [hposition] at hlt
    exact absurd hlt (Nat.lt_irrefl _)
  · rcases rest with _ | ⟨u, later⟩
    · cases ht
    · rcases List.mem_cons.mp ht with rfl | ht
      · exact ⟨later, rfl⟩
      · have hlt : u.start < t.start := by
          apply List.rel_of_pairwise_cons hrest
          exact List.mem_append_left _ (List.mem_map_of_mem ht)
        rw [← hposition] at hlt
        exact absurd hlt (Nat.lt_irrefl _)

end Progress

/-! ## Runs -/

namespace Stage

variable {limits wider : Limits} {s : Stage} {finish : Nat} {located : List Located}

theorem position_mem_of_run {e : SyntaxError}
    (h : (s.run limits finish located).answer = .error e) :
    e.position ∈ places located finish := by
  obtain ⟨before, rest, s', r, rfl, -, -, rfl⟩ := exists_refusal_of_run h
  rw [places_append]
  exact List.mem_append_right _ (Progress.position_mem_places finish r.kind rest)

/-- **A run under wider bounds** has the same answer, or it only goes on where the other one has
exceeded a bound. There stands no token that is an error. -/
theorem run_widen (hle : limits ≤ wider) (s : Stage) (finish : Nat) (located : List Located) :
    (s.run limits finish located).answer = (s.run wider finish located).answer ∨
    ∃ before rest s', located = before ++ rest ∧ (∀ t ∈ rest.head?, t.token.isError = false) ∧
      (s.run limits finish located).answer =
        .error ⟨.tooDeeplyNested, (Progress.errorAt finish .tooDeeplyNested rest).position⟩ ∧
      (s.run wider finish located).answer = (run wider finish s' rest).answer := by
  rcases exists_split limits s located with
    ⟨s', p, whole, hafter, hfinish⟩ | ⟨before, rest, s', r, rfl, hafter, hrefuses⟩
  · -- all tokens are read
    obtain ⟨s'', hafter', rfl | ⟨p', rfl⟩⟩ := after_mono hle hafter
    · left
      rw [answer_of_finish hafter hfinish, answer_of_finish hafter' (finish_mono hle hfinish)]
    · cases hfinish
  · obtain ⟨s'', hafter', hwidened⟩ := after_mono hle hafter
    rw [run_append hafter, run_append hafter', answer_of_refuses hrefuses]
    by_cases hkind : r.kind = .tooDeeplyNested
    · rw [hkind]
      rcases rest with _ | ⟨t, rest⟩
      · exact .inr ⟨before, [], s'', rfl, nofun, rfl, rfl⟩
      · rcases herror : t.token.isError with _ | _
        · refine .inr ⟨before, t :: rest, s'', rfl, ?_, ?_, rfl⟩
          · rintro u ⟨⟩
            exact herror
          · rw [Progress.errorAt, Progress.kindAt_of_not_isError herror]
        · -- the error of the token is reported whatever its refusal is due to
          obtain ⟨r', hnext⟩ := exists_next_error herror wider s''
          have hrefuses' : s''.Refuses wider r' (t :: rest) := hnext
          left
          rw [answer_of_refuses hrefuses', Progress.errorAt, Progress.errorAt,
            Progress.kindAt_of_isError herror .tooDeeplyNested r'.kind]
    · -- what is refused for another reason is refused for the same one
      obtain rfl | ⟨p, rfl⟩ := hwidened
      · left
        rw [answer_of_refuses (hrefuses.mono hle hkind)]
      · exact absurd hrefuses.kind_of_exceeded hkind

end Stage

/-! ## Texts -/

namespace Expr

variable {settings wider : Settings} {text : String}

theorem pairwise_places_ofText (settings : Settings) (text : String) :
    (places (locatedOf settings text) (finishOf settings text)).Pairwise (· < ·) :=
  (cut_ofText settings text).pairwise_places

/-- The answer is the same, or the text is read further under the wider bounds. -/
theorem ofText_eq_or_further (hname : settings.variableName = wider.variableName)
    (hle : settings.limits ≤ wider.limits) (text : String) :
    ofText settings text = ofText wider text ∨
    ∃ before rest, locatedOf settings text = before ++ rest ∧
      (∀ t ∈ rest.head?, t.token.isError = false) ∧
      ofText settings text = .error ⟨.tooDeeplyNested,
        (Progress.errorAt (finishOf settings text) .tooDeeplyNested rest).position⟩ ∧
      ∀ e, ofText wider text = .error e → e.position ∈ places rest (finishOf settings text) := by
  -- only the name of the variable matters for the tokens
  have hlocated : locatedOf wider text = locatedOf settings text := by
    rw [locatedOf, locatedOf, hname]
  have hfinish : finishOf wider text = finishOf settings text := by
    rw [finishOf, finishOf, hname]
  by_cases hnil : locatedOf settings text = []
  · left
    rw [ofText_of_nil hnil, ofText_of_nil (hlocated.trans hnil)]
  · rw [ofText_eq_run hnil, ofText_eq_run (hlocated ▸ hnil), hlocated, hfinish]
    rcases Stage.run_widen hle (.term .start) (finishOf settings text) (locatedOf settings text)
      with heq | ⟨before, rest, s, hsplit, hhead, hdeep, hrun⟩
    · exact .inl heq
    · refine .inr ⟨before, rest, hsplit, hhead, hdeep, ?_⟩
      intro e he
      rw [hrun] at he
      exact Stage.position_mem_of_run he

/-- An error that shows at a token which is an error by itself is the error of that token. -/
theorem kindAt_of_ofText {t : Located} {kind : SyntaxErrorKind} (ht : t ∈ locatedOf settings text)
    (herror : t.token.isError = true) (h : ofText settings text = .error ⟨kind, t.start⟩)
    (other : SyntaxErrorKind) : Progress.kindAt other t.token = kind := by
  obtain ⟨before, rest, s, r, hsplit, -, -, he⟩ :=
    exists_refusal_of_ofText (List.ne_nil_of_mem ht) h
  have hplaces := pairwise_places_ofText settings text
  rw [hsplit] at hplaces ht
  obtain ⟨later, rfl⟩ :=
    Progress.eq_cons_of_position_eq hplaces ht (congrArg SyntaxError.position he).symm
  have hkind : kind = Progress.kindAt r.kind t.token := congrArg SyntaxError.kind he
  rw [hkind]
  exact Progress.kindAt_of_isError herror other r.kind

/-- **The answer to a text under wider bounds** is the same, unless the text is nested too deeply
for the narrower ones; then this shows at a place that is not after the error under the wider
bounds, if there is one. So what is read under some bounds is read as the same tree under wider
ones; and an error that shows at a token which is an error by itself is the error of that token,
under both bounds. -/
theorem ofText_widen (hname : settings.variableName = wider.variableName)
    (hnesting : settings.maxNesting ≤ wider.maxNesting)
    (hdepth : settings.maxDepth ≤ wider.maxDepth) (text : String) :
    (ofText settings text = ofText wider text ∨ ∃ position,
      ofText settings text = .error ⟨.tooDeeplyNested, position⟩ ∧
        ∀ e, ofText wider text = .error e → position ≤ e.position) ∧
    (∀ t, ofText settings text = .ok t → ofText wider text = .ok t) ∧
    ∀ t ∈ locatedOf settings text, t.token.isError = true →
      ∀ kind, ofText settings text = .error ⟨kind, t.start⟩ →
        (∀ other, Progress.kindAt other t.token = kind) ∧
          ofText wider text = .error ⟨kind, t.start⟩ := by
  have hplaces := pairwise_places_ofText settings text
  rcases ofText_eq_or_further hname ⟨hnesting, hdepth⟩ text with
    heq | ⟨before, rest, hsplit, hhead, hdeep, hlater⟩
  · refine ⟨.inl heq, ?_, ?_⟩
    · intro t ht
      rw [← heq, ht]
    · intro t ht herror kind h
      exact ⟨kindAt_of_ofText ht herror h, heq ▸ h⟩
  · refine ⟨.inr ⟨_, hdeep, ?_⟩, ?_, ?_⟩
    · intro e he
      rw [hsplit, places_append] at hplaces
      exact Progress.position_le_of_mem_places (List.pairwise_append.mp hplaces).2.1 (hlater e he)
    · intro t ht
      rw [hdeep] at ht
      cases ht
    · -- the place of the error is that of another token
      intro t ht herror kind h
      rw [hdeep] at h
      rw [hsplit] at hplaces ht
      obtain ⟨later, rfl⟩ := Progress.eq_cons_of_position_eq hplaces ht
        (congrArg SyntaxError.position (Except.error.inj h))
      rw [hhead t rfl] at herror
      cases herror

/-- The third bracket exceeds the bound, but what shows is that the character after it belongs to no
formula. -/
theorem ofText_widen_illegal :
    ofText { maxNesting := 2 } "(x+((?)" = .error ⟨.illegalCharacter, 5⟩ ∧
      ofText {} "(x+((?)" = .error ⟨.illegalCharacter, 5⟩ := by
  have h : ofText { maxNesting := 2 } "(x+((?)" = .error ⟨.illegalCharacter, 5⟩ := by
    decide +kernel
  have hmem : ⟨.illegal '?', 5⟩ ∈ locatedOf { maxNesting := 2 } "(x+((?)" := by decide +kernel
  exact ⟨h, ((ofText_widen (by rfl) (by decide) (by decide) _).2.2 _ hmem rfl _ h).2⟩

end Expr

end Formulary
