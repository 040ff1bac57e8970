import Formulary.Proofs.Acceptance
import Formulary.Proofs.Due

/-!
# The first error of a text

A syntax error names the first token that no formula can have at its place, and what is wrong there
follows from that token and from the tokens before it alone.

* `offence?` — what is wrong at a place;
* `Offends` — the tokens up to a place are the beginning of a formula, and with the token there they
  are not;
* `Stage.Records.offence?_next`, `Stage.Records.offence?_finish` — a refusal is such an offence,
  unless it is due to a bound;
* `Expr.ofText_error` — the error of a text.
-/

namespace Formulary

/-! ## Offences -/

/-- What is wrong with a token, or with the end of the text, after the tokens before it. -/
def offence? (before : List Token) (t : Token) : Option SyntaxErrorKind :=
  match t with
  | .illegal _ => some .illegalCharacter
  | .unknown _ => some .unknownIdentifier
  | .malformed _ => some .missingTerm
  | t =>
    if callDue before ∧ t ≠ .openBracket then some .missingOpeningBracket
    else if termDue before then some .missingTerm
    else if t = .closeBracket ∧ openBrackets before = 0 then some .missingOpeningBracket
    else if t.startsTerm then some .missingOperator
    else if t = .endOfText ∧ 0 < openBrackets before then some .missingClosingBracket
    else none

/-- A place of a text where the first error shows: the tokens before it are the beginning of a
formula, but no formula has the token there next; or the text ends there, and is none. -/
inductive Offends (settings : Settings) (text : String) : List Token → Token → Nat → Prop
  /-- a token, which stands in the text at its place -/
  | token {before : List Located} {t : Located} {rest : List Located} {c : Char} {cs : List Char}
    (split : locatedOf settings text = before ++ t :: rest)
    (place : text.toList.drop t.start = c :: cs)
    (written : t.token = (lexeme settings.variableName.toList c cs).token)
    (viable : Viable (before.map Located.token))
    (unviable : ¬ Viable (before.map Located.token ++ [t.token])) :
    Offends settings text (before.map Located.token) t.token t.start
  /-- the end of the text -/
  | finish (viable : Viable (tokensOf settings text))
    (incomplete : ¬ ∃ d : Derivation .sum, d.tokens = tokensOf settings text) :
    Offends settings text (tokensOf settings text) .endOfText text.length

/-! ## The table of offences -/

section

variable {t : Token} {before : List Token}

theorem offence?_of_not_isError (ht : t.isError = false) (before : List Token) :
    offence? before t =
      if callDue before ∧ t ≠ .openBracket then some .missingOpeningBracket
      else if termDue before then some .missingTerm
      else if t = .closeBracket ∧ openBrackets before = 0 then some .missingOpeningBracket
      else if t.startsTerm then some .missingOperator
      else if t = .endOfText ∧ 0 < openBrackets before then some .missingClosingBracket
      else none := by
  cases t <;> first | rfl | cases ht

theorem offence?_of_isError {t : Token} (ht : t.isError = true) (before : List Token)
    (kind : SyntaxErrorKind) : offence? before t = some (Progress.kindAt kind t) := by
  cases t with
  | illegal | unknown | malformed => rfl
  | number | constant | freeVariable | operator | openBracket | closeBracket | function
  | exponential | endOfText => cases ht

/-- There is always something wrong with a token or with the end. -/
theorem offence?_ne_emptyFormula (before : List Token) (t : Token) :
    offence? before t ≠ some .emptyFormula := by
  rw [offence?.eq_def]
  repeat' split
  all_goals exact nofun

/-- After the name of a function only a bracket can come. -/
theorem offence?_of_callDue (ht : t.isError = false) (hcall : callDue before = true)
    (hopen : t ≠ .openBracket) : offence? before t = some .missingOpeningBracket := by
  rw [offence?_of_not_isError ht, if_pos ⟨hcall, hopen⟩]

/-- Where a term has to begin, nothing else is ever missing. -/
theorem offence?_of_termDue (ht : t.isError = false) (hdue : termDue before = true) :
    offence? before t = some .missingTerm := by
  have hcall : ¬ (callDue before = true ∧ t ≠ .openBracket) := by
    rw [callDue_of_termDue hdue]
    exact fun h => Bool.false_ne_true h.1
  rw [offence?_of_not_isError ht, if_neg hcall, if_pos hdue]

/-- What can be wrong after the end of a phrase. -/
theorem offence?_after_derivation {level : Level} (ht : t.isError = false) (before : List Token)
    (d : Derivation level) :
    offence? (before ++ d.tokens) t =
      if t = .closeBracket ∧ openBrackets (before ++ d.tokens) = 0 then
        some .missingOpeningBracket
      else if t.startsTerm then some .missingOperator
      else if t = .endOfText ∧ 0 < openBrackets (before ++ d.tokens) then
        some .missingClosingBracket
      else none := by
  obtain ⟨hdue, hcall⟩ := d.not_due before
  rw [offence?_of_not_isError ht, hdue, hcall, if_neg fun h => Bool.false_ne_true h.1,
    if_neg Bool.false_ne_true]

end

/-! ## Refusals -/

/-- Whatever neither continues nor closes nor ends a formula starts a term. -/
theorem Token.startsTerm_of_not_isError {t : Token} (ht : t.isError = false)
    (hop : t.operator? = none) (hclose : t ≠ closeBracket) (hend : t ≠ endOfText) :
    t.startsTerm = true := by
  cases t with
  | number | constant | freeVariable | openBracket | function | exponential => rfl
  | operator => cases hop
  | closeBracket => exact absurd rfl hclose
  | endOfText => exact absurd rfl hend
  | illegal | unknown | malformed => cases ht

namespace Stage

variable {limits : Limits} {s : Stage} {p : Progress} {node : Node} {f : Function}
  {ts : List Token} {t : Token} {r : Refusal}

theorem kind_of_next_term (hn : (term p).next limits t = .error r) : r.kind = .missingTerm := by
  cases t with
  | operator op =>
    rcases hp : p.signed? op with _ | q
    · simp only [next, beginTerm, hp] at hn
      obtain rfl := Except.error.inj hn
      rfl
    · simp only [next, beginTerm, hp] at hn
      cases hn
  | number | constant | freeVariable | openBracket | function | exponential => cases hn
  | closeBracket | endOfText | illegal | unknown | malformed =>
    obtain rfl := Except.error.inj hn
    rfl

theorem kind_of_next_keyword (hn : (keyword p f).next limits t = .error r) :
    t ≠ .openBracket ∧ r.kind = .missingOpeningBracket := by
  rw [next] at hn
  by_cases ht : t = .openBracket
  · rw [if_pos ht] at hn
    cases hn
  · rw [if_neg ht] at hn
    obtain rfl := Except.error.inj hn
    exact ⟨ht, rfl⟩

/-- A closing bracket is refused only where none is open. -/
theorem kind_of_afterClosing {whole : Node} (h : afterClosing limits p whole = .error r) :
    p.enclosing = [] ∧ r.kind = .missingOpeningBracket := by
  rcases he : p.enclosing with _ | ⟨⟨opener, around⟩, enclosing⟩
  · simp only [afterClosing, he] at h
    obtain rfl := Except.error.inj h
    exact ⟨rfl, rfl⟩
  · rcases hb : Progress.bracketed limits whole opener with _ | node <;>
      simp only [afterClosing, he, hb] at h <;> cases h

/-- Why a token cannot come after a primary, unless a bound is exceeded. -/
theorem kind_of_next_primary (hn : (primary p node).next limits t = .error r)
    (hr : r.kind ≠ .tooDeeplyNested) :
    t = .closeBracket ∧ p.enclosing = [] ∧ r.kind = .missingOpeningBracket ∨
      t.operator? = none ∧ t ≠ .closeBracket ∧ r.kind = .missingOperator := by
  rcases hl : p.settleAt limits node t.level with q | ⟨q, whole⟩
  · rw [next_of_settleAt_error hl] at hn
    obtain rfl := Except.error.inj hn
    exact absurd rfl hr
  · rcases t.cases_after_primary with ⟨op, rfl⟩ | rfl | ⟨hop, hclose⟩
    · rw [next_operator hl] at hn
      cases hn
    · rw [next_closeBracket hl] at hn
      obtain ⟨henclosing, hkind⟩ := kind_of_afterClosing hn
      rw [Progress.enclosing_of_settleAt hl] at henclosing
      exact .inl ⟨rfl, henclosing, hkind⟩
    · rw [next_of_other hl hop hclose] at hn
      obtain rfl := Except.error.inj hn
      exact .inr ⟨hop, hclose, rfl⟩

/-- Why the text cannot end after a primary, unless a bound is exceeded. -/
theorem kind_of_finish_primary (hf : (primary p node).finish limits = .error r)
    (hr : r.kind ≠ .tooDeeplyNested) :
    p.enclosing ≠ [] ∧ r.kind = .missingClosingBracket := by
  rcases hl : p.settleAt limits node .sum with q | ⟨q, whole⟩
  · rw [finish_of_settleAt_error hl] at hf
    obtain rfl := Except.error.inj hf
    exact absurd rfl hr
  · have henclosing := Progress.enclosing_of_settleAt hl
    by_cases he : q.enclosing = []
    · rw [finish_primary hl he] at hf
      cases hf
    · rw [finish_primary_of_ne_nil hl he] at hf
      obtain rfl := Except.error.inj hf
      exact ⟨henclosing ▸ he, rfl⟩

/-- **A token that is refused is an offence**, unless a bound is exceeded. -/
theorem Records.offence?_next (h : s.Records ts) (ht : t.isError = false)
    (hend : t ≠ .endOfText) (hn : s.next limits t = .error r) (hr : r.kind ≠ .tooDeeplyNested) :
    offence? ts t = some r.kind := by
  cases s with
  | exceeded p =>
    obtain rfl := Except.error.inj hn
    exact absurd rfl hr
  | keyword p f =>
    obtain ⟨before, -, rfl⟩ := h
    obtain ⟨hopen, hkind⟩ := kind_of_next_keyword hn
    rw [offence?_of_callDue ht (callDue_concat before f) hopen, hkind]
  | term p =>
    rw [offence?_of_termDue ht (Progress.Records.termDue_eq h), kind_of_next_term hn]
  | primary p node =>
    have hopen := h.openBrackets_eq
    obtain ⟨before, d, -, -, rfl⟩ := h
    rw [offence?_after_derivation ht, hopen]
    rcases kind_of_next_primary hn hr with ⟨rfl, henclosing, hkind⟩ | ⟨hop, hclose, hkind⟩
    · -- no bracket is open that it could close
      rw [henclosing, if_pos ⟨rfl, rfl⟩, hkind]
    · rw [if_neg fun hc => hclose hc.1,
        if_pos (Token.startsTerm_of_not_isError ht hop hclose hend), hkind]

/-- **So is the end of the text** where it cannot come. -/
theorem Records.offence?_finish (h : s.Records ts) (hf : s.finish limits = .error r)
    (hr : r.kind ≠ .tooDeeplyNested) : offence? ts .endOfText = some r.kind := by
  cases s with
  | exceeded p =>
    obtain rfl := Except.error.inj hf
    exact absurd rfl hr
  | keyword p f =>
    obtain ⟨before, -, rfl⟩ := h
    obtain rfl := Except.error.inj hf
    rw [offence?_of_callDue rfl (callDue_concat before f) (by decide)]
  | term p =>
    obtain rfl := Except.error.inj hf
    rw [offence?_of_termDue rfl (Progress.Records.termDue_eq h)]
  | primary p node =>
    have hopen := h.openBrackets_eq
    obtain ⟨before, d, -, -, rfl⟩ := h
    obtain ⟨henclosing, hkind⟩ := kind_of_finish_primary hf hr
    have hpos : 0 < p.enclosing.length := List.length_pos_iff.mpr henclosing
    have hclose : ¬ (Token.endOfText = .closeBracket ∧ (p.enclosing.length : Int) = 0) :=
      fun h => Token.noConfusion h.1
    have hstart : ¬ Token.endOfText.startsTerm = true := Bool.false_ne_true
    rw [offence?_after_derivation rfl, hopen, if_neg hclose, if_neg hstart,
      if_pos ⟨rfl, by omega⟩, hkind]

/-- A token with which the tokens are still the beginning of a formula is only ever refused because
a bound is exceeded. -/
theorem kind_of_viable (hpos : 0 < limits.depth) (hviable : Viable (ts ++ [t]))
    (hs : (term .start).after limits ts = .ok s) (hn : s.next limits t = .error r) :
    r.kind = .tooDeeplyNested := by
  obtain ⟨d, more, hd⟩ := hviable
  have herror : (term .start).after limits d.tokens = .error r := by
    rw [hd, List.append_assoc, after_append_ok hs, List.singleton_append, after_cons_error hn]
  -- the formula that goes on from here is read as far as the bounds allow
  by_cases hfits : d.Fits limits .start
  · obtain ⟨s', p, hafter, -⟩ := d.exists_finish_of_fits hpos hfits
    rw [herror] at hafter
    cases hafter
  · have hover := (d.levelRead_start hpos).2 hfits
    rw [herror] at hover
    exact hover

end Stage

/-! ## The error of a text -/

/-- Tokens that are errors are not in any formula. -/
theorem Viable.not_isError_of_mem {ts : List Token} {t : Token} (h : Viable ts) (ht : t ∈ ts) :
    t.isError = false := by
  obtain ⟨d, more, hd⟩ := h
  refine d.not_isError_of_mem ?_
  rw [hd]
  exact List.mem_append_left _ ht

namespace Expr

variable {settings : Settings} {text : String} {e : SyntaxError}

/-- Where an error shows, the tokens before it have been read, and what comes next is refused. -/
theorem exists_refusal_of_ofText (hnil : locatedOf settings text ≠ [])
    (h : ofText settings text = .error e) :
    ∃ before rest s r, locatedOf settings text = before ++ rest ∧
      (Stage.term .start).after settings.limits (before.map Located.token) = .ok s ∧
      s.Refuses settings.limits r rest ∧
      e = Progress.errorAt (finishOf settings text) r.kind rest := by
  rw [ofText_eq_run hnil] at h
  exact Stage.exists_refusal_of_run h

/-- The end of a text that stops too early. -/
theorem offends_finish (hs : settings.check = .ok ()) (h : ofText settings text = .error e)
    (hdeep : e.kind ≠ .tooDeeplyNested) (hviable : Viable (tokensOf settings text)) :
    finishOf settings text = text.length ∧
      Offends settings text (tokensOf settings text) .endOfText text.length := by
  constructor
  · have herrors : ∀ t ∈ locatedOf settings text, t.token.isError = false := by
      intro t ht
      exact hviable.not_isError_of_mem (List.mem_map_of_mem ht)
    rw [(cut_ofText settings text).finish_eq herrors, Nat.zero_add, String.length_toList]
  · refine .finish hviable ?_
    rintro ⟨d, hd⟩
    by_cases hfits : d.Fits settings.limits .start
    · rw [ofText_of_fits hs hd hfits] at h
      cases h
    · obtain ⟨position, herror⟩ := ofText_of_not_fits hs hd hfits
      rw [herror] at h
      obtain rfl := Except.error.inj h
      exact hdeep rfl

/-- A token that is refused. -/
theorem offends_token (hs : settings.check = .ok ()) {before rest : List Located} {t : Located}
    {s : Stage} {r : Refusal} (heq : locatedOf settings text = before ++ t :: rest)
    (hafter : (Stage.term .start).after settings.limits (before.map Located.token) = .ok s)
    (hn : s.next settings.limits t.token = .error r) (hviable : Viable (before.map Located.token))
    (hdeep : Progress.kindAt r.kind t.token ≠ .tooDeeplyNested) :
    Offends settings text (before.map Located.token) t.token t.start := by
  have hmem : t ∈ locatedOf settings text := by
    rw [heq]
    exact List.mem_append_right _ List.mem_cons_self
  obtain ⟨front, c, cs, htext, hstart, -, htoken⟩ :=
    (cut_ofText settings text).exists_lexeme_of_mem hmem
  rw [Nat.zero_add] at hstart
  refine .token heq (by rw [htext, hstart, List.drop_left]) htoken hviable ?_
  intro hnext
  have herror : t.token.isError = false := hnext.not_isError_of_mem (by simp)
  rw [Progress.kindAt_of_not_isError herror] at hdeep
  exact hdeep (Stage.kind_of_viable (Settings.limits_pos hs).2 hnext hafter hn)

/-- The error of a text that holds a token, unless a bound is exceeded. -/
theorem exists_offence_of_ofText (hs : settings.check = .ok ())
    (hnil : locatedOf settings text ≠ []) (h : ofText settings text = .error e)
    (hdeep : e.kind ≠ .tooDeeplyNested) :
    ∃ before t, Offends settings text before t e.position ∧ offence? before t = some e.kind := by
  obtain ⟨before, rest, s, r, heq, hafter, hrefuses, rfl⟩ := exists_refusal_of_ofText hnil h
  have hrecords : s.Records (before.map Located.token) := Stage.records_start.after hafter
  cases rest with
  | nil =>
    rw [List.append_nil] at heq
    rw [← heq] at hrecords
    obtain ⟨hfinish, hoffends⟩ := offends_finish hs h hdeep hrecords.viable
    refine ⟨_, _, ?_, hrecords.offence?_finish hrefuses hdeep⟩
    rw [Progress.errorAt, hfinish]
    exact hoffends
  | cons t rest =>
    refine ⟨_, _, offends_token hs heq hafter hrefuses hrecords.viable hdeep, ?_⟩
    -- a token that is an error is reported as such, whatever else is wrong
    rcases herror : t.token.isError with _ | _
    · rw [Progress.errorAt, Progress.kindAt_of_not_isError herror] at hdeep ⊢
      refine hrecords.offence?_next herror ?_ hrefuses hdeep
      refine ((cut_ofText settings text).readable_of_mem ?_).ne_endOfText
      rw [heq]
      exact List.mem_append_right _ List.mem_cons_self
    · exact offence?_of_isError herror _ _

/-- **The error of a text.** Unless a bound is exceeded or there is nothing to read, it shows at the
first token that no formula can have at its place, or at the end if the text stops too early, and
it says what is wrong there. Nothing to read is reported for a text of blanks and for no other, and
always at the beginning. -/
theorem ofText_error (hs : settings.check = .ok ()) (text : String) :
    (∀ e, ofText settings text = .error e → e.kind ≠ .tooDeeplyNested →
      e.kind ≠ .emptyFormula →
        ∃ before t, Offends settings text before t e.position ∧ offence? before t = some e.kind) ∧
    ∀ position, ofText settings text = .error ⟨.emptyFormula, position⟩ ↔
      position = 0 ∧ ∀ c ∈ text.toList, isBlank c = true := by
  rw [← (cut_ofText settings text).eq_nil_iff]
  constructor
  · intro e h hdeep hempty
    refine exists_offence_of_ofText hs ?_ h hdeep
    intro hnil
    rw [ofText_of_nil hnil] at h
    obtain rfl := Except.error.inj h
    exact hempty rfl
  · intro position
    constructor
    · intro h
      by_cases hnil : locatedOf settings text = []
      · rw [ofText_of_nil hnil] at h
        cases h
        exact ⟨rfl, hnil⟩
      · obtain ⟨before, t, -, hoffence⟩ := exists_offence_of_ofText hs hnil h nofun
        exact absurd hoffence (offence?_ne_emptyFormula before t)
    · rintro ⟨rfl, hnil⟩
      exact ofText_of_nil hnil

/-- A text with a bracket too many: the error shows at the bracket. -/
theorem ofText_error_closeBracket :
    ∃ before t, Offends {} "(x)+2) " before t 5 ∧ offence? before t = some .missingOpeningBracket :=
  (ofText_error rfl "(x)+2) ").1 ⟨.missingOpeningBracket, 5⟩ (by decide +kernel) nofun nofun

end Expr

end Formulary
