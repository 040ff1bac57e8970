import Formulary.Proofs.Reading.Sound
import Mathlib.Data.List.Basic

/-!
# What the tokens before a place say about it

Whether a term has to begin at a place, or a bracket to open, depends on the token before it alone,
and the number of brackets that are open there is a sum over all tokens before it. A stage of the
reading knows all this from its state.

* `termDue`, `callDue`, `openBrackets` — what the tokens say;
* `Derivation.not_due`, `Derivation.openBrackets_tokens` — nothing is due after a whole phrase, and
  it closes what it opens;
* `Progress.Records.termDue_eq`, `Stage.Records.openBrackets_eq` — what a stage knows.
-/

namespace Formulary

/-! ## What the tokens before a place say -/

namespace Token

/-- Tokens after which a term, or a part of one, has to begin. -/
def awaitsTerm : Token → Bool
  | operator _ | openBracket | exponential => true
  | _ => false

/-- Tokens that a term can end with. -/
def endsTerm (t : Token) : Bool := t.isOperand || t == closeBracket

/-- Whether a token names a function. -/
def isFunction : Token → Bool
  | function _ => true
  | _ => false

end Token

/-- Whether a term, or a part of one, has to begin after some tokens. -/
def termDue (ts : List Token) : Bool := ts.getLast?.all Token.awaitsTerm

/-- Whether the bracket around the argument of a function has to open after some tokens. -/
def callDue (ts : List Token) : Bool := ts.getLast?.any Token.isFunction

/-- How many brackets some tokens open and do not close. -/
def openBrackets (ts : List Token) : Int := ts.count .openBracket - ts.count .closeBracket

/-! ## Open brackets -/

theorem openBrackets_append (ts us : List Token) :
    openBrackets (ts ++ us) = openBrackets ts + openBrackets us := by
  simp only [openBrackets, List.count_append]
  omega

theorem openBrackets_cons (t : Token) (ts : List Token) :
    openBrackets (t :: ts) = openBrackets [t] + openBrackets ts :=
  openBrackets_append [t] ts

/-- Tokens that are no brackets leave the number of open brackets as it is. -/
theorem openBrackets_eq_zero {ts : List Token}
    (h : ∀ t ∈ ts, t ≠ .openBracket ∧ t ≠ .closeBracket) : openBrackets ts = 0 := by
  have ho : ts.count .openBracket = 0 := List.count_eq_zero.mpr fun hm => (h _ hm).1 rfl
  have hc : ts.count .closeBracket = 0 := List.count_eq_zero.mpr fun hm => (h _ hm).2 rfl
  rw [openBrackets, ho, hc]
  rfl

theorem openBrackets_signs (signs : List Sign) : openBrackets (signs.map Sign.token) = 0 := by
  refine openBrackets_eq_zero ?_
  intro t ht
  obtain ⟨s, -, rfl⟩ := List.mem_map.mp ht
  exact ⟨nofun, nofun⟩

theorem openBrackets_exponentials (count : Nat) :
    openBrackets (List.replicate count .exponential) = 0 := by
  refine openBrackets_eq_zero ?_
  intro t ht
  obtain rfl := List.eq_of_mem_replicate ht
  exact ⟨nofun, nofun⟩

theorem openBrackets_openerTokens (opener : Opener) : openBrackets opener.tokens = 1 := by
  cases opener <;> rfl

/-- A derivation closes what it opens. -/
theorem Derivation.openBrackets_tokens {level : Level} (d : Derivation level) :
    openBrackets d.tokens = 0 := by
  induction d with
  | number | constant | freeVariable => rfl
  | group inner ih =>
    rw [tokens, openBrackets_cons, openBrackets_append, ih]
    rfl
  | call f arg ih =>
    rw [tokens, openBrackets_cons, openBrackets_cons .openBracket, openBrackets_append, ih]
    rfl
  | exponential arg ih =>
    rw [tokens, openBrackets_cons, ih]
    rfl
  | ofPrimary _ ih | ofPower _ ih => exact ih
  | raise left right ihl ihr | scale left _ _ right ihl ihr =>
    rw [tokens, openBrackets_append, openBrackets_cons, ihl, ihr]
    rfl
  | ofProduct signs d ih => rw [tokens, openBrackets_append, openBrackets_signs, ih, Int.add_zero]
  | join left sign signs right ihl ihr =>
    rw [tokens, openBrackets_append, openBrackets_cons, openBrackets_append, openBrackets_signs,
      ihl, ihr]
    cases sign <;> rfl

namespace Unfinished

variable {u : Unfinished} {ts : List Token}

theorem RecordsSum.openBrackets_eq {negative : Bool} {sum : Option Node}
    (h : RecordsSum negative sum ts) : openBrackets ts = 0 := by
  cases sum with
  | none =>
    obtain ⟨signs, -, rfl⟩ := h
    exact openBrackets_signs signs
  | some node =>
    obtain ⟨d, sign, signs, -, -, rfl⟩ := h
    rw [openBrackets_append, d.openBrackets_tokens, openBrackets_signs, Int.add_zero]

theorem RecordsProduct.openBrackets_eq {product : Option (Node × Operator)}
    (h : RecordsProduct product ts) : openBrackets ts = 0 := by
  rcases product with _ | ⟨node, op⟩
  · obtain rfl : ts = [] := h
    rfl
  · obtain ⟨d, -, -, rfl⟩ := h
    rw [openBrackets_append, d.openBrackets_tokens]
    rfl

theorem RecordsPower.openBrackets_eq {power : Option Node} (h : RecordsPower power ts) :
    openBrackets ts = 0 := by
  cases power with
  | none =>
    obtain rfl : ts = [] := h
    rfl
  | some node =>
    obtain ⟨d, -, rfl⟩ := h
    rw [openBrackets_append, d.openBrackets_tokens]
    rfl

/-- What has been read of an expression closes what it opens. -/
theorem Records.openBrackets_eq (h : u.Records ts) : openBrackets ts = 0 := by
  obtain ⟨sums, products, powers, hs, hp, hw, rfl⟩ := h
  rw [openBrackets_append, openBrackets_append, openBrackets_append, hs.openBrackets_eq,
    hp.openBrackets_eq, hw.openBrackets_eq, openBrackets_exponentials]
  rfl

end Unfinished

/-- As many brackets are open as expressions stand around the innermost one. -/
theorem Opener.Encloses.openBrackets_eq {enclosing : List (Opener × Unfinished)} {ts : List Token}
    (h : Opener.Encloses enclosing ts) : openBrackets ts = enclosing.length := by
  induction enclosing generalizing ts with
  | nil =>
    obtain rfl : ts = [] := h
    rfl
  | cons bracket enclosing ih =>
    obtain ⟨opener, u⟩ := bracket
    obtain ⟨before, us, hbefore, hu, rfl⟩ := h
    rw [openBrackets_append, openBrackets_append, ih hbefore, hu.openBrackets_eq,
      openBrackets_openerTokens, List.length_cons, Int.add_zero]
    rfl

/-! ## The last token -/

theorem termDue_concat {t : Token} (ht : t.awaitsTerm = true) (ts : List Token) :
    termDue (ts ++ [t]) = true := by
  rw [termDue, List.getLast?_concat]
  exact ht

theorem termDue_append {ts us : List Token} (ht : termDue ts = true) (hu : termDue us = true) :
    termDue (ts ++ us) = true := by
  rcases us.eq_nil_or_concat' with rfl | ⟨us, u, rfl⟩
  · rwa [List.append_nil]
  · rw [termDue, List.getLast?_concat] at hu
    rw [← List.append_assoc]
    exact termDue_concat hu _

/-- Where every token awaits a term, one has to begin. -/
theorem termDue_of_forall {ts : List Token} (h : ∀ t ∈ ts, t.awaitsTerm = true) :
    termDue ts = true := by
  rcases ts.eq_nil_or_concat' with rfl | ⟨ts, t, rfl⟩
  · rfl
  · exact termDue_concat (h t (by simp)) ts

theorem termDue_signs (signs : List Sign) : termDue (signs.map Sign.token) = true := by
  refine termDue_of_forall ?_
  intro t ht
  obtain ⟨s, -, rfl⟩ := List.mem_map.mp ht
  rfl

theorem termDue_openerTokens (opener : Opener) (ts : List Token) :
    termDue (ts ++ opener.tokens) = true := by
  cases opener with
  | group => exact termDue_concat rfl ts
  | call f =>
    have h := termDue_concat (t := .openBracket) rfl (ts ++ [.function f])
    rwa [List.append_assoc] at h

/-- No function has been named where a term has to begin. -/
theorem callDue_of_termDue {ts : List Token} (h : termDue ts = true) : callDue ts = false := by
  rcases ts.eq_nil_or_concat' with rfl | ⟨ts, t, rfl⟩
  · rfl
  · rw [termDue, List.getLast?_concat] at h
    rw [callDue, List.getLast?_concat]
    cases t <;> first | rfl | cases h

theorem callDue_concat (ts : List Token) (f : Function) :
    callDue (ts ++ [.function f]) = true := by
  rw [callDue, List.getLast?_concat]
  rfl

/-- A derivation ends with an operand or a closing bracket. -/
theorem Derivation.exists_concat {level : Level} (d : Derivation level) :
    ∃ ts t, d.tokens = ts ++ [t] ∧ t.endsTerm = true := by
  induction d with
  | number x => exact ⟨[], _, rfl, rfl⟩
  | constant c => exact ⟨[], _, rfl, rfl⟩
  | freeVariable => exact ⟨[], _, rfl, rfl⟩
  | group inner _ => exact ⟨.openBracket :: inner.tokens, _, rfl, rfl⟩
  | call f arg _ => exact ⟨.function f :: .openBracket :: arg.tokens, _, rfl, rfl⟩
  | ofPrimary _ ih | ofPower _ ih => exact ih
  | exponential arg ih =>
    obtain ⟨ts, t, heq, ht⟩ := ih
    exact ⟨.exponential :: ts, t, by rw [tokens, heq, List.cons_append], ht⟩
  | raise left right _ ih =>
    obtain ⟨ts, t, heq, ht⟩ := ih
    exact ⟨left.tokens ++ .operator .power :: ts, t, by simp [tokens, heq], ht⟩
  | scale left op _ right _ ih =>
    obtain ⟨ts, t, heq, ht⟩ := ih
    exact ⟨left.tokens ++ .operator op :: ts, t, by simp [tokens, heq], ht⟩
  | ofProduct signs d ih =>
    obtain ⟨ts, t, heq, ht⟩ := ih
    exact ⟨signs.map Sign.token ++ ts, t, by simp [tokens, heq], ht⟩
  | join left sign signs right _ ih =>
    obtain ⟨ts, t, heq, ht⟩ := ih
    exact ⟨left.tokens ++ sign.token :: (signs.map Sign.token ++ ts), t, by simp [tokens, heq],
      ht⟩

/-- After a phrase of the grammar no term and no bracket has to begin. -/
theorem Derivation.not_due {level : Level} (d : Derivation level) (ts : List Token) :
    termDue (ts ++ d.tokens) = false ∧ callDue (ts ++ d.tokens) = false := by
  obtain ⟨us, t, heq, ht⟩ := d.exists_concat
  rw [heq, ← List.append_assoc, termDue, callDue, List.getLast?_concat]
  cases t <;> first | exact ⟨rfl, rfl⟩ | cases ht

namespace Unfinished

variable {u : Unfinished} {ts : List Token}

theorem RecordsSum.termDue_eq {negative : Bool} {sum : Option Node}
    (h : RecordsSum negative sum ts) : termDue ts = true := by
  cases sum with
  | none =>
    obtain ⟨signs, -, rfl⟩ := h
    exact termDue_signs signs
  | some node =>
    obtain ⟨d, sign, signs, -, -, rfl⟩ := h
    rw [List.map_cons, List.append_cons]
    exact termDue_append (termDue_concat rfl _) (termDue_signs signs)

theorem RecordsProduct.termDue_eq {product : Option (Node × Operator)}
    (h : RecordsProduct product ts) : termDue ts = true := by
  rcases product with _ | ⟨node, op⟩
  · obtain rfl : ts = [] := h
    rfl
  · obtain ⟨d, -, -, rfl⟩ := h
    exact termDue_concat rfl d.tokens

theorem RecordsPower.termDue_eq {power : Option Node} (h : RecordsPower power ts) :
    termDue ts = true := by
  cases power with
  | none =>
    obtain rfl : ts = [] := h
    rfl
  | some node =>
    obtain ⟨d, -, rfl⟩ := h
    exact termDue_concat rfl d.tokens

theorem Records.termDue_eq (h : u.Records ts) : termDue ts = true := by
  obtain ⟨sums, products, powers, hs, hp, hw, rfl⟩ := h
  have hexponentials : termDue (List.replicate u.exponentials .exponential) = true := by
    refine termDue_of_forall ?_
    intro t ht
    obtain rfl := List.eq_of_mem_replicate ht
    rfl
  exact termDue_append hs.termDue_eq
    (termDue_append hp.termDue_eq (termDue_append hw.termDue_eq hexponentials))

end Unfinished

/-- In a state that awaits a term, one has to begin. -/
theorem Progress.Records.termDue_eq {p : Progress} {ts : List Token} (h : p.Records ts) :
    termDue ts = true := by
  obtain ⟨before, us, hbefore, hu, rfl⟩ := h
  have hdue : termDue before = true := by
    rcases he : p.enclosing with _ | ⟨⟨opener, around⟩, enclosing⟩
    · rw [he] at hbefore
      obtain rfl : before = [] := hbefore
      rfl
    · rw [he] at hbefore
      obtain ⟨outer, vs, -, -, rfl⟩ := hbefore
      exact termDue_openerTokens opener _
  exact termDue_append hdue hu.termDue_eq

/-- As many brackets are open after a primary as expressions stand around it. -/
theorem Stage.Records.openBrackets_eq {p : Progress} {node : Node} {ts : List Token}
    (h : (primary p node).Records ts) :
    openBrackets ts = p.enclosing.length := by
  obtain ⟨_, d, ⟨before, us, hbefore, hu, rfl⟩, -, rfl⟩ := h
  rw [openBrackets_append, openBrackets_append, hbefore.openBrackets_eq, hu.openBrackets_eq,
    d.openBrackets_tokens, Int.add_zero, Int.add_zero]

end Formulary
