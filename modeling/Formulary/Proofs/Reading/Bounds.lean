import Formulary.Proofs.Reading.Steps

/-!
# What is open, and what has been begun

A state of the reading says what is open and what has been read of the current expression. Two
things are asked of it before a phrase is read: that nothing of the phrase has been read yet, and
that what is open does not exceed the bounds.

* `Derivation.Fits`, `Progress.Within` — the bounds allow a phrase, and what is open already;
* `Level.Starts`, `Level.Keeps` — where a phrase can begin, and what it leaves as it was;
* `Progress.signedBy`, `Progress.inside` — the states after signs and inside a bracket;
* `Stage.next_closeBracket_of_keeps` — a closing bracket leads back to the state around it.
-/

namespace Formulary

/-! ## Bounds -/

namespace Derivation

variable {level : Level}

/-- The bounds allow a derivation at a place where some brackets are open already. -/
structure Fits (limits : Limits) (p : Progress) (d : Derivation level) : Prop where
  /-- not too many brackets, calls and `E^` are open at once -/
  nesting : p.nesting + d.nesting ≤ limits.nesting
  /-- not too many `DELTA` are open at once -/
  delta : p.deltaNesting + d.tree.deltaNesting ≤ maxDeltaNesting
  /-- the tree is not too high -/
  depth : d.tree.depth ≤ limits.depth

end Derivation

namespace Progress

/-- The state at the beginning of a text. -/
def start : Progress := { nesting := 0, deltaNesting := 0 }

/-- What is open has not exceeded the bounds. -/
structure Within (limits : Limits) (p : Progress) : Prop where
  /-- brackets, calls and `E^` -/
  nesting : p.nesting ≤ limits.nesting
  /-- `DELTA` -/
  delta : p.deltaNesting ≤ maxDeltaNesting

@[simp] theorem enclosing_awaiting (p : Progress) (left : Node) (op : Operator) :
    (p.awaiting left op).enclosing = p.enclosing := by
  cases op <;> rfl

/-- An operator opens nothing. -/
theorem Within.awaiting {limits : Limits} {p : Progress} (hw : p.Within limits) (left : Node)
    (op : Operator) : (p.awaiting left op).Within limits := by
  cases op <;> exact ⟨hw.nesting, hw.delta⟩

end Progress

/-! ## Levels begin and end -/

namespace Level

/-- A state in which a phrase of a level begins: nothing of a stronger level has been read. -/
def Starts (p : Progress) : Level → Prop
  | primary => True
  | power => p.current.power = none ∧ p.current.exponentials = 0
  | product =>
    p.current.product = none ∧ p.current.power = none ∧ p.current.exponentials = 0
  | sum => p.current = {}

/-- The state `q` is the state `p` but for what belongs to a phrase of the level. -/
def Keeps (p q : Progress) : Level → Prop
  | primary => q = p
  | power => q = { p with current := { p.current with power := q.current.power } }
  | product =>
    q = { p with
      current := { p.current with power := q.current.power, product := q.current.product } }
  | sum => q = { p with current := q.current }

/-- A phrase closes all brackets that it opens. -/
theorem Keeps.enclosing_eq {p q : Progress} (h : sum.Keeps p q) : q.enclosing = p.enclosing := by
  have hq : q = { p with current := q.current } := h
  rw [hq]

/-- An operator forgets all that its left side has consisted of. -/
theorem Keeps.awaiting_eq {p q : Progress} {op : Operator} (h : op.level.Keeps p q)
    (left : Node) : q.awaiting left op = p.awaiting left op := by
  cases op <;> simp only [Operator.level, Keeps] at h <;> rw [h] <;> rfl

end Level

/-! ## Signs -/

/-- The state after a run of signs: every minus turns the sign of the term. -/
def Progress.signedBy (p : Progress) (signs : List Sign) : Progress :=
  { p with
    current := { p.current with negative := Bool.xor p.current.negative (Sign.oddMinus signs) } }

namespace Stage

variable {limits : Limits}

theorem after_signs (signs : List Sign) {p : Progress} (hp : p.current.takesSign = true) :
    (term p).after limits (signs.map Sign.token) = .ok (term (p.signedBy signs)) := by
  induction signs generalizing p with
  | nil => simp [Progress.signedBy, Sign.oddMinus_nil]
  | cons s signs ih =>
    have hn : (term p).next limits s.token = .ok (term (p.signedBy [s])) := by
      cases s <;> simp [next, beginTerm, Sign.token, Sign.operator, Progress.signed?, hp,
        Progress.signedBy, Sign.oddMinus]
    have hp' : (p.signedBy [s]).current.takesSign = true := hp
    have hs : (p.signedBy [s]).signedBy signs = p.signedBy (s :: signs) := by
      cases s <;> simp [Progress.signedBy, Sign.oddMinus_plus, Sign.oddMinus_minus,
        Sign.oddMinus_nil]
    rw [List.map_cons, after_cons_ok hn, ih hp', hs]

end Stage

/-! ## Brackets -/

namespace Opener

/-- The tokens that open a bracket. -/
def tokens : Opener → List Token
  | group => [.openBracket]
  | call f => [.function f, .openBracket]

/-- The primary that a bracket makes of the expression in it. -/
def derivation : Opener → Derivation .sum → Derivation .primary
  | group, inner => .group inner
  | call f, arg => .call f arg

/-- How many `DELTA` a bracket opens. -/
def deltas (opener : Opener) : Nat := if opener = .call .delta then 1 else 0

variable (opener : Opener) (d : Derivation .sum)

theorem tokens_derivation :
    (opener.derivation d).tokens = opener.tokens ++ (d.tokens ++ [.closeBracket]) := by
  cases opener <;> rfl

theorem nesting_derivation : (opener.derivation d).nesting = 1 + d.nesting := by
  cases opener <;> rfl

theorem deltaNesting_derivation :
    (opener.derivation d).tree.deltaNesting = opener.deltas + d.tree.deltaNesting := by
  cases opener <;> simp [derivation, deltas, Derivation.tree, Expr.deltaNesting]

theorem depth_le_derivation : d.tree.depth ≤ (opener.derivation d).tree.depth := by
  cases opener with
  | group => exact Nat.le_refl _
  | call f => exact Nat.le_add_left _ _

end Opener

namespace Progress

variable {limits : Limits} {p : Progress} {opener : Opener} {d : Derivation .sum}

/-- The state inside a bracket that has just been opened. -/
def inside (p : Progress) (opener : Opener) : Progress where
  enclosing := (opener, p.current) :: p.enclosing
  nesting := p.nesting + 1
  deltaNesting := p.deltaNesting + opener.deltas

/-- A bracket is opened if it fits. -/
theorem opened_ok (hnesting : p.nesting < limits.nesting)
    (hdelta : p.deltaNesting + opener.deltas ≤ maxDeltaNesting) :
    p.opened limits opener = .ok (p.inside opener) := by
  by_cases ho : opener = .call .delta
  · have hd : ¬ maxDeltaNesting ≤ p.deltaNesting := by
      rw [Opener.deltas, if_pos ho] at hdelta
      omega
    simp [opened, deepen, deepenDelta, inside, Opener.deltas, ho, hd, Nat.not_le.mpr hnesting]
  · simp [opened, deepen, deepenDelta, inside, Opener.deltas, ho, Nat.not_le.mpr hnesting]

/-- A bracket that does not fit is refused. -/
theorem opened_error
    (h : ¬ (p.nesting < limits.nesting ∧ p.deltaNesting + opener.deltas ≤ maxDeltaNesting))
    (hw : p.Within limits) : ∃ q, p.opened limits opener = .error q := by
  by_cases hn : limits.nesting ≤ p.nesting
  · exact ⟨p, by simp [opened, deepen, hn]⟩
  · have hdelta : ¬ p.deltaNesting + opener.deltas ≤ maxDeltaNesting :=
      fun hd => h ⟨Nat.lt_of_not_le hn, hd⟩
    -- only a `DELTA` can be too many, for what is open already is within the bounds
    have hw := hw.delta
    by_cases ho : opener = .call .delta
    · have hd : maxDeltaNesting ≤ p.deltaNesting := by
        rw [Opener.deltas, if_pos ho] at hdelta
        omega
      exact ⟨{ p with nesting := p.nesting + 1 }, by simp [opened, deepen, deepenDelta, hn, ho, hd]⟩
    · rw [Opener.deltas, if_neg ho] at hdelta
      omega

/-- Closing a bracket leads back to where it was opened. -/
theorem closed_of_keeps {q : Progress} (h : Level.sum.Keeps (p.inside opener) q) :
    q.closed opener p.current p.enclosing = p := by
  have hq : q = { p.inside opener with current := q.current } := h
  rw [hq]
  by_cases ho : opener = .call .delta <;> simp [closed, inside, Opener.deltas, ho]

theorem bracketed_of_le (h : (opener.derivation d).tree.depth ≤ limits.depth) :
    bracketed limits (.ofExpr d.tree) opener = some (.ofExpr (opener.derivation d).tree) := by
  cases opener with
  | group => rfl
  | call f => exact Limits.accept_of_le h

theorem bracketed_of_lt (hd : d.tree.depth ≤ limits.depth)
    (h : limits.depth < (opener.derivation d).tree.depth) :
    bracketed limits (.ofExpr d.tree) opener = none := by
  cases opener with
  | group => exact absurd hd (Nat.not_le.mpr h)
  | call f => exact Limits.accept_of_lt h

end Progress

/-- A bracket closes with the primary that it makes of the expression in it, unless that is too
high. -/
theorem Stage.next_closeBracket_of_keeps {limits : Limits} {p p' q : Progress} {opener : Opener}
    {node whole : Node} (hsettle : p'.settleAt limits node .sum = .ok (q, whole))
    (hkeeps : Level.sum.Keeps (p.inside opener) q) :
    (primary p' node).next limits .closeBracket =
      .ok ((Progress.bracketed limits whole opener).elim (exceeded p) (primary p)) := by
  have henclosing : q.enclosing = (opener, p.current) :: p.enclosing := hkeeps.enclosing_eq
  rw [next_closeBracket hsettle]
  simp only [afterClosing, henclosing, Progress.closed_of_keeps hkeeps]
  cases Progress.bracketed limits whole opener <;> rfl

end Formulary
