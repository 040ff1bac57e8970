import Mathlib.Logic.Function.Iterate
import Formulary.Expr.Reading
import Formulary.Proofs.Grammar

/-!
# Finishing one level after the other

In front of an operator the reading finishes all levels that bind more strongly, and at a closing
bracket or at the end all four. `settleAt` finishes the levels up to a given one, each from the one
before it, so a refusal on one level is a refusal on all that follow:

* `settle_some`, `settle_none` — the reading's own `settle` is this function, at the level that the
  next token leaves complete;
* `settleAt_primary_of_le`, `settleAt_primary_of_lt` — the `E^` in front of a primary are all
  applied, or the tree becomes too high;
* `settleAt_power`, `settleAt_product`, `settleAt_sum` — what each later level adds;
* `eq_settled_of_settleAt` — what settling leaves of the state.
-/

namespace Formulary

/-! ## Levels -/

namespace Level

/-- The place of a level, counted from what binds most strongly. -/
def rank : Level → Nat
  | primary => 0
  | power => 1
  | product => 2
  | sum => 3

theorem rank_le_sum (level : Level) : level.rank ≤ sum.rank := by
  cases level <;> decide

end Level

/-- The level that is complete in front of an operator: the operator's left side. -/
def Operator.level : Operator → Level
  | .power => .power
  | .multiply | .divide => .product
  | .add | .subtract => .sum

theorem Operator.level_of_multiplicative {op : Operator}
    (h : op.precedence = .multiplicative) : op.level = .product := by
  cases op with
  | multiply | divide => rfl
  | add | subtract | power => cases h

/-- The level that is complete in front of a token. -/
def Token.level : Token → Level
  | .operator op => op.level
  | _ => .sum

/-- After a primary only operators and closing brackets are told apart from the rest. -/
theorem Token.cases_after_primary (t : Token) :
    (∃ op, t = .operator op) ∨ t = .closeBracket ∨ t.operator? = none ∧ t ≠ .closeBracket := by
  cases t with
  | operator op => exact .inl ⟨op, rfl⟩
  | closeBracket => exact .inr (.inl rfl)
  | number | constant | freeVariable | openBracket | function | exponential | endOfText
  | illegal | unknown | malformed => exact .inr (.inr ⟨rfl, nofun⟩)

theorem Token.level_of_operator?_eq_none {t : Token} (h : t.operator? = none) :
    t.level = .sum := by
  cases t with
  | operator => cases h
  | number | constant | freeVariable | openBracket | closeBracket | function | exponential
  | endOfText | illegal | unknown | malformed => rfl

/-! ## Nodes -/

namespace Node

/-- A tree with its depth. -/
def ofExpr (e : Expr Binary64) : Node := ⟨e, e.depth, rfl⟩

/-- A node is nothing but its tree. -/
theorem eq_ofExpr (node : Node) : node = ofExpr node.expr := by
  obtain ⟨expr, depth, rfl⟩ := node
  rfl

@[simp] theorem expr_ofExpr (e : Expr Binary64) : (ofExpr e).expr = e := rfl

@[simp] theorem call_ofExpr (f : Function) (a : Expr Binary64) :
    call f (ofExpr a) = ofExpr (.call f a) := rfl

end Node

namespace Limits

variable {limits : Limits} {e : Expr Binary64}

theorem accept_eq (limits : Limits) (e : Expr Binary64) :
    limits.accept (.ofExpr e) = if e.depth ≤ limits.depth then some (.ofExpr e) else none := by
  by_cases h : e.depth ≤ limits.depth
  · rw [if_pos h]
    exact if_neg (Nat.not_lt.mpr h)
  · rw [if_neg h]
    exact if_pos (Nat.lt_of_not_le h)

theorem accept_of_le (h : e.depth ≤ limits.depth) :
    limits.accept (.ofExpr e) = some (.ofExpr e) := by
  rw [accept_eq, if_pos h]

theorem accept_of_lt (h : limits.depth < e.depth) : limits.accept (.ofExpr e) = none := by
  rw [accept_eq, if_neg (Nat.not_le.mpr h)]

/-- A minus sign makes the negative of a tree, if that is low enough. A number never becomes
higher, so its depth needs no check. -/
theorem negate_eq (hpos : 0 < limits.depth) (e : Expr Binary64) :
    limits.negate (.ofExpr e) =
      if e.negated.depth ≤ limits.depth then some (.ofExpr e.negated) else none := by
  cases e with
  | number x => exact (if_pos hpos).symm
  | constant _ | freeVariable | binary _ _ _ | call _ _ => exact accept_eq limits _

theorem eq_of_accept {node n : Node} (h : limits.accept node = some n) : n = node := by
  rw [accept] at h
  split at h
  · cases h
  · exact (Option.some.inj h).symm

theorem expr_of_negate {node n : Node} (h : limits.negate node = some n) :
    n.expr = node.expr.negated := by
  obtain ⟨expr, depth, rfl⟩ := node
  cases expr with
  | number x =>
    obtain rfl := Option.some.inj h
    rfl
  | constant _ | freeVariable | binary _ _ _ | call _ _ =>
    rw [eq_of_accept h]
    rfl

end Limits

/-! ## The levels of an unfinished expression -/

namespace Unfinished

variable {limits : Limits} {u : Unfinished}

theorem closePower_none (h : u.power = none) (node : Node) :
    u.closePower limits node = some node := by
  rw [closePower, h]

theorem closePower_some {left : Node} (h : u.power = some left) (node : Node) :
    u.closePower limits node = limits.accept (left.binary .power node) := by
  rw [closePower, h]

theorem closeProduct_none (h : u.product = none) (node : Node) :
    u.closeProduct limits node = some node := by
  rw [closeProduct, h]

theorem closeProduct_some {left : Node} {op : Operator} (h : u.product = some (left, op))
    (node : Node) : u.closeProduct limits node = limits.accept (left.binary op node) := by
  rw [closeProduct, h]

theorem closeSum_none (h : u.sum = none) (node : Node) :
    u.closeSum limits node = if u.negative then limits.negate node else some node := by
  rw [closeSum, h]

theorem closeSum_some {left : Node} (h : u.sum = some left) (node : Node) :
    u.closeSum limits node =
      limits.accept (left.binary (if u.negative then .subtract else .add) node) := by
  rw [closeSum, h]

end Unfinished

/-! ## Settling -/

namespace Progress

variable {limits : Limits} {p q : Progress} {node n : Node}

/-- One more level: `close` joins the finished part to what stands in front of it. -/
def settleBy (close : Unfinished → Node → Option Node) :
    Progress × Node → Except Progress (Progress × Node)
  | (p, node) =>
    match close p.current node with
    | none => .error p
    | some node => .ok (p, node)

theorem settleBy_some {close : Unfinished → Node → Option Node}
    (h : close p.current node = some n) : settleBy close (p, node) = .ok (p, n) := by
  rw [settleBy, h]

theorem settleBy_none {close : Unfinished → Node → Option Node}
    (h : close p.current node = none) : settleBy close (p, node) = .error p := by
  rw [settleBy, h]

/-- Finishes the levels up to the given one. -/
def settleAt (limits : Limits) (p : Progress) (node : Node) :
    Level → Except Progress (Progress × Node)
  | .primary => p.applyExponentials limits p.current.exponentials node
  | .power =>
    p.applyExponentials limits p.current.exponentials node >>= settleBy (·.closePower limits)
  | .product =>
    p.applyExponentials limits p.current.exponentials node >>= settleBy (·.closePower limits) >>=
      settleBy (·.closeProduct limits)
  | .sum =>
    p.applyExponentials limits p.current.exponentials node >>= settleBy (·.closePower limits) >>=
      settleBy (·.closeProduct limits) >>= settleBy (·.closeSum limits)

/-- The level that is complete in front of the next operator, or where none comes. -/
def levelBefore (next : Option Operator) : Level := next.elim .sum Operator.level

theorem settle_eq_settleAt (limits : Limits) (p : Progress) (node : Node)
    (next : Option Operator) :
    p.settle limits node next = p.settleAt limits node (levelBefore next) := by
  rw [settle]
  -- the two agree once it is known how far the levels can be finished, and which operator comes
  rcases he : p.applyExponentials limits p.current.exponentials node with q | ⟨q, n⟩
  · rcases next with _ | (_ | _ | _ | _ | _) <;>
      simp only [levelBefore, Option.elim, Operator.level, settleAt, he] <;> rfl
  · rcases hw : q.current.closePower limits n with _ | n₁
    · rcases next with _ | (_ | _ | _ | _ | _) <;>
        simp only [levelBefore, Option.elim, Operator.level, settleAt, settleBy, he, hw, bind,
          Except.bind] <;> rfl
    · rcases hr : q.current.closeProduct limits n₁ with _ | n₂
      · rcases next with _ | (_ | _ | _ | _ | _) <;>
          simp [levelBefore, Operator.level, Operator.precedence, settleAt, settleBy, he, hw, hr,
            bind, Except.bind]
      · rcases hs : q.current.closeSum limits n₂ with _ | n₃ <;>
          rcases next with _ | (_ | _ | _ | _ | _) <;>
            simp [levelBefore, Operator.level, Operator.precedence, settleAt, settleBy, he, hw, hr,
              hs, bind, Except.bind]

theorem settle_some (limits : Limits) (p : Progress) (node : Node) (op : Operator) :
    p.settle limits node (some op) = p.settleAt limits node op.level :=
  settle_eq_settleAt limits p node (some op)

theorem settle_none (limits : Limits) (p : Progress) (node : Node) :
    p.settle limits node none = p.settleAt limits node .sum :=
  settle_eq_settleAt limits p node none

/-! ### From one level to the next -/

theorem settleAt_power (limits : Limits) (p : Progress) (node : Node) :
    p.settleAt limits node .power =
      p.settleAt limits node .primary >>= settleBy (·.closePower limits) := rfl

theorem settleAt_product (limits : Limits) (p : Progress) (node : Node) :
    p.settleAt limits node .product =
      p.settleAt limits node .power >>= settleBy (·.closeProduct limits) := rfl

theorem settleAt_sum (limits : Limits) (p : Progress) (node : Node) :
    p.settleAt limits node .sum =
      p.settleAt limits node .product >>= settleBy (·.closeSum limits) := rfl

/-- A refusal on one level is a refusal on every weaker one. -/
theorem settleAt_error_of_le {level weaker : Level} (hle : level.rank ≤ weaker.rank)
    (h : p.settleAt limits node level = .error q) :
    p.settleAt limits node weaker = .error q := by
  have hpower : p.settleAt limits node .primary = .error q →
      p.settleAt limits node .power = .error q := by
    intro h
    rw [settleAt_power, h]
    rfl
  have hproduct : p.settleAt limits node .power = .error q →
      p.settleAt limits node .product = .error q := by
    intro h
    rw [settleAt_product, h]
    rfl
  have hsum : p.settleAt limits node .product = .error q →
      p.settleAt limits node .sum = .error q := by
    intro h
    rw [settleAt_sum, h]
    rfl
  -- a refusal goes from each level to the next
  cases level <;> cases weaker
  case primary.primary | power.power | product.product | sum.sum => exact h
  case primary.power => exact hpower h
  case primary.product => exact hproduct (hpower h)
  case primary.sum => exact hsum (hproduct (hpower h))
  case power.product => exact hproduct h
  case power.sum => exact hsum (hproduct h)
  case product.sum => exact hsum h
  all_goals exact absurd hle (by decide)

/-! ### The `E^` in front of a primary -/

/-- The state after `count` more `E^`. -/
def deepenedBy (p : Progress) (count : Nat) : Progress :=
  { p with
    nesting := p.nesting + count
    current := { p.current with exponentials := p.current.exponentials + count } }

theorem deepenedBy_zero (p : Progress) : p.deepenedBy 0 = p := rfl

theorem deepenedBy_deepenedBy (p : Progress) (count more : Nat) :
    (p.deepenedBy count).deepenedBy more = p.deepenedBy (count + more) := by
  simp [deepenedBy, Nat.add_assoc]

end Progress

/-- The exponential function, applied to a tree `count` times. -/
def Expr.exponentiated (count : Nat) (e : Expr Binary64) : Expr Binary64 :=
  (Expr.call (.pointwise .exp))^[count] e

namespace Expr

theorem exponentiated_succ (count : Nat) (e : Expr Binary64) :
    exponentiated (count + 1) e = exponentiated count (.call (.pointwise .exp) e) := rfl

theorem call_exponentiated (count : Nat) (e : Expr Binary64) :
    .call (.pointwise .exp) (exponentiated count e) = exponentiated (count + 1) e :=
  (Function.iterate_succ_apply' _ count e).symm

theorem depth_exponentiated (count : Nat) (e : Expr Binary64) :
    (exponentiated count e).depth = e.depth + count := by
  induction count generalizing e with
  | zero => rfl
  | succ count ih =>
    rw [exponentiated_succ, ih, depth]
    omega

end Expr

namespace Progress

variable {limits : Limits} {p q : Progress} {node n : Node}

theorem applyExponentials_of_le {count : Nat} {e : Expr Binary64}
    (h : (e.exponentiated count).depth ≤ limits.depth) :
    p.applyExponentials limits count (.ofExpr e) =
      .ok ({ p with
        nesting := p.nesting - count
        current := { p.current with exponentials := 0 } }, .ofExpr (e.exponentiated count)) := by
  induction count generalizing p e with
  | zero => rfl
  | succ count ih =>
    rw [Expr.exponentiated_succ] at h
    have hd : (Expr.call (.pointwise .exp) e).depth ≤ limits.depth := by
      rw [Expr.depth_exponentiated] at h
      omega
    rw [applyExponentials]
    simp only [Node.call_ofExpr, Limits.accept_of_le hd, ih h]
    rw [Expr.exponentiated_succ, Nat.sub_sub, Nat.add_comm 1 count]

theorem applyExponentials_of_lt {count : Nat} {e : Expr Binary64} (hpos : 0 < count)
    (h : limits.depth < (e.exponentiated count).depth) :
    ∃ q, p.applyExponentials limits count (.ofExpr e) = .error q := by
  induction count generalizing p e with
  | zero => cases hpos
  | succ count ih =>
    rw [applyExponentials, Node.call_ofExpr]
    by_cases hd : (Expr.call (.pointwise .exp) e).depth ≤ limits.depth
    · rw [Limits.accept_of_le hd]
      -- the first `E^` still fits, so it is not the only one
      rw [Expr.exponentiated_succ] at h
      have hcount : 0 < count := by
        rw [Expr.depth_exponentiated] at h
        omega
      exact ih hcount h
    · rw [Limits.accept_of_lt (Nat.lt_of_not_le hd)]
      exact ⟨_, rfl⟩

/-- All `E^` in front of a primary are applied to it, and are no longer counted as open. -/
theorem settleAt_primary_of_le {count : Nat} {e : Expr Binary64}
    (hp : p.current.exponentials = 0) (h : (e.exponentiated count).depth ≤ limits.depth) :
    (p.deepenedBy count).settleAt limits (.ofExpr e) .primary =
      .ok (p, .ofExpr (e.exponentiated count)) := by
  obtain ⟨⟨sum, negative, product, power, exponentials⟩, enclosing, nesting, deltaNesting⟩ := p
  obtain rfl : exponentials = 0 := hp
  simp only [settleAt, deepenedBy, Nat.zero_add, applyExponentials_of_le h,
    Nat.add_sub_cancel]

/-- Where the `E^` make the tree too high, settling is refused. -/
theorem settleAt_primary_of_lt {count : Nat} {e : Expr Binary64} (hpos : 0 < count)
    (h : limits.depth < (e.exponentiated count).depth) :
    ∃ q, (p.deepenedBy count).settleAt limits (.ofExpr e) .primary = .error q := by
  have hd : limits.depth < (e.exponentiated (p.current.exponentials + count)).depth := by
    rw [Expr.depth_exponentiated] at h ⊢
    omega
  exact applyExponentials_of_lt (Nat.add_pos_right _ hpos) hd

/-! ### Settled states -/

/-- The state after the `E^` in front of a primary have been applied. -/
def settled (p : Progress) : Progress :=
  { p with
    nesting := p.nesting - p.current.exponentials
    current := { p.current with exponentials := 0 } }

theorem applyExponentials_eq_ok {count : Nat}
    (h : p.applyExponentials limits count node = .ok (q, n)) :
    q = { p with
      nesting := p.nesting - count
      current := { p.current with exponentials := 0 } } ∧
    n.expr = node.expr.exponentiated count := by
  induction count generalizing p node with
  | zero =>
    obtain ⟨rfl, rfl⟩ := Prod.mk.inj (Except.ok.inj h)
    exact ⟨rfl, rfl⟩
  | succ count ih =>
    rw [applyExponentials, Node.eq_ofExpr node, Node.call_ofExpr, Limits.accept_eq] at h
    by_cases hd : (Expr.call (.pointwise .exp) node.expr).depth ≤ limits.depth
    · rw [if_pos hd] at h
      obtain ⟨hq, hn⟩ := ih h
      refine ⟨?_, hn⟩
      rw [hq, Nat.sub_sub, Nat.add_comm 1 count]
    · rw [if_neg hd] at h
      cases h

theorem bind_settleBy_eq_ok {close : Unfinished → Node → Option Node}
    {result : Except Progress (Progress × Node)} (h : result >>= settleBy close = .ok (q, n)) :
    ∃ m, result = .ok (q, m) ∧ close q.current m = some n := by
  rcases result with r | ⟨p, m⟩
  · cases h
  · have h : settleBy close (p, m) = .ok (q, n) := h
    rcases hc : close p.current m with _ | m'
    · rw [settleBy_none hc] at h
      cases h
    · rw [settleBy_some hc] at h
      obtain ⟨rfl, rfl⟩ := Prod.mk.inj (Except.ok.inj h)
      exact ⟨m, rfl, hc⟩

/-- Settling changes nothing in the state but the `E^`. -/
theorem eq_settled_of_settleAt {level : Level} (h : p.settleAt limits node level = .ok (q, n)) :
    q = p.settled := by
  cases level with
  | primary => exact (applyExponentials_eq_ok h).1
  | power =>
    obtain ⟨m, h, -⟩ := bind_settleBy_eq_ok h
    exact (applyExponentials_eq_ok h).1
  | product =>
    obtain ⟨m, h, -⟩ := bind_settleBy_eq_ok h
    obtain ⟨m, h, -⟩ := bind_settleBy_eq_ok h
    exact (applyExponentials_eq_ok h).1
  | sum =>
    obtain ⟨m, h, -⟩ := bind_settleBy_eq_ok h
    obtain ⟨m, h, -⟩ := bind_settleBy_eq_ok h
    obtain ⟨m, h, -⟩ := bind_settleBy_eq_ok h
    exact (applyExponentials_eq_ok h).1

/-- Settling opens and closes nothing. -/
theorem enclosing_of_settleAt {level : Level} (h : p.settleAt limits node level = .ok (q, n)) :
    q.enclosing = p.enclosing := by
  rw [eq_settled_of_settleAt h, settled]

end Progress

end Formulary
