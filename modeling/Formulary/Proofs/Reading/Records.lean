import Formulary.Proofs.Reading.Settle

/-!
# What has been read of an expression

Each part of an unfinished expression is a derivation that has been completed or the beginning of
one, and the tokens that have been read are those of the parts, from the weakest level to the
strongest. A primary completes the parts one after the other.

* `Unfinished.Records` — the tokens that an unfinished expression stands for;
* `RecordsPower.close`, `RecordsProduct.close`, `RecordsSum.close` — one level and what completes
  it;
* `Progress.exists_sum` — a primary completes the whole expression;
* `Progress.records_awaiting`, `Progress.records_signed` — an operator after a primary, and one that
  is taken as a sign.

No bound occurs in all this: bounds only decide whether a step is made.
-/

namespace Formulary

/-! ## `E^` in front of a primary -/

namespace Derivation

/-- A primary with `count` times `E^` in front of it. -/
def exponentials (count : Nat) (d : Derivation .primary) : Derivation .primary :=
  exponential^[count] d

theorem tokens_exponentials (count : Nat) (d : Derivation .primary) :
    (exponentials count d).tokens = List.replicate count .exponential ++ d.tokens := by
  induction count with
  | zero => rfl
  | succ count ih =>
    rw [exponentials, Function.iterate_succ_apply', tokens, List.replicate_succ, List.cons_append,
      ← ih, exponentials]

theorem tree_exponentials (count : Nat) (d : Derivation .primary) :
    (exponentials count d).tree = d.tree.exponentiated count := by
  induction count with
  | zero => rfl
  | succ count ih =>
    rw [exponentials, Function.iterate_succ_apply', tree, ← Expr.call_exponentiated, ← ih,
      exponentials]

end Derivation

/-! ## Unfinished expressions -/

namespace Unfinished

variable {u : Unfinished} {ts : List Token}

/-- The tokens of the terms before the current one, and of the signs in front of it. -/
def RecordsSum (negative : Bool) : Option Node → List Token → Prop
  | none, ts => ∃ signs, negative = Sign.oddMinus signs ∧ ts = signs.map Sign.token
  | some node, ts => ∃ (d : Derivation .sum) (sign : Sign) (signs : List Sign),
    d.tree = node.expr ∧ negative = Sign.oddMinus (sign :: signs) ∧
      ts = d.tokens ++ (sign :: signs).map Sign.token

/-- The tokens of the powers before the current one. -/
def RecordsProduct : Option (Node × Operator) → List Token → Prop
  | none, ts => ts = []
  | some (node, op), ts => ∃ d : Derivation .product,
    d.tree = node.expr ∧ op.precedence = .multiplicative ∧ ts = d.tokens ++ [.operator op]

/-- The tokens of the primaries before the current one. -/
def RecordsPower : Option Node → List Token → Prop
  | none, ts => ts = []
  | some node, ts => ∃ d : Derivation .power,
    d.tree = node.expr ∧ ts = d.tokens ++ [.operator .power]

/-- The tokens that have been read of an expression. -/
def Records (u : Unfinished) (ts : List Token) : Prop :=
  ∃ sums products powers, RecordsSum u.negative u.sum sums ∧ RecordsProduct u.product products ∧
    RecordsPower u.power powers ∧
    ts = sums ++ (products ++ (powers ++ List.replicate u.exponentials .exponential))

theorem records_nil : Records {} [] :=
  ⟨[], [], [], ⟨[], rfl, rfl⟩, rfl, rfl, rfl⟩

theorem RecordsSum.concat {negative : Bool} {sum : Option Node} (h : RecordsSum negative sum ts)
    (s : Sign) : RecordsSum (Bool.xor negative (s == .minus)) sum (ts ++ [s.token]) := by
  cases sum with
  | none =>
    obtain ⟨signs, rfl, rfl⟩ := h
    exact ⟨signs ++ [s], (Sign.oddMinus_concat signs s).symm, by simp⟩
  | some node =>
    obtain ⟨d, sign, signs, hd, rfl, rfl⟩ := h
    refine ⟨d, sign, signs ++ [s], hd, ?_, by simp⟩
    rw [← List.cons_append, Sign.oddMinus_concat]

/-- One more sign, where nothing of the current term has been read. -/
theorem Records.signed (h : u.Records ts) (hu : u.takesSign = true) (s : Sign) :
    ({ u with negative := Bool.xor u.negative (s == .minus) } : Unfinished).Records
      (ts ++ [s.token]) := by
  obtain ⟨sums, products, powers, hs, hp, hw, rfl⟩ := h
  simp only [takesSign, Bool.and_eq_true, Option.isNone_iff_eq_none, beq_iff_eq] at hu
  obtain ⟨⟨hproduct, hpower⟩, hexp⟩ := hu
  -- so the signs are the last tokens that have been read
  rw [hproduct] at hp
  rw [hpower] at hw
  obtain rfl : products = [] := hp
  obtain rfl : powers = [] := hw
  refine ⟨_, [], [], hs.concat s, ?_, ?_, by simp [hexp]⟩
  · rw [hproduct]
    rfl
  · rw [hpower]
    rfl

/-- One more `E^`. -/
theorem Records.exponential (h : u.Records ts) :
    ({ u with exponentials := u.exponentials + 1 } : Unfinished).Records
      (ts ++ [.exponential]) := by
  obtain ⟨sums, products, powers, hs, hp, hw, rfl⟩ := h
  exact ⟨sums, products, powers, hs, hp, hw, by simp [List.replicate_succ']⟩

/-- A primary completes the current power. -/
theorem RecordsPower.close (h : RecordsPower u.power ts) (d : Derivation .primary) :
    ∃ d' : Derivation .power, d'.tokens = ts ++ d.tokens ∧
      ∀ limits node n, node.expr = d.tree → u.closePower limits node = some n →
        n.expr = d'.tree := by
  rcases hu : u.power with _ | left
  · rw [hu] at h
    obtain rfl : ts = [] := h
    refine ⟨.ofPrimary d, rfl, ?_⟩
    intro limits node n hnode hn
    rw [closePower_none hu] at hn
    obtain rfl := Option.some.inj hn
    exact hnode
  · rw [hu] at h
    obtain ⟨dl, hl, rfl⟩ := h
    refine ⟨.raise dl d, by simp [Derivation.tokens], ?_⟩
    intro limits node n hnode hn
    rw [closePower_some hu] at hn
    rw [Limits.eq_of_accept hn, Derivation.tree, hl, ← hnode]
    rfl

/-- A power completes the current term. -/
theorem RecordsProduct.close (h : RecordsProduct u.product ts) (d : Derivation .power) :
    ∃ d' : Derivation .product, d'.tokens = ts ++ d.tokens ∧
      ∀ limits node n, node.expr = d.tree → u.closeProduct limits node = some n →
        n.expr = d'.tree := by
  rcases hu : u.product with _ | ⟨left, op⟩
  · rw [hu] at h
    obtain rfl : ts = [] := h
    refine ⟨.ofPower d, rfl, ?_⟩
    intro limits node n hnode hn
    rw [closeProduct_none hu] at hn
    obtain rfl := Option.some.inj hn
    exact hnode
  · rw [hu] at h
    obtain ⟨dl, hl, hop, rfl⟩ := h
    refine ⟨.scale dl op hop d, by simp [Derivation.tokens], ?_⟩
    intro limits node n hnode hn
    rw [closeProduct_some hu] at hn
    rw [Limits.eq_of_accept hn, Derivation.tree, hl, ← hnode]
    rfl

/-- A term completes the expression. -/
theorem RecordsSum.close (h : RecordsSum u.negative u.sum ts) (d : Derivation .product) :
    ∃ d' : Derivation .sum, d'.tokens = ts ++ d.tokens ∧
      ∀ limits node n, node.expr = d.tree → u.closeSum limits node = some n →
        n.expr = d'.tree := by
  rcases hu : u.sum with _ | left
  · rw [hu] at h
    obtain ⟨signs, hneg, rfl⟩ := h
    refine ⟨.ofProduct signs d, rfl, ?_⟩
    intro limits node n hnode hn
    rw [closeSum_none hu, hneg] at hn
    rw [Derivation.tree]
    by_cases hodd : Sign.oddMinus signs = true
    · rw [if_pos hodd] at hn ⊢
      rw [Limits.expr_of_negate hn, hnode]
    · rw [if_neg hodd] at hn ⊢
      obtain rfl := Option.some.inj hn
      exact hnode
  · rw [hu] at h
    obtain ⟨dl, sign, signs, hl, hneg, rfl⟩ := h
    refine ⟨.join dl sign signs d, by simp [Derivation.tokens], ?_⟩
    intro limits node n hnode hn
    rw [closeSum_some hu, hneg] at hn
    rw [Limits.eq_of_accept hn, Derivation.tree, hl, ← hnode]
    rfl

end Unfinished

/-! ## A primary and what it completes -/

namespace Progress

open Unfinished

variable {p q : Progress} {node n : Node} {sums products powers ts : List Token}
  {d : Derivation .primary}

theorem exists_power (hw : RecordsPower p.current.power powers) (hnode : node.expr = d.tree) :
    ∃ d' : Derivation .power,
      d'.tokens = powers ++ (List.replicate p.current.exponentials .exponential ++ d.tokens) ∧
      ∀ limits q n, p.settleAt limits node .power = .ok (q, n) → n.expr = d'.tree := by
  obtain ⟨d', htokens, htree⟩ :=
    hw.close (Derivation.exponentials p.current.exponentials d)
  refine ⟨d', by rw [htokens, Derivation.tokens_exponentials], ?_⟩
  intro limits q n h
  obtain ⟨m, hm, hclose⟩ := bind_settleBy_eq_ok h
  obtain ⟨rfl, hexp⟩ := applyExponentials_eq_ok hm
  refine htree limits m n ?_ hclose
  rw [hexp, hnode, Derivation.tree_exponentials]

theorem exists_product (hp : RecordsProduct p.current.product products)
    (hw : RecordsPower p.current.power powers) (hnode : node.expr = d.tree) :
    ∃ d' : Derivation .product,
      d'.tokens = products ++
        (powers ++ (List.replicate p.current.exponentials .exponential ++ d.tokens)) ∧
      ∀ limits q n, p.settleAt limits node .product = .ok (q, n) → n.expr = d'.tree := by
  obtain ⟨dw, hdw, htree⟩ := exists_power hw hnode
  obtain ⟨d', htokens, hclosed⟩ := hp.close dw
  refine ⟨d', by rw [htokens, hdw], ?_⟩
  intro limits q n h
  obtain ⟨m, hm, hclose⟩ := bind_settleBy_eq_ok h
  have hm : p.settleAt limits node .power = .ok (q, m) := hm
  have hq := eq_settled_of_settleAt hm
  subst hq
  exact hclosed limits m n (htree limits _ m hm) hclose

theorem exists_sum (h : p.current.Records ts) (hnode : node.expr = d.tree) :
    ∃ d' : Derivation .sum, d'.tokens = ts ++ d.tokens ∧
      ∀ limits q n, p.settleAt limits node .sum = .ok (q, n) → n.expr = d'.tree := by
  obtain ⟨sums, products, powers, hs, hp, hw, rfl⟩ := h
  obtain ⟨dp, hdp, htree⟩ := exists_product hp hw hnode
  obtain ⟨d', htokens, hclosed⟩ := hs.close dp
  refine ⟨d', by simp only [htokens, hdp, List.append_assoc], ?_⟩
  intro limits q n h
  obtain ⟨m, hm, hclose⟩ := bind_settleBy_eq_ok h
  have hm : p.settleAt limits node .product = .ok (q, m) := hm
  have hq := eq_settled_of_settleAt hm
  subst hq
  exact hclosed limits m n (htree limits _ m hm) hclose

/-- **An operator after a primary**: its left side is a derivation, and the state after it stands
for one more token. -/
theorem records_awaiting {limits : Limits} {op : Operator} (h : p.current.Records ts)
    (hnode : node.expr = d.tree) (hsettle : p.settleAt limits node op.level = .ok (q, n)) :
    (q.awaiting n op).current.Records (ts ++ d.tokens ++ [.operator op]) := by
  -- settling leaves the records as they are
  have hq := eq_settled_of_settleAt hsettle
  subst hq
  have hsum : op.level = .sum → ∃ d' : Derivation .sum,
      d'.tokens = ts ++ d.tokens ∧ d'.tree = n.expr := by
    intro hlevel
    obtain ⟨d', htokens, htree⟩ := exists_sum h hnode
    rw [hlevel] at hsettle
    exact ⟨d', htokens, (htree limits _ n hsettle).symm⟩
  obtain ⟨sums, products, powers, hs, hp, hw, rfl⟩ := h
  have hproduct (hop : op.precedence = .multiplicative) :
      ({ sum := p.current.sum, negative := p.current.negative, product := some (n, op) } :
        Unfinished).Records (sums ++ (products ++ (powers ++
          List.replicate p.current.exponentials .exponential)) ++ d.tokens ++
            [.operator op]) := by
    obtain ⟨d', htokens, htree⟩ := exists_product hp hw hnode
    rw [Operator.level_of_multiplicative hop] at hsettle
    refine ⟨sums, _, [], hs, ⟨d', (htree limits _ n hsettle).symm, hop, rfl⟩, rfl, ?_⟩
    simp [htokens]
  cases op with
  | add =>
    obtain ⟨d', htokens, htree⟩ := hsum rfl
    refine ⟨_, [], [], ⟨d', .plus, [], htree, rfl, rfl⟩, rfl, rfl, ?_⟩
    simp [awaiting, htokens, Sign.token, Sign.operator]
  | subtract =>
    obtain ⟨d', htokens, htree⟩ := hsum rfl
    refine ⟨_, [], [], ⟨d', .minus, [], htree, rfl, rfl⟩, rfl, rfl, ?_⟩
    simp [awaiting, htokens, Sign.token, Sign.operator]
  | multiply => exact hproduct rfl
  | divide => exact hproduct rfl
  | power =>
    obtain ⟨d', htokens, htree⟩ := exists_power hw hnode
    refine ⟨sums, products, _, hs, hp, ⟨d', (htree limits _ n hsettle).symm, rfl⟩, ?_⟩
    simp [settled, awaiting, htokens]

/-- An operator that is taken as a sign. -/
theorem records_signed {op : Operator} (h : p.current.Records ts) (hq : p.signed? op = some q) :
    q.current.Records (ts ++ [.operator op]) ∧ q.enclosing = p.enclosing := by
  cases op with
  | add =>
    obtain ⟨hsign, heq⟩ := Option.ite_none_right_eq_some.mp hq
    obtain rfl := Option.some.inj heq
    have hrecords := h.signed hsign .plus
    rw [show (Sign.plus == Sign.minus) = false from rfl, Bool.xor_false] at hrecords
    exact ⟨hrecords, rfl⟩
  | subtract =>
    obtain ⟨hsign, heq⟩ := Option.ite_none_right_eq_some.mp hq
    obtain rfl := Option.some.inj heq
    have hrecords := h.signed hsign .minus
    rw [show (Sign.minus == Sign.minus) = true from rfl, Bool.xor_true] at hrecords
    exact ⟨hrecords, rfl⟩
  | multiply | divide | power => cases hq

end Progress

end Formulary
