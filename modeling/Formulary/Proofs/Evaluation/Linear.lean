import Mathlib.Tactic.Ring
import Formulary.Proofs.Evaluation.Alike
import Formulary.Proofs.Evaluation.Exact

/-!
# Linear formulas

A formula that is linear by its shape has, in exact arithmetic, the value `a * x + b` at each value
`x` of the variable, with numbers `a` and `b` of its own; or it has no value anywhere, and for one
reason. So the variable cannot decide whether it has a value.

* `Uniformly` — outcomes that are one failure throughout, or a function with a given property;
* `Uniformly.binary` — an operator between two of them, the right side first;
* `Operations.uniformly_of_variableFree` — a formula without the variable is constant;
* `Operations.evaluate_affine_of_isLinear` — a linear formula is affine.
-/

namespace Formulary

variable {K : Type}

/-! ## Functions of the variable -/

/-- A function with the values `a * x + b`. -/
def IsAffine [Field K] (g : K → K) : Prop := ∃ a b, g = fun x => a * x + b

/-- A function with a single value. -/
def IsConst (g : K → K) : Prop := ∃ b, g = fun _ => b

/-- An outcome for each value of the variable: one failure for all of them, or a number for all of
them, and these numbers are a function with the property. -/
def Uniformly (P : (K → K) → Prop) (f : K → Except Failure K) : Prop :=
  (∃ e, ∀ x, f x = .error e) ∨ ∃ g, P g ∧ ∀ x, f x = .ok (g x)

theorem IsConst.isAffine [Field K] {g : K → K} (h : IsConst g) : IsAffine g := by
  obtain ⟨b, rfl⟩ := h
  refine ⟨0, b, ?_⟩
  simp only [zero_mul, zero_add]

namespace Uniformly

variable {P Q R : (K → K) → Prop} {f l r : K → Except Failure K} {g : K → K}

theorem ok (hg : P g) : Uniformly P fun x => .ok (g x) := .inr ⟨g, hg, fun _ => rfl⟩

theorem error (e : Failure) : Uniformly P fun _ : K => .error e := .inl ⟨e, fun _ => rfl⟩

theorem imp (h : Uniformly P f) (himp : ∀ g, P g → Q g) : Uniformly Q f := by
  obtain he | ⟨g, hg, hf⟩ := h
  · exact .inl he
  · exact .inr ⟨g, himp g hg, hf⟩

/-- **An operator between two outcomes.** The right side decides first, then the left side, and if
both have numbers, the operator on them. -/
theorem binary {ops : Operations K} {op : Operator} (hr : Uniformly P r) (hl : Uniformly Q l)
    (hop : ∀ g h, Q g → P h →
      Uniformly R fun x => Operations.calculated (ops.binary op (g x) (h x))) :
    Uniformly R (fun x => do
      let y ← r x
      let z ← l x
      Operations.calculated (ops.binary op z y)) := by
  obtain ⟨e, he⟩ | ⟨h, hh, hr⟩ := hr
  · refine .inl ⟨e, ?_⟩
    intro x
    simp only [he]
    rfl
  · obtain ⟨e, he⟩ | ⟨g, hg, hl⟩ := hl
    · refine .inl ⟨e, ?_⟩
      intro x
      simp only [hr, he]
      rfl
    · have hboth := hop g h hg hh
      simp only [hr, hl]
      exact hboth

end Uniformly

/-! ## Operators of exact arithmetic -/

namespace Operations.Exact

variable [Field K] {ops : Operations K} (hops : ops.Exact) {g h : K → K}

include hops

theorem uniformly_add (hg : IsAffine g) (hh : IsAffine h) :
    Uniformly IsAffine fun x => calculated (ops.binary .add (g x) (h x)) := by
  obtain ⟨a, b, rfl⟩ := hg
  obtain ⟨c, d, rfl⟩ := hh
  simp only [hops.add]
  refine .ok (g := fun x => a * x + b + (c * x + d)) ⟨a + c, b + d, ?_⟩
  funext x
  ring

theorem uniformly_subtract (hg : IsAffine g) (hh : IsAffine h) :
    Uniformly IsAffine fun x => calculated (ops.binary .subtract (g x) (h x)) := by
  obtain ⟨a, b, rfl⟩ := hg
  obtain ⟨c, d, rfl⟩ := hh
  simp only [hops.subtract]
  refine .ok (g := fun x => a * x + b - (c * x + d)) ⟨a - c, b - d, ?_⟩
  funext x
  ring

/-- A constant factor on the left. -/
theorem uniformly_multiply_left (hg : IsConst g) (hh : IsAffine h) :
    Uniformly IsAffine fun x => calculated (ops.binary .multiply (g x) (h x)) := by
  obtain ⟨c, rfl⟩ := hg
  obtain ⟨a, b, rfl⟩ := hh
  simp only [hops.multiply]
  refine .ok (g := fun x => c * (a * x + b)) ⟨c * a, c * b, ?_⟩
  funext x
  ring

/-- A constant factor on the right. -/
theorem uniformly_multiply_right (hg : IsAffine g) (hh : IsConst h) :
    Uniformly IsAffine fun x => calculated (ops.binary .multiply (g x) (h x)) := by
  obtain ⟨a, b, rfl⟩ := hg
  obtain ⟨c, rfl⟩ := hh
  simp only [hops.multiply]
  refine .ok (g := fun x => (a * x + b) * c) ⟨a * c, b * c, ?_⟩
  funext x
  ring

/-- A constant divisor is zero for all values of the variable or for none. -/
theorem uniformly_divide (hg : IsAffine g) (hh : IsConst h) :
    Uniformly IsAffine fun x => calculated (ops.binary .divide (g x) (h x)) := by
  obtain ⟨a, b, rfl⟩ := hg
  obtain ⟨c, rfl⟩ := hh
  by_cases hc : c = 0
  · simp only [hc, hops.divide_zero]
    exact .error (.calculation .divisionByZero)
  · simp only [hops.divide _ hc]
    refine .ok (g := fun x => (a * x + b) / c) ⟨a / c, b / c, ?_⟩
    funext x
    ring

end Operations.Exact

/-! ## Formulas -/

namespace Operations

variable {ops : Operations K} {t : Expr K}

/-- **A formula without the variable is constant**, whatever its powers and functions do. -/
theorem uniformly_of_variableFree (ht : t.variableFree = true) (index : Option Nat)
    (series : List K) :
    Uniformly IsConst fun x => ops.evaluate ⟨some x, index, series⟩ t := by
  have hsame (x : K) :
      ops.evaluate ⟨some x, index, series⟩ t = ops.evaluate ⟨none, index, series⟩ t :=
    evaluate_eq_of_variableFree ht rfl rfl
  simp only [hsame]
  rcases ops.evaluate ⟨none, index, series⟩ t with e | b
  · exact .error e
  · exact .ok ⟨b, rfl⟩

variable [Field K]

/-- **A linear formula is affine.** -/
theorem uniformly_of_isLinear (hops : ops.Exact) (ht : t.isLinear = true) (index : Option Nat)
    (series : List K) :
    Uniformly IsAffine fun x => ops.evaluate ⟨some x, index, series⟩ t := by
  induction t with
  | number c => exact .ok (IsConst.isAffine ⟨c, rfl⟩)
  | constant c => exact .ok (IsConst.isAffine ⟨ops.constant c, rfl⟩)
  | freeVariable =>
    simp only [evaluate, variableValue, hops.admits, if_true]
    refine .ok (g := fun x => x) ⟨1, 0, ?_⟩
    simp only [one_mul, add_zero]
  | call f arg _ =>
    -- the argument holds no variable, so the call does not either
    have hfree : (Expr.call f arg).variableFree = true := ht
    exact (uniformly_of_variableFree hfree index series).imp fun _ => IsConst.isAffine
  | binary left op right ihl ihr =>
    cases op with
    | add =>
      obtain ⟨hl, hr⟩ := Bool.and_eq_true_iff.mp ht
      exact .binary (ihr hr) (ihl hl) fun g h hg hh => hops.uniformly_add hg hh
    | subtract =>
      obtain ⟨hl, hr⟩ := Bool.and_eq_true_iff.mp ht
      exact .binary (ihr hr) (ihl hl) fun g h hg hh => hops.uniformly_subtract hg hh
    | multiply =>
      rcases Bool.or_eq_true_iff.mp ht with h | h
      · obtain ⟨hfree, hr⟩ := Bool.and_eq_true_iff.mp h
        exact .binary (ihr hr) (uniformly_of_variableFree hfree index series)
          fun g h hg hh => hops.uniformly_multiply_left hg hh
      · obtain ⟨hfree, hl⟩ := Bool.and_eq_true_iff.mp h
        exact .binary (uniformly_of_variableFree hfree index series) (ihl hl)
          fun g h hg hh => hops.uniformly_multiply_right hg hh
    | divide =>
      obtain ⟨hl, hfree⟩ := Bool.and_eq_true_iff.mp ht
      exact .binary (uniformly_of_variableFree hfree index series) (ihl hl)
        fun g h hg hh => hops.uniformly_divide hg hh
    | power =>
      have hfree : (Expr.binary left .power right).variableFree = true := ht
      exact (uniformly_of_variableFree hfree index series).imp fun _ => IsConst.isAffine

/-- **A formula that is linear by its shape** either fails for one reason whatever the value `x` of
the variable is, or has the value `a * x + b` for all of them. -/
theorem evaluate_affine_of_isLinear (hops : ops.Exact) (ht : t.isLinear = true)
    (index : Option Nat) (series : List K) :
    (∃ e, ∀ x, ops.evaluate ⟨some x, index, series⟩ t = .error e) ∨
      ∃ a b, ∀ x, ops.evaluate ⟨some x, index, series⟩ t = .ok (a * x + b) := by
  obtain he | ⟨_, ⟨a, b, rfl⟩, hvalue⟩ := uniformly_of_isLinear hops ht index series
  · exact .inl he
  · exact .inr ⟨a, b, hvalue⟩

/-- A quotient by a constant and a difference that does not depend on the variable, over the
rational numbers with functions that are right at zero. -/
theorem evaluate_affine_of_isLinear_quotient :
    ∃ (A : Arithmetic ℚ) (t : Expr ℚ),
      A = .rational id id (fun _ => 1) (1 + ·) (· - 1) ∧
      t = .binary (.binary .freeVariable .divide (.number 4)) .subtract
        (.call .delta (.call (.pointwise .cos) (.number 0))) ∧
      t.isLinear = true ∧
      ((∃ e, ∀ x, A.operations.evaluate ⟨some x, some 1, [5, 7]⟩ t = .error e) ∨
        ∃ a b, ∀ x, A.operations.evaluate ⟨some x, some 1, [5, 7]⟩ t = .ok (a * x + b)) :=
  ⟨_, _, rfl, rfl, rfl,
    evaluate_affine_of_isLinear (Arithmetic.exact_rational _ _ _ _ _).operations rfl _ _⟩

end Operations

end Formulary
