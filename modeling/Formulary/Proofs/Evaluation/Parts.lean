import Formulary.Evaluation

/-!
# The value of a formula in terms of its parts

One equation for each way to build a formula, and what its success says about its parts: both sides
of an operator have values, and so has the argument of a function, for `DELTA` here and at the
sample before.
-/

namespace Formulary

namespace Operations

variable {α : Type} {ops : Operations α} {p before : Point α} {left right arg : Expr α}
  {op : Operator} {f : Pointwise} {z : α}

/-! ## Equations -/

theorem evaluate_binary (left : Expr α) (op : Operator) (right : Expr α) :
    ops.evaluate p (.binary left op right) = (do
      let r ← ops.evaluate p right
      let l ← ops.evaluate p left
      calculated (ops.binary op l r)) := rfl

theorem evaluate_pointwise (f : Pointwise) (arg : Expr α) :
    ops.evaluate p (.call (.pointwise f) arg) = (do
      let x ← ops.evaluate p arg
      calculated (ops.apply f x)) := rfl

theorem evaluate_delta_of_none (h : p.previous? = none) (arg : Expr α) :
    ops.evaluate p (.call .delta arg) = .error .noValue := by
  rw [evaluate, h]

theorem evaluate_delta_of_some (h : p.previous? = some before) (arg : Expr α) :
    ops.evaluate p (.call .delta arg) = (do
      let current ← ops.evaluate p arg
      let previous ← ops.evaluate before arg
      calculated (ops.binary .subtract current previous)) := by
  rw [evaluate, h]

/-! ## Success -/

theorem bind_eq_ok {β γ : Type} {result : Except Failure β} {next : β → Except Failure γ} {z : γ}
    (h : result >>= next = .ok z) : ∃ y, result = .ok y ∧ next y = .ok z := by
  rcases result with e | y
  · cases h
  · exact ⟨y, rfl, h⟩

theorem calculated_eq_ok {result : Except CalculationError α} (h : calculated result = .ok z) :
    result = .ok z := by
  rcases result with e | y
  · cases h
  · exact congrArg _ (Except.ok.inj h)

theorem exists_of_evaluate_binary (h : ops.evaluate p (.binary left op right) = .ok z) :
    ∃ y x, ops.evaluate p right = .ok y ∧ ops.evaluate p left = .ok x ∧
      ops.binary op x y = .ok z := by
  obtain ⟨y, hy, h⟩ := bind_eq_ok h
  obtain ⟨x, hx, h⟩ := bind_eq_ok h
  exact ⟨y, x, hy, hx, calculated_eq_ok h⟩

theorem exists_of_evaluate_pointwise (h : ops.evaluate p (.call (.pointwise f) arg) = .ok z) :
    ∃ x, ops.evaluate p arg = .ok x ∧ ops.apply f x = .ok z := by
  obtain ⟨x, hx, h⟩ := bind_eq_ok h
  exact ⟨x, hx, calculated_eq_ok h⟩

theorem exists_of_evaluate_delta (h : ops.evaluate p (.call .delta arg) = .ok z) :
    ∃ before current previous, p.previous? = some before ∧ ops.evaluate p arg = .ok current ∧
      ops.evaluate before arg = .ok previous ∧
      ops.binary .subtract current previous = .ok z := by
  rcases hp : p.previous? with _ | before
  · rw [evaluate_delta_of_none hp] at h
    cases h
  · rw [evaluate_delta_of_some hp] at h
    obtain ⟨current, hcurrent, h⟩ := bind_eq_ok h
    obtain ⟨previous, hprevious, h⟩ := bind_eq_ok h
    exact ⟨before, current, previous, rfl, hcurrent, hprevious, calculated_eq_ok h⟩

end Operations

end Formulary
