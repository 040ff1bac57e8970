import Formulary.Proofs.Evaluation.Parts
import Formulary.Proofs.Nesting

/-!
# What an evaluation looks at

Of the point at which it is evaluated a formula sees the value of the variable, and each `DELTA`
takes it one sample back. So the value at two points is the same if they are *alike*: their values
agree as far as the formula can tell, and as far back as it can go so do the samples before them.

* `Point.Alike` — points that are alike, with any relation between their values;
* `Operations.evaluate_eq_of_alike` — a formula has one value at points that are alike;
* `Operations.evaluate_eq_of_variableFree` — a formula without the variable has one value at all
  points with as many samples around them.
-/

namespace Formulary

variable {α : Type}

/-! ## Points that are alike -/

namespace Point

/-- Points whose values are related, and so are, `depth` samples back, the values of the samples
before them. Where one has no sample before it the other has none either. -/
def Alike (related : Option α → Option α → Prop) : Nat → Point α → Point α → Prop
  | 0, p, q => related p.value q.value
  | depth + 1, p, q =>
    related p.value q.value ∧ Option.Rel (Alike related depth) p.previous? q.previous?

variable {related : Option α → Option α → Prop} {depth : Nat} {p q before : Point α}

theorem Alike.value (h : Alike related depth p q) : related p.value q.value := by
  cases depth with
  | zero => exact h
  | succ depth => exact h.1

theorem previous?_eq_some_iff : p.previous? = some before ↔
    ∃ n x, p.index = some (n + 1) ∧ p.series[n]? = some x ∧
      before = ⟨some x, some n, p.series⟩ := by
  obtain ⟨value, index, series⟩ := p
  rcases index with _ | _ | n
  · simp [previous?]
  · simp [previous?]
  · simp [previous?, Option.map_eq_some_iff, eq_comm (a := before)]

theorem previous?_eq_none_iff : p.previous? = none ↔
    ∀ n, p.index = some (n + 1) → p.series[n]? = none := by
  obtain ⟨value, index, series⟩ := p
  rcases index with _ | _ | n
  · simp [previous?]
  · simp [previous?]
  · simp [previous?]

theorem previous?_of_lt {n : Nat} (hindex : p.index = some (n + 1)) (hn : n < p.series.length) :
    p.previous? = some ⟨some p.series[n], some n, p.series⟩ :=
  previous?_eq_some_iff.mpr ⟨n, _, hindex, List.getElem?_eq_getElem hn, rfl⟩

/-- If any values are related, points of one number in series of one length are alike. -/
theorem alike_of_length_eq (hindex : p.index = q.index)
    (hlength : p.series.length = q.series.length) (depth : Nat) :
    Alike (fun _ _ => True) depth p q := by
  induction depth generalizing p q with
  | zero => trivial
  | succ depth ih =>
    refine ⟨trivial, ?_⟩
    rcases hp : p.previous? with _ | before
    · have hq : q.previous? = none := by
        rw [previous?_eq_none_iff] at hp ⊢
        intro n hn
        have hnone := hp n (hindex.trans hn)
        rw [List.getElem?_eq_none_iff] at hnone ⊢
        omega
      rw [hq]
      exact .none
    · obtain ⟨n, x, hn, hx, rfl⟩ := previous?_eq_some_iff.mp hp
      obtain ⟨hlt, -⟩ := List.getElem?_eq_some_iff.mp hx
      rw [previous?_of_lt (hindex.symm.trans hn) (hlength ▸ hlt)]
      exact .some (ih rfl hlength)

end Point

/-! ## The value at points that are alike -/

namespace Operations

variable {ops : Operations α} {p q : Point α}

/-- **A formula has one value at points that are alike** as far back as its `DELTA` go, if related
values are equal or the variable does not occur in it. -/
theorem evaluate_eq_of_alike {related : Option α → Option α → Prop} {t : Expr α} {depth : Nat}
    (hvariable : t.variableFree = true ∨ ∀ v w, related v w → v = w)
    (hdepth : t.deltaNesting ≤ depth) (h : Point.Alike related depth p q) :
    ops.evaluate p t = ops.evaluate q t := by
  induction t generalizing depth p q with
  | number x => rfl
  | constant c => rfl
  | freeVariable =>
    obtain hfalse | heq := hvariable
    · cases hfalse
    · simp only [evaluate, variableValue, heq _ _ h.value]
  | binary left op right ihl ihr =>
    simp only [Expr.variableFree, Bool.and_eq_true] at hvariable
    simp only [Expr.deltaNesting] at hdepth
    have hl := ihl (hvariable.imp_left And.left) (by omega) h
    have hr := ihr (hvariable.imp_left And.right) (by omega) h
    rw [evaluate_binary, evaluate_binary, hl, hr]
  | call f arg ih =>
    cases f with
    | pointwise f =>
      simp only [Expr.deltaNesting, reduceCtorEq, if_false, Nat.zero_add] at hdepth
      rw [evaluate_pointwise, evaluate_pointwise, ih hvariable hdepth h]
    | delta =>
      simp only [Expr.deltaNesting, if_true] at hdepth
      -- the argument looks back once less than the `DELTA` itself
      obtain ⟨depth, rfl⟩ : ∃ d, depth = d + 1 := ⟨depth - 1, by omega⟩
      have hcurrent := ih hvariable (by omega) h
      obtain ⟨-, hprevious⟩ := h
      rcases hp : p.previous? with _ | before <;> rcases hq : q.previous? with _ | before' <;>
        rw [hp, hq] at hprevious
      · rw [evaluate_delta_of_none hp, evaluate_delta_of_none hq]
      · cases hprevious
      · cases hprevious
      · cases hprevious with
        | some halike =>
          rw [evaluate_delta_of_some hp, evaluate_delta_of_some hq, hcurrent,
            ih hvariable (by omega) halike]

/-- **A formula without the variable** has one value at all points of one number in series of one
length, whatever the samples are. -/
theorem evaluate_eq_of_variableFree {t : Expr α} (ht : t.variableFree = true)
    (hindex : p.index = q.index) (hlength : p.series.length = q.series.length) :
    ops.evaluate p t = ops.evaluate q t :=
  evaluate_eq_of_alike (.inl ht) (Nat.le_refl _) (Point.alike_of_length_eq hindex hlength _)

end Operations

end Formulary
