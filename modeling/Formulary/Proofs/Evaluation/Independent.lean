import Formulary.Proofs.Evaluation.Alike
import Formulary.Proofs.Evaluation.Visits

/-!
# What does not depend on the data

A formula without the variable has one value, whatever the variable and the samples are. Only
`DELTA` looks at where it is evaluated, and it asks no more than whether there is a sample before.
So once there are as many samples before a point as `DELTA` are nested in the formula, it has one
value from there to the end of the series. Conversely, a formula that has a value where the variable
has none that is finite does not hold the variable.

* `Point.HasBefore` — points with a number of samples before them;
* `Point.alike_of_hasBefore` — such points are alike as far back as these samples go;
* `Expr.evaluate_independent` — a formula without the variable does not depend on the data.
-/

namespace Formulary

namespace Point

variable {α : Type} {p q : Point α} {depth : Nat}

/-- There are as many samples before the point, which lies in its series or right behind it. -/
def HasBefore (p : Point α) (depth : Nat) : Prop :=
  ∃ n, p.index = some n ∧ depth ≤ n ∧ n ≤ p.series.length

/-- The sample before the point has one sample less before it. -/
theorem HasBefore.previous? (h : p.HasBefore (depth + 1)) :
    ∃ before, p.previous? = some before ∧ before.HasBefore depth := by
  obtain ⟨n, hindex, hdepth, hn⟩ := h
  obtain ⟨n, rfl⟩ : ∃ m, n = m + 1 := ⟨n - 1, by omega⟩
  exact ⟨_, previous?_of_lt hindex hn, n, rfl, Nat.le_of_succ_le_succ hdepth, Nat.le_of_succ_le hn⟩

/-- If any values are related, points are alike as far back as both have samples before them. -/
theorem alike_of_hasBefore (hp : p.HasBefore depth) (hq : q.HasBefore depth) :
    Alike (fun _ _ => True) depth p q := by
  induction depth generalizing p q with
  | zero => trivial
  | succ depth ih =>
    refine ⟨trivial, ?_⟩
    obtain ⟨before, hbefore, hp⟩ := hp.previous?
    obtain ⟨before', hbefore', hq⟩ := hq.previous?
    rw [hbefore, hbefore']
    exact .some (ih hp hq)

end Point

namespace Expr

/-- **A formula without the variable does not depend on the data.** At points of one number in
series of one length it has one value, or fails in one way, whatever the variable and the samples
are. The number and the length do not matter either where as many samples lie before the points as
`DELTA` are nested in the formula, up to the point right behind the series. And outside of a series,
what has a value where the variable is infinite or not a number is without the variable. -/
theorem evaluate_independent (t : Expr Binary64) :
    (t.variableFree = true →
      (∀ p q : Point Binary64, p.index = q.index → p.series.length = q.series.length →
        t.evaluate p = t.evaluate q) ∧
      ∀ p q : Point Binary64, p.HasBefore t.deltaNesting → q.HasBefore t.deltaNesting →
        t.evaluate p = t.evaluate q) ∧
    ∀ x : Binary64, x.isFinite = false → ∀ z, t.evaluate (.ofValue x) = .ok z →
      t.variableFree = true := by
  refine ⟨fun ht => ⟨?_, ?_⟩, ?_⟩
  · intro p q hindex hlength
    exact Operations.evaluate_eq_of_variableFree ht hindex hlength
  · intro p q hp hq
    exact Operations.evaluate_eq_of_alike (.inl ht) (Nat.le_refl _)
      (Point.alike_of_hasBefore hp hq)
  · intro x hx z hz
    exact Operations.variableFree_of_evaluate rfl hx rfl hz

/-- The difference of a root is the same at both samples of a series, behind it, and in another
series with no value at the point; and an absolute value that exists where the variable is not a
number holds no variable. -/
theorem evaluate_independent_root :
    ∃ t u : Expr Binary64, ∃ nan : Binary64,
      t = call .delta (call (.pointwise .sqrt) (number 2)) ∧
      u = call (.pointwise .abs) (number (-2)) ∧ nan.isNaN = true ∧
      t.evaluate ⟨some 5, some 1, [5, 7]⟩ = t.evaluate ⟨none, some 1, [nan, 3]⟩ ∧
      t.evaluate (.ofSample [5, 7] 1) = t.evaluate (.ofSample [5, 7] 2) ∧
      u.evaluate (.ofValue nan) = .ok 2 ∧ u.variableFree = true := by
  have hvalue : (call (.pointwise .abs) (number (-2))).evaluate
      (.ofValue (.ofPlace false (Binary64.infinityPlace + 1))) = .ok 2 := by decide +kernel
  have hroot := evaluate_independent (call .delta (call (.pointwise .sqrt) (number 2)))
  refine ⟨_, _, .ofPlace false (Binary64.infinityPlace + 1), rfl, rfl, by decide +kernel, ?_, ?_,
    hvalue, ?_⟩
  · exact (hroot.1 rfl).1 _ _ rfl (by simp)
  · exact (hroot.1 rfl).2 _ _ ⟨1, rfl, Nat.le_refl 1, by decide⟩ ⟨2, rfl, by decide, by decide⟩
  · exact (evaluate_independent _).2 _ (by decide +kernel) _ hvalue

end Expr

end Formulary
