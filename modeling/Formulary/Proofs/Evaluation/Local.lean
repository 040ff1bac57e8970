import Mathlib.Data.List.Basic
import Formulary.Formula
import Formulary.Proofs.Evaluation.Alike

/-!
# Evaluation along a series is local

From a sample of a series a formula looks back as many samples as `DELTA` are nested in it, and
sees nothing else of the series, not even the number of the sample.

* `Point.ago?` — the sample some places before a point;
* `Expr.evaluate_eq_of_ago?` — the samples that a formula looks at decide on its value;
* `Formula.getElem?_evaluateSeries_eq` — the same for the values along two series;
* `Expr.evaluate_local` — what follows for series that are continued, changed or cut.
-/

namespace Formulary

variable {α : Type}

/-! ## Samples before a point -/

namespace Point

/-- The sample `count` places before a point, if there is one in the series. -/
def ago? (p : Point α) (count : Nat) : Option α :=
  p.index.bind fun n => if count ≤ n then p.series[n - count]? else none

variable {p q before : Point α} {x : α}

theorem ago?_of_index {n : Nat} (h : p.index = some n) (count : Nat) :
    p.ago? count = if count ≤ n then p.series[n - count]? else none := by
  rw [ago?, h, Option.bind_some]

theorem ago?_ofSample (series : List α) (n count : Nat) :
    (ofSample series n).ago? count = if count ≤ n then series[n - count]? else none :=
  ago?_of_index rfl count

theorem previous?_eq_none_of_ago? (h : p.ago? 1 = none) : p.previous? = none := by
  rw [previous?_eq_none_iff]
  intro n hn
  simpa [ago?_of_index hn] using h

/-- One sample back, everything is one place nearer. -/
theorem previous?_of_ago? (h : p.ago? 1 = some x) : ∃ before,
    p.previous? = some before ∧ before.value = some x ∧
      ∀ count, before.ago? count = p.ago? (count + 1) := by
  rcases hindex : p.index with _ | n
  · simp [ago?, hindex] at h
  · rw [ago?_of_index hindex] at h
    obtain ⟨hpos, hx⟩ := Option.ite_none_right_eq_some.mp h
    obtain ⟨n, rfl⟩ : ∃ m, n = m + 1 := ⟨n - 1, by omega⟩
    refine ⟨_, previous?_eq_some_iff.mpr ⟨n, x, hindex, hx, rfl⟩, rfl, ?_⟩
    intro count
    rw [ago?_of_index rfl, ago?_of_index hindex, Nat.add_sub_add_right]
    simp only [Nat.add_le_add_iff_right]

/-- Points with one value are alike as far back as the samples before them are the same. -/
theorem alike_of_ago? {depth : Nat} (hvalue : p.value = q.value)
    (h : ∀ count, 1 ≤ count → count ≤ depth → p.ago? count = q.ago? count) :
    Alike Eq depth p q := by
  induction depth generalizing p q with
  | zero => exact hvalue
  | succ depth ih =>
    refine ⟨hvalue, ?_⟩
    have hone := h 1 (Nat.le_refl 1) (by omega)
    rcases hp : p.ago? 1 with _ | x
    · rw [hp] at hone
      rw [previous?_eq_none_of_ago? hp, previous?_eq_none_of_ago? hone.symm]
      exact .none
    · rw [hp] at hone
      obtain ⟨before, hbefore, hx, hago⟩ := previous?_of_ago? hp
      obtain ⟨before', hbefore', hx', hago'⟩ := previous?_of_ago? hone.symm
      rw [hbefore, hbefore']
      refine .some (ih (hx.trans hx'.symm) ?_)
      intro count _ hle
      rw [hago, hago', h (count + 1) (by omega) (by omega)]

end Point

/-! ## Values along a series -/

/-- **The samples that a formula looks at decide on its value**: they are the one at the point, and
before it as many as `DELTA` are nested in the formula. -/
theorem Expr.evaluate_eq_of_ago? {t : Expr Binary64} {p q : Point Binary64}
    (hvalue : p.value = q.value)
    (h : ∀ count, 1 ≤ count → count ≤ t.deltaNesting → p.ago? count = q.ago? count) :
    t.evaluate p = t.evaluate q :=
  Operations.evaluate_eq_of_alike (.inr fun _ _ => id) (Nat.le_refl _)
    (Point.alike_of_ago? hvalue h)

namespace Formula

variable {f : Formula} {t : Expr Binary64}

theorem getElem?_evaluateSeries (hf : f.tree = .ok t) (series : List Binary64) (i : Nat) :
    (f.evaluateSeries series).1[i]? = series[i]?.map fun _ => t.evaluate (.ofSample series i) := by
  simp only [evaluateSeries, evaluateAt, hf, List.getElem?_map]
  by_cases hi : i < series.length
  · rw [List.getElem?_range hi, List.getElem?_eq_getElem hi]
    rfl
  · have hi := Nat.le_of_not_lt hi
    rw [List.getElem?_eq_none_iff.mpr hi, List.getElem?_eq_none_iff.mpr (by simpa using hi)]
    rfl

/-- The values at two samples are the same if the samples are and those before them, as far back as
the formula looks. -/
theorem getElem?_evaluateSeries_eq (hf : f.tree = .ok t) {s s' : List Binary64} {i i' : Nat}
    (h : ∀ count, count ≤ t.deltaNesting →
      (Point.ofSample s i).ago? count = (Point.ofSample s' i').ago? count) :
    (f.evaluateSeries s).1[i]? = (f.evaluateSeries s').1[i']? := by
  have hvalue : s[i]? = s'[i']? := by simpa [Point.ago?_ofSample] using h 0 (Nat.zero_le _)
  have hsame : t.evaluate (.ofSample s i) = t.evaluate (.ofSample s' i') :=
    Expr.evaluate_eq_of_ago? hvalue fun count _ hle => h count hle
  rw [getElem?_evaluateSeries hf, getElem?_evaluateSeries hf, hvalue, hsame]

theorem length_evaluateSeries (f : Formula) (series : List Binary64) :
    (f.evaluateSeries series).1.length = series.length := by
  simp [evaluateSeries]

/-- Samples that are added at the end change no value before them. -/
theorem take_evaluateSeries_append (hf : f.tree = .ok t) (s more : List Binary64) :
    (f.evaluateSeries (s ++ more)).1.take s.length = (f.evaluateSeries s).1 := by
  apply List.ext_getElem?
  intro i
  rw [List.getElem?_take]
  by_cases hi : i < s.length
  · rw [if_pos hi]
    apply getElem?_evaluateSeries_eq hf
    intro count _
    rw [Point.ago?_ofSample, Point.ago?_ofSample, List.getElem?_append_left (by omega)]
  · rw [if_neg hi, List.getElem?_eq_none_iff.mpr]
    rw [length_evaluateSeries]
    exact Nat.le_of_not_lt hi

/-- A sample that is changed changes no value but its own and those after it, as far as the formula
looks back. -/
theorem getElem?_evaluateSeries_set (hf : f.tree = .ok t) (s : List Binary64) (x : Binary64)
    {i j : Nat} (hj : j < i ∨ i + t.deltaNesting < j) :
    (f.evaluateSeries (s.set i x)).1[j]? = (f.evaluateSeries s).1[j]? := by
  apply getElem?_evaluateSeries_eq hf
  intro count hcount
  rw [Point.ago?_ofSample, Point.ago?_ofSample, List.getElem?_set_ne (by omega)]

/-- Samples that are left out at the beginning change no value that does not look at them. -/
theorem drop_evaluateSeries_drop (hf : f.tree = .ok t) (s : List Binary64) (k : Nat) :
    (f.evaluateSeries (s.drop k)).1.drop t.deltaNesting =
      (f.evaluateSeries s).1.drop (k + t.deltaNesting) := by
  apply List.ext_getElem?
  intro i
  rw [List.getElem?_drop, List.getElem?_drop]
  apply getElem?_evaluateSeries_eq hf
  intro count hcount
  rw [Point.ago?_ofSample, Point.ago?_ofSample, if_pos (by omega), if_pos (by omega),
    List.getElem?_drop]
  congr 1
  omega

/-- A formula without `DELTA` has at each sample the value that it has outside of the series. -/
theorem evaluateSeries_eq_map (hf : f.tree = .ok t) (ht : t.deltaNesting = 0)
    (s : List Binary64) :
    (f.evaluateSeries s).1 = s.map fun x => t.evaluate (.ofValue x) := by
  apply List.ext_getElem?
  intro i
  rw [getElem?_evaluateSeries hf, List.getElem?_map]
  rcases hx : s[i]? with _ | x
  · rfl
  · refine congrArg some (Expr.evaluate_eq_of_ago? hx ?_)
    intro count _ _
    omega

end Formula

/-- **Evaluation along a series is local.** Let `d` be the number of `DELTA` inside one another. A
formula without `DELTA` has one value wherever the variable has the same value, and any other one
wherever the `d` samples before are the same too. So along a series, samples that are added change
no value before them; a sample that is changed changes at most its own value and the next `d`; the
values from the `d`th on are not changed by leaving samples out before; and without `DELTA` each
sample is evaluated for itself. -/
theorem Expr.evaluate_local (t : Expr Binary64) :
    (∀ p q : Point Binary64, p.value = q.value →
      (t.deltaNesting = 0 ∨ ∃ n n', p.index = some n ∧ q.index = some n' ∧
        t.deltaNesting ≤ n ∧ t.deltaNesting ≤ n' ∧
        ∀ j, 1 ≤ j → j ≤ t.deltaNesting →
          ∃ x, p.series[n - j]? = some x ∧ q.series[n' - j]? = some x) →
      t.evaluate p = t.evaluate q) ∧
    ∀ f : Formula, f.tree = .ok t →
      (∀ s more, (f.evaluateSeries (s ++ more)).1.take s.length = (f.evaluateSeries s).1) ∧
      (∀ s i x j, j < i ∨ i + t.deltaNesting < j →
        (f.evaluateSeries (s.set i x)).1[j]? = (f.evaluateSeries s).1[j]?) ∧
      (∀ s k, (f.evaluateSeries (s.drop k)).1.drop t.deltaNesting =
        (f.evaluateSeries s).1.drop (k + t.deltaNesting)) ∧
      (t.deltaNesting = 0 →
        ∀ s, (f.evaluateSeries s).1 = s.map fun x => t.evaluate (.ofValue x)) := by
  constructor
  · intro p q hvalue hsamples
    apply evaluate_eq_of_ago? hvalue
    intro count hpos hle
    obtain hzero | ⟨n, n', hn, hn', hd, hd', hsame⟩ := hsamples
    · omega
    · obtain ⟨x, hx, hx'⟩ := hsame count hpos hle
      rw [Point.ago?_of_index hn, Point.ago?_of_index hn', if_pos (by omega), if_pos (by omega),
        hx, hx']
  · intro f hf
    exact ⟨Formula.take_evaluateSeries_append hf,
      fun s i x j hj => Formula.getElem?_evaluateSeries_set hf s x hj,
      Formula.drop_evaluateSeries_drop hf, fun ht s => Formula.evaluateSeries_eq_map hf ht s⟩

/-- The second difference of the variable. -/
def Expr.secondDifference : Expr Binary64 := .call .delta (.call .delta .freeVariable)

/-- It looks at two samples before its own, and not at what comes after it. -/
theorem Expr.evaluate_local_secondDifference :
    secondDifference.evaluate (.ofSample [7, 1, 4, 9] 3) =
      secondDifference.evaluate (.ofSample [1, 4, 9] 2) ∧
    ∃ f, f = (Formula.ofText {} "DELTA(DELTA(x))").1 ∧ f.tree = .ok secondDifference ∧
      (f.evaluateSeries ([1, 4, 9] ++ [7])).1.take 3 = (f.evaluateSeries [1, 4, 9]).1 := by
  have hread : (Formula.ofText {} "DELTA(DELTA(x))").1.tree = .ok secondDifference := by
    decide +kernel
  have hvalue : ([7, 1, 4, 9] : List Binary64)[3]? = ([1, 4, 9] : List Binary64)[2]? := by
    simp
  have hbefore (j : Nat) (hpos : 1 ≤ j) (hle : j ≤ secondDifference.deltaNesting) :
      ∃ x, ([7, 1, 4, 9] : List Binary64)[3 - j]? = some x ∧
        ([1, 4, 9] : List Binary64)[2 - j]? = some x := by
    obtain rfl | rfl : j = 1 ∨ j = 2 := by
      have htwo : j ≤ 2 := hle
      omega
    · exact ⟨4, rfl, rfl⟩
    · exact ⟨1, rfl, rfl⟩
  have hlocal := Expr.evaluate_local secondDifference
  exact ⟨hlocal.1 _ _ hvalue (.inr ⟨3, 2, rfl, rfl, by decide, by decide, hbefore⟩),
    _, rfl, hread, (hlocal.2 _ hread).1 [1, 4, 9] [7]⟩

end Formulary
