import Mathlib.Algebra.Group.ForwardDiff
import Mathlib.Tactic.Ring
import Formulary.Proofs.Evaluation.Exact
import Formulary.Proofs.Evaluation.Parts

/-!
# Differences of differences

A `DELTA` subtracts the value of its argument at the sample before from its value at the sample
itself. Some of them around a term make the iterated backward difference of the values of the term:
in exact arithmetic, the alternating sum of these values with binomial coefficients. It needs as
many samples before its own as there are `DELTA`, and where values are missing the failure nearest
to the sample is the one that is given.

* `Expr.differenced` — a term inside some `DELTA`;
* `Operations.atSample` — the outcomes of a term along a series, and `FailsFirst` the first failure
  on the way back from a sample;
* `Operations.Exact.atSample_differenced_ok`, `Operations.Exact.atSample_differenced_error`,
  `Operations.Exact.atSample_differenced_noValue` — values, failures, and what lies before the
  series;
* `Operations.Exact.evaluate_differenced` — all of them together.
-/

namespace Formulary

variable {K : Type}

/-- A term inside some `DELTA`. -/
def Expr.differenced (t : Expr K) : Nat → Expr K
  | 0 => t
  | count + 1 => .call .delta (t.differenced count)

/-- Counted back from sample `n`, the first outcome that is a failure is that `i` samples before. -/
def FailsFirst (outcome : Nat → Except Failure K) (n i : Nat) (e : Failure) : Prop :=
  outcome (n - i) = .error e ∧ ∀ j < i, ∃ y, outcome (n - j) = .ok y

/-- Counted back from a sample, all outcomes are values, or one of them is the first failure. -/
theorem forall_ok_or_failsFirst (outcome : Nat → Except Failure K) (n count : Nat) :
    (∀ j ≤ count, ∃ y, outcome (n - j) = .ok y) ∨ ∃ i ≤ count, ∃ e, FailsFirst outcome n i e := by
  induction count with
  | zero =>
    rcases h : outcome n with e | y
    · exact .inr ⟨0, Nat.le_refl 0, e, h, nofun⟩
    · refine .inl fun j hj => ⟨y, ?_⟩
      rwa [Nat.le_zero.mp hj]
  | succ count ih =>
    obtain hvalues | ⟨i, hi, e, hfirst⟩ := ih
    · rcases h : outcome (n - (count + 1)) with e | y
      · exact .inr ⟨count + 1, Nat.le_refl _, e, h, fun j hj => hvalues j (Nat.lt_succ_iff.mp hj)⟩
      · refine .inl fun j hj => ?_
        rcases Nat.eq_or_lt_of_le hj with rfl | hlt
        · exact ⟨y, h⟩
        · exact hvalues j (Nat.lt_succ_iff.mp hlt)
    · exact .inr ⟨i, Nat.le_succ_of_le hi, e, hfirst⟩

theorem FailsFirst.tail {outcome : Nat → Except Failure K} {n i : Nat} {e : Failure}
    (h : FailsFirst outcome (n + 1) (i + 1) e) : FailsFirst outcome n i e := by
  obtain ⟨herror, hbefore⟩ := h
  rw [Nat.add_sub_add_right] at herror
  refine ⟨herror, fun j hj => ?_⟩
  have hvalue := hbefore (j + 1) (Nat.succ_lt_succ hj)
  rwa [Nat.add_sub_add_right] at hvalue

namespace Operations

/-- The outcome of a term at a sample of a series. -/
def atSample (ops : Operations K) (series : List K) (t : Expr K) (n : Nat) : Except Failure K :=
  ops.evaluate (.ofSample series n) t

variable {ops : Operations K} {series : List K} {t : Expr K} {count n i : Nat} {e : Failure}

/-- Before the first sample there is nothing to subtract. -/
theorem atSample_differenced_zero (count : Nat) :
    ops.atSample series (t.differenced (count + 1)) 0 = .error .noValue :=
  evaluate_delta_of_none rfl _

/-- One `DELTA` more looks at the sample and at the one before. -/
theorem atSample_differenced_succ (hn : n < series.length) (count : Nat) :
    ops.atSample series (t.differenced (count + 1)) (n + 1) = (do
      let current ← ops.atSample series (t.differenced count) (n + 1)
      let previous ← ops.atSample series (t.differenced count) n
      calculated (ops.binary .subtract current previous)) := by
  have hprevious : (Point.ofSample series (n + 1)).previous? = some (.ofSample series n) := by
    simp [Point.previous?, Point.ofSample, hn]
  exact evaluate_delta_of_some hprevious _

namespace Exact

variable [Field K] (hops : ops.Exact)

include hops

/-! ## Values -/

/-- **With enough values behind it** a difference has a value: that of the forward difference of
the values counted back from the sample, with its sign changed as often as there are `DELTA`. -/
theorem atSample_differenced_ok (hn : n < series.length) {v : Nat → K} (hcount : count + i ≤ n)
    (hv : ∀ j ≤ count + i, ops.atSample series t (n - j) = .ok (v j)) :
    ops.atSample series (t.differenced count) (n - i) =
      .ok ((-1) ^ count * (fwdDiff 1)^[count] v i) := by
  induction count generalizing i with
  | zero => simpa [Expr.differenced] using hv i (by omega)
  | succ count ih =>
    have hcurrent := ih (i := i) (by omega) fun j hj => hv j (by omega)
    have hprevious := ih (i := i + 1) (by omega) fun j hj => hv j (by omega)
    obtain ⟨m, hm⟩ : ∃ m, n - i = m + 1 := ⟨n - i - 1, by omega⟩
    obtain rfl : n - (i + 1) = m := by omega
    rw [hm] at hcurrent
    rw [hm, atSample_differenced_succ (by omega), hcurrent, hprevious,
      Function.iterate_succ_apply', fwdDiff]
    refine (congrArg calculated (hops.subtract _ _)).trans (congrArg Except.ok ?_)
    ring

omit hops in
/-- The forward difference as a sum over the values. -/
theorem neg_one_pow_mul_iterate_fwdDiff (v : Nat → K) (count : Nat) :
    (-1) ^ count * (fwdDiff 1)^[count] v 0 =
      ∑ i ∈ Finset.range (count + 1), (-1) ^ i * (count.choose i : K) * v i := by
  rw [fwdDiff_iter_eq_sum_shift, Finset.mul_sum]
  refine Finset.sum_congr rfl fun i hi => ?_
  have hle : i ≤ count := Nat.lt_succ_iff.mp (Finset.mem_range.mp hi)
  -- of `count` and `count - i` changes of sign, twice `count - i` cancel
  have hsign : (-1 : K) ^ count * (-1) ^ (count - i) = (-1) ^ i := by
    rw [← pow_add, show count + (count - i) = i + 2 * (count - i) by omega, pow_add, pow_mul]
    simp
  simp only [zsmul_eq_mul, smul_eq_mul, mul_one, zero_add]
  push_cast
  rw [← hsign]
  ring

/-! ## Failures -/

/-- **The failure nearest to the sample** is that of the difference. -/
theorem atSample_differenced_error (hn : n < series.length) (hcount : count = 0 ∨ n ≠ 0)
    (hi : i ≤ count) (hin : i ≤ n) (h : FailsFirst (ops.atSample series t) n i e) :
    ops.atSample series (t.differenced count) n = .error e := by
  induction count generalizing n i with
  | zero =>
    obtain rfl : i = 0 := by omega
    exact h.1
  | succ count ih =>
    obtain ⟨n, rfl⟩ : ∃ m, n = m + 1 := ⟨n - 1, by omega⟩
    rw [atSample_differenced_succ (by omega)]
    by_cases hle : i ≤ count
    · -- the sample itself, or one that the inner difference at it looks at
      rw [ih hn (.inr (Nat.succ_ne_zero n)) hle hin h]
      rfl
    · -- the last one, at which only the inner difference at the sample before looks
      obtain rfl : i = count + 1 := by omega
      choose! v hv using h.2
      have hcurrent := hops.atSample_differenced_ok (i := 0) hn (by omega)
        fun j hj => hv j (Nat.lt_succ_of_le hj)
      rw [Nat.sub_zero] at hcurrent
      rw [hcurrent, ih (by omega) (by omega) (Nat.le_refl count) (by omega) h.tail]
      rfl

/-- **With too few samples behind it** a difference has no value. -/
theorem atSample_differenced_noValue (hn : n < series.length) (hcount : n < count)
    (h : n = 0 ∨ ∀ j ≤ n, ∃ y, ops.atSample series t j = .ok y) :
    ops.atSample series (t.differenced count) n = .error .noValue := by
  induction count generalizing n with
  | zero => omega
  | succ count ih =>
    rcases n with _ | n
    · exact atSample_differenced_zero count
    · have hvalues := h.resolve_left (Nat.succ_ne_zero n)
      rw [atSample_differenced_succ (by omega)]
      rcases Nat.lt_or_ge (n + 1) count with hlt | hge
      · rw [ih hn hlt (.inr hvalues)]
        rfl
      · -- the inner difference has a value at the sample, and none at the one before
        obtain rfl : count = n + 1 := by omega
        choose! v hv using hvalues
        have hcurrent := hops.atSample_differenced_ok (v := fun j => v (n + 1 - j)) (i := 0) hn
          (Nat.le_refl _) fun j _ => hv _ (Nat.sub_le _ _)
        rw [Nat.sub_zero] at hcurrent
        rw [hcurrent, ih (by omega) (Nat.lt_succ_self n)
          (.inr fun j hj => ⟨v j, hv j (Nat.le_succ_of_le hj)⟩)]
        rfl

/-- A difference with too few samples behind it fails. -/
theorem exists_atSample_differenced_error (hn : n < series.length) (hcount : n < count) :
    ∃ e, ops.atSample series (t.differenced count) n = .error e := by
  rcases Nat.eq_zero_or_pos n with hzero | hpos
  · exact ⟨_, hops.atSample_differenced_noValue hn hcount (.inl hzero)⟩
  · obtain hvalues | ⟨i, hi, e, hfirst⟩ := forall_ok_or_failsFirst (ops.atSample series t) n n
    · refine ⟨_, hops.atSample_differenced_noValue hn hcount (.inr fun j hj => ?_)⟩
      have hvalue := hvalues (n - j) (Nat.sub_le n j)
      rwa [Nat.sub_sub_self hj] at hvalue
    · exact ⟨e, hops.atSample_differenced_error hn (.inr (Nat.ne_of_gt hpos)) (by omega) hi hfirst⟩

/-- **Some `DELTA` around a term** at a sample of a series. With at least as many samples before it
the outcome is the iterated backward difference of the values of the term, or, where some of these
are missing, the failure nearest to the sample. With fewer samples before it there is never a value:
the outcome is the nearest failure again, and where the term has values as far back as the series
goes, or at the first sample, that there is no value. -/
theorem evaluate_differenced (t : Expr K) (count : Nat) (hn : n < series.length) :
    (count ≤ n →
      (∀ v : Nat → K, (∀ i ≤ count, ops.evaluate (.ofSample series (n - i)) t = .ok (v i)) →
        ops.evaluate (.ofSample series n) (t.differenced count) =
          .ok (∑ i ∈ Finset.range (count + 1), (-1) ^ i * (count.choose i : K) * v i)) ∧
      ∀ i ≤ count, ∀ e, FailsFirst (fun j => ops.evaluate (.ofSample series j) t) n i e →
        ops.evaluate (.ofSample series n) (t.differenced count) = .error e) ∧
    (n < count →
      (∀ y, ops.evaluate (.ofSample series n) (t.differenced count) ≠ .ok y) ∧
      ((n = 0 ∨ ∀ j ≤ n, ∃ y, ops.evaluate (.ofSample series j) t = .ok y) →
        ops.evaluate (.ofSample series n) (t.differenced count) = .error .noValue) ∧
      (n ≠ 0 → ∀ i ≤ n, ∀ e,
        FailsFirst (fun j => ops.evaluate (.ofSample series j) t) n i e →
          ops.evaluate (.ofSample series n) (t.differenced count) = .error e)) := by
  refine ⟨fun hcount => ⟨?_, ?_⟩, fun hcount => ⟨?_, ?_, ?_⟩⟩
  · intro v hv
    have hvalue := hops.atSample_differenced_ok (i := 0) hn hcount hv
    rwa [neg_one_pow_mul_iterate_fwdDiff] at hvalue
  · intro i hi e hfirst
    exact hops.atSample_differenced_error hn (by omega) hi (by omega) hfirst
  · intro y hy
    obtain ⟨e, he⟩ := hops.exists_atSample_differenced_error (t := t) hn hcount
    cases hy.symm.trans he
  · exact hops.atSample_differenced_noValue hn hcount
  · intro hne i hi e hfirst
    exact hops.atSample_differenced_error hn (.inr hne) (by omega) hi hfirst

end Exact

/-- The reciprocals along a series of rational numbers. -/
def reciprocals (n : Nat) : Except Failure ℚ :=
  (Arithmetic.rational id id id id id).operations.evaluate
    (.ofSample [3, 0, 1, 1 / 2, 1 / 4] n) (.binary (.number 1) .divide .freeVariable)

/-- One of the numbers is zero: a second difference behind it, one that reaches back to it, and one
at the first sample. -/
theorem evaluate_differenced_reciprocal :
    ∃ (A : Arithmetic ℚ) (t : Expr ℚ) (series : List ℚ),
      A = .rational id id id id id ∧ t = .binary (.number 1) .divide .freeVariable ∧
      series = [3, 0, 1, 1 / 2, 1 / 4] ∧
      A.operations.evaluate (.ofSample series 4) (t.differenced 2) = .ok 1 ∧
      A.operations.evaluate (.ofSample series 3) (t.differenced 2) =
        .error (.calculation .divisionByZero) ∧
      A.operations.evaluate (.ofSample series 0) (t.differenced 2) = .error .noValue := by
  have hops := (Arithmetic.exact_rational id id id id id).operations
  have hlast : reciprocals 4 = .ok 4 ∧ reciprocals 3 = .ok 2 ∧ reciprocals 2 = .ok 1 := by
    decide +kernel
  have hzero : reciprocals 1 = .error (.calculation .divisionByZero) := by decide +kernel
  refine ⟨_, _, [3, 0, 1, 1 / 2, 1 / 4], rfl, rfl, rfl, ?_, ?_, ?_⟩
  · have hvalues (i : Nat) (hi : i ≤ 2) : reciprocals (4 - i) = .ok (4 / 2 ^ i) := by
      obtain rfl | rfl | rfl : i = 0 ∨ i = 1 ∨ i = 2 := by omega
      · simpa using hlast.1
      · exact hlast.2.1.trans (by norm_num)
      · exact hlast.2.2.trans (by norm_num)
    have hvalue := ((hops.evaluate_differenced _ 2 (by decide)).1 (by decide)).1 _ hvalues
    rw [hvalue]
    norm_num [Finset.sum_range_succ, Nat.choose]
  · have hfirst : FailsFirst reciprocals 3 2 (.calculation .divisionByZero) := by
      refine ⟨hzero, fun j hj => ?_⟩
      obtain rfl | rfl : j = 0 ∨ j = 1 := by omega
      · exact ⟨2, hlast.2.1⟩
      · exact ⟨1, hlast.2.2⟩
    exact ((hops.evaluate_differenced _ 2 (by decide)).1 (by decide)).2 2 (by decide) _ hfirst
  · exact ((hops.evaluate_differenced _ 2 (by decide)).2 (by decide)).2.1 (.inl rfl)

end Operations

end Formulary
