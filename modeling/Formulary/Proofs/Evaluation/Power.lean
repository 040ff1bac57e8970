import Mathlib.Data.Nat.Size
import Mathlib.Tactic.Linarith
import Formulary.Proofs.Evaluation.Exact

/-!
# Powers in exact arithmetic

A power with a whole exponent of at most 16 bits is multiplied out by repeated squaring, which in
exact arithmetic gives the power of the field. Any other exponent needs a positive base, or a base
of zero that it leaves at zero, and only the logarithm of a positive base is ever asked for.

* `Squaring` — what repeated squaring has reached, and `Squaring.next` one round of it;
* `Squaring.exists_rounds` — the rounds come to an end;
* `Squaring.value` — the power that they are on the way to, which a round does not change;
* `Arithmetic.Exact.integerPower_of_ne_zero` — whole exponents in any field;
* `Arithmetic.wholeExponent?_eq_some_iff` — which exponents of rational numbers are whole;
* `Arithmetic.power_rational` — all powers of rational numbers.
-/

namespace Formulary

/-! ## Repeated squaring -/

/-- What repeated squaring has reached. -/
structure Squaring (α : Type) where
  /-- the factors that have been multiplied -/
  result : α
  /-- the factor for the last binary digit of the count -/
  factor : α
  /-- how often the factor is still to be multiplied -/
  count : Nat

namespace Squaring

variable {α : Type} (A : Arithmetic α)

/-- A round: the factor is multiplied to the result if the last binary digit of the count is one,
and then it is squared. -/
def next (s : Squaring α) : Squaring α where
  result := if s.count % 2 = 1 then A.mul s.result s.factor else s.result
  factor := A.mul s.factor s.factor
  count := s.count / 2

/-- Before the first round of a power. -/
def start (base : α) (count : Nat) : Squaring α := ⟨A.one, base, count⟩

/-- What repeated squaring gives from here on. -/
def run (s : Squaring α) : α := A.squaring s.result s.factor s.count

/-- What a round keeps, the rounds keep. -/
theorem iterate_next_of_next {β : Type} {f : Squaring α → β} (h : ∀ s, f (next A s) = f s)
    (s : Squaring α) (rounds : Nat) : f ((next A)^[rounds] s) = f s := by
  induction rounds generalizing s with
  | zero => rfl
  | succ rounds ih => rw [Function.iterate_succ_apply, ih, h]

theorem count_iterate_next (s : Squaring α) (rounds : Nat) :
    ((next A)^[rounds] s).count = s.count / 2 ^ rounds := by
  induction rounds generalizing s with
  | zero => simp
  | succ rounds ih =>
    rw [Function.iterate_succ_apply, ih, next, Nat.div_div_eq_div_mul, ← Nat.pow_succ']

/-- **The count is used up** after as many rounds as it has binary digits, and not before. -/
theorem count_iterate_next_eq_zero_iff {s : Squaring α} {rounds : Nat} :
    ((next A)^[rounds] s).count = 0 ↔ s.count.size ≤ rounds := by
  rw [count_iterate_next, Nat.size_le, Nat.div_eq_zero_iff]
  simp

theorem run_of_count_eq_zero {s : Squaring α} (h : s.count = 0) : s.run A = s.result := by
  rw [run, Arithmetic.squaring, if_pos h]

/-- A round changes nothing of what follows; with the count used up it does nothing. -/
theorem run_next (s : Squaring α) : (s.next A).run A = s.run A := by
  by_cases h : s.count = 0
  · have hnext : (s.next A).count = 0 := by simp [next, h]
    rw [run_of_count_eq_zero A h, run_of_count_eq_zero A hnext]
    simp [next, h]
  · rw [run, run, Arithmetic.squaring.eq_def A s.result, if_neg h]
    rfl

/-- The rounds give the result once they have used up the count. -/
theorem result_iterate_next {s : Squaring α} {rounds : Nat} (h : s.count.size ≤ rounds) :
    ((next A)^[rounds] s).result = s.run A := by
  rw [← iterate_next_of_next A (run_next A) s rounds,
    run_of_count_eq_zero A ((count_iterate_next_eq_zero_iff A).mpr h)]

/-- **Repeated squaring comes to an end**, after no more rounds than the count may have digits. -/
theorem exists_rounds {s : Squaring α} {digits : Nat} (h : s.count < 2 ^ digits) :
    ∃ rounds ≤ digits, (∀ i, ((next A)^[i] s).count = 0 ↔ rounds ≤ i) ∧
      ((next A)^[rounds] s).result = s.run A :=
  ⟨s.count.size, Nat.size_le.mpr h, fun _ => count_iterate_next_eq_zero_iff A,
    result_iterate_next A (Nat.le_refl _)⟩

variable {K : Type} [Field K] {A : Arithmetic K}

/-- The power that repeated squaring is on the way to. -/
def value (s : Squaring K) : K := s.result * s.factor ^ s.count

/-- **A round keeps the power.** -/
theorem value_next (hA : A.Exact) (s : Squaring K) : (s.next A).value = s.value := by
  have hcount := Nat.div_add_mod s.count 2
  have hpow : s.factor ^ s.count =
      (s.factor * s.factor) ^ (s.count / 2) * s.factor ^ (s.count % 2) := by
    rw [← pow_two, ← pow_mul, ← pow_add, hcount]
  simp only [value, next, hA.mul, hpow]
  rcases Nat.mod_two_eq_zero_or_one s.count with h | h
  · simp [h]
  · simp only [h, if_true, pow_one]
    ring

theorem value_of_count_eq_zero {s : Squaring K} (h : s.count = 0) : s.value = s.result := by
  rw [value, h, pow_zero, mul_one]

/-- **Repeated squaring gives the power.** -/
theorem run_eq_value (hA : A.Exact) (s : Squaring K) : s.run A = s.value := by
  have hend : ((next A)^[s.count.size] s).count = 0 :=
    (count_iterate_next_eq_zero_iff A).mpr (Nat.le_refl _)
  calc s.run A
    _ = ((next A)^[s.count.size] s).result := (result_iterate_next A (Nat.le_refl _)).symm
    _ = ((next A)^[s.count.size] s).value := (value_of_count_eq_zero hend).symm
    _ = s.value := iterate_next_of_next A (value_next hA) s _

end Squaring

namespace Arithmetic

/-! ## Whole exponents -/

theorem power_of_wholeExponent? {α : Type} {A : Arithmetic α} {exponent : α} {whole : Int16}
    (h : A.wholeExponent? exponent = some whole) (base : α) :
    A.power base exponent = A.integerPower base whole := by
  rw [power, h]

/-- The sign of an exponent is that of its value. -/
theorem exponent_lt_zero_iff (exponent : Int16) : exponent < 0 ↔ exponent.toInt < 0 :=
  Int16.lt_iff_toInt_lt

theorem exponent_bounds (exponent : Int16) :
    -32768 ≤ exponent.toInt ∧ exponent.toInt ≤ 32767 :=
  ⟨Int16.le_toInt exponent, Int.lt_add_one_iff.mp (Int16.toInt_lt exponent)⟩

namespace Exact

variable {K : Type} [Field K] {A : Arithmetic K}

theorem one (hA : A.Exact) : A.one = 1 := by
  rw [Arithmetic.one, hA.ofInt, Int.cast_one]

theorem squaring_one (hA : A.Exact) (base : K) (count : Nat) :
    A.squaring A.one base count = base ^ count := by
  have hrun := Squaring.run_eq_value hA (.start A base count)
  exact hrun.trans (by rw [Squaring.value, Squaring.start, hA.one, one_mul])

theorem refuses_iff (hA : A.Exact) (base : K) (exponent : Int16) :
    exponent < 0 ∧ A.eq base A.zero = true ↔ base = 0 ∧ exponent.toInt < 0 := by
  rw [hA.eq_iff, hA.zero, exponent_lt_zero_iff, and_comm]

/-- Zero has no negative powers. -/
theorem integerPower_of_zero (hA : A.Exact) {base : K} {exponent : Int16} (hbase : base = 0)
    (hexponent : exponent.toInt < 0) :
    A.integerPower base exponent = .error .zeroToNegativePower := by
  rw [integerPower, if_pos ((hA.refuses_iff base exponent).mpr ⟨hbase, hexponent⟩)]

/-- **A whole exponent gives the power of the field.** -/
theorem integerPower_of_ne_zero (hA : A.Exact) {base : K} {exponent : Int16}
    (h : base ≠ 0 ∨ 0 ≤ exponent.toInt) :
    A.integerPower base exponent = .ok (base ^ exponent.toInt) := by
  have hdefined : ¬ (exponent < 0 ∧ A.eq base A.zero = true) := by
    rw [hA.refuses_iff]
    rintro ⟨hbase, hexponent⟩
    exact h.elim (fun hne => hne hbase) fun hle => absurd hexponent (not_lt.mpr hle)
  rw [integerPower, if_neg hdefined, hA.inRange, hA.squaring_one]
  congr 1
  by_cases hexponent : exponent < 0
  · have hle := ((exponent_lt_zero_iff exponent).mp hexponent).le
    -- the reciprocal of the power with the opposite exponent
    rw [if_pos hexponent, hA.div, hA.one, one_div, ← zpow_natCast, ← zpow_neg,
      Int.ofNat_natAbs_of_nonpos hle, neg_neg]
  · have hle := not_lt.mp (mt (exponent_lt_zero_iff exponent).mpr hexponent)
    rw [if_neg hexponent, ← zpow_natCast, Int.natAbs_of_nonneg hle]

end Exact

/-! ## Rational numbers -/

section Rational

variable (sqrt sin cos exp ln : ℚ → ℚ)

theorem round_rational_intCast (n : ℤ) : (rational sqrt sin cos exp ln).round n = n := by
  simp only [rational]
  split
  · norm_num [Int.floor_eq_iff]
  · norm_num [Int.ceil_eq_iff]

/-- What a number is rounded to is whole. -/
theorem exists_round_rational (x : ℚ) : ∃ n : ℤ, (rational sqrt sin cos exp ln).round x = n := by
  simp only [rational]
  split
  · exact ⟨_, rfl⟩
  · exact ⟨_, rfl⟩

theorem toInt_rational_intCast (n : ℤ) : (rational sqrt sin cos exp ln).toInt n = n := by
  simp only [rational, Int.floor_intCast, Int.ceil_intCast, ite_self]

/-- A whole number with at most 16 bits is taken as it is, and no other whole number is. -/
theorem wholeExponent?_intCast (n : ℤ) :
    (rational sqrt sin cos exp ln).wholeExponent? n =
      if -32768 ≤ n ∧ n ≤ 32767 then some (.ofIntClamp n) else none := by
  rw [wholeExponent?, round_rational_intCast, toInt_rational_intCast]
  refine if_congr ?_ rfl rfl
  have hmin : Int16.minValue.toInt = -32768 := rfl
  have hmax : Int16.maxValue.toInt = 32767 := rfl
  simp only [rational, hmin, hmax, beq_self_eq_true, Bool.true_and, Bool.and_eq_true,
    Bool.not_eq_true', decide_eq_false_iff_not, not_lt, Int.cast_le]

theorem wholeExponent?_of_ne {e : ℚ} (h : ∀ n : ℤ, e ≠ n) :
    (rational sqrt sin cos exp ln).wholeExponent? e = none := by
  obtain ⟨n, hn⟩ := exists_round_rational sqrt sin cos exp ln e
  have hne : (rational sqrt sin cos exp ln).eq n e = false := beq_false_of_ne (h n).symm
  rw [wholeExponent?, hn, hne]
  rfl

/-- **The exponents that are multiplied out** are the whole numbers of at most 16 bits, and nothing
is lost of them. -/
theorem wholeExponent?_eq_some_iff {e : ℚ} {exponent : Int16} :
    (rational sqrt sin cos exp ln).wholeExponent? e = some exponent ↔ e = exponent.toInt := by
  constructor
  · intro h
    by_cases hwhole : ∃ n : ℤ, e = n
    · obtain ⟨n, rfl⟩ := hwhole
      rw [wholeExponent?_intCast, Option.ite_none_right_eq_some] at h
      obtain ⟨⟨hmin, hmax⟩, hexponent⟩ := h
      rw [← Option.some.inj hexponent, Int16.toInt_ofIntClamp hmin hmax]
    · rw [wholeExponent?_of_ne _ _ _ _ _ (not_exists.mp hwhole)] at h
      cases h
  · rintro rfl
    obtain ⟨hmin, hmax⟩ := exponent_bounds exponent
    rw [wholeExponent?_intCast, if_pos ⟨hmin, hmax⟩]
    exact congrArg some (Int16.toInt_inj.mp (Int16.toInt_ofIntClamp hmin hmax))

theorem exists_wholeExponent?_iff {e : ℚ} :
    (∃ exponent, (rational sqrt sin cos exp ln).wholeExponent? e = some exponent) ↔
      ∃ n : ℤ, e = n ∧ -32768 ≤ n ∧ n ≤ 32767 := by
  simp only [wholeExponent?_eq_some_iff]
  constructor
  · rintro ⟨exponent, he⟩
    exact ⟨exponent.toInt, he, exponent_bounds exponent⟩
  · rintro ⟨n, he, hmin, hmax⟩
    exact ⟨.ofIntClamp n, by rw [he, Int16.toInt_ofIntClamp hmin hmax]⟩

theorem wholeExponent?_eq_none_iff {e : ℚ} :
    (rational sqrt sin cos exp ln).wholeExponent? e = none ↔
      ∀ n : ℤ, e = n → n < -32768 ∨ 32767 < n := by
  rw [← Option.not_isSome_iff_eq_none, Option.isSome_iff_exists,
    exists_wholeExponent?_iff sqrt sin cos exp ln]
  constructor
  · intro h n he
    by_contra hn
    exact h ⟨n, he, by omega, by omega⟩
  · rintro h ⟨n, he, hmin, hmax⟩
    have hn := h n he
    omega

/-! ## Powers of rational numbers -/

/-- **A whole exponent of at most 16 bits** gives the power, and fails only for zero. -/
theorem power_rational_intCast (base : ℚ) {n : ℤ} (hmin : -32768 ≤ n) (hmax : n ≤ 32767) :
    (rational sqrt sin cos exp ln).power base n =
      if base = 0 ∧ n < 0 then .error .zeroToNegativePower else .ok (base ^ n) := by
  have hops := exact_rational sqrt sin cos exp ln
  obtain ⟨exponent, rfl⟩ : ∃ exponent : Int16, exponent.toInt = n :=
    ⟨.ofIntClamp n, Int16.toInt_ofIntClamp hmin hmax⟩
  rw [power_of_wholeExponent? ((wholeExponent?_eq_some_iff sqrt sin cos exp ln).mpr rfl)]
  split
  · next h => exact hops.integerPower_of_zero h.1 h.2
  · next h =>
    rw [not_and_or, not_lt] at h
    exact hops.integerPower_of_ne_zero h

/-- **Any other exponent** goes through the logarithm of a positive base, and leaves zero at zero if
it is positive. -/
theorem power_rational_of_none (base : ℚ) {e : ℚ}
    (h : (rational sqrt sin cos exp ln).wholeExponent? e = none) :
    (rational sqrt sin cos exp ln).power base e =
      if 0 < base then .ok (exp (e * ln base))
      else if base = 0 then
        if 0 < e then .ok 0 else .error .zeroToNegativePower
      else .error .negativeBaseNonIntegerExponent := by
  have hops := exact_rational sqrt sin cos exp ln
  have hlt (x y : ℚ) : (rational sqrt sin cos exp ln).lt x y = true ↔ x < y := decide_eq_true_iff
  simp only [power, h, hops.zero, hops.eq_iff, hops.inRange, hlt]
  rfl

/-- **Only the logarithm of a positive base is asked for.** -/
theorem power_rational_congr_ln {ln' : ℚ → ℚ} (hln : ∀ x, 0 < x → ln' x = ln x) (base e : ℚ) :
    (rational sqrt sin cos exp ln').power base e = (rational sqrt sin cos exp ln).power base e := by
  rcases h : (rational sqrt sin cos exp ln).wholeExponent? e with _ | exponent
  · have h' : (rational sqrt sin cos exp ln').wholeExponent? e = none := h
    rw [power_rational_of_none _ _ _ _ _ base h, power_rational_of_none _ _ _ _ _ base h']
    split
    · next hbase => rw [hln base hbase]
    · rfl
  · obtain rfl := (wholeExponent?_eq_some_iff sqrt sin cos exp ln).mp h
    obtain ⟨hmin, hmax⟩ := exponent_bounds exponent
    rw [power_rational_intCast _ _ _ _ _ base hmin hmax,
      power_rational_intCast _ _ _ _ _ base hmin hmax]

/-- **Powers of rational numbers.** An exponent is multiplied out if and only if it is a whole
number of at most 16 bits, of which nothing is lost. The squaring then ends after at most 16 rounds,
and the power is that of the field unless the base is zero and the exponent negative. Any other
exponent fails for a negative base, and for zero if it is negative itself; it leaves zero at zero if
it is positive, and for a positive base it goes through the logarithm. No other logarithm is asked
for. -/
theorem power_rational {A : Arithmetic ℚ} (hA : A = rational sqrt sin cos exp ln) (b e : ℚ) :
    (∀ k : Int16, A.wholeExponent? e = some k ↔ e = k.toInt) ∧
    ((∃ k, A.wholeExponent? e = some k ∧ A.power b e = A.integerPower b k) ↔
      ∃ n : ℤ, e = n ∧ -32768 ≤ n ∧ n ≤ 32767) ∧
    (∀ n : ℤ, e = n → -32768 ≤ n → n ≤ 32767 →
      (∃ rounds ≤ 16,
        (∀ i, ((Squaring.next A)^[i] (.start A b n.natAbs)).count = 0 ↔ rounds ≤ i) ∧
        ((Squaring.next A)^[rounds] (.start A b n.natAbs)).result =
          A.squaring A.one b n.natAbs) ∧
      A.squaring A.one b n.natAbs = b ^ n.natAbs ∧
      A.power b e = if b = 0 ∧ n < 0 then .error .zeroToNegativePower else .ok (b ^ n)) ∧
    ((∀ n : ℤ, e = n → n < -32768 ∨ 32767 < n) →
      (A.power b e = .error .negativeBaseNonIntegerExponent ↔ b < 0) ∧
      (A.power b e = .error .zeroToNegativePower ↔ b = 0 ∧ e < 0) ∧
      (b = 0 → 0 < e → A.power b e = .ok 0) ∧
      (0 < b → A.power b e = .ok (exp (e * ln b)))) ∧
    ∀ ln' : ℚ → ℚ, (∀ x, 0 < x → ln' x = ln x) →
      (rational sqrt sin cos exp ln').power b e = A.power b e := by
  subst hA
  refine ⟨fun k => wholeExponent?_eq_some_iff sqrt sin cos exp ln, ?_, ?_, ?_,
    fun ln' hln => power_rational_congr_ln sqrt sin cos exp ln hln b e⟩
  · rw [← exists_wholeExponent?_iff sqrt sin cos exp ln]
    exact exists_congr fun k => and_iff_left_of_imp fun hk => power_of_wholeExponent? hk b
  · rintro n rfl hmin hmax
    refine ⟨Squaring.exists_rounds _ (s := .start _ b n.natAbs) ?_,
      (exact_rational _ _ _ _ _).squaring_one b _, power_rational_intCast _ _ _ _ _ b hmin hmax⟩
    change n.natAbs < 2 ^ 16
    omega
  · intro hother
    have hnone := (wholeExponent?_eq_none_iff sqrt sin cos exp ln).mpr hother
    have he : e ≠ 0 := by
      rintro rfl
      have hzero := hother 0 rfl
      omega
    rw [power_rational_of_none sqrt sin cos exp ln b hnone]
    rcases lt_trichotomy b 0 with hb | rfl | hb
    · simp [hb, hb.ne, hb.not_gt]
    · rcases lt_or_gt_of_ne he with hneg | hpos
      · simp [hneg, hneg.not_gt]
      · simp [hpos, hpos.not_gt]
    · simp [hb, hb.ne', hb.not_gt]

end Rational

/-- The reciprocal of a cube, the reciprocal of the largest power that is multiplied out, a root,
the root of a negative number, and a negative power of zero. The functions are right where they are
asked for: one is the exponential of zero, and zero the logarithm of one. What stands for the
logarithms that do not exist does not matter. -/
theorem power_rational_reciprocal :
    ∃ A A' : Arithmetic ℚ, A = rational id id (fun _ => 1) (1 + ·) (· - 1) ∧
      A' = rational id id (fun _ => 1) (1 + ·) (fun x => if 0 < x then x - 1 else 7) ∧
      A.power (-2) (-3) = .ok (-1 / 8) ∧
      A.power 2 (-32768) = .ok (2 ^ (-32768 : ℤ)) ∧
      A.power 1 (1 / 2) = .ok 1 ∧
      A.power (-1) (1 / 2) = .error .negativeBaseNonIntegerExponent ∧
      A.power 0 (-40000) = .error .zeroToNegativePower ∧
      A'.power (-1) (1 / 2) = .error .negativeBaseNonIntegerExponent := by
  have hpower := power_rational id id (fun _ => 1) (1 + ·) (· - 1) rfl
  have hhalf (n : ℤ) (h : (1 / 2 : ℚ) = n) : n < -32768 ∨ 32767 < n := by
    have htwice : (2 * n : ℚ) = 1 := by linarith
    norm_cast at htwice
    omega
  have hlarge (n : ℤ) (h : (-40000 : ℚ) = n) : n < -32768 ∨ 32767 < n := by
    norm_cast at h
    omega
  have hroot : (rational id id (fun _ => 1) (1 + ·) (· - 1)).power (-1) (1 / 2) =
      .error .negativeBaseNonIntegerExponent :=
    ((hpower (-1) (1 / 2)).2.2.2.1 hhalf).1.mpr (by norm_num)
  refine ⟨_, _, rfl, rfl, ?_, ?_, ?_, hroot, ?_, ?_⟩
  · have hcube := ((hpower (-2) (-3)).2.2.1 (-3) (by norm_num) (by decide) (by decide)).2.2
    rw [hcube]
    norm_num
  · have hlast := ((hpower 2 (-32768)).2.2.1 (-32768) (by norm_num) (by decide) (by decide)).2.2
    rw [hlast, if_neg (by norm_num)]
  · have hone := ((hpower 1 (1 / 2)).2.2.2.1 hhalf).2.2.2 (by norm_num)
    rw [hone]
    norm_num
  · exact ((hpower 0 (-40000)).2.2.2.1 hlarge).2.1.mpr (by norm_num)
  · rw [← hroot]
    exact (hpower (-1) (1 / 2)).2.2.2.2 _ fun x hx => if_pos hx

end Arithmetic

end Formulary
