import Mathlib.Data.List.Basic
import Formulary.Proofs.Evaluation.Alike

/-!
# Linear formulas have no gaps

Whether a formula that is linear by its shape has a value does not depend on the value of the
variable, overflows aside: it has no poles, and it is not undefined in between. With numbers of a
limited range an overflow can hide any other failure, and whether there is one does depend on the
variable. So what two evaluations have in common is stated up to overflows, which an operator keeps
if its sides do; a divisor, which alone can fail otherwise, is the same in both.

* `UpToOverflow` — outcomes that only an overflow sets apart;
* `UpToOverflow.bind` — one evaluation after another;
* `Arithmetic.upToOverflow_of_isLinear` — a linear formula at two values of the variable;
* `Expr.evaluate_gapless_of_isLinear` — the same for double-precision numbers.
-/

namespace Formulary

variable {α : Type}

/-! ## Outcomes up to overflows -/

/-- Outcomes that only an overflow sets apart: if neither is one, they are related values or the
same failure. -/
inductive UpToOverflow (related : α → α → Prop) : Except Failure α → Except Failure α → Prop
  | left (result : Except Failure α) :
    UpToOverflow related (.error (.calculation .overflow)) result
  | right (result : Except Failure α) :
    UpToOverflow related result (.error (.calculation .overflow))
  | value {x y : α} (h : related x y) : UpToOverflow related (.ok x) (.ok y)
  | failure (e : Failure) : UpToOverflow related (.error e) (.error e)

namespace UpToOverflow

variable {P Q : α → α → Prop} {a b : Except Failure α} {x : α} {e : Failure}

theorem refl (hP : ∀ x, P x x) (a : Except Failure α) : UpToOverflow P a a := by
  rcases a with e | x
  · exact .failure e
  · exact .value (hP x)

/-- **One evaluation after another**, in two runs. -/
theorem bind {next next' : α → Except Failure α} (h : UpToOverflow P a b)
    (hnext : ∀ x y, P x y → UpToOverflow Q (next x) (next' y)) :
    UpToOverflow Q (a >>= next) (b >>= next') := by
  cases h with
  | left => exact .left _
  | right => exact .right _
  | value h => exact hnext _ _ h
  | failure e => exact .failure e

theorem value_or_overflow (h : UpToOverflow P a b) (ha : a = .ok x) :
    (∃ y, b = .ok y) ∨ b = .error (.calculation .overflow) := by
  cases h with
  | left => cases ha
  | right => exact .inr rfl
  | value _ => exact .inl ⟨_, rfl⟩
  | failure => cases ha

theorem failure_or_overflow (h : UpToOverflow P a b) (ha : a = .error e)
    (he : e ≠ .calculation .overflow) : b = .error e ∨ b = .error (.calculation .overflow) := by
  cases h with
  | left =>
    obtain rfl := Except.error.inj ha
    exact absurd rfl he
  | right => exact .inr rfl
  | value => cases ha
  | failure => exact .inl ha

end UpToOverflow

/-! ## Operators -/

namespace Arithmetic

open Operations

variable {A : Arithmetic α}

/-- Of a result only the range is looked at, so it is a value or an overflow. -/
theorem upToOverflow_inRange (x y : α) :
    UpToOverflow (fun _ _ => True) (calculated (A.inRange x)) (calculated (A.inRange y)) := by
  rw [inRange, inRange]
  split
  · split
    · exact .value trivial
    · exact .right _
  · exact .left _

/-- Quotients by one divisor are undefined together. -/
theorem upToOverflow_quotient (x y divisor : α) :
    UpToOverflow (fun _ _ => True) (calculated (A.quotient x divisor))
      (calculated (A.quotient y divisor)) := by
  rw [quotient, quotient]
  split
  · exact .failure _
  · exact upToOverflow_inRange _ _

end Arithmetic

/-! ## Formulas -/

/-- Both factors of a linear product are linear. -/
theorem Expr.isLinear_of_multiply {left right : Expr α}
    (h : (binary left .multiply right).isLinear = true) :
    left.isLinear = true ∧ right.isLinear = true := by
  rcases Bool.or_eq_true_iff.mp h with h | h
  · obtain ⟨hl, hr⟩ := Bool.and_eq_true_iff.mp h
    exact ⟨isLinear_of_variableFree hl, hr⟩
  · obtain ⟨hr, hl⟩ := Bool.and_eq_true_iff.mp h
    exact ⟨hl, isLinear_of_variableFree hr⟩

namespace Arithmetic

open Operations

variable {A : Arithmetic α} {t : Expr α} {x y : α}

/-- **A linear formula at two values of the variable** has the same outcome up to overflows. -/
theorem upToOverflow_of_isLinear (ht : t.isLinear = true) (hx : A.isFinite x = true)
    (hy : A.isFinite y = true) (index : Option Nat) (series : List α) :
    UpToOverflow (fun _ _ => True) (A.operations.evaluate ⟨some x, index, series⟩ t)
      (A.operations.evaluate ⟨some y, index, series⟩ t) := by
  -- what holds no variable has one outcome
  have hsame {s : Expr α} (hs : s.variableFree = true) :
      A.operations.evaluate ⟨some x, index, series⟩ s =
        A.operations.evaluate ⟨some y, index, series⟩ s :=
    evaluate_eq_of_variableFree hs rfl rfl
  have hfree {s : Expr α} (hs : s.variableFree = true) :
      UpToOverflow (fun _ _ => True) (A.operations.evaluate ⟨some x, index, series⟩ s)
        (A.operations.evaluate ⟨some y, index, series⟩ s) := by
    rw [hsame hs]
    exact .refl (fun _ => trivial) _
  induction t with
  | number c => exact .value trivial
  | constant c => exact .value trivial
  | freeVariable =>
    have hvalue {z : α} (hz : A.isFinite z = true) :
        A.operations.evaluate ⟨some z, index, series⟩ .freeVariable = .ok z := if_pos hz
    rw [hvalue hx, hvalue hy]
    exact .value trivial
  | call f arg _ => exact hfree ht
  | binary left op right ihl ihr =>
    cases op with
    | add =>
      obtain ⟨hl, hr⟩ := Bool.and_eq_true_iff.mp ht
      exact (ihr hr).bind fun _ _ _ => (ihl hl).bind fun _ _ _ => upToOverflow_inRange _ _
    | subtract =>
      obtain ⟨hl, hr⟩ := Bool.and_eq_true_iff.mp ht
      exact (ihr hr).bind fun _ _ _ => (ihl hl).bind fun _ _ _ => upToOverflow_inRange _ _
    | multiply =>
      obtain ⟨hl, hr⟩ := Expr.isLinear_of_multiply ht
      exact (ihr hr).bind fun _ _ _ => (ihl hl).bind fun _ _ _ => upToOverflow_inRange _ _
    | divide =>
      obtain ⟨hl, hr⟩ := Bool.and_eq_true_iff.mp ht
      -- the divisors are equal, and not just both there
      rw [evaluate_binary, evaluate_binary, hsame hr]
      refine (UpToOverflow.refl (P := Eq) (fun _ => rfl) _).bind ?_
      rintro divisor _ rfl
      exact (ihl hl).bind fun _ _ _ => upToOverflow_quotient _ _ divisor
    | power => exact hfree ht

end Arithmetic

namespace Expr

/-- **A formula that is linear by its shape has no gaps.** Let the variable have two finite values,
at one place in one series. If the formula has a value for the first, it has one for the second or
overflows; if it fails for the first, other than by an overflow, it fails in the same way for the
second or overflows. -/
theorem evaluate_gapless_of_isLinear {t : Expr Binary64} (ht : t.isLinear = true) {x y : Binary64}
    (hx : x.isFinite = true) (hy : y.isFinite = true) (index : Option Nat)
    (series : List Binary64) :
    (∀ z, t.evaluate ⟨some x, index, series⟩ = .ok z →
      (∃ z', t.evaluate ⟨some y, index, series⟩ = .ok z') ∨
        t.evaluate ⟨some y, index, series⟩ = .error (.calculation .overflow)) ∧
    ∀ e, t.evaluate ⟨some x, index, series⟩ = .error e → e ≠ .calculation .overflow →
      t.evaluate ⟨some y, index, series⟩ = .error e ∨
        t.evaluate ⟨some y, index, series⟩ = .error (.calculation .overflow) := by
  have hboth := Arithmetic.upToOverflow_of_isLinear (A := Binary64.arithmetic) ht hx hy index series
  exact ⟨fun z => hboth.value_or_overflow, fun e => hboth.failure_or_overflow⟩

/-- The product of the variable with the logarithm of zero, less the variable: without a value at
two, it has none at three, for the same reason if there is no overflow. The variable itself has a
value at both. -/
theorem evaluate_gapless_of_isLinear_logarithm :
    ∃ t : Expr Binary64,
      t = binary (binary freeVariable .multiply (call (.pointwise .ln) (number 0))) .subtract
        freeVariable ∧
      t.isLinear = true ∧ (2 : Binary64).isFinite = true ∧ (3 : Binary64).isFinite = true ∧
      t.evaluate ⟨some 2, some 1, [5, 2]⟩ = .error (.calculation .logOfNonPositive) ∧
      (t.evaluate ⟨some 3, some 1, [5, 2]⟩ = .error (.calculation .logOfNonPositive) ∨
        t.evaluate ⟨some 3, some 1, [5, 2]⟩ = .error (.calculation .overflow)) ∧
      (freeVariable : Expr Binary64).evaluate ⟨some 2, none, []⟩ = .ok 2 ∧
      ((∃ z, (freeVariable : Expr Binary64).evaluate ⟨some 3, none, []⟩ = .ok z) ∨
        (freeVariable : Expr Binary64).evaluate ⟨some 3, none, []⟩ =
          .error (.calculation .overflow)) := by
  have htwo : (2 : Binary64).isFinite = true := by decide +kernel
  have hthree : (3 : Binary64).isFinite = true := by decide +kernel
  have hfailure : (binary (binary freeVariable .multiply (call (.pointwise .ln) (number 0)))
      .subtract freeVariable).evaluate ⟨some 2, some 1, [5, 2]⟩ =
        .error (.calculation .logOfNonPositive) := by decide +kernel
  have hvalue : (freeVariable : Expr Binary64).evaluate ⟨some 2, none, []⟩ = .ok 2 := by
    decide +kernel
  exact ⟨_, rfl, rfl, htwo, hthree, hfailure,
    (evaluate_gapless_of_isLinear rfl htwo hthree _ _).2 _ hfailure (by decide), hvalue,
    (evaluate_gapless_of_isLinear rfl htwo hthree _ _).1 _ hvalue⟩

end Expr

end Formulary
