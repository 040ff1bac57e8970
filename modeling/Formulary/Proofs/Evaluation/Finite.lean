import Formulary.Formula
import Formulary.Proofs.Evaluation.Parts
import Formulary.Proofs.Rereading

/-!
# Values are finite

A formula that has been read holds finite numbers only, and whatever it is evaluated at, infinite
samples and missing ones included, its value is finite if it has one. Operators see to this
themselves: a result out of range is refused, whatever the operands are. Functions whose results are
not checked give finite results for finite arguments.

* `Arithmetic.isFinite_of_binary` — operators have finite results only;
* `Binary64.Elementary.KeepsFinite` — what has to be known of the functions of a library;
* `Binary64.isFinite_of_apply` — functions have finite results for finite arguments;
* `Expr.Finite.isFinite_of_evaluate` — a tree of finite numbers has finite values;
* `Expr.isFinite_of_ofText` — so has every formula that has been read.
-/

namespace Formulary

/-! ## Operators -/

namespace Arithmetic

variable {α : Type} {A : Arithmetic α} {x y z : α}

theorem isFinite_of_inRange (h : A.inRange x = .ok z) : A.isFinite z = true := by
  rw [inRange] at h
  split at h
  · next hx =>
    obtain rfl := Except.ok.inj h
    exact hx
  · cases h

theorem isFinite_of_quotient (h : A.quotient x y = .ok z) : A.isFinite z = true := by
  rw [quotient] at h
  split at h
  · cases h
  · exact isFinite_of_inRange h

theorem isFinite_of_integerPower {exponent : Int16} (h : A.integerPower x exponent = .ok z) :
    A.isFinite z = true := by
  rw [integerPower] at h
  split at h
  · cases h
  · exact isFinite_of_inRange h

theorem isFinite_of_power (hzero : A.isFinite A.zero = true) (h : A.power x y = .ok z) :
    A.isFinite z = true := by
  rw [power] at h
  split at h
  · exact isFinite_of_integerPower h
  · split at h
    · exact isFinite_of_inRange h
    · split at h
      · split at h
        · -- a power of zero is not checked, but it is zero
          obtain rfl := Except.ok.inj h
          exact hzero
        · cases h
      · cases h

/-- **Operators have finite results only**, whatever their operands are. -/
theorem isFinite_of_binary {op : Operator} (hzero : A.isFinite A.zero = true)
    (h : A.binary op x y = .ok z) : A.isFinite z = true := by
  cases op with
  | add | subtract | multiply => exact isFinite_of_inRange h
  | divide => exact isFinite_of_quotient h
  | power => exact isFinite_of_power hzero h

end Arithmetic

/-! ## Functions -/

namespace Binary64

theorem isFinite_zero : (0 : Binary64).isFinite = true := by decide +kernel

theorem isFinite_one : (1 : Binary64).isFinite = true := by decide +kernel

/-- The constants of the catalogue are finite. -/
theorem isFinite_constant (c : Constant) : (ofDecimal c.value).isFinite = true := by
  cases c <;> decide +kernel

theorem not_isNaN_of_isFinite {x : Binary64} (h : x.isFinite = true) : x.isNaN = false := by
  simp only [isFinite, isNaN, decide_eq_true_eq, decide_eq_false_iff_not] at h ⊢
  omega

/-- What is neither negative nor zero is positive, if it is a number. -/
theorem lt_of_not_lt_of_not_eq {x y : Binary64} (hx : x.isFinite = true) (hy : y.isFinite = true)
    (hlt : x.lt y = false) (heq : x.eq y = false) : y.lt x = true := by
  simp only [lt, eq, not_isNaN_of_isFinite hx, not_isNaN_of_isFinite hy, Bool.not_false,
    Bool.true_and, decide_eq_true_eq, decide_eq_false_iff_not, beq_eq_false_iff_ne] at hlt heq ⊢
  omega

/-- Functions that give finite results where they are defined and their arguments are finite. -/
structure Elementary.KeepsFinite (f : Elementary) : Prop where
  /-- the sine -/
  sin {x : Binary64} : x.isFinite = true → (f.sin x).isFinite = true
  /-- the cosine -/
  cos {x : Binary64} : x.isFinite = true → (f.cos x).isFinite = true
  /-- the logarithm of a positive number -/
  ln {x : Binary64} : x.isFinite = true → lt 0 x = true → (f.ln x).isFinite = true
  /-- the square root of a number that is not negative -/
  sqrt {x : Binary64} : x.isFinite = true → x.lt 0 = false → (f.sqrt x).isFinite = true

variable {f : Elementary} {x y z : Binary64}

theorem isFinite_arithmeticWith (f : Elementary) (x : Binary64) :
    (arithmeticWith f).isFinite x = x.isFinite := rfl

/-- Operators on double-precision numbers have finite results only. -/
theorem isFinite_of_binary {op : Operator} (h : (arithmeticWith f).binary op x y = .ok z) :
    z.isFinite = true := by
  rw [← isFinite_arithmeticWith f]
  refine Arithmetic.isFinite_of_binary ?_ h
  rw [isFinite_arithmeticWith]
  exact isFinite_zero

theorem isFinite_sign (f : Elementary) (x : Binary64) :
    ((arithmeticWith f).sign x).isFinite = true := by
  rw [Arithmetic.sign]
  split
  · exact isFinite_one
  · split
    · exact isFinite_minusOne
    · exact isFinite_zero

/-- **Functions have finite results for finite arguments.** -/
theorem isFinite_of_apply (hf : f.KeepsFinite) (hx : x.isFinite = true) {function : Pointwise}
    (h : (arithmeticWith f).apply function x = .ok z) : z.isFinite = true := by
  cases function with
  | sin =>
    obtain rfl := Except.ok.inj h
    exact hf.sin hx
  | cos =>
    obtain rfl := Except.ok.inj h
    exact hf.cos hx
  | tan | cotan =>
    rw [Arithmetic.apply] at h
    split at h
    · cases h
    · exact Arithmetic.isFinite_of_inRange (A := arithmeticWith f) h
  | exp => exact Arithmetic.isFinite_of_inRange (A := arithmeticWith f) h
  | ln =>
    rw [Arithmetic.apply] at h
    split at h
    · cases h
    · next hpositive =>
      obtain rfl := Except.ok.inj h
      simp only [Bool.or_eq_true, not_or, Bool.not_eq_true] at hpositive
      exact hf.ln hx (lt_of_not_lt_of_not_eq hx isFinite_zero hpositive.1 hpositive.2)
  | sqrt =>
    rw [Arithmetic.apply] at h
    split at h
    · cases h
    · next hnegative =>
      obtain rfl := Except.ok.inj h
      exact hf.sqrt hx (Bool.eq_false_iff.mpr hnegative)
  | sign =>
    obtain rfl := Except.ok.inj h
    exact isFinite_sign f x
  | abs =>
    obtain rfl := Except.ok.inj h
    exact hx

end Binary64

/-! ## Formulas -/

namespace Expr

open Binary64

variable {t : Expr Binary64} {f : Elementary}

/-- The variable has a finite value or none. -/
theorem isFinite_of_variableValue {p : Point Binary64} {y : Binary64}
    (h : (arithmeticWith f).operations.variableValue p = .ok y) : y.isFinite = true := by
  rw [Operations.variableValue] at h
  split at h
  · cases h
  · split at h
    · next hx =>
      obtain rfl := Except.ok.inj h
      exact hx
    · cases h

/-- **A tree of finite numbers has finite values**, wherever it is evaluated. -/
theorem Finite.isFinite_of_evaluate (hf : f.KeepsFinite) (ht : t.Finite) {p : Point Binary64}
    {y : Binary64} (h : (arithmeticWith f).operations.evaluate p t = .ok y) :
    y.isFinite = true := by
  induction t generalizing p y with
  | number x =>
    obtain rfl := Except.ok.inj h
    exact ht
  | constant c =>
    obtain rfl := Except.ok.inj h
    exact isFinite_constant c
  | freeVariable => exact isFinite_of_variableValue h
  | binary left op right _ _ =>
    obtain ⟨r, l, -, -, hbinary⟩ := Operations.exists_of_evaluate_binary h
    have hbinary : (arithmeticWith f).binary op l r = .ok y := hbinary
    exact isFinite_of_binary hbinary
  | call function arg ih =>
    cases function with
    | pointwise function =>
      obtain ⟨x, hx, happly⟩ := Operations.exists_of_evaluate_pointwise h
      exact isFinite_of_apply hf (ih ht hx) happly
    | delta =>
      obtain ⟨_, current, previous, -, -, -, hbinary⟩ := Operations.exists_of_evaluate_delta h
      have hbinary : (arithmeticWith f).binary .subtract current previous = .ok y := hbinary
      exact isFinite_of_binary hbinary

/-- **A formula that has been read has finite values.** Its numbers and all constants are finite.
At every point, whatever the value of the variable and the samples are, it fails or has a finite
value; with the functions of the machine this is the value of the formula for a number, and the
values along a series. -/
theorem isFinite_of_ofText {settings : Settings} {text : String}
    (h : ofText settings text = .ok t) (hf : f.KeepsFinite) :
    t.Finite ∧ (∀ c, ((arithmeticWith f).constant c).isFinite = true) ∧
    (∀ p y, (arithmeticWith f).operations.evaluate p t = .ok y → y.isFinite = true) ∧
    (f = .machine → ∀ formula : Formula, formula.tree = .ok t →
      (∀ x y, formula.evaluate x = .ok y → y.isFinite = true) ∧
      ∀ series y, .ok y ∈ (formula.evaluateSeries series).1 → y.isFinite = true) := by
  have ht : t.Finite := finite_of_ofText h
  refine ⟨ht, isFinite_constant, fun p y => ht.isFinite_of_evaluate hf, ?_⟩
  rintro rfl formula htree
  have hat (p : Point Binary64) (y : Binary64) (hy : formula.evaluateAt p = .ok y) :
      y.isFinite = true := by
    rw [Formula.evaluateAt, htree] at hy
    exact ht.isFinite_of_evaluate hf hy
  refine ⟨fun x => hat (.ofValue x), ?_⟩
  intro series y hy
  obtain ⟨i, -, hi⟩ := List.mem_map.mp hy
  exact hat (.ofSample series i) y hi

/-- Functions that are right at the few numbers at which they are asked for here: the root and the
sine of zero, the cosine and the exponential of zero, and the logarithm of one. -/
def fewFunctions : Elementary where
  sqrt _ := 0
  sin _ := 0
  cos _ := 1
  exp _ := 1
  ln _ := 0

theorem keepsFinite_fewFunctions : fewFunctions.KeepsFinite where
  sin _ := isFinite_zero
  cos _ := isFinite_one
  ln _ _ := isFinite_zero
  sqrt _ _ := isFinite_zero

/-- A value that has gone through functions whose results are not checked. -/
theorem isFinite_of_ofText_functions :
    ∃ t, ofText {} "x*COS(0)-SQRT(LN(1))" = .ok t ∧
      (arithmeticWith fewFunctions).operations.evaluate (.ofValue 3) t = .ok 3 ∧
      (3 : Binary64).isFinite = true := by
  have hread : ofText {} "x*COS(0)-SQRT(LN(1))" = .ok
      (.binary (.binary .freeVariable .multiply (.call (.pointwise .cos) (.number 0))) .subtract
        (.call (.pointwise .sqrt) (.call (.pointwise .ln) (.number 1)))) := by decide +kernel
  have hvalue : (arithmeticWith fewFunctions).operations.evaluate (.ofValue 3)
      (.binary (.binary .freeVariable .multiply (.call (.pointwise .cos) (.number 0))) .subtract
        (.call (.pointwise .sqrt) (.call (.pointwise .ln) (.number 1)))) = .ok 3 := by
    decide +kernel
  exact ⟨_, hread, hvalue,
    (isFinite_of_ofText hread keepsFinite_fewFunctions).2.2.1 _ _ hvalue⟩

end Expr

end Formulary
