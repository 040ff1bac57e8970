import Formulary.Proofs.Nearest
import Mathlib.Algebra.Order.Field.Basic
import Mathlib.Algebra.Order.Ring.Rat
import Mathlib.Order.Monotone.Basic
import Mathlib.Tactic.Linarith
import Mathlib.Tactic.Positivity

/-!
# Rounding to the nearest number

Reading a decimal gives the number nearest to it. The places are the candidates, infinity among them
with the power of two that would come next as its value; of two candidates that are equally near the
even one is taken.

* `Binary64.valueAt`, `Decimal.toRat` — the values of places and decimals as rational numbers;
* `Binary64.Nearest` — the place that rounding has to give, and `Nearest.unique`, that there is one;
* `Binary64.Halves` — the same in whole numbers: rounding changes half-way between neighbours;
* `Binary64.nearest_placeOfDecimal` — reading a decimal gives it.
-/

namespace Formulary

namespace Binary64

variable {place other a b : Nat}

/-! ## Neighbouring places -/

/-- Places that share a power of two, and the first of those with the next one. -/
theorem unitsAt_mul_add {scale digits : Nat} (hlow : scale = 0 ∨ placesPerBinade ≤ digits)
    (hhigh : digits ≤ 2 * placesPerBinade) :
    unitsAt (scale * placesPerBinade + digits) = digits * 2 ^ scale := by
  have hpos : 0 < placesPerBinade := by decide
  rw [unitsAt_eq, significandAt, scaleAt]
  rcases Nat.lt_or_ge digits placesPerBinade with hsmall | hlarge
  · obtain rfl : scale = 0 := by omega
    simp [hsmall, Nat.div_eq_of_lt hsmall]
  · obtain ⟨k, rfl⟩ := Nat.exists_eq_add_of_le hlarge
    have hbinade : ¬ scale * placesPerBinade + (placesPerBinade + k) < placesPerBinade := by omega
    rw [if_neg hbinade]
    rcases Nat.lt_or_ge k placesPerBinade with hk | hk
    · obtain ⟨hdiv, hmod⟩ := (Nat.div_mod_unique hpos (d := scale + 1) (c := k)).mpr
        ⟨show _ = scale * placesPerBinade + (placesPerBinade + k) by ring, hk⟩
      rw [hdiv, hmod, Nat.add_sub_cancel]
    · -- the first place of the next binade
      obtain rfl : k = placesPerBinade := by omega
      obtain ⟨hdiv, hmod⟩ := (Nat.div_mod_unique hpos (d := scale + 2) (c := 0)).mpr
        ⟨show _ = scale * placesPerBinade + (placesPerBinade + placesPerBinade) by ring, hpos⟩
      rw [hdiv, hmod, show scale + 2 - 1 = scale + 1 by omega, Nat.pow_succ]
      ring

/-- A place as its binade and its place in it. -/
theorem exists_scale_digits (place : Nat) : ∃ scale digits,
    place = scale * placesPerBinade + digits ∧ (scale = 0 ∨ placesPerBinade ≤ digits) ∧
      digits < 2 * placesPerBinade := by
  refine ⟨scaleAt place, significandAt place, (scaleAt_mul_add_significandAt place).symm, ?_, ?_⟩
  · rw [scaleAt, significandAt]
    by_cases h : place < placesPerBinade
    · exact .inl (by rw [Nat.div_eq_of_lt h])
    · exact .inr (by rw [if_neg h]; omega)
  · have hmod := Nat.mod_lt place (show 0 < placesPerBinade by decide)
    rw [significandAt]
    split <;> omega

/-- **The values grow with the places.** -/
theorem strictMono_unitsAt : StrictMono unitsAt := by
  refine strictMono_nat_of_lt_succ fun place => ?_
  obtain ⟨scale, digits, rfl, hlow, hhigh⟩ := exists_scale_digits place
  rw [Nat.add_assoc, unitsAt_mul_add hlow (by omega), unitsAt_mul_add (by omega) (by omega)]
  exact Nat.mul_lt_mul_of_pos_right (Nat.lt_succ_self digits) (Nat.two_pow_pos scale)

/-- Places above one are at least a unit of its scale higher. -/
theorem le_unitsAt_above {scale digits : Nat} (hlow : scale = 0 ∨ placesPerBinade ≤ digits)
    (hhigh : digits ≤ 2 * placesPerBinade) (h : scale * placesPerBinade + digits < other) :
    (digits + 1) * 2 ^ scale ≤ unitsAt other := by
  refine Nat.le_trans ?_ (strictMono_unitsAt.monotone h)
  rcases Nat.lt_or_ge digits (2 * placesPerBinade) with hlt | hge
  · rw [Nat.succ_eq_add_one, Nat.add_assoc, unitsAt_mul_add (by omega) (by omega)]
  · -- the place is the first of the next binade, and the next one is two units higher
    obtain rfl : digits = 2 * placesPerBinade := by omega
    have hplace : (scale * placesPerBinade + 2 * placesPerBinade).succ =
        (scale + 1) * placesPerBinade + (placesPerBinade + 1) := by
      rw [Nat.succ_eq_add_one]
      ring
    have hpos : 0 < placesPerBinade := by decide
    rw [hplace, unitsAt_mul_add (by omega) (by omega), Nat.pow_succ, Nat.mul_comm _ 2,
      ← Nat.mul_assoc]
    exact Nat.mul_le_mul_right _ (by omega)

/-- Places below one are at least a unit of its scale lower, if it is not the first of a binade. -/
theorem unitsAt_below_add_le {scale digits : Nat} (hlow : scale = 0 ∨ placesPerBinade < digits)
    (hhigh : digits ≤ 2 * placesPerBinade) (h : other < scale * placesPerBinade + digits) :
    unitsAt other + 2 ^ scale ≤ digits * 2 ^ scale := by
  have hpos : 0 < digits := by
    rcases hlow with rfl | hlow <;> omega
  obtain ⟨fewer, rfl⟩ : ∃ fewer, digits = fewer + 1 := ⟨digits - 1, by omega⟩
  rw [← Nat.add_assoc, Nat.lt_succ_iff] at h
  have hle := strictMono_unitsAt.monotone h
  rw [unitsAt_mul_add (by omega) (by omega)] at hle
  rw [Nat.succ_mul]
  omega

/-! ## Half-way between neighbours -/

/-- Rounding to a whole number, in terms of the two numbers half-way to its neighbours. -/
theorem roundHalfEven_bounds {a b r : Nat} (hb : 0 < b) (hr : roundHalfEven a b = r) :
    (2 * a ≤ (2 * r + 1) * b ∧ (2 * a = (2 * r + 1) * b → r % 2 = 0)) ∧
      (2 * r * b ≤ 2 * a + b ∧ (2 * r * b = 2 * a + b → r % 2 = 0)) := by
  have hdiv := Nat.div_add_mod a b
  have hmod := Nat.mod_lt a hb
  have hexpand (q : Nat) : (2 * q + 1) * b = 2 * (b * q) + b ∧ 2 * q * b = 2 * (b * q) := by
    constructor <;> ring
  rw [roundHalfEven] at hr
  generalize a / b = q at hdiv hr
  generalize a % b = m at hdiv hmod hr
  split at hr
  · subst hr
    rw [(hexpand q).1, (hexpand q).2]
    omega
  · split at hr
    · subst hr
      rw [(hexpand (q + 1)).1, (hexpand (q + 1)).2, Nat.mul_succ]
      omega
    · -- exactly half-way: the even one of the two
      rcases Nat.mod_two_eq_zero_or_one q with heven | hodd
      · obtain rfl : q = r := by omega
        rw [(hexpand q).1, (hexpand q).2]
        omega
      · obtain rfl : q + 1 = r := by omega
        rw [(hexpand (q + 1)).1, (hexpand (q + 1)).2, Nat.mul_succ]
        omega

/-- A fraction of units lies nearest to a place if it comes after all numbers half-way to a lower
place, and before all those half-way to a higher one. Half-way itself belongs to the even place. -/
structure Halves (units b place : Nat) : Prop where
  /-- towards the lower places -/
  below : ∀ other < place, (unitsAt other + unitsAt place) * b ≤ 2 * units ∧
    ((unitsAt other + unitsAt place) * b = 2 * units → place % 2 = 0)
  /-- towards the higher places -/
  above : ∀ other > place, 2 * units ≤ (unitsAt place + unitsAt other) * b ∧
    (2 * units = (unitsAt place + unitsAt other) * b → place % 2 = 0)

/-- The scale leaves 53 binary digits, or fewer if it is zero. -/
theorem scale_bounds {units scale : Nat} (hb : 0 < b) (hscale : (units / b).log2 - 52 = scale) :
    units < 2 * placesPerBinade * (b * 2 ^ scale) ∧
      (scale = 0 ∨ placesPerBinade * (b * 2 ^ scale) ≤ units) := by
  have hplaces : placesPerBinade = 2 ^ 52 := rfl
  have hlt : units / b < 2 ^ (53 + scale) :=
    Nat.lt_of_lt_of_le Nat.lt_log2_self (Nat.pow_le_pow_right (by decide) (by omega))
  rw [Nat.div_lt_iff_lt_mul hb] at hlt
  constructor
  · calc units < 2 ^ (53 + scale) * b := hlt
      _ = 2 * placesPerBinade * (b * 2 ^ scale) := by rw [hplaces]; ring
  · rcases Nat.eq_zero_or_pos scale with hzero | hpos
    · exact .inl hzero
    · right
      have hne : units / b ≠ 0 := by
        intro hzero
        rw [hzero, Nat.log2_zero] at hscale
        omega
      have hle : 2 ^ (52 + scale) ≤ units / b := (Nat.le_log2 hne).mp (by omega)
      rw [Nat.le_div_iff_mul_le hb] at hle
      calc placesPerBinade * (b * 2 ^ scale) = 2 ^ (52 + scale) * b := by rw [hplaces]; ring
        _ ≤ units := hle

/-- **Counting in a unit of 53 binary digits**, or in the smallest one, gives the nearest place. -/
theorem halves_scaled {units scale digits : Nat} (hb : 0 < b)
    (hscale : (units / b).log2 - 52 = scale)
    (hdigits : roundHalfEven units (b * 2 ^ scale) = digits) :
    Halves units b (scale * placesPerBinade + digits) := by
  have hunit : 0 < b * 2 ^ scale := Nat.mul_pos hb (Nat.two_pow_pos scale)
  obtain ⟨hlt, hle⟩ := scale_bounds hb hscale
  obtain ⟨⟨habove, habove'⟩, hbelow, hbelow'⟩ := roundHalfEven_bounds hunit hdigits
  have hlow : scale = 0 ∨ placesPerBinade ≤ digits := by
    refine hle.imp_right fun hle => ?_
    by_contra hnot
    have hmul := Nat.mul_le_mul_right (b * 2 ^ scale)
      (show 2 * digits + 1 + 1 ≤ 2 * placesPerBinade by omega)
    rw [Nat.add_mul, Nat.mul_assoc 2 placesPerBinade] at hmul
    omega
  have hhigh : digits ≤ 2 * placesPerBinade := by
    by_contra hnot
    have hmul := Nat.mul_le_mul_right (b * 2 ^ scale)
      (show 2 * (2 * placesPerBinade) + 1 + 1 ≤ 2 * digits by omega)
    rw [Nat.add_mul, Nat.add_mul, Nat.mul_assoc 2 (2 * placesPerBinade)] at hmul
    omega
  have hvalue := unitsAt_mul_add hlow hhigh
  have heven : digits % 2 = 0 → (scale * placesPerBinade + digits) % 2 = 0 := by
    have hplaces : placesPerBinade % 2 = 0 := rfl
    intro h
    rw [Nat.add_mod, Nat.mul_mod, hplaces, h]
    rfl
  constructor
  · intro other hother
    rw [hvalue]
    by_cases hfirst : scale = 0 ∨ placesPerBinade < digits
    · have hnext := unitsAt_below_add_le hfirst hhigh hother
      have hsum := Nat.mul_le_mul_right b (Nat.add_le_add_right hnext (digits * 2 ^ scale))
      have hexpand : (digits * 2 ^ scale + digits * 2 ^ scale) * b =
        2 * digits * (b * 2 ^ scale) := by ring
      rw [hexpand, show (unitsAt other + 2 ^ scale + digits * 2 ^ scale) * b =
        (unitsAt other + digits * 2 ^ scale) * b + b * 2 ^ scale by ring] at hsum
      exact ⟨by omega, fun heq => heven (hbelow' (by omega))⟩
    · -- below the first place of a binade the places lie closer, but the fraction is not below it
      obtain rfl : digits = placesPerBinade := by omega
      have hle := hle.resolve_left (by omega)
      have hstrict := strictMono_unitsAt hother
      rw [hvalue] at hstrict
      have hsum := Nat.mul_lt_mul_of_pos_right
        (Nat.add_lt_add_right hstrict (placesPerBinade * 2 ^ scale)) hb
      have hexpand : (placesPerBinade * 2 ^ scale + placesPerBinade * 2 ^ scale) * b =
        2 * (placesPerBinade * (b * 2 ^ scale)) := by ring
      rw [hexpand] at hsum
      exact ⟨by omega, fun heq => by omega⟩
  · intro other hother
    rw [hvalue]
    have hnext := le_unitsAt_above hlow hhigh hother
    have hsum := Nat.mul_le_mul_right b (Nat.add_le_add_left hnext (digits * 2 ^ scale))
    have hexpand : (digits * 2 ^ scale + (digits + 1) * 2 ^ scale) * b =
      (2 * digits + 1) * (b * 2 ^ scale) := by ring
    rw [hexpand] at hsum
    exact ⟨habove.trans hsum, fun heq => heven (habove' (by omega))⟩

end Binary64

/-! ## Values -/

/-- The value of a decimal. -/
def Decimal.toRat (d : Decimal) : ℚ := d.digits * 10 ^ d.exponent

theorem Decimal.toRat_eq_div (d : Decimal) : d.toRat = d.numerator / d.denominator := by
  obtain ⟨digits, places | places⟩ := d
  · rw [toRat, numerator_ofNat, denominator_ofNat]
    simp
  · simp [toRat, numerator_negSucc, denominator_negSucc, zpow_negSucc, div_eq_mul_inv]

namespace Binary64

/-- The value of a place. That of infinity is the power of two that would come next. -/
def valueAt (place : Nat) : ℚ := unitsAt place / unitsOfOne

/-- The place that a number is rounded to. -/
structure Nearest (q : ℚ) (place : Nat) : Prop where
  /-- infinity is the last of the places -/
  le_infinity : place ≤ infinityPlace
  /-- no place is nearer -/
  nearest : ∀ other ≤ infinityPlace, |valueAt place - q| ≤ |valueAt other - q|
  /-- of two places that are equally near it is the even one -/
  even : ∀ other ≤ infinityPlace, other ≠ place → |valueAt place - q| = |valueAt other - q| →
    place % 2 = 0

theorem unitsOfOne_pos : (0 : ℚ) < unitsOfOne := by
  rw [unitsOfOne_eq]
  positivity

theorem strictMono_valueAt : StrictMono valueAt := by
  intro place other h
  have hlt : (unitsAt place : ℚ) < unitsAt other := Nat.cast_lt.mpr (strictMono_unitsAt h)
  exact div_lt_div_of_pos_right hlt unitsOfOne_pos

/-- The higher of two numbers is at least as near as the lower one above what is half-way. -/
theorem abs_sub_le_abs_sub_iff {u v q : ℚ} (h : u < v) : |v - q| ≤ |u - q| ↔ u + v ≤ 2 * q := by
  rw [← sq_le_sq]
  constructor <;> intro hle <;> nlinarith

/-- The lower of two numbers is at least as near as the higher one below what is half-way. -/
theorem abs_sub_le_abs_sub_iff' {u v q : ℚ} (h : u < v) : |u - q| ≤ |v - q| ↔ 2 * q ≤ u + v := by
  rw [← sq_le_sq]
  constructor <;> intro hle <;> nlinarith

variable {place other a b : Nat} {q : ℚ}

/-- Two places would be equally near and so both even, and the places between them nearer. -/
theorem Nearest.le_of_nearest (h : Nearest q place) (h' : Nearest q other) : other ≤ place := by
  by_contra hnot
  have hlt := Nat.lt_of_not_le hnot
  have hle := h.nearest other h'.le_infinity
  have hge := h'.nearest place h.le_infinity
  have heven := h.even other h'.le_infinity (Nat.ne_of_gt hlt) (le_antisymm hle hge)
  have heven' := h'.even place h.le_infinity (Nat.ne_of_lt hlt) (le_antisymm hge hle)
  have hnext : place + 1 < other := by omega
  have hnear := h.nearest (place + 1) (hnext.le.trans h'.le_infinity)
  rw [abs_sub_le_abs_sub_iff' (strictMono_valueAt (Nat.lt_succ_self place))] at hnear
  rw [abs_sub_le_abs_sub_iff (strictMono_valueAt hlt)] at hge
  have hvalue := strictMono_valueAt hnext
  linarith

/-- **There is one place to round to.** -/
theorem Nearest.unique (h : Nearest q place) (h' : Nearest q other) : place = other :=
  Nat.le_antisymm (h'.le_of_nearest h) (h.le_of_nearest h')

theorem nearest_of_sums (hle : place ≤ infinityPlace)
    (hbelow : ∀ other < place, valueAt other + valueAt place ≤ 2 * q ∧
      (valueAt other + valueAt place = 2 * q → place % 2 = 0))
    (habove : ∀ other > place, other ≤ infinityPlace → 2 * q ≤ valueAt place + valueAt other ∧
      (2 * q = valueAt place + valueAt other → place % 2 = 0)) : Nearest q place := by
  refine ⟨hle, fun other hother => ?_, fun other hother hne heq => ?_⟩
  · rcases Nat.lt_trichotomy other place with hlt | rfl | hlt
    · exact (abs_sub_le_abs_sub_iff (strictMono_valueAt hlt)).mpr (hbelow other hlt).1
    · exact le_rfl
    · exact (abs_sub_le_abs_sub_iff' (strictMono_valueAt hlt)).mpr (habove other hlt hother).1
  · rcases Nat.lt_or_gt_of_ne hne with hlt | hlt
    · have hge := (abs_sub_le_abs_sub_iff' (strictMono_valueAt hlt)).mp heq.ge
      exact (hbelow other hlt).2 (le_antisymm (hbelow other hlt).1 hge)
    · have hge := (abs_sub_le_abs_sub_iff (strictMono_valueAt hlt)).mp heq.ge
      exact (habove other hlt hother).2 (le_antisymm (habove other hlt hother).1 hge)

/-- Infinity is even, so it is enough that no number half-way to it lies higher. -/
theorem nearest_infinityPlace_of_sums
    (h : ∀ other < infinityPlace, valueAt other + valueAt infinityPlace ≤ 2 * q) :
    Nearest q infinityPlace :=
  nearest_of_sums le_rfl (fun other hlt => ⟨h other hlt, fun _ => rfl⟩)
    fun _ hlt hother => absurd hlt (Nat.not_lt.mpr hother)

/-- A sum of two values against a fraction, in whole numbers. -/
theorem add_valueAt_cross (hb : 0 < b) (a other place : Nat) :
    (valueAt other + valueAt place ≤ 2 * (a / b : ℚ) ↔
      (unitsAt other + unitsAt place) * b ≤ 2 * (a * unitsOfOne)) ∧
    (2 * (a / b : ℚ) ≤ valueAt other + valueAt place ↔
      2 * (a * unitsOfOne) ≤ (unitsAt other + unitsAt place) * b) := by
  have hb' : (0 : ℚ) < b := Nat.cast_pos.mpr hb
  have hcast : 2 * (a * unitsOfOne : ℚ) = 2 * a * unitsOfOne := by ring
  rw [valueAt, valueAt, ← add_div, ← mul_div_assoc, div_le_div_iff₀ unitsOfOne_pos hb',
    div_le_div_iff₀ hb' unitsOfOne_pos, ← hcast]
  constructor <;> norm_cast

/-- **Rounding a fraction**: beyond infinity, it gives infinity. -/
theorem Halves.nearest (hb : 0 < b) (h : Halves (a * unitsOfOne) b place) :
    Nearest (a / b) (min infinityPlace place) := by
  have hcross := add_valueAt_cross hb a
  have heq {other place : Nat} (hsum : valueAt other + valueAt place = 2 * (a / b : ℚ)) :
      (unitsAt other + unitsAt place) * b = 2 * (a * unitsOfOne) :=
    Nat.le_antisymm ((hcross _ _).1.mp hsum.le) ((hcross _ _).2.mp hsum.ge)
  rcases Nat.le_total place infinityPlace with hle | hle
  · rw [Nat.min_eq_right hle]
    refine nearest_of_sums hle (fun other hlt => ?_) (fun other hlt _ => ?_)
    · exact ⟨(hcross _ _).1.mpr (h.below other hlt).1,
        fun hsum => (h.below other hlt).2 (heq hsum)⟩
    · exact ⟨(hcross _ _).2.mpr (h.above other hlt).1,
        fun hsum => (h.above other hlt).2 (heq hsum.symm).symm⟩
  · rw [Nat.min_eq_left hle]
    refine nearest_infinityPlace_of_sums fun other hlt => ?_
    have hinfinity := Nat.add_le_add_left (strictMono_unitsAt.monotone hle) (unitsAt other)
    exact (hcross _ _).1.mpr
      ((Nat.mul_le_mul_right b hinfinity).trans (h.below other (hlt.trans_le hle)).1)

/-! ## Decimals -/

/-- A number at or above the value of infinity. -/
theorem nearest_infinityPlace (h : valueAt infinityPlace ≤ q) : Nearest q infinityPlace := by
  refine nearest_infinityPlace_of_sums fun other hlt => ?_
  have hvalue := strictMono_valueAt hlt
  linarith

/-- A number at or below half of the smallest positive one. -/
theorem nearest_zero (h : 2 * q ≤ valueAt 1) : Nearest q 0 := by
  refine nearest_of_sums (Nat.zero_le _) nofun (fun other hlt _ => ⟨?_, fun _ => rfl⟩)
  have hzero : valueAt 0 = 0 := by simp [valueAt, unitsAt, significandAt]
  rw [hzero, zero_add]
  exact h.trans (strictMono_valueAt.monotone hlt)

/-- The first place of a binade is a power of two. -/
theorem valueAt_binade (scale : Nat) :
    valueAt (scale * placesPerBinade + placesPerBinade) * 2 ^ halvings = 2 ^ (52 + scale) := by
  have hplaces : placesPerBinade = 2 ^ 52 := rfl
  rw [valueAt, unitsAt_mul_add (.inr le_rfl) (by omega), unitsOfOne_eq, hplaces, ← Nat.pow_add]
  push_cast
  exact div_mul_cancel₀ _ (by positivity)

theorem valueAt_infinityPlace : valueAt infinityPlace = 2 ^ 1024 := by
  have hplace : infinityPlace = 2046 * placesPerBinade + placesPerBinade := rfl
  have hbinade := valueAt_binade 2046
  rw [← hplace, halvings, show 52 + 2046 = 1024 + 1074 from rfl, pow_add] at hbinade
  exact mul_right_cancel₀ (by positivity) hbinade

theorem valueAt_one : valueAt 1 = 1 / 2 ^ halvings := by
  have hunits : unitsAt 1 = 1 := rfl
  rw [valueAt, hunits, unitsOfOne_eq]
  push_cast
  rfl

end Binary64

namespace Decimal

/-- As `8 ≤ 10`, a decimal with a large exponent is beyond all places. -/
theorem le_toRat_of_large (d : Decimal) (hne : d.digits ≠ 0) (h : 341 < d.exponent) :
    2 ^ 1024 ≤ d.toRat := by
  obtain ⟨digits, exponent⟩ := d
  dsimp only at hne h
  obtain ⟨k, rfl⟩ := Int.eq_ofNat_of_zero_le (show 0 ≤ exponent by omega)
  have hk : 342 ≤ k := by omega
  have hdigits : (1 : ℚ) ≤ digits := Nat.one_le_cast.mpr (Nat.pos_of_ne_zero hne)
  calc (2 : ℚ) ^ 1024 ≤ 2 ^ (3 * 342) := pow_le_pow_right₀ (by norm_num) (by norm_num)
    _ = 8 ^ 342 := by rw [pow_mul]; norm_num
    _ ≤ 10 ^ 342 := pow_le_pow_left₀ (by norm_num) (by norm_num) _
    _ ≤ 10 ^ k := pow_le_pow_right₀ (by norm_num) hk
    _ ≤ digits * 10 ^ k := le_mul_of_one_le_left (by positivity) hdigits
    _ = toRat ⟨digits, k⟩ := by rw [toRat, zpow_natCast]

/-- For the same reason a decimal with a small exponent is below half of the smallest place. -/
theorem two_mul_toRat_le (d : Decimal) (h : d.digits.log2 + 1077 + 3 * d.exponent < 0) :
    2 * d.toRat * 2 ^ Binary64.halvings ≤ 1 := by
  have hhalvings : Binary64.halvings = 1074 := by rw [Binary64.halvings]
  obtain ⟨digits, exponent⟩ := d
  dsimp only at h
  obtain ⟨k, rfl⟩ := Int.exists_eq_neg_ofNat (show exponent ≤ 0 by omega)
  have hdigits : 2 * digits * 2 ^ Binary64.halvings ≤ 10 ^ k := by
    calc 2 * digits * 2 ^ Binary64.halvings
        ≤ 2 * 2 ^ (digits.log2 + 1) * 2 ^ Binary64.halvings := by
          gcongr
          exact Nat.lt_log2_self.le
      _ = 2 ^ (digits.log2 + 2 + Binary64.halvings) := by ring
      _ ≤ 2 ^ (3 * k) := Nat.pow_le_pow_right (by norm_num) (by omega)
      _ = 8 ^ k := by rw [pow_mul]; norm_num
      _ ≤ 10 ^ k := Nat.pow_le_pow_left (by norm_num) k
  have hcast : (2 * digits * 2 ^ Binary64.halvings : ℚ) ≤ 10 ^ k := by exact_mod_cast hdigits
  rw [toRat, zpow_neg, zpow_natCast, ← div_eq_mul_inv, mul_div_assoc', div_mul_eq_mul_div,
    div_le_one (by positivity)]
  exact hcast

end Decimal

namespace Binary64

/-- **The number read for a decimal is the nearest one.** -/
theorem nearest_placeOfDecimal (d : Decimal) : Nearest d.toRat (placeOfDecimal d) := by
  rw [placeOfDecimal]
  split
  · next hzero =>
    have hvalue : d.toRat = 0 := by simp [Decimal.toRat, hzero]
    refine nearest_zero ?_
    rw [hvalue, mul_zero, valueAt_one]
    positivity
  · next hne =>
    split
    · next hlarge =>
      refine nearest_infinityPlace ?_
      rw [valueAt_infinityPlace]
      exact d.le_toRat_of_large hne hlarge
    · split
      · next hsmall =>
        refine nearest_zero ?_
        rw [valueAt_one, le_div_iff₀ (by positivity)]
        exact d.two_mul_toRat_le hsmall
      · rw [d.toRat_eq_div]
        exact (halves_scaled d.denominator_pos rfl rfl).nearest d.denominator_pos

end Binary64

end Formulary
