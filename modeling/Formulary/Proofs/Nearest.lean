import Formulary.Binary64.Shortest
import Mathlib.Tactic.Ring

/-!
# The digits of a number read back

Reading a decimal gives the place nearest to it, and the digits that are shown for a place were
found by reading candidates. So they read back as this place, and where no candidate does, all the
digits of the value are shown, which no rounding can change.

* `nearestPlace_of_exact` — a fraction that is exactly at a place is read as that place;
* `placeOfDecimal_shortest` — the digits that are shown for a place read back as it.
-/

namespace Formulary

namespace Decimal

theorem numerator_ofNat (digits places : Nat) :
    (⟨digits, .ofNat places⟩ : Decimal).numerator = digits * 10 ^ places := rfl

theorem denominator_ofNat (digits places : Nat) :
    (⟨digits, .ofNat places⟩ : Decimal).denominator = 1 := rfl

theorem numerator_negSucc (digits places : Nat) :
    (⟨digits, .negSucc places⟩ : Decimal).numerator = digits := rfl

theorem denominator_negSucc (digits places : Nat) :
    (⟨digits, .negSucc places⟩ : Decimal).denominator = 10 ^ (places + 1) := rfl

end Decimal

namespace Binary64

variable {place : Nat}

/-! ## Exact values -/

theorem unitsAt_eq (place : Nat) : unitsAt place = significandAt place * 2 ^ scaleAt place := rfl

theorem unitsOfOne_eq : unitsOfOne = 2 ^ halvings := by
  rw [unitsOfOne, Nat.pow_eq]

theorem roundHalfEven_mul {b : Nat} (hb : 0 < b) (n : Nat) : roundHalfEven (n * b) b = n := by
  rw [roundHalfEven, Nat.mul_mod_left, Nat.mul_div_cancel n hb, if_pos (by omega)]

/-- A place is its binade and its place in it. -/
theorem scaleAt_mul_add_significandAt (place : Nat) :
    scaleAt place * placesPerBinade + significandAt place = place := by
  have hdiv := Nat.div_add_mod place placesPerBinade
  rw [scaleAt, significandAt]
  by_cases h : place < placesPerBinade
  · rw [if_pos h, Nat.div_eq_of_lt h, Nat.zero_sub, Nat.zero_mul, Nat.zero_add]
  · have hbinade : 1 ≤ place / placesPerBinade :=
      (Nat.one_le_div_iff (by decide)).mpr (Nat.le_of_not_lt h)
    rw [if_neg h, Nat.sub_mul, Nat.mul_comm, Nat.one_mul]
    have hle : placesPerBinade ≤ placesPerBinade * (place / placesPerBinade) :=
      Nat.le_mul_of_pos_right _ hbinade
    omega

/-- The scale of a place is what the number of its binary digits leaves. -/
theorem log2_unitsAt (place : Nat) : (unitsAt place).log2 - 52 = scaleAt place := by
  rw [unitsAt_eq, scaleAt, significandAt]
  by_cases h : place < placesPerBinade
  · rw [if_pos h, Nat.div_eq_of_lt h, Nat.zero_sub, Nat.pow_zero, Nat.mul_one]
    rcases Nat.eq_zero_or_pos place with rfl | hpos
    · decide
    · have hlog : place.log2 < 52 := (Nat.log2_lt (Nat.ne_of_gt hpos)).mpr h
      omega
  · -- beyond the first binade the significand has 53 binary digits
    rw [if_neg h]
    generalize place / placesPerBinade - 1 = scale
    have hmod : place % placesPerBinade < placesPerBinade := Nat.mod_lt _ (by decide)
    have hlog : ((placesPerBinade + place % placesPerBinade) * 2 ^ scale).log2 = 52 + scale := by
      refine (Nat.log2_eq_iff ?_).mpr ⟨?_, ?_⟩
      · exact Nat.ne_of_gt (Nat.mul_pos (by rw [placesPerBinade]; omega) (Nat.two_pow_pos _))
      · rw [Nat.pow_add]
        exact Nat.mul_le_mul_right _ (Nat.le_add_right _ _)
      · rw [show 52 + scale + 1 = 53 + scale by omega, Nat.pow_add]
        refine Nat.mul_lt_mul_of_pos_right ?_ (Nat.two_pow_pos _)
        rw [placesPerBinade] at hmod ⊢
        omega
    omega

/-- **A fraction that is exactly at a place** is read as that place. -/
theorem nearestPlace_of_exact {a b : Nat} (hb : 0 < b) (hplace : place < infinityPlace)
    (h : a * unitsOfOne = unitsAt place * b) : nearestPlace a b = place := by
  have hround : roundHalfEven (unitsAt place * b) (b * Nat.pow 2 (scaleAt place)) =
      significandAt place := by
    rw [unitsAt, Nat.mul_assoc, Nat.mul_comm (Nat.pow 2 (scaleAt place)) b]
    exact roundHalfEven_mul (Nat.mul_pos hb (Nat.two_pow_pos _)) _
  rw [nearestPlace, h, Nat.mul_div_cancel _ hb, log2_unitsAt, hround, scaleAt_mul_add_significandAt,
    Nat.min_eq_right (Nat.le_of_lt hplace)]

/-! ## The digits that are shown -/

theorem placeOfDecimal_of_candidate? {exponent : Int} {d : Decimal}
    (h : candidate? place exponent = some d) : placeOfDecimal d = place := by
  simp only [candidate?] at h
  split at h
  · next hbelow habove =>
    split at h
    · obtain rfl := Option.some.inj h
      exact eq_of_beq hbelow
    · obtain rfl := Option.some.inj h
      exact eq_of_beq habove
  · next hbelow _ =>
    obtain rfl := Option.some.inj h
    exact eq_of_beq hbelow
  · next _ habove =>
    obtain rfl := Option.some.inj h
    exact eq_of_beq habove
  · cases h

theorem unitsAt_pos (h : place ≠ 0) : 0 < unitsAt place := by
  refine Nat.mul_pos ?_ (Nat.two_pow_pos _)
  rw [significandAt]
  split
  · exact Nat.pos_of_ne_zero h
  · rw [placesPerBinade]
    omega

/-- As `4 ≤ 5`, a multiple of a power of five has at least twice as many binary digits. -/
theorem two_mul_le_log2 {n : Nat} (hn : 0 < n) (k : Nat) : 2 * k ≤ (n * 5 ^ k).log2 := by
  have hpow : 2 ^ (2 * k) ≤ 5 ^ k := by
    rw [Nat.pow_mul]
    exact Nat.pow_le_pow_left (by decide) k
  have hpos : 0 < n * 5 ^ k := Nat.mul_pos hn (Nat.pow_pos (by decide))
  rw [Nat.le_log2 (Nat.ne_of_gt hpos)]
  exact Nat.le_trans hpow (Nat.le_mul_of_pos_left _ hn)

theorem five_pow_mul_two_pow (k : Nat) : 5 ^ k * 2 ^ k = 10 ^ k := by
  rw [← Nat.mul_pow]

/-- A decimal whose exponent does not settle it. -/
theorem placeOfDecimal_eq_nearestPlace (d : Decimal) (hne : d.digits ≠ 0)
    (hlarge : d.exponent ≤ 341) (hsmall : 0 ≤ d.digits.log2 + 1077 + 3 * d.exponent) :
    placeOfDecimal d = nearestPlace d.numerator d.denominator := by
  rw [placeOfDecimal, if_neg hne, if_neg (Int.not_lt.mpr hlarge), if_neg (Int.not_lt.mpr hsmall)]

/-- A multiple of a unit has at most 1074 decimal places. -/
theorem placeOfDecimal_mul_five_pow {n places : Nat} (hn : 0 < n) (hpos : 0 < places)
    (hplaces : places ≤ 1074) :
    placeOfDecimal ⟨n * 5 ^ places, -places⟩ = nearestPlace (n * 5 ^ places) (10 ^ places) := by
  have hlog := two_mul_le_log2 hn places
  have hne : n * 5 ^ places ≠ 0 := Nat.ne_of_gt (Nat.mul_pos hn (Nat.pow_pos (by decide)))
  have hlarge : (-places : Int) ≤ 341 := by omega
  have hsmall : 0 ≤ ((n * 5 ^ places).log2 : Int) + 1077 + 3 * -places := by omega
  rw [placeOfDecimal_eq_nearestPlace ⟨_, _⟩ hne hlarge hsmall]
  obtain ⟨k, rfl⟩ := Nat.exists_eq_succ_of_ne_zero (Nat.ne_of_gt hpos)
  rw [Int.neg_ofNat_succ, Decimal.numerator_negSucc, Decimal.denominator_negSucc]

theorem placeOfDecimal_exactDecimal (hzero : place ≠ 0) (hplace : place < infinityPlace) :
    placeOfDecimal (exactDecimal place) = place := by
  have hhalvings : 0 < halvings ∧ halvings ≤ 1074 := by
    rw [halvings]
    decide
  -- multiplied by `5 ^ halvings` and divided by `10 ^ halvings`, a unit is `2 ^ -halvings`
  rw [exactDecimal, Nat.pow_eq,
    placeOfDecimal_mul_five_pow (unitsAt_pos hzero) hhalvings.1 hhalvings.2]
  refine nearestPlace_of_exact (Nat.pow_pos (by decide)) hplace ?_
  rw [unitsOfOne_eq, Nat.mul_assoc, five_pow_mul_two_pow]

/-- **The digits that are shown for a finite place read back as it.** -/
theorem placeOfDecimal_shortest (hplace : place < infinityPlace) :
    placeOfDecimal (shortest place) = place := by
  rw [shortest]
  by_cases hzero : place = 0
  · rw [if_pos hzero, hzero]
    rfl
  · rw [if_neg hzero]
    dsimp only
    rcases hfound : (List.range 18).findSome? fun (count : Nat) =>
      candidate? place (leadingExponent place - count) with _ | d
    · exact placeOfDecimal_exactDecimal hzero hplace
    · obtain ⟨count, -, hcount⟩ := List.exists_of_findSome?_eq_some hfound
      exact placeOfDecimal_of_candidate? hcount

end Binary64

end Formulary
