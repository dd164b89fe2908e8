import Mathlib
import Schoolbook.Proofs.Number.TotalOrder
import Schoolbook.Proofs.Number.Wide

/-! Closeness of exact numbers. The distance is computed exactly, and then brought into the form that
numbers are stored in. Where its parts do not fit a word it is rounded, and the test may go wrong for
tolerances that agree with it in the first fifty bits. -/
namespace Schoolbook.Number
open Double

/-- A positive double that agrees with the value in the first fifty bits. Four times the error of one
rounding is enough for two parts and their quotient. -/
def IsRough (x : Float) (v : ℚ) : Prop :=
  ∃ r low high, HasMagnitude x .positive r low high ∧ |r - v| ≤ v / 2 ^ 51

section
variable {x y : Float} {v w : ℚ} {low high : Int}

theorem isRough_of_isNearest (near : IsNearest x .positive v low high) (positive : 0 < v) :
    IsRough x v := by
  obtain ⟨r, exactly, lower, upper⟩ := near.bounds positive
  refine ⟨r, low, high, exactly, abs_le.mpr ⟨?_, ?_⟩⟩ <;> linarith

theorem isRough_roundedRatio {q : ℚ} (positive : 0 < q) (num : q.num.natAbs < 2 ^ 128)
    (den : q.den < 2 ^ 128) : IsRough (roundedRatio q) q := by
  -- Both parts are rounded, and then their quotient.
  obtain ⟨n, numerator⟩ := Int.eq_ofNat_of_zero_le (Rat.num_nonneg.mpr positive.le)
  have nonzero : n ≠ 0 := by
    rintro rfl
    exact (Rat.num_ne_zero.mpr positive.ne') numerator
  have above : (0 : ℚ) < n := by exact_mod_cast Nat.pos_of_ne_zero nonzero
  have below : (0 : ℚ) < q.den := by exact_mod_cast q.den_pos
  obtain ⟨top, dividend, top_lower, top_upper⟩ :=
    (isNearest_ofNat_of_bits nonzero (show n < 2 ^ 128 by omega) (by norm_num) (by norm_num)).bounds
      above
  obtain ⟨bottom, divisor, bottom_lower, bottom_upper⟩ :=
    (isNearest_ofNat_of_bits q.den_nz den (by norm_num) (by norm_num)).bounds below
  have converted : roundedRatio q = Float.ofNat n / Float.ofNat q.den := by
    rw [roundedRatio, numerator]
    rfl
  have value : (n : ℚ) / q.den = q := by
    conv_rhs => rw [← Rat.num_div_den q, numerator]
    rfl
  have top_positive := dividend.pos
  have bottom_positive := divisor.pos
  have quotient_upper : top / bottom ≤ q * ((1 + 1 / 2 ^ 53) / (1 - 1 / 2 ^ 53)) := by
    rw [← value, div_mul_div_comm]
    gcongr
  have quotient_lower : q * ((1 - 1 / 2 ^ 53) / (1 + 1 / 2 ^ 53)) ≤ top / bottom := by
    rw [← value, div_mul_div_comm]
    gcongr
  obtain ⟨r, exactly, lower, upper⟩ :=
    (dividend.div divisor (by norm_num) (by norm_num)).bounds (div_pos top_positive bottom_positive)
  rw [← converted] at exactly
  refine ⟨r, _, _, exactly, abs_le.mpr ⟨?_, ?_⟩⟩
  · have : q * (1 - 1 / 2 ^ 51) ≤ q * ((1 - 1 / 2 ^ 53) / (1 + 1 / 2 ^ 53)) * (1 - 1 / 2 ^ 53) := by
      rw [mul_assoc]
      gcongr
      norm_num
    linarith
  · have : q * ((1 + 1 / 2 ^ 53) / (1 - 1 / 2 ^ 53)) * (1 + 1 / 2 ^ 53) ≤ q * (1 + 1 / 2 ^ 51) := by
      rw [mul_assoc]
      gcongr
      norm_num
    linarith

/-- Doubles in order stand for values that are in order too, or close together. -/
theorem IsRough.le_of_orderKey (first : IsRough x v) (second : IsRough y w)
    (below : orderKey x ≤ orderKey y) : 2 ^ 51 * (v - w) ≤ v + w := by
  obtain ⟨r, low, high, exactly, error⟩ := first
  obtain ⟨s, low', high', exactly', error'⟩ := second
  have order : r ≤ s := exactly.le_of_orderKey exactly' below
  rw [abs_le] at error error'
  linarith

theorem IsRough.orderKey_pos (rough : IsRough x v) : 0 < orderKey x := by
  obtain ⟨r, low, high, exactly, -⟩ := rough
  refine lt_of_le_of_ne exactly.orderKey_nonneg fun zero => ?_
  have zero : x = 0 := orderKey_inj.mp zero.symm
  have nonzero := exactly.isNormal.ne_zero
  rw [zero] at nonzero
  cases nonzero

end

section
variable {x target tolerance : Number} {p q t : ℚ}

theorem isRough_toFloat (stored : x.toRat? = some q) (positive : 0 < q) : IsRough x.toFloat q := by
  cases x with
  | integer n =>
    cases stored
    have fits := (fits_of_toRat? (x := .integer n) rfl).1
    rw [Rat.num_intCast] at fits
    obtain ⟨sign, value, near⟩ := isNearest_ofInt (Int.cast_ne_zero.mp positive.ne') fits
    cases sign with
    | negative =>
      have : (n.toInt : ℚ) = -n.toInt.natAbs := value
      have : (0 : ℚ) ≤ n.toInt.natAbs := Nat.cast_nonneg _
      linarith
    | positive =>
      have value : (n.toInt : ℚ) = n.toInt.natAbs := value
      rw [← value] at near
      exact isRough_of_isNearest near positive
  | fraction f =>
    cases stored
    refine isRough_roundedRatio positive ?_ ?_
    · have bounds : -2 ^ 63 ≤ f.value.num ∧ f.value.num < 2 ^ 63 := f.num_fits
      omega
    · have bounds : -2 ^ 63 ≤ (f.value.den : ℤ) ∧ (f.value.den : ℤ) < 2 ^ 63 := f.den_fits
      omega
  | double y => cases stored

theorem distance_eq (hx : x.toRat? = some p) (hq : target.toRat? = some q) :
    distance x target = ofRat |p - q| := by
  have magnitude : (if p - q < 0 then -(p - q) else p - q) = |p - q| := by
    split_ifs with negative
    · exact (abs_of_neg negative).symm
    · exact (abs_of_nonneg (not_lt.mp negative)).symm
  simp only [distance, hx, hq, WideRatio.sub?_eq (narrow_of_toRat? hx) (narrow_of_toRat? hq),
    Option.map_some, Option.getD_some, magnitude]

theorem isWithin_iff (hx : x.toRat? = some p) (hq : target.toRat? = some q)
    (ht : tolerance.toRat? = some t) : x.isWithin target tolerance = true ↔
      0 ≤ t ∧ (cmpValue (ofRat |p - q|) tolerance).isLE = true := by
  rw [isWithin, distance_eq hx hq, Bool.and_eq_true, bne_iff_ne, Ordering.isLE_iff_ne_gt,
    Bool.not_eq_true', Bool.eq_false_iff, Ne, isNegative_iff ht, not_lt]

theorem isWithin_narrow (hx : x.toRat? = some p) (hq : target.toRat? = some q)
    (ht : tolerance.toRat? = some t) (narrow : Narrow |p - q|) :
    x.isWithin target tolerance = true ↔ 0 ≤ t ∧ |p - q| ≤ t := by
  rw [isWithin_iff hx hq ht, cmpValue_of_exact (toRat?_ofRat_of_narrow narrow) ht,
    Ordering.isLE_iff_ne_gt]
  exact and_congr_right fun _ => compare_le_iff_le

theorem isWithin_wide (hx : x.toRat? = some p) (hq : target.toRat? = some q)
    (ht : tolerance.toRat? = some t) (wide : ¬Narrow |p - q|) : x.isWithin target tolerance = true ↔
      0 ≤ t ∧ orderKey (roundedRatio |p - q|) ≤ orderKey tolerance.toFloat := by
  rw [isWithin_iff hx hq ht, ofRat_of_not_narrow wide]
  exact and_congr_right fun _ => Int.isLE_compare

/-- The parts of a distance take twice the bits of the parts of the numbers. -/
theorem distance_bounds (hp : Narrow p) (hq : Narrow q) :
    |p - q|.num.natAbs < 2 ^ 128 ∧ |p - q|.den < 2 ^ 128 := by
  have scale : 0 < p.den * q.den := Nat.mul_pos p.den_pos q.den_pos
  have common : (p - q).den ≤ p.den * q.den := Nat.le_of_dvd scale (Rat.sub_den_dvd p q)
  have width : p.den * q.den ≤ (2 ^ 63 - 1) * (2 ^ 63 - 1) := Nat.mul_le_mul hp.den_le hq.den_le
  have left : (p.num * q.den).natAbs ≤ 2 ^ 63 * (2 ^ 63 - 1) := by
    rw [Int.natAbs_mul]
    exact Nat.mul_le_mul hp.natAbs_num_le hq.den_le
  have right : (q.num * p.den).natAbs ≤ 2 ^ 63 * (2 ^ 63 - 1) := by
    rw [Int.natAbs_mul]
    exact Nat.mul_le_mul hq.natAbs_num_le hp.den_le
  have expanded := congrArg Int.natAbs (Rat.substr_num_den' p q)
  rw [mul_assoc, Int.natAbs_mul, Int.natAbs_mul, Int.natAbs_mul, Int.natAbs_natCast,
    Int.natAbs_natCast, Int.natAbs_natCast] at expanded
  have numerator : (p - q).num.natAbs ≤ (p.num * q.den - q.num * p.den).natAbs := by
    refine Nat.le_of_mul_le_mul_right ?_ scale
    rw [expanded]
    exact Nat.mul_le_mul_left _ common
  rw [Rat.num_abs_eq_abs_num, Rat.den_abs_eq_den, Int.natAbs_abs]
  have := Int.natAbs_sub_le (p.num * q.den) (q.num * p.den)
  omega

theorem narrow_zero : Narrow 0 := narrow_of_toRat? toRat?_zero

/-- Tolerances that differ from the distance by more than the roundings are decided rightly. -/
theorem isWithin_apart (hx : x.toRat? = some p) (hq : target.toRat? = some q)
    (ht : tolerance.toRat? = some t) (apart : |p - q| + t < 2 ^ 51 * |(|p - q| - t)|) :
    x.isWithin target tolerance = true ↔ 0 ≤ t ∧ |p - q| ≤ t := by
  by_cases narrow : Narrow |p - q|
  · exact isWithin_narrow hx hq ht narrow
  rw [isWithin_wide hx hq ht narrow]
  refine and_congr_right fun nonneg => ?_
  have positive : 0 < |p - q| := by
    refine lt_of_le_of_ne (abs_nonneg _) fun zero => narrow ?_
    rw [← zero]
    exact narrow_zero
  obtain ⟨num, den⟩ := distance_bounds (narrow_of_toRat? hx) (narrow_of_toRat? hq)
  have rough := isRough_roundedRatio positive num den
  rcases nonneg.eq_or_lt with rfl | above
  · -- A distance is not rounded to zero.
    have zero : orderKey tolerance.toFloat = 0 := by rw [toFloat_zero ht]; rfl
    rw [zero]
    exact iff_of_false rough.orderKey_pos.not_ge positive.not_ge
  · have rough' := isRough_toFloat ht above
    constructor
    · intro order
      have close := rough.le_of_orderKey rough' order
      by_contra beyond
      rw [abs_of_pos (sub_pos.mpr (not_le.mp beyond))] at apart
      linarith
    · intro inside
      by_contra order
      have close := rough'.le_of_orderKey rough (not_le.mp order).le
      rw [abs_of_nonpos (sub_nonpos.mpr inside)] at apart
      linarith

/-- Closeness of exact numbers is decided exactly where their distance is stored exactly, and otherwise
by the doubles that the distance and the tolerance are rounded to. Then only tolerances that agree with
the distance in its first fifty bits are in doubt. -/
theorem isWithin_is_exact_unless_rounded (hx : x.toRat? = some p) (hq : target.toRat? = some q)
    (ht : tolerance.toRat? = some t) :
    (Narrow |p - q| → (x.isWithin target tolerance = true ↔ 0 ≤ t ∧ |p - q| ≤ t)) ∧
    (¬Narrow |p - q| → (x.isWithin target tolerance = true ↔
      0 ≤ t ∧ orderKey (roundedRatio |p - q|) ≤ orderKey tolerance.toFloat)) ∧
    (|p - q| + t < 2 ^ 51 * |(|p - q| - t)| →
      (x.isWithin target tolerance = true ↔ 0 ≤ t ∧ |p - q| ≤ t)) :=
  ⟨isWithin_narrow hx hq ht, isWithin_wide hx hq ht, isWithin_apart hx hq ht⟩

/-- The tolerances are the distance of `1/3` and `1/2`, and the highest whole number, which is far below
its distance from the lowest one. -/
theorem isWithin_is_exact_unless_rounded_sixth :
    let third : Number := ofRat (1 / 3)
    let half : Number := ofRat (1 / 2)
    let sixth : Number := ofRat (1 / 6)
    let highest : Number := .integer 9223372036854775807
    let lowest : Number := .integer (-9223372036854775808)
    Narrow |1 / 3 - 1 / 2| ∧ third.isWithin half sixth = true ∧
      ¬Narrow |9223372036854775807 - -9223372036854775808| ∧
      highest.isWithin lowest highest = false := by
  intro third half sixth highest lowest
  have h₁ : third.toRat? = some (1 / 3) := by decide +kernel
  have h₂ : half.toRat? = some (1 / 2) := by decide +kernel
  have h₃ : sixth.toRat? = some (1 / 6) := by decide +kernel
  have h₄ : highest.toRat? = some 9223372036854775807 := by decide +kernel
  have h₅ : lowest.toRat? = some (-9223372036854775808) := by decide +kernel
  have narrow : Narrow |1 / 3 - 1 / 2| := ⟨by decide +kernel, by decide +kernel⟩
  have wide : ¬Narrow |9223372036854775807 - -9223372036854775808| := fun narrow =>
    absurd narrow.num (by decide +kernel)
  refine ⟨narrow, ?_, wide, ?_⟩
  · exact ((isWithin_is_exact_unless_rounded h₁ h₂ h₃).1 narrow).mpr (by decide +kernel)
  · rw [Bool.eq_false_iff, Ne, (isWithin_is_exact_unless_rounded h₄ h₅ h₄).2.2 (by decide +kernel)]
    decide +kernel

/-- The distance of the highest whole number from minus one is rounded to the double that the number
itself is rounded to. -/
theorem isWithin_accepts_a_greater_distance :
    ∃ (x target tolerance : Number) (p q t : ℚ), x.toRat? = some p ∧ target.toRat? = some q ∧
      tolerance.toRat? = some t ∧ t < |p - q| ∧ x.isWithin target tolerance = true := by
  refine ⟨.integer 9223372036854775807, .integer (-1), .integer 9223372036854775807, _, _, _, rfl, rfl,
    rfl, ?_, ?_⟩
  · decide +kernel
  · decide +kernel

end

end Schoolbook.Number
