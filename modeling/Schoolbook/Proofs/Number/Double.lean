import Mathlib
import Schoolbook.Proofs.Double.Arithmetic
import Schoolbook.Proofs.Number.Power

/-! Exact numbers as doubles: they are finite, they keep their sign, and only zero becomes zero. The
root of a finite number is finite. -/
namespace Schoolbook.Number
open Float.Model.UnpackedFloat Double

theorem isNearest_ofInt {i : ℤ} (nonzero : i ≠ 0) (fits : FitsWord 64 i) :
    ∃ sign, (i : ℚ) = signed sign i.natAbs ∧
      IsNearest (Float.ofInt i) sign i.natAbs (-104) 12 := by
  have bounds : -2 ^ 63 ≤ i ∧ i < 2 ^ 63 := fits
  cases i with
  | ofNat n =>
    rw [Int.ofNat_eq_natCast] at *
    exact ⟨.positive, rfl, isNearest_ofNat (by omega) (by omega)⟩
  | negSucc n =>
    have near := isNearest_ofNat (show n + 1 ≠ 0 by omega) (by omega)
    exact ⟨-Sign.positive, Int.cast_negSucc n, near.neg⟩

theorem isNormal_ofInt {i : ℤ} (nonzero : i ≠ 0) (fits : FitsWord 64 i) :
    ∃ sign, (0 ≤ i → sign = .positive) ∧ IsNormal (Float.ofInt i) sign (-104) 12 := by
  obtain ⟨sign, value, near⟩ := isNearest_ofInt nonzero fits
  refine ⟨sign, fun above => ?_, near.isNormal⟩
  cases sign with
  | positive => rfl
  | negative =>
    have : (i : ℚ) = -i.natAbs := value
    have : i = -i.natAbs := by exact_mod_cast this
    omega

theorem isNormal_roundedRatio {q : ℚ} (nonzero : q ≠ 0) (num : FitsWord 64 q.num)
    (den : FitsWord 64 q.den) :
    ∃ sign, (0 ≤ q → sign = .positive) ∧ IsNormal (roundedRatio q) sign (-169) 65 := by
  obtain ⟨sign, positive, top⟩ := isNormal_ofInt (Rat.num_ne_zero.mpr nonzero) num
  have bound : (q.den : ℤ) < 2 ^ 63 := den.2
  have bottom := (isNearest_ofNat q.den_nz (by omega)).isNormal
  refine ⟨sign / Sign.positive, fun above => ?_, top.div bottom (by norm_num) (by norm_num)⟩
  rw [positive (Rat.num_nonneg.mpr above)]
  rfl

theorem roundedRatio_add_neg {q : ℚ} (negative : q < 0) (num : FitsWord 64 q.num)
    (den : FitsWord 64 q.den) : (roundedRatio q + roundedRatio (-q) == 0) = true := by
  have below := Rat.num_neg.mpr negative
  have num : -2 ^ 63 ≤ q.num ∧ q.num < 2 ^ 63 := num
  have den : (q.den : ℤ) < 2 ^ 63 := den.2
  obtain ⟨n, same⟩ := Int.eq_negSucc_of_lt_zero below
  have opposite : (-q).num = (n + 1 : ℕ) := by
    rw [Rat.num_neg_eq_neg_num, same]
    rfl
  have top := (isNearest_ofNat (show n + 1 ≠ 0 by omega) (by omega)).isNormal
  have bottom := (isNearest_ofNat q.den_nz (by omega)).isNormal
  rw [roundedRatio, roundedRatio, same, opposite, Rat.den_neg_eq_den]
  exact top.neg_div_add_div bottom (by norm_num) (by norm_num)

/-- Parts that are not rounded leave one rounding for the quotient. -/
theorem isNearest_roundedRatio {q : ℚ} (nonzero : q ≠ 0) (num : q.num.natAbs ≤ 2 ^ 53)
    (den : q.den ≤ 2 ^ 53) :
    ∃ sign, q = signed sign |q| ∧ IsNearest (roundedRatio q) sign |q| (-169) 65 := by
  have fits : FitsWord 64 q.num := by
    change -2 ^ 63 ≤ q.num ∧ q.num < 2 ^ 63
    omega
  obtain ⟨sign, value, top⟩ := isNearest_ofInt (Rat.num_ne_zero.mpr nonzero) fits
  have bottom := (isNearest_ofNat q.den_nz (by omega)).hasMagnitude den
  have quotient := (top.hasMagnitude num).div bottom (by norm_num) (by norm_num)
  have magnitude : (q.num.natAbs : ℚ) / q.den = |q| := by
    rw [Rat.abs_def, Rat.divInt_eq_div]
    rfl
  have value : q = signed sign |q| := by
    rw [← magnitude, ← signed_div, ← value, Rat.num_div_den]
  have kept : sign / Sign.positive = sign := by
    cases sign <;> rfl
  rw [magnitude, kept] at quotient
  exact ⟨sign, value, quotient⟩

/-- A nonzero exact number becomes a double of the same sign that is not zero either. -/
theorem isNormal_toFloat {x : Number} {q : ℚ} (stored : x.toRat? = some q) (nonzero : q ≠ 0) :
    ∃ sign low high, (0 ≤ q → sign = .positive) ∧ IsNormal x.toFloat sign low high := by
  have fits := fits_of_toRat? stored
  cases x with
  | integer n =>
    cases stored
    rw [Rat.num_intCast] at fits
    obtain ⟨sign, positive, normal⟩ := isNormal_ofInt (Int.cast_ne_zero.mp nonzero) fits.1
    exact ⟨sign, _, _, fun above => positive (Int.cast_nonneg_iff.mp above), normal⟩
  | fraction f =>
    cases stored
    obtain ⟨sign, positive, normal⟩ := isNormal_roundedRatio nonzero fits.1 fits.2
    exact ⟨sign, _, _, positive, normal⟩
  | double y => cases stored

theorem toFloat_zero {x : Number} (stored : x.toRat? = some 0) : x.toFloat = 0 := by
  rw [toRat?_inj stored toRat?_zero]
  rfl

/-- An exact number becomes zero or keeps its sign; a double stays what it is. -/
theorem toFloat_cases (x : Number) :
    (x.toRat? = some 0 ∧ x.toFloat = 0) ∨
      (∃ q sign low high, x.toRat? = some q ∧ q ≠ 0 ∧ (0 ≤ q → sign = .positive) ∧
        IsNormal x.toFloat sign low high) ∨
      ∃ y, x = .double y := by
  cases stored : x.toRat? with
  | some q =>
    by_cases zero : q = 0
    · subst zero
      exact .inl ⟨rfl, toFloat_zero stored⟩
    · obtain ⟨sign, low, high, same, normal⟩ := isNormal_toFloat stored zero
      exact .inr (.inl ⟨q, sign, low, high, rfl, zero, same, normal⟩)
  | none =>
    cases x with
    | double y => exact .inr (.inr ⟨y, rfl⟩)
    | integer n => cases stored
    | fraction f => cases stored

theorem isFinite_toFloat {x : Number} (finite : x.IsFinite) : x.toFloat.isFinite = true := by
  rcases x.toFloat_cases with ⟨-, zero⟩ | ⟨_, _, _, _, -, -, -, normal⟩ | ⟨y, rfl⟩
  · rw [zero]
    rfl
  · exact normal.isFinite
  · exact finite y rfl

theorem toFloat_eq_zero (x : Number) : (x.toFloat == 0) = x.isZero := by
  rcases x.toFloat_cases with ⟨stored, zero⟩ | ⟨_, _, _, _, stored, nonzero, -, normal⟩ | ⟨y, rfl⟩
  · rw [zero, (isZero_iff stored).mpr rfl]
    rfl
  · rw [normal.ne_zero, eq_comm, Bool.eq_false_iff]
    exact fun zero => nonzero ((isZero_iff stored).mp zero)
  · rfl

theorem toFloat_not_negative {x : Number} (positive : ¬x.isNegative = true) : ¬x.toFloat < 0 := by
  rcases x.toFloat_cases with ⟨-, zero⟩ | ⟨q, _, _, _, stored, -, same, normal⟩ | ⟨y, rfl⟩
  · rw [zero]
    decide
  · have above : 0 ≤ q := not_lt.mp fun below => positive ((isNegative_iff stored).mpr below)
    rw [same above] at normal
    exact normal.not_neg
  · exact fun below => positive (decide_eq_true below)

/-- The parts of a root of degree two or more take half the bits of those of the power. -/
theorem fitsWord_root {root q : ℚ} {degree : Nat} (high : 2 ≤ degree) (power : root ^ degree = q)
    (num : FitsWord 64 q.num) (den : FitsWord 64 q.den) :
    FitsWord 64 root.num ∧ FitsWord 64 root.den := by
  have half {n : Nat} (bound : n ^ degree ≤ 2 ^ 63) : n < 2 ^ 32 := by
    by_contra large
    have grown : (2 ^ 32) ^ 2 ≤ n ^ degree :=
      (Nat.pow_le_pow_left (not_lt.mp large) 2).trans
        (Nat.pow_le_pow_right (by omega) high)
    norm_num at grown bound
    omega
  have num : -2 ^ 63 ≤ q.num ∧ q.num < 2 ^ 63 := num
  have den : -2 ^ 63 ≤ (q.den : ℤ) ∧ (q.den : ℤ) < 2 ^ 63 := den
  have top : root.num.natAbs ^ degree = q.num.natAbs := by
    rw [← power, Rat.num_pow, Int.natAbs_pow]
  have bottom : root.den ^ degree = q.den := by
    rw [← power, Rat.den_pow]
  have top := half (top.trans_le (by omega))
  have bottom := half (bottom.trans_le (by omega))
  constructor
  · change -2 ^ 63 ≤ root.num ∧ root.num < 2 ^ 63
    omega
  · change -2 ^ 63 ≤ (root.den : ℤ) ∧ (root.den : ℤ) < 2 ^ 63
    omega

end Schoolbook.Number
