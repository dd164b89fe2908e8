import Mathlib
import Schoolbook.Proofs.Number.Double

/-! Which operands make an operation fail, and with which fault. -/
namespace Schoolbook.Number

theorem div_eq_error_iff {a b : Number} {fault : ArithmeticFault} :
    a.div b = .error fault ↔ b.isZero = true ∧ fault = .divisionByZero := by
  rw [div]
  split_ifs with zero <;> simp [zero, eq_comm]

theorem powWhole_eq_error {base : Number} {n : ℤ} {fault : ArithmeticFault}
    (failed : base.powWhole n = .error fault) : base.isZero = true ∧
      (n = 0 ∧ fault = .zeroToZeroPower ∨ n < 0 ∧ fault = .divisionByZero) := by
  by_cases zero : base.isZero = true
  · rw [powWhole, if_pos zero] at failed
    split_ifs at failed with positive whole
    · cases failed
      exact ⟨zero, .inl ⟨whole, rfl⟩⟩
    · cases failed
      exact ⟨zero, .inr ⟨by omega, rfl⟩⟩
  · rw [powWhole_of_nonzero zero] at failed
    rcases bind_eq_error_iff.mp failed with inverted | ⟨_, _, computed⟩
    · split_ifs at inverted
      exact absurd (div_eq_error_iff.mp inverted).1 zero
    · cases computed

/-- Where an exact root is found, it is stored exactly, and it is zero only for zero. -/
theorem toRat?_exactRoot {base : Number} {b root : ℚ} {degree : Nat} (stored : base.toRat? = some b)
    (high : 2 ≤ degree) (real : b < 0 → ¬Even degree)
    (found : exactRatioRoot? b degree = some root) :
    (ofRat root).toRat? = some root ∧ (root = 0 → b = 0) := by
  obtain ⟨power, -⟩ := exactRatioRoot?_eq_some (by omega) real found
  obtain ⟨num, den⟩ := fits_of_toRat? stored
  obtain ⟨num, den⟩ := fitsWord_root high power num den
  refine ⟨toRat?_ofRat_of_fits num den, ?_⟩
  rintro rfl
  rw [← power, zero_pow (by omega)]

theorem powFraction_eq_error {base : Number} {exponent : ℚ} {fault : ArithmeticFault}
    (high : 2 ≤ exponent.den) (failed : base.powFraction exponent = .error fault) :
    base.isZero = true ∧ exponent < 0 ∧ fault = .divisionByZero ∨ fault = .nonReal := by
  have way := fractionalPower_powFraction base exponent
  generalize base.powFraction exponent = outcome at way failed
  -- Only a base of zero and an even root of a negative base fail; an exact root is not zero.
  cases way with
  | zero => cases failed
  | pole zero negative =>
    cases failed
    have nonzero : exponent ≠ 0 := by
      rintro rfl
      exact absurd high (by decide)
    exact .inl ⟨zero, lt_of_le_of_ne (not_lt.mp negative) nonzero, rfl⟩
  | nonReal =>
    cases failed
    exact .inr rfl
  | root nonzero stored odd found =>
    obtain ⟨exact, only⟩ := toRat?_exactRoot stored high odd found
    have zero := (isZero_iff exact).mp (powWhole_eq_error failed).1
    exact absurd ((isZero_iff stored).mpr (only zero)) nonzero
  | rounded => cases failed

theorem powDouble_eq_error {base exponent : Float} {fault : ArithmeticFault}
    (finite : exponent.isFinite = true) (failed : powDouble base exponent = .error fault) :
    (base == 0) = true ∧ (exponent == 0) = true ∧ fault = .zeroToZeroPower ∨
      (base == 0) = true ∧ exponent < 0 ∧ fault = .divisionByZero ∨ fault = .nonReal := by
  unfold powDouble at failed
  split at failed
  next zero =>
    split at failed
    next => cases failed
    next not_positive =>
      split at failed
      next none =>
        cases failed
        exact .inl ⟨zero, none, rfl⟩
      next some =>
        cases failed
        exact .inr (.inl ⟨zero, Double.lt_zero_of_finite finite not_positive some, rfl⟩)
  next =>
    split at failed <;> cases failed
    exact .inr (.inr rfl)

theorem realOnly_eq_error {x : Number} {fault : ArithmeticFault}
    (failed : x.realOnly = .error fault) : fault = .nonReal := by
  cases x with
  | double z =>
    rw [realOnly] at failed
    split_ifs at failed
    cases failed
    rfl
  | integer n => cases failed
  | fraction f => cases failed

/-- A power fails at a base of zero with an exponent that is not positive, or it is not real. -/
theorem pow_eq_error {base exponent : Number} {fault : ArithmeticFault}
    (finite : exponent.IsFinite) (failed : base.pow exponent = .error fault) :
    base.isZero = true ∧ exponent.isZero = true ∧ fault = .zeroToZeroPower ∨
      base.isZero = true ∧ exponent.isNegative = true ∧ fault = .divisionByZero ∨
        fault = .nonReal := by
  by_cases one : base = 1
  · rw [pow, if_pos one] at failed
    cases failed
  · rw [pow_of_ne_one one] at failed
    rcases bind_eq_error_iff.mp failed with failed | ⟨_, -, failed⟩
    · cases exponent with
      | integer n =>
        obtain ⟨zero, ⟨none, rfl⟩ | ⟨negative, rfl⟩⟩ := powWhole_eq_error failed
        · exact .inl ⟨zero, (isZero_iff rfl).mpr (by rw [none, Int.cast_zero]), rfl⟩
        · exact .inr (.inl ⟨zero, (isNegative_iff rfl).mpr (Int.cast_lt_zero.mpr negative), rfl⟩)
      | fraction y =>
        obtain ⟨zero, negative, rfl⟩ | rfl := powFraction_eq_error y.one_lt_den failed
        · exact .inr (.inl ⟨zero, (isNegative_iff rfl).mpr negative, rfl⟩)
        · exact .inr (.inr rfl)
      | double x =>
        have faults := powDouble_eq_error (isFinite_double.mp finite) failed
        rw [toFloat_eq_zero] at faults
        exact faults.imp_right (.imp_left (.imp_right (.imp_left decide_eq_true)))
    · exact .inr (.inr (realOnly_eq_error failed))

theorem sqrt_eq_error {a : Number} {fault : ArithmeticFault} (failed : a.sqrt = .error fault) :
    fault = .nonReal := by
  unfold sqrt at failed
  split at failed
  next =>
    cases failed
    rfl
  next =>
    split at failed
    next => cases failed
    next =>
      obtain ⟨-, negative, -⟩ | nonReal := powFraction_eq_error half_parts.2.ge failed
      · exact absurd negative (by decide +kernel)
      · exact nonReal

theorem powWhole_one {base : Number} {b : ℚ} (stored : base.toRat? = some b)
    (nonzero : base.isZero ≠ true) : base.powWhole 1 = .ok base := by
  have raised : WideRatio.pow? b (1 : ℤ).natAbs = some b := by
    rw [Int.natAbs_one, WideRatio.pow?, if_neg (by decide), if_neg (by decide),
      WideRatio.accumulate?, if_pos le_rfl]
  rw [powWhole_of_nonzero nonzero, if_neg (by decide)]
  change Except.ok _ = _
  rw [stored, Option.bind_some, raised, Option.map_some, Option.getD_some, ofRat_toRat? stored]

/-- The root of a finite number is finite, so it need not be checked. -/
theorem isFinite_sqrt {a root : Number} (finite : a.IsFinite) (computed : a.sqrt = .ok root) :
    root.IsFinite := by
  unfold sqrt at computed
  split at computed
  next => cases computed
  next positive =>
    split at computed
    next y =>
      cases computed
      refine isFinite_double.mpr (Double.isFinite_sqrt (isFinite_double.mp finite) ?_)
      exact toFloat_not_negative (x := double y) positive
    next =>
      have way := fractionalPower_powFraction a (mkRat 1 2)
      generalize a.powFraction (mkRat 1 2) = outcome at way computed
      cases way with
      | zero =>
        cases computed
        exact finite
      | pole => cases computed
      | nonReal => cases computed
      | root nonzero stored odd found =>
        obtain ⟨exact, only⟩ := toRat?_exactRoot stored half_parts.2.ge odd found
        rw [half_parts.1, powWhole_one exact] at computed
        · cases computed
          exact (isExact_of_toRat? exact).isFinite
        · exact fun zero => nonzero ((isZero_iff stored).mpr (only ((isZero_iff exact).mp zero)))
      | rounded =>
        cases computed
        rw [if_neg fun both => positive both.1, roundedPower, if_pos half_parts, abs, if_neg positive]
        exact isFinite_double.mpr
          (Double.isFinite_sqrt (isFinite_toFloat finite) (toFloat_not_negative positive))

end Schoolbook.Number
