import Mathlib

/-! How many bits rounding to double precision drops, and where the rounded value lies. -/
namespace Schoolbook.Double
open Float.Model Float.Model.UnpackedFloat

theorem log2_of_full {mantissa : Nat} (long : 2 ^ 52 ≤ mantissa) (short : mantissa < 2 ^ 53) :
    mantissa.log2 = 52 := by
  have nonzero : mantissa ≠ 0 := by omega
  have lower := (Nat.le_log2 nonzero).mpr long
  have upper := (Nat.log2_lt nonzero).mpr short
  omega

theorem mantissa_shiftRight (em : ExtendedMantissa) (count : Nat) :
    (em >>> count).mantissa = em.mantissa / 2 ^ count := by
  change (count.repeat ExtendedMantissa.shiftRightOne em).mantissa = _
  induction count with
  | zero => simp [Nat.repeat]
  | succ count ih =>
    change (count.repeat ExtendedMantissa.shiftRightOne em).mantissa / 2 = _
    rw [ih, Nat.div_div_eq_div_mul, pow_succ]

theorem mantissa_shiftRight_ofMantissaAndAccuracy (mantissa : Nat) (accuracy : Accuracy)
    (count : Nat) :
    (ExtendedMantissa.ofMantissaAndAccuracy mantissa accuracy >>> count).mantissa =
      mantissa / 2 ^ count := by
  rw [mantissa_shiftRight]
  cases accuracy with
  | exact => rfl
  | inexact order => cases order <;> rfl

theorem roundedMantissa_bounds (em : ExtendedMantissa) :
    em.mantissa ≤ em.roundedMantissa ∧ em.roundedMantissa ≤ em.mantissa + 1 := by
  obtain ⟨mantissa, half, rest⟩ := em
  cases half <;> cases rest <;>
    simp only [ExtendedMantissa.roundedMantissa, ExtendedMantissa.accuracy,
      Accuracy.roundToNearestEven] <;> omega

/-- The number of bits by which a mantissa is too long or an exponent too low. -/
def excess (mantissa : Nat) (exponent : Int) : Nat :=
  (Format.binary64.targetExponent (totalExponent mantissa exponent) - exponent).toNat

theorem excess_eq (mantissa : Nat) (exponent : Int) :
    excess mantissa exponent = (max ((mantissa.log2 : Int) - 52) (-1074 - exponent)).toNat := by
  simp only [excess, Format.targetExponent, totalExponent, Format.mantissaBits, Format.minExponent]
  omega

/-- A mantissa that is long enough has all bits after the leading ones in excess. -/
theorem excess_of_long {mantissa : Nat} {exponent : Int} (long : 2 ^ 52 ≤ mantissa)
    (above : -1074 ≤ exponent) :
    excess mantissa exponent = mantissa.log2 - 52 ∧
      2 ^ 52 ≤ mantissa / 2 ^ (mantissa.log2 - 52) ∧
      mantissa / 2 ^ (mantissa.log2 - 52) < 2 ^ 53 := by
  have nonzero : mantissa ≠ 0 := by omega
  have length : 52 ≤ mantissa.log2 := (Nat.le_log2 nonzero).mpr long
  refine ⟨?_, ?_, ?_⟩
  · rw [excess_eq]
    omega
  · rw [Nat.le_div_iff_mul_le (Nat.two_pow_pos _), ← pow_add, Nat.add_sub_cancel' length]
    exact Nat.log2_self_le nonzero
  · rw [Nat.div_lt_iff_lt_mul (Nat.two_pow_pos _), ← pow_add,
      show 53 + (mantissa.log2 - 52) = mantissa.log2 + 1 by omega]
    exact Nat.lt_log2_self

/-- What is left of a mantissa once its excess is rounded away. -/
def shortened (mantissa : Nat) (exponent : Int) (accuracy : Accuracy) : Nat :=
  (ExtendedMantissa.ofMantissaAndAccuracy mantissa accuracy >>>
    excess mantissa exponent).roundedMantissa

theorem shortened_bounds (mantissa : Nat) (exponent : Int) (accuracy : Accuracy) :
    mantissa / 2 ^ excess mantissa exponent ≤ shortened mantissa exponent accuracy ∧
      shortened mantissa exponent accuracy ≤ mantissa / 2 ^ excess mantissa exponent + 1 := by
  rw [← mantissa_shiftRight_ofMantissaAndAccuracy mantissa accuracy]
  exact roundedMantissa_bounds _

/-- Rounding drops the excess and rounds what is left, and once more where this adds a bit. -/
theorem roundWithAccuracy_eq (sign : Sign) (mantissa : Nat) (exponent : Int) (accuracy : Accuracy) :
    let rounded := shortened mantissa exponent accuracy
    let lifted := exponent + excess mantissa exponent
    let final := rounded / 2 ^ excess rounded lifted
    roundWithAccuracy .binary64 sign mantissa exponent accuracy =
      if positive : final = 0 then .zero sign
      else .finite sign final (lifted + excess rounded lifted) (Nat.pos_of_ne_zero positive) := by
  intro rounded lifted final
  have again : (ExtendedMantissa.ofMantissaAndAccuracy rounded .exact >>>
      excess rounded lifted).mantissa = final := by
    rw [mantissa_shiftRight]
    rfl
  simp only [← again]
  rfl

/-- A mantissa that is long enough keeps all its leading bits. -/
theorem roundWithAccuracy_normal {mantissa extra : Nat} {exponent : Int} (sign : Sign)
    (accuracy : Accuracy) (long : 2 ^ 52 ≤ mantissa) (short : mantissa < 2 ^ (52 + extra))
    (above : -1074 ≤ exponent) :
    ∃ (m : Nat) (e : Int) (positive : 0 < m),
      roundWithAccuracy .binary64 sign mantissa exponent accuracy = .finite sign m e positive ∧
        2 ^ 52 ≤ m ∧ m < 2 ^ 53 ∧ exponent ≤ e ∧ e ≤ exponent + extra ∧
        (m : ℚ) * 2 ^ e =
          shortened mantissa exponent accuracy * 2 ^ (exponent + excess mantissa exponent) := by
  have result := roundWithAccuracy_eq sign mantissa exponent accuracy
  obtain ⟨lower, upper⟩ := shortened_bounds mantissa exponent accuracy
  generalize shortened mantissa exponent accuracy = rounded at *
  have nonzero : mantissa ≠ 0 := by omega
  have length : 52 ≤ mantissa.log2 := (Nat.le_log2 nonzero).mpr long
  have bound : mantissa.log2 < 52 + extra := (Nat.log2_lt nonzero).mpr short
  obtain ⟨dropped, full, kept⟩ := excess_of_long long above
  rw [dropped] at lower upper result ⊢
  have rounded_nonzero : rounded ≠ 0 := by omega
  rcases (show rounded < 2 ^ 53 ∨ rounded = 2 ^ 53 by omega) with fits | rfl
  · have none : excess rounded (exponent + (mantissa.log2 - 52 : Nat)) = 0 := by
      have := (Nat.log2_lt rounded_nonzero).mpr fits
      rw [excess_eq]
      omega
    simp only [none, pow_zero, Nat.div_one, rounded_nonzero, dite_false] at result
    refine ⟨_, _, _, result, by omega, fits, by omega, by omega, ?_⟩
    rw [Nat.cast_zero, add_zero]
  · have one : excess (2 ^ 53) (exponent + (mantissa.log2 - 52 : Nat)) = 1 := by
      rw [excess_eq, Nat.log2_two_pow]
      omega
    simp only [one] at result
    refine ⟨_, _, _, result, by norm_num, by norm_num, by omega, by omega, ?_⟩
    rw [Nat.cast_one, zpow_add_one₀ two_ne_zero]
    norm_num
    ring

/-- A rounded value is zero or finite, and its exponent is not much above that of its leading bit. -/
theorem roundWithAccuracy_le {mantissa : Nat} {exponent limit : Int} (sign : Sign)
    (accuracy : Accuracy) (low : exponent < limit) (leading : mantissa.log2 + exponent < limit + 52)
    (range : -1074 < limit) :
    roundWithAccuracy .binary64 sign mantissa exponent accuracy = .zero sign ∨
      ∃ (m : Nat) (e : Int) (positive : 0 < m),
        roundWithAccuracy .binary64 sign mantissa exponent accuracy = .finite sign m e positive ∧
          e ≤ limit := by
  have result := roundWithAccuracy_eq sign mantissa exponent accuracy
  have upper := (shortened_bounds mantissa exponent accuracy).2
  generalize shortened mantissa exponent accuracy = rounded at *
  have first := excess_eq mantissa exponent
  have kept : mantissa / 2 ^ excess mantissa exponent < 2 ^ 53 := by
    rw [Nat.div_lt_iff_lt_mul (Nat.two_pow_pos _), ← pow_add]
    refine lt_of_lt_of_le Nat.lt_log2_self (Nat.pow_le_pow_right two_pos ?_)
    omega
  have second : excess rounded (exponent + excess mantissa exponent) ≤ 1 := by
    have : rounded.log2 < 54 := by
      by_cases zero : rounded = 0
      · rw [zero]
        decide
      · exact (Nat.log2_lt zero).mpr (by omega)
    rw [excess_eq]
    omega
  dsimp only at result
  split at result
  next => exact .inl result
  next => exact .inr ⟨_, _, _, result, by omega⟩

end Schoolbook.Double
