import Mathlib
import Schoolbook.Proofs.Double.Pattern

/-! Division is rounded to a double from every quotient in its interval, and so is a number that is read
from its digits. -/
namespace Schoolbook.Double
open Float.Model Float.Model.UnpackedFloat

section
variable {m m₁ m₂ : Nat} {e e₁ e₂ : Int} {positive₁ : 0 < m₁} {positive₂ : 0 < m₂} {u : ℚ}

/-- The leading bits of dividend and divisor bound the leading bit of a quotient. -/
theorem leading_of_quotient {bits : Nat} (positive₁ : 0 < m₁) (positive₂ : 0 < m₂)
    (value : (m₁ : ℚ) * 2 ^ e₁ / (m₂ * 2 ^ e₂) = u * 2 ^ e) (short : u < 2 ^ bits) :
    totalExponent m₁ e₁ - totalExponent m₂ e₂ ≤ e + bits := by
  have least : (2 : ℚ) ^ m₁.log2 ≤ m₁ := by exact_mod_cast Nat.log2_self_le positive₁.ne'
  have most : (m₂ : ℚ) < 2 ^ (m₂.log2 + 1) := by exact_mod_cast Nat.lt_log2_self
  have divisor : (0 : ℚ) < m₂ := by exact_mod_cast positive₂
  have product : (m₁ : ℚ) * 2 ^ e₁ = u * 2 ^ e * (m₂ * 2 ^ e₂) :=
    (div_eq_iff (by positivity)).mp value
  have below : (2 : ℚ) ^ (m₁.log2 + e₁) < 2 ^ (bits + e + (m₂.log2 + 1 + e₂)) := by
    calc (2 : ℚ) ^ (m₁.log2 + e₁) = 2 ^ m₁.log2 * 2 ^ e₁ := by
          rw [zpow_add₀ two_ne_zero, zpow_natCast]
      _ ≤ m₁ * 2 ^ e₁ := by gcongr
      _ = u * 2 ^ e * (m₂ * 2 ^ e₂) := product
      _ < 2 ^ bits * 2 ^ e * (m₂ * 2 ^ e₂) := by gcongr
      _ < 2 ^ bits * 2 ^ e * (2 ^ (m₂.log2 + 1) * 2 ^ e₂) := by gcongr
      _ = 2 ^ (bits + e + (m₂.log2 + 1 + e₂)) := by
          simp only [zpow_add₀ (two_ne_zero' ℚ), zpow_natCast, pow_succ, zpow_one]
  have below := (zpow_lt_zpow_iff_right₀ one_lt_two).mp below
  simp only [totalExponent]
  omega

/-- A quotient in the interval of a double is rounded to it. -/
theorem div_of_surrounds {sign₁ sign₂ : Sign} (legal : Legal m e) (inside : Surrounds m e u)
    (value : (m₁ : ℚ) * 2 ^ e₁ / (m₂ * 2 ^ e₂) = u * 2 ^ e) :
    UnpackedFloat.div .binary64 (.finite sign₁ m₁ e₁ positive₁) (.finite sign₂ m₂ e₂ positive₂) =
      .finite (sign₁ / sign₂) m e legal.positive := by
  obtain ⟨target, chosen⟩ : ∃ target, target = min (e₁ - e₂)
    (Format.binary64.targetExponent (totalExponent m₁ e₁ - totalExponent m₂ e₂)) := ⟨_, rfl⟩
  have long := leading_of_quotient positive₁ positive₂ value (inside.lt_of_legal legal)
  have fine (low : u < 2 ^ 52) := leading_of_quotient positive₁ positive₂ value low
  have above := legal.above
  have bound : target ≤ e₁ - e₂ ∧ target ≤ e ∧ (u < 2 ^ 52 → -1074 < e → target < e) := by
    simp only [chosen, Format.targetExponent, Format.mantissaBits, Format.minExponent]
    refine ⟨by omega, by omega, fun low higher => ?_⟩
    have := fine low
    omega
  obtain ⟨count, counted⟩ := Int.eq_ofNat_of_zero_le (sub_nonneg.mpr bound.1)
  obtain ⟨shift, shifted⟩ := Int.eq_ofNat_of_zero_le (sub_nonneg.mpr bound.2.1)
  have close := approximates_quotient (m₁ <<< count) positive₂
  have scaled : ((m₁ <<< count : ℕ) : ℚ) / m₂ = u * 2 ^ shift := by
    have ratio := shifted_quotient m₁ m₂ count e₁ e₂
    rw [value, show e₁ - e₂ - count = target by omega, show e = target + shift by omega,
      zpow_add₀ two_ne_zero, zpow_natCast] at ratio
    exact mul_right_cancel₀ (by positivity) (ratio.trans (by ring))
  rw [scaled] at close
  have rounded := roundWithAccuracy_of_surrounds legal inside close
    (fun low higher => by have := bound.2.2 low higher; omega) (sign₁ / sign₂)
  rw [UnpackedFloat.div, divCore]
  simp only [← chosen, counted, Int.toNat_natCast]
  rw [show target = e - shift by omega]
  exact rounded

theorem zpow_eq_div {base : ℚ} (nonzero : base ≠ 0) (power : ℤ) :
    base ^ power = base ^ power.toNat / base ^ (-power).toNat := by
  conv_lhs => rw [← Int.toNat_sub_toNat_neg power, zpow_sub₀ nonzero, zpow_natCast, zpow_natCast]

private theorem powers_of_ten : ∀ (k : Nat) (_ : k < Float.exactlyRepresentablePowersOfTen.size),
    let power := Float.exactlyRepresentablePowersOfTen[k]
    power.isFinite = true ∧ magnitudeBits power ≠ 0 ∧ signBit power = false ∧
      significand power * 2 ^ (exponent power).toNat = 10 ^ k * 2 ^ (-exponent power).toNat := by
  decide +kernel

/-- The tabulated powers of ten are exact. -/
theorem unpack_power {k : Nat} (small : k < Float.exactlyRepresentablePowersOfTen.size) :
    ∃ (m : Nat) (e : Int) (positive : 0 < m),
      Float.exactlyRepresentablePowersOfTen[k].toModel.unpack = .finite .positive m e positive ∧
        (m : ℚ) * 2 ^ e = 10 ^ k := by
  obtain ⟨finite, nonzero, unsigned, value⟩ := powers_of_ten k small
  obtain ⟨positive, unpacked⟩ := unpack_eq finite nonzero
  rw [sign, unsigned] at unpacked
  refine ⟨_, _, positive, unpacked, ?_⟩
  rw [zpow_eq_div two_ne_zero, ← mul_div_assoc, div_eq_iff (by positivity)]
  exact_mod_cast value

/-- Digits of which `k` stand after the point are read as the double in whose interval they lie. A short
number is one quotient of two doubles, a long one a quotient that is rounded once. -/
theorem ofScientific_of_surrounds {n k : Nat} (positive : 0 < n) (some_place : 0 < k)
    (range : k ≤ 2048 + n.log2) (legal : Legal m e) (inside : Surrounds m e u)
    (value : (n : ℚ) / 10 ^ k = u * 2 ^ e) :
    Float.ofScientific n true k = .ofModel (.pack (.finite .positive m e legal.positive)) := by
  rw [Float.ofScientific]
  split
  next fast =>
    obtain ⟨r, rounds, m₁, e₁, positive₁, unpacked, -, -, -, -, magnitude⟩ :=
      isNearest_toFloat positive.ne' fast.1
    obtain ⟨m₂, e₂, positive₂, unpacked', magnitude'⟩ := unpack_power (Nat.lt_succ_of_le fast.2)
    rw [rounds.eq_of_whole fast.1.le] at magnitude
    have same : (m₁ : ℚ) * 2 ^ e₁ / (m₂ * 2 ^ e₂) = u * 2 ^ e := by
      rw [magnitude, magnitude', value]
    have quotient : UnpackedFloat.div .binary64 (.finite .positive m₁ e₁ positive₁)
        (.finite .positive m₂ e₂ positive₂) = .finite .positive m e legal.positive :=
      div_of_surrounds legal inside same
    rw [← unpacked, ← unpacked'] at quotient
    exact congrArg (fun result => Float.ofModel (.pack result)) quotient
  next =>
    have exponent : Int.negOfNat k = -k := Int.negOfNat_eq
    have power : 0 < 10 ^ k := by positivity
    have quotient : UnpackedFloat.ofScientific .binary64 n (-k) =
        UnpackedFloat.div .binary64 (.finite .positive n 0 positive)
          (.finite .positive (10 ^ k) 0 power) := by
      have whole : (-(-(k : Int))).toNat = k := by omega
      rw [UnpackedFloat.ofScientific, dif_neg positive.ne', if_neg, if_neg, if_neg (by omega)]
      · simp only [whole]
      · push_cast
        omega
      · push_cast
        omega
    rw [div_of_surrounds legal inside] at quotient
    · simp only [if_true, exponent]
      exact congrArg (fun result => Float.ofModel (.pack result)) quotient
    · rw [← value, zpow_zero, mul_one, mul_one, Nat.cast_pow, Nat.cast_ofNat]

end

end Schoolbook.Double
