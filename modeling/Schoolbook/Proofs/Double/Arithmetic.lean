import Mathlib
import Schoolbook.Proofs.Double.Nearest
import Schoolbook.Proofs.Double.Packing

/-! Doubles that are far from both ends of their range, and operations that stay there and give the
double nearest to their result. -/
namespace Schoolbook.Double
open Float.Model Float.Model.UnpackedFloat

/-- A double of the given sign with a mantissa of full length and an exponent within bounds. -/
def IsNormal (x : Float) (sign : Sign) (low high : Int) : Prop :=
  ∃ (m : Nat) (e : Int) (positive : 0 < m), x.toModel.unpack = .finite sign m e positive ∧
    2 ^ 52 ≤ m ∧ m < 2 ^ 53 ∧ low ≤ e ∧ e ≤ high

/-- A double of the given sign with the magnitude `r`. -/
def HasMagnitude (x : Float) (sign : Sign) (r : ℚ) (low high : Int) : Prop :=
  ∃ (m : Nat) (e : Int) (positive : 0 < m), x.toModel.unpack = .finite sign m e positive ∧
    2 ^ 52 ≤ m ∧ m < 2 ^ 53 ∧ low ≤ e ∧ e ≤ high ∧ m * 2 ^ e = r

/-- A double of the given sign with a magnitude nearest to `v`. -/
def IsNearest (x : Float) (sign : Sign) (v : ℚ) (low high : Int) : Prop :=
  ∃ r, Rounds v r ∧ HasMagnitude x sign r low high

section
variable {x y : Float} {sign : Sign} {r v : ℚ} {low high : Int}

theorem unpack_zero : (0 : Float).toModel.unpack = .zero .positive := rfl

theorem isFinite_eq (x : Float) : x.isFinite = x.toModel.unpack.isFinite := rfl

theorem beq_eq (x y : Float) : (x == y) = x.toModel.unpack.beq y.toModel.unpack := rfl

theorem lt_iff (x y : Float) : x < y ↔ x.toModel.unpack.lt y.toModel.unpack = true :=
  decide_eq_true_iff

theorem IsNormal.isFinite (normal : IsNormal x sign low high) : x.isFinite = true := by
  obtain ⟨m, e, positive, unpacked, -⟩ := normal
  rw [isFinite_eq, unpacked]
  rfl

theorem IsNormal.ne_zero (normal : IsNormal x sign low high) : (x == 0) = false := by
  obtain ⟨m, e, positive, unpacked, -⟩ := normal
  rw [beq_eq, unpacked, unpack_zero]
  cases sign <;> rfl

theorem IsNormal.not_neg (normal : IsNormal x .positive low high) : ¬x < 0 := by
  obtain ⟨m, e, positive, unpacked, -⟩ := normal
  rw [lt_iff, unpacked, unpack_zero]
  nofun

theorem unpack_of_isFinite (finite : x.isFinite = true) :
    (∃ sign, x.toModel.unpack = .zero sign) ∨
      ∃ sign m e positive, x.toModel.unpack = .finite sign m e positive := by
  rw [isFinite_eq] at finite
  cases unpacked : x.toModel.unpack with
  | infinity sign =>
    rw [unpacked] at finite
    cases finite
  | notANumber =>
    rw [unpacked] at finite
    cases finite
  | zero sign => exact .inl ⟨sign, rfl⟩
  | finite sign m e positive => exact .inr ⟨sign, m, e, positive, rfl⟩

theorem lt_zero_of_finite (finite : x.isFinite = true) (not_positive : ¬0 < x)
    (nonzero : ¬(x == 0) = true) : x < 0 := by
  rw [lt_iff, unpack_zero] at *
  rw [beq_eq, unpack_zero] at nonzero
  rcases unpack_of_isFinite finite with ⟨sign, unpacked⟩ | ⟨sign, m, e, positive, unpacked⟩
  · rw [unpacked] at nonzero
    exact absurd rfl nonzero
  · rw [unpacked] at not_positive ⊢
    cases sign with
    | positive => exact absurd rfl not_positive
    | negative => rfl

theorem HasMagnitude.isNormal (exactly : HasMagnitude x sign r low high) :
    IsNormal x sign low high := by
  obtain ⟨m, e, positive, unpacked, long, short, lower, upper, -⟩ := exactly
  exact ⟨m, e, positive, unpacked, long, short, lower, upper⟩

theorem IsNormal.hasMagnitude (normal : IsNormal x sign low high) :
    ∃ r, HasMagnitude x sign r low high := by
  obtain ⟨m, e, positive, unpacked, long, short, lower, upper⟩ := normal
  exact ⟨_, m, e, positive, unpacked, long, short, lower, upper, rfl⟩

theorem IsNearest.isNormal (near : IsNearest x sign v low high) : IsNormal x sign low high := by
  obtain ⟨r, -, exactly⟩ := near
  exact exactly.isNormal

theorem IsNearest.bounds (near : IsNearest x .positive v low high) (positive : 0 < v) :
    ∃ r, HasMagnitude x .positive r low high ∧ v * (1 - 1 / 2 ^ 53) ≤ r ∧
      r ≤ v * (1 + 1 / 2 ^ 53) := by
  obtain ⟨r, rounds, exactly⟩ := near
  have error := rounds.relative_error
  rw [abs_of_pos positive, abs_le] at error
  exact ⟨r, exactly, by linarith, by linarith⟩

theorem IsNearest.mono {low' high' : Int} (near : IsNearest x sign v low high) (lower : low' ≤ low)
    (upper : high ≤ high') : IsNearest x sign v low' high' := by
  obtain ⟨r, rounds, m, e, positive, unpacked, long, short, above, below, magnitude⟩ := near
  exact ⟨r, rounds, m, e, positive, unpacked, long, short, lower.trans above, below.trans upper,
    magnitude⟩

/-- Numbers that need no more bits than a mantissa has stay what they are. -/
theorem IsNearest.hasMagnitude {n : Nat} (near : IsNearest x sign n low high) (short : n ≤ 2 ^ 53) :
    HasMagnitude x sign n low high := by
  obtain ⟨r, rounds, exactly⟩ := near
  rwa [rounds.eq_of_whole short] at exactly

/-- The magnitude of a rounded value does not depend on its sign. -/
theorem hasMagnitude_rounded {mantissa extra : Nat} {exponent : Int} (accuracy : Accuracy)
    (sign : Sign) (long : 2 ^ 52 ≤ mantissa) (short : mantissa < 2 ^ (52 + extra))
    (above : -1074 ≤ exponent) (below : exponent + extra ≤ 971) :
    HasMagnitude (.ofModel (.pack (roundWithAccuracy .binary64 sign mantissa exponent accuracy))) sign
      (shortened mantissa exponent accuracy * 2 ^ (exponent + excess mantissa exponent))
      exponent (exponent + extra) := by
  obtain ⟨m, e, positive, rounded, full, fits, lower, upper, magnitude⟩ :=
    roundWithAccuracy_normal sign accuracy long short above
  refine ⟨m, e, positive, ?_, full, fits, lower, upper, magnitude⟩
  rw [rounded]
  exact unpack_pack_normal positive full fits (by omega) (by omega)

theorem isNearest_rounded {mantissa extra : Nat} {exponent : Int} {accuracy : Accuracy} (sign : Sign)
    (close : Approximates (.ofMantissaAndAccuracy mantissa accuracy) v) (long : 2 ^ 52 ≤ mantissa)
    (short : mantissa < 2 ^ (52 + extra)) (above : -1074 ≤ exponent)
    (below : exponent + extra ≤ 971) :
    IsNearest (.ofModel (.pack (roundWithAccuracy .binary64 sign mantissa exponent accuracy))) sign
      (v * 2 ^ exponent) exponent (exponent + extra) :=
  ⟨_, rounds_shortened close long above, hasMagnitude_rounded accuracy sign long short above below⟩

theorem HasMagnitude.neg (exactly : HasMagnitude x sign r low high) :
    HasMagnitude (-x) (-sign) r low high := by
  obtain ⟨m, e, positive, unpacked, rest⟩ := exactly
  refine ⟨m, e, positive, ?_, rest⟩
  rw [unpack_neg, unpacked]
  rfl

theorem IsNearest.neg (near : IsNearest x sign v low high) : IsNearest (-x) (-sign) v low high := by
  obtain ⟨r, rounds, exactly⟩ := near
  exact ⟨r, rounds, exactly.neg⟩

theorem shifted_quotient (m m' count : Nat) (e e' : Int) :
    ((m <<< count : ℕ) : ℚ) / m' * 2 ^ (e - e' - count) = m * 2 ^ e / (m' * 2 ^ e') := by
  rw [Nat.shiftLeft_eq, zpow_sub₀ two_ne_zero, zpow_sub₀ two_ne_zero, zpow_natCast]
  push_cast
  field_simp

theorem div_eq {sign' : Sign} {m m' : Nat} {e e' : Int} {positive : 0 < m} {positive' : 0 < m'}
    (unpacked : x.toModel.unpack = .finite sign m e positive)
    (unpacked' : y.toModel.unpack = .finite sign' m' e' positive') (long : 2 ^ 52 ≤ m)
    (short : m < 2 ^ 53) (long' : 2 ^ 52 ≤ m') (short' : m' < 2 ^ 53)
    (above : -1074 ≤ e - e' - 53) :
    x / y = .ofModel (.pack (roundWithAccuracy .binary64 (sign / sign') (m <<< 53 / m')
      (e - e' - 53) (accuracyOfFraction (m <<< 53 % m') m'))) := by
  have length := log2_of_full long short
  have length' := log2_of_full long' short'
  have target : min (e - e') (Format.binary64.targetExponent
      (totalExponent m e - totalExponent m' e')) = e - e' - 53 := by
    simp only [Format.targetExponent, totalExponent, Format.mantissaBits, Format.minExponent, length,
      length']
    omega
  have core : divCore .binary64 m e m' e' = (m <<< 53 / m', e - e' - 53,
      accuracyOfFraction (m <<< 53 % m') m') := by
    simp only [divCore, target]
    rw [show (e - e' - (e - e' - 53)).toNat = 53 by omega]
  change Float.ofModel (.pack (UnpackedFloat.div .binary64 x.toModel.unpack y.toModel.unpack)) = _
  rw [unpacked, unpacked', UnpackedFloat.div, core]

theorem quotient_bounds {m m' : Nat} (positive' : 0 < m') (long : 2 ^ 52 ≤ m) (short : m < 2 ^ 53)
    (long' : 2 ^ 52 ≤ m') (short' : m' < 2 ^ 53) :
    2 ^ 52 ≤ m <<< 53 / m' ∧ m <<< 53 / m' < 2 ^ (52 + 2) := by
  rw [Nat.shiftLeft_eq, Nat.le_div_iff_mul_le positive', Nat.div_lt_iff_lt_mul positive']
  omega

theorem HasMagnitude.div {sign' : Sign} {r' : ℚ} {low' high' : Int}
    (hx : HasMagnitude x sign r low high) (hy : HasMagnitude y sign' r' low' high')
    (above : -1074 ≤ low - high' - 53) (below : high - low' - 51 ≤ 971) :
    IsNearest (x / y) (sign / sign') (r / r') (low - high' - 53) (high - low' - 51) := by
  obtain ⟨m, e, positive, unpacked, long, short, lower, upper, rfl⟩ := hx
  obtain ⟨m', e', positive', unpacked', long', short', lower', upper', rfl⟩ := hy
  obtain ⟨full, fits⟩ := quotient_bounds positive' long short long' short'
  have near := isNearest_rounded (sign / sign') (approximates_quotient (m <<< 53) positive') full fits
    (show -1074 ≤ e - e' - 53 by omega) (by omega)
  rw [← div_eq unpacked unpacked' long short long' short' (by omega),
    show e - e' - 53 = e - e' - (53 : ℕ) from rfl, shifted_quotient] at near
  exact near.mono (by omega) (by omega)

theorem parts_unique {m m' : Nat} {e e' : Int} (long : 2 ^ 52 ≤ m) (short : m < 2 ^ 53)
    (long' : 2 ^ 52 ≤ m') (short' : m' < 2 ^ 53) (same : (m : ℚ) * 2 ^ e = m' * 2 ^ e') :
    m = m' ∧ e = e' := by
  rcases lt_trichotomy e e' with lower | rfl | higher
  · exact absurd same (scale_lt (by exact_mod_cast short) (by exact_mod_cast long') lower).ne
  · have scale : (2 : ℚ) ^ e ≠ 0 := by positivity
    exact ⟨Nat.cast_injective (mul_right_cancel₀ scale same), rfl⟩
  · exact absurd same (scale_lt (by exact_mod_cast short') (by exact_mod_cast long) higher).ne'

/-- Doubles that differ in their sign alone add up to zero. -/
theorem HasMagnitude.add_opposite (hx : HasMagnitude x sign r low high)
    (hy : HasMagnitude y (-sign) r low high) : (x + y == 0) = true := by
  obtain ⟨m, e, positive, unpacked, long, short, -, -, magnitude⟩ := hx
  obtain ⟨m', e', positive', unpacked', long', short', -, -, magnitude'⟩ := hy
  obtain ⟨rfl, rfl⟩ := parts_unique long short long' short' (magnitude.trans magnitude'.symm)
  have sum : x + y = .ofModel (.pack (.zero .positive)) := by
    change Float.ofModel (.pack (UnpackedFloat.add .binary64 x.toModel.unpack y.toModel.unpack)) = _
    rw [unpacked, unpacked', UnpackedFloat.add]
    cases sign <;> simp [UnpackedFloat.normalize, Sign.apply]
  rw [sum]
  decide +kernel

/-- Only a negative zero changes when it is added to zero. -/
theorem zero_add_eq (x : Float) : 0 + x = if x == 0 then 0 else x := by
  rw [beq_eq, unpack_zero]
  change Float.ofModel (.pack (UnpackedFloat.add .binary64 (.zero .positive) x.toModel.unpack)) = _
  have same : .ofModel (.pack x.toModel.unpack) = x := ofModel_pack_unpack x
  cases unpacked : x.toModel.unpack with
  | zero sign => cases sign <;> rfl
  | notANumber =>
    rw [unpacked] at same
    exact same
  | infinity sign =>
    rw [unpacked] at same
    cases sign <;> exact same
  | finite sign m e positive =>
    rw [unpacked] at same
    cases sign <;> exact same

/-- A double and its opposite add up to zero exactly if the double is finite. -/
theorem add_neg_beq_zero (x : Float) : (x + -x == 0) = x.isFinite := by
  have sum : x + -x =
      .ofModel (.pack (UnpackedFloat.add .binary64 x.toModel.unpack x.toModel.unpack.neg)) := by
    rw [← unpack_neg]
    rfl
  rw [sum, isFinite_eq]
  cases x.toModel.unpack with
  | notANumber => decide +kernel
  | infinity sign => cases sign <;> decide +kernel
  | zero sign => cases sign <;> decide +kernel
  | finite sign m e positive =>
    have zero : UnpackedFloat.add .binary64 (.finite sign m e positive)
        (.finite (-sign) m e positive) = .zero .positive := by
      rw [UnpackedFloat.add]
      cases sign <;> simp [UnpackedFloat.normalize, Sign.apply]
    rw [UnpackedFloat.neg, zero]
    rfl

theorem isFinite_neg (x : Float) : (-x).isFinite = x.isFinite := by
  rw [isFinite_eq, isFinite_eq, unpack_neg]
  cases x.toModel.unpack <;> rfl

/-- A quotient changes its sign with the dividend, and nothing else. -/
theorem IsNormal.neg_div_add_div {sign' : Sign} {low' high' : Int} (hx : IsNormal x sign low high)
    (hy : IsNormal y sign' low' high') (above : -1074 ≤ low - high' - 53)
    (below : high - low' - 51 ≤ 971) : (-x / y + x / y == 0) = true := by
  obtain ⟨m, e, positive, unpacked, long, short, first, last⟩ := hx
  obtain ⟨m', e', positive', unpacked', long', short', first', last'⟩ := hy
  obtain ⟨full, fits⟩ := quotient_bounds positive' long short long' short'
  have negated : (-x).toModel.unpack = .finite (-sign) m e positive := by
    rw [unpack_neg, unpacked]
    rfl
  have opposite : sign / sign' = -(-sign / sign') := by
    cases sign <;> cases sign' <;> rfl
  have magnitude (s : Sign) := hasMagnitude_rounded (accuracyOfFraction (m <<< 53 % m') m') s full fits
    (show -1074 ≤ e - e' - 53 by omega) (by omega)
  have left := magnitude (-sign / sign')
  have right := magnitude (sign / sign')
  rw [← div_eq negated unpacked' long short long' short' (by omega)] at left
  rw [← div_eq unpacked unpacked' long short long' short' (by omega), opposite] at right
  exact left.add_opposite right

theorem IsNormal.div {sign' : Sign} {low' high' : Int} (hx : IsNormal x sign low high)
    (hy : IsNormal y sign' low' high') (above : -1074 ≤ low - high' - 53)
    (below : high - low' - 51 ≤ 971) :
    IsNormal (x / y) (sign / sign') (low - high' - 53) (high - low' - 51) := by
  obtain ⟨r, hx⟩ := hx.hasMagnitude
  obtain ⟨r', hy⟩ := hy.hasMagnitude
  exact (hx.div hy above below).isNormal

theorem sqrtCore_bounds (mantissa : Nat) (exponent : Int) :
    let core := sqrtCore .binary64 mantissa exponent
    2 * core.2.1 ≤ exponent ∧ 2 * ((core.1.log2 : Int) + core.2.1) ≤ mantissa.log2 + exponent := by
  simp only [sqrtCore]
  generalize target : min (exponent.ediv 2) _ = half
  have target_le : half ≤ exponent / 2 := by
    rw [← target]
    exact min_le_left _ _
  obtain ⟨shift, shifted⟩ := Int.eq_ofNat_of_zero_le (show 0 ≤ exponent - 2 * half by omega)
  rw [shifted, Int.toNat_natCast, Nat.shiftLeft_eq]
  refine ⟨by omega, ?_⟩
  by_cases zero : Nat.sqrt (mantissa * 2 ^ shift) = 0
  · rw [zero]
    simp only [Nat.log2_zero]
    omega
  · have root := Nat.log2_self_le zero
    have square := Nat.sqrt_le (mantissa * 2 ^ shift)
    have length : 2 ^ (2 * (Nat.sqrt (mantissa * 2 ^ shift)).log2) < 2 ^ (mantissa.log2 + 1 + shift) := by
      calc 2 ^ (2 * (Nat.sqrt (mantissa * 2 ^ shift)).log2)
          = 2 ^ (Nat.sqrt (mantissa * 2 ^ shift)).log2 * 2 ^ (Nat.sqrt (mantissa * 2 ^ shift)).log2 := by
            rw [two_mul, pow_add]
        _ ≤ mantissa * 2 ^ shift := (Nat.mul_le_mul root root).trans square
        _ < 2 ^ (mantissa.log2 + 1 + shift) := by
            rw [pow_add]
            exact Nat.mul_lt_mul_of_pos_right Nat.lt_log2_self (Nat.two_pow_pos shift)
    have := (Nat.pow_lt_pow_iff_right (by norm_num)).mp length
    omega

theorem isFinite_sqrt (finite : x.isFinite = true) (not_negative : ¬x < 0) :
    x.sqrt.isFinite = true := by
  rw [lt_iff, unpack_zero] at not_negative
  change (Float.Model.pack (UnpackedFloat.sqrt .binary64 x.toModel.unpack)).isFinite = true
  rcases unpack_of_isFinite finite with ⟨sign, unpacked⟩ | ⟨sign, m, e, positive, unpacked⟩
  · rw [unpacked]
    exact isFinite_pack_zero sign
  · cases sign with
    | negative =>
      rw [unpacked] at not_negative
      exact absurd rfl not_negative
    | positive =>
      -- The root has about half the exponent, so rounding cannot take it out of the range.
      obtain ⟨short, above, below⟩ := unpack_finite_bounds unpacked
      have length : m.log2 < 53 := (Nat.log2_lt positive.ne').mpr short
      obtain ⟨half, leading⟩ := sqrtCore_bounds m e
      rw [unpacked, UnpackedFloat.sqrt]
      generalize sqrtCore .binary64 m e = core at *
      obtain ⟨root, exponent, accuracy⟩ := core
      dsimp only at *
      rcases roundWithAccuracy_le .positive accuracy (show exponent < 971 by omega)
        (show root.log2 + exponent < 971 + 52 by omega) (by norm_num) with
        zero | ⟨_, _, _, rounded, bound⟩
      · rw [zero]
        exact isFinite_pack_zero _
      · rw [rounded]
        exact isFinite_pack_finite _ bound

private theorem ofNat_eq (n : Nat) : Float.ofNat n =
    if n < 2 ^ 53 then n.toUInt64.toFloat * Float.exactlyRepresentablePowersOfTen[0]
    else .ofModel (.ofScientific n 0) := by
  change Float.ofScientific n false 0 = _
  rw [Float.ofScientific]
  by_cases small : n < 2 ^ 53
  · rw [if_pos small, dif_pos ⟨small, by decide⟩]
    rfl
  · rw [if_neg small, dif_neg fun both => small both.1]
    rfl

theorem isNearest_toFloat {n : Nat} (nonzero : n ≠ 0) (fits : n < 2 ^ 53) :
    IsNearest n.toUInt64.toFloat .positive n (-52) 1 := by
  have length : n.log2 < 53 := (Nat.log2_lt nonzero).mpr fits
  have target : Format.binary64.targetExponent (totalExponent n 0) = n.log2 - 52 := by
    simp only [Format.targetExponent, totalExponent, Format.mantissaBits, Format.minExponent]
    omega
  have word : n.toUInt64.toNat = n := Nat.mod_eq_of_lt (by omega)
  have converted : n.toUInt64.toFloat = .ofModel (.pack (roundWithAccuracy .binary64 .positive
      (n <<< (52 - n.log2)) (n.log2 - 52) .exact)) := by
    change Float.ofModel (.pack (normalize .binary64 n.toUInt64.toNat 0 .positive)) = _
    have shift : (0 - ((n.log2 : Int) - 52)).toNat = 52 - n.log2 := by omega
    have lowered : (0 : Int) - (52 - n.log2 : Nat) = n.log2 - 52 := by omega
    rw [word, UnpackedFloat.normalize, Int.compare_eq_gt.mpr (by omega)]
    simp only [Float.Model.UnpackedFloat.round, decreaseExponent, Int.toNat_natCast, target, shift,
      lowered]
  have full : 2 ^ 52 ≤ n <<< (52 - n.log2) := by
    rw [Nat.shiftLeft_eq]
    calc 2 ^ 52 = 2 ^ n.log2 * 2 ^ (52 - n.log2) := by rw [← pow_add]; congr 1; omega
      _ ≤ n * 2 ^ (52 - n.log2) := Nat.mul_le_mul_right _ (Nat.log2_self_le nonzero)
  have short : n <<< (52 - n.log2) < 2 ^ (52 + 1) := by
    rw [Nat.shiftLeft_eq]
    calc n * 2 ^ (52 - n.log2) < 2 ^ (n.log2 + 1) * 2 ^ (52 - n.log2) :=
          Nat.mul_lt_mul_of_pos_right Nat.lt_log2_self (Nat.two_pow_pos _)
      _ = 2 ^ (52 + 1) := by rw [← pow_add]; congr 1; omega
  have value : ((n <<< (52 - n.log2) : ℕ) : ℚ) * 2 ^ ((n.log2 : ℤ) - 52) = n := by
    rw [Nat.shiftLeft_eq, Nat.cast_mul, mul_assoc, Nat.cast_pow, Nat.cast_ofNat, ← zpow_natCast,
      ← zpow_add₀ two_ne_zero, show ((52 - n.log2 : ℕ) : ℤ) + (n.log2 - 52) = 0 by omega, zpow_zero,
      mul_one]
  have near := isNearest_rounded .positive (approximates_exact _) full short
    (show -1074 ≤ (n.log2 : ℤ) - 52 by omega) (by omega)
  rw [← converted, value] at near
  exact near.mono (by omega) (by omega)

/-- The exponents stem from the two ways in which small and large numbers are converted. -/
theorem isNearest_ofNat_of_bits {n bits : Nat} (nonzero : n ≠ 0) (fits : n < 2 ^ bits)
    (wide : 64 ≤ bits) (bounded : bits ≤ 512) :
    IsNearest (Float.ofNat n) .positive n (-104) (bits - 52) := by
  rw [ofNat_eq]
  split_ifs with small
  · -- Neither the conversion nor the product with one needs to round.
    obtain ⟨r, rounds, m, e, positive, unpacked, long, short, above, below, magnitude⟩ :=
      isNearest_toFloat nonzero small
    have one : (Float.exactlyRepresentablePowersOfTen[0]).toModel.unpack =
        .finite .positive (2 ^ 52) (-52) (by decide) := rfl
    have product : m * 2 ^ 52 < 2 ^ (52 + 53) := by
      rw [pow_add]
      omega
    have value : ((m * 2 ^ 52 : ℕ) : ℚ) * 2 ^ (e + -52) = n := by
      rw [← rounds.eq_of_whole small.le, ← magnitude, zpow_add₀ two_ne_zero]
      push_cast
      ring
    have near := isNearest_rounded .positive (approximates_exact _)
      (show 2 ^ 52 ≤ m * 2 ^ 52 by omega) product (show -1074 ≤ e + -52 by omega) (by omega)
    rw [value] at near
    change IsNearest (.ofModel (.pack (UnpackedFloat.mul .binary64 (Float.toModel _).unpack
      (Float.toModel _).unpack))) _ _ _ _
    rw [unpacked, one]
    exact near.mono (by omega) (by omega)
  · have large : Float.Model.ofScientific n 0 = .pack (roundWithAccuracy .binary64
        (.positive * .positive) (n <<< 53 * 10 ^ 0) (-53 + 0) .exact) := by
      change Float.Model.pack (UnpackedFloat.ofScientific .binary64 n 0) = _
      rw [UnpackedFloat.ofScientific, dif_neg nonzero, if_neg (by norm_num), if_neg, if_pos le_rfl]
      · rfl
      · simp only [not_lt]
        have : (0 : Int) ≤ 2 ^ 11 := by norm_num
        omega
    have shifted : n <<< 53 * 10 ^ 0 = n * 2 ^ 53 := by
      rw [Nat.shiftLeft_eq, pow_zero, mul_one]
    have value : ((n * 2 ^ 53 : ℕ) : ℚ) * 2 ^ (-53 + 0 : ℤ) = n := by
      rw [add_zero, Nat.cast_mul, mul_assoc]
      norm_num
    have product : n * 2 ^ 53 < 2 ^ (52 + (bits + 1)) := by
      rw [show 52 + (bits + 1) = bits + 53 by omega, pow_add]
      omega
    have near := isNearest_rounded .positive (approximates_exact _)
      (show 2 ^ 52 ≤ n * 2 ^ 53 by omega) product
      (show -1074 ≤ (-53 + 0 : ℤ) by omega) (by omega)
    rw [value] at near
    rw [large, shifted]
    exact near.mono (by omega) (by omega)

theorem isNearest_ofNat {n : Nat} (nonzero : n ≠ 0) (fits : n < 2 ^ 64) :
    IsNearest (Float.ofNat n) .positive n (-104) 12 :=
  isNearest_ofNat_of_bits nonzero fits le_rfl (by norm_num)

end

end Schoolbook.Double
