import Mathlib
import Schoolbook.Double
import Schoolbook.Proofs.Double.Arithmetic

/-! The total order of the patterns follows the values of normal doubles. -/
namespace Schoolbook.Double
open Float.Model Float.Model.UnpackedFloat

theorem toBits_inj {x y : Float} : x.toBits = y.toBits ↔ x = y := by
  obtain ⟨⟨left, _⟩⟩ := x
  obtain ⟨⟨right, _⟩⟩ := y
  simp [Float.toBits]

/-- Each double has a place of its own, the two zeros included. -/
theorem orderKey_inj {x y : Float} : orderKey x = orderKey y ↔ x = y := by
  refine ⟨fun same => toBits_inj.mp (UInt64.toNat_inj.mp ?_), fun same => by rw [same]⟩
  have left := x.toBits.toNat_lt
  have right := y.toBits.toNat_lt
  simp only [orderKey, signBit, magnitudeBits, decide_eq_true_eq] at same
  split at same <;> split at same <;> omega

theorem totalCmp_eq_eq_iff {x y : Float} : totalCmp x y = .eq ↔ x = y := by
  rw [totalCmp, Std.compare_eq_iff_eq, orderKey_inj]

theorem totalCmp_swap (x y : Float) : (totalCmp x y).swap = totalCmp y x :=
  Std.OrientedOrd.eq_swap.symm

theorem toNat_fields (bits : BitVec Format.binary64.numBits) :
    bits.toNat = (@unpackSign .binary64 bits).toNat * 2 ^ 63 +
      (@unpackExponent .binary64 bits).toNat * 2 ^ 52 + (@unpackMantissa .binary64 bits).toNat := by
  have length : bits.toNat < 2 ^ 64 := bits.isLt
  simp only [unpackSign, unpackExponent, unpackMantissa, BitVec.toNat_cast, BitVec.extractLsb_toNat,
    Nat.shiftRight_eq_div_pow]
  norm_num
  omega

/-- A pattern with the sign bit is that of a value below zero, of the negative zero or of a NaN. -/
theorem signBit_eq_false {x : Float} (number : x.isNaN = false) (not_negative : ¬x < 0)
    (other : x ≠ -0.0) : signBit x = false := by
  rw [← Bool.not_eq_true, signBit, decide_eq_true_iff]
  intro set
  change 0x8000000000000000 ≤ x.toModel.toBits.toBitVec.toNat at set
  have fields := toNat_fields x.toModel.toBits.toBitVec
  have exponent : (@unpackExponent .binary64 x.toModel.toBits.toBitVec).toNat < 2 ^ 11 := BitVec.isLt _
  have fraction : (@unpackMantissa .binary64 x.toModel.toBits.toBitVec).toNat < 2 ^ 52 := BitVec.isLt _
  have sign : Sign.ofBitVec (@unpackSign .binary64 x.toModel.toBits.toBitVec) = .negative := by
    refine if_neg fun clear => ?_
    rw [clear] at fields
    change _ = 0 * 2 ^ 63 + _ + _ at fields
    omega
  have unpacked : x.toModel.unpack = .unpack .binary64 x.toModel.toBits.toBitVec := rfl
  rw [UnpackedFloat.unpack] at unpacked
  simp only [sign] at unpacked
  change x.toModel.unpack.isNaN = false at number
  rw [lt_iff, unpack_zero] at not_negative
  -- infinity, NaN, zero, and the two kinds of finite values
  split_ifs at unpacked <;> rw [unpacked] at not_negative number
  · exact not_negative rfl
  · cases number
  · apply other
    rw [← ofModel_pack_unpack x, unpacked]
    decide +kernel
  · exact not_negative rfl
  · exact not_negative rfl

theorem toNat_one_append (fraction : BitVec 52) :
    (1#1 ++ fraction).toNat = 2 ^ 52 + fraction.toNat := by
  rw [BitVec.toNat_append, ← Nat.shiftLeft_add_eq_or_of_lt fraction.isLt]
  rfl

/-- The pattern of a normal double holds the exponent above the bits after the leading one. -/
theorem toNat_of_unpack {x : Float} {sign : Sign} {m : Nat} {e : Int} {positive : 0 < m}
    (unpacked : x.toModel.unpack = .finite sign m e positive) (long : 2 ^ 52 ≤ m) :
    (x.toBits.toNat : ℤ) = sign.toBitVec.toNat * 2 ^ 63 + (e + 1075) * 2 ^ 52 + (m - 2 ^ 52) := by
  change ((x.toModel.toBits.toBitVec.toNat : ℕ) : ℤ) = _
  rw [Float.Model.unpack, UnpackedFloat.unpack] at unpacked
  generalize x.toModel.toBits.toBitVec = bits at *
  have fields := toNat_fields bits
  have fraction : (@unpackMantissa .binary64 bits).toNat < 2 ^ 52 := BitVec.isLt _
  dsimp only at unpacked
  split_ifs at unpacked
  · cases unpacked
    omega
  · obtain ⟨rfl, mantissa, exponent⟩ := finite.inj unpacked
    have sign : (Sign.ofBitVec (@unpackSign .binary64 bits)).toBitVec = @unpackSign .binary64 bits := by
      generalize @unpackSign .binary64 bits = bit
      revert bit
      decide
    have offset : (Format.binary64.exponentBias : Int) + (52 : Nat) = 1075 := rfl
    rw [toNat_one_append] at mantissa
    rw [offset] at exponent
    rw [sign, fields]
    push_cast
    omega

/-- Mantissas of full length are compared by their exponents first. -/
theorem lexicographic_of_le {m m' : Nat} {e e' : Int} (long : 2 ^ 52 ≤ m) (short : m' < 2 ^ 53)
    (below : (m : ℚ) * 2 ^ e ≤ m' * 2 ^ e') : e < e' ∨ e = e' ∧ m ≤ m' := by
  have long : (2 ^ 52 : ℚ) ≤ m := by exact_mod_cast long
  have short : (m' : ℚ) < 2 ^ 53 := by exact_mod_cast short
  rcases lt_trichotomy e e' with lower | rfl | higher
  · exact .inl lower
  · refine .inr ⟨rfl, ?_⟩
    exact_mod_cast le_of_mul_le_mul_right below (by positivity)
  · exact absurd below (scale_lt short long higher).not_ge

section
variable {x y : Float} {sign sign' : Sign} {r s : ℚ} {low high low' high' : Int}

theorem HasMagnitude.pos (exactly : HasMagnitude x sign r low high) : 0 < r := by
  obtain ⟨m, e, positive, -, -, -, -, -, rfl⟩ := exactly
  positivity

theorem HasMagnitude.magnitudeBits_le (first : HasMagnitude x sign r low high)
    (second : HasMagnitude y sign' s low' high') (below : r ≤ s) :
    magnitudeBits x ≤ magnitudeBits y := by
  obtain ⟨m, e, positive, unpacked, long, -, -, -, rfl⟩ := first
  obtain ⟨m', e', positive', unpacked', long', -, -, -, rfl⟩ := second
  obtain ⟨short, above, below⟩ := unpack_finite_bounds unpacked
  obtain ⟨short', above', below'⟩ := unpack_finite_bounds unpacked'
  have pattern := toNat_of_unpack unpacked long
  have pattern' := toNat_of_unpack unpacked' long'
  have order := lexicographic_of_le long short' ‹_›
  have bit : sign.toBitVec.toNat < 2 := sign.toBitVec.isLt
  have bit' : sign'.toBitVec.toNat < 2 := sign'.toBitVec.isLt
  simp only [magnitudeBits]
  omega

theorem HasMagnitude.signBit_iff (exactly : HasMagnitude x sign r low high) :
    signBit x = true ↔ sign = .negative := by
  obtain ⟨m, e, positive, unpacked, long, -, -, -, -⟩ := exactly
  obtain ⟨short, above, below⟩ := unpack_finite_bounds unpacked
  have pattern := toNat_of_unpack unpacked long
  rw [signBit, decide_eq_true_iff]
  cases sign with
  | negative =>
    have bit : Sign.negative.toBitVec.toNat = 1 := rfl
    simp only [iff_true]
    omega
  | positive =>
    have bit : Sign.positive.toBitVec.toNat = 0 := rfl
    simp only [reduceCtorEq, iff_false]
    omega

/-- Normal doubles are ordered like their values. -/
theorem HasMagnitude.orderKey_le (first : HasMagnitude x sign r low high)
    (second : HasMagnitude y sign' s low' high') (below : signed sign r ≤ signed sign' s) :
    orderKey x ≤ orderKey y := by
  have positive := first.pos
  have positive' := second.pos
  rw [orderKey, orderKey]
  cases sign with
  | negative =>
    rw [if_pos (first.signBit_iff.mpr rfl)]
    cases sign' with
    | negative =>
      have magnitudes := second.magnitudeBits_le first (neg_le_neg_iff.mp below)
      rw [if_pos (second.signBit_iff.mpr rfl)]
      omega
    | positive =>
      rw [if_neg (second.signBit_iff.not.mpr nofun)]
      omega
  | positive =>
    rw [if_neg (first.signBit_iff.not.mpr nofun)]
    cases sign' with
    | negative =>
      simp only [signed] at below
      linarith
    | positive =>
      have magnitudes := first.magnitudeBits_le second below
      rw [if_neg (second.signBit_iff.not.mpr nofun)]
      omega

theorem HasMagnitude.unique (first : HasMagnitude x sign r low high)
    (second : HasMagnitude x sign' s low' high') : r = s := by
  obtain ⟨m, e, positive, unpacked, -, -, -, -, rfl⟩ := first
  obtain ⟨m', e', positive', unpacked', -, -, -, -, rfl⟩ := second
  obtain ⟨-, rfl, rfl⟩ := finite.inj (unpacked.symm.trans unpacked')
  rfl

/-- The values of normal doubles are ordered like the doubles. -/
theorem HasMagnitude.le_of_orderKey (first : HasMagnitude x sign r low high)
    (second : HasMagnitude y sign s low' high') (below : orderKey x ≤ orderKey y) :
    signed sign r ≤ signed sign s := by
  by_contra above
  have same : orderKey x = orderKey y :=
    below.antisymm (second.orderKey_le first (not_le.mp above).le)
  obtain rfl := orderKey_inj.mp same
  exact above (by rw [first.unique second])

theorem HasMagnitude.orderKey_neg (exactly : HasMagnitude x .negative r low high) :
    orderKey x < 0 := by
  rw [orderKey, if_pos (exactly.signBit_iff.mpr rfl)]
  omega

theorem HasMagnitude.orderKey_nonneg (exactly : HasMagnitude x .positive r low high) :
    0 ≤ orderKey x := by
  rw [orderKey, if_neg (exactly.signBit_iff.not.mpr nofun)]
  omega

end

end Schoolbook.Double
