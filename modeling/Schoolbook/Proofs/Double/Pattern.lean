import Mathlib
import Schoolbook.Double
import Schoolbook.Proofs.Double.Interval
import Schoolbook.Proofs.Double.Order

/-! The sign, significand and exponent read from the pattern of a double are those that it is unpacked to,
and the double is put together from them again. -/
namespace Schoolbook.Double
open Float.Model Float.Model.UnpackedFloat

def sign (x : Float) : Sign := if signBit x then .negative else .positive

/-- The sign bit, the exponent and the fraction of a pattern are those that unpacking takes out of it. -/
theorem pattern_eq (x : Float) :
    Sign.ofBitVec (@unpackSign .binary64 x.toModel.toBits.toBitVec) = sign x ∧
      (@unpackExponent .binary64 x.toModel.toBits.toBitVec).toNat = biasedExponent x ∧
      (@unpackMantissa .binary64 x.toModel.toBits.toBitVec).toNat = fractionBits x := by
  have pattern : x.toBits.toNat = x.toModel.toBits.toBitVec.toNat := rfl
  simp only [sign, signBit, biasedExponent, fractionBits, magnitudeBits, pattern]
  generalize x.toModel.toBits.toBitVec = bits
  have fields := toNat_fields bits
  have first : (@unpackSign .binary64 bits).toNat < 2 := BitVec.isLt _
  have second : (@unpackExponent .binary64 bits).toNat < 2 ^ 11 := BitVec.isLt _
  have third : (@unpackMantissa .binary64 bits).toNat < 2 ^ 52 := BitVec.isLt _
  refine ⟨?_, by omega, by omega⟩
  rw [Sign.ofBitVec]
  by_cases clear : @unpackSign .binary64 bits = 0#1
  · have zero : (@unpackSign .binary64 bits).toNat = 0 := congrArg BitVec.toNat clear
    rw [if_pos clear, if_neg (by rw [decide_eq_true_iff]; omega)]
  · have one : (@unpackSign .binary64 bits).toNat ≠ 0 := fun zero => clear (BitVec.eq_of_toNat_eq zero)
    rw [if_neg clear, if_pos (by rw [decide_eq_true_iff]; omega)]

/-- A double is read through its pattern as it is unpacked. -/
theorem unpack_eq {x : Float} (finite : x.isFinite = true) (nonzero : magnitudeBits x ≠ 0) :
    ∃ positive, x.toModel.unpack = .finite (sign x) (significand x) (exponent x) positive := by
  have unpacked : x.toModel.unpack = .unpack .binary64 x.toModel.toBits.toBitVec := rfl
  obtain ⟨bit, biased, fraction⟩ := pattern_eq x
  have size : magnitudeBits x = biasedExponent x * 2 ^ 52 + fractionBits x := by
    rw [biasedExponent, fractionBits]
    omega
  have offset : (Format.binary64.exponentBias : Int) + (52 : Nat) = 1075 := rfl
  rw [isFinite_eq] at finite
  rw [UnpackedFloat.unpack] at unpacked
  dsimp only at unpacked
  simp only [bit, biased, fraction, offset, toNat_one_append] at unpacked
  split_ifs at unpacked with infinite empty subnormal zero
  · rw [unpacked] at finite
    cases finite
  · rw [unpacked] at finite
    cases finite
  · rw [subnormal] at biased
    rw [zero] at fraction
    exact absurd size (by rw [← biased, ← fraction]; exact nonzero)
  · rw [subnormal] at biased
    have biased : biasedExponent x = 0 := biased.symm
    have whole : significand x = fractionBits x := if_pos biased
    have lowest : exponent x = -1074 := by
      rw [exponent, biased]
      rfl
    simp only [biased, ← whole] at unpacked
    exact ⟨_, by rw [unpacked, lowest]; rfl⟩
  · have normal : biasedExponent x ≠ 0 := fun none =>
      subnormal (BitVec.eq_of_toNat_eq (biased.trans none))
    have whole : significand x = 2 ^ 52 + fractionBits x := if_neg normal
    have shifted : exponent x = biasedExponent x - 1075 := by
      rw [exponent, max_eq_left (by omega)]
    simp only [← whole, ← shifted] at unpacked
    exact ⟨_, unpacked⟩

theorem double_neg (x : Float) : -(-x) = x := by
  have twice : x.toModel.unpack.neg.neg = x.toModel.unpack := by
    cases x.toModel.unpack with
    | notANumber => rfl
    | infinity sign => cases sign <;> rfl
    | zero sign => cases sign <;> rfl
    | finite sign m e positive => cases sign <;> rfl
  rw [← ofModel_pack_unpack (-(-x)), unpack_neg, unpack_neg, twice, ofModel_pack_unpack]

theorem eq_of_zero {x : Float} (zero : magnitudeBits x = 0) : x = if signBit x then -0 else 0 := by
  apply orderKey_inj.mp
  have negative : orderKey (-0) = -1 := by decide +kernel
  have positive : orderKey 0 = 0 := by decide +kernel
  rw [orderKey, zero]
  split_ifs
  · exact negative.symm
  · exact positive.symm

/-- A double consists of its sign and its magnitude. -/
theorem eq_of_magnitude {x : Float} {positive : 0 < significand x}
    (unpacked : x.toModel.unpack = .finite (sign x) (significand x) (exponent x) positive) :
    let magnitude := Float.ofModel (.pack (.finite .positive (significand x) (exponent x) positive))
    x = if signBit x then -magnitude else magnitude := by
  intro magnitude
  rw [sign] at unpacked
  split_ifs at unpacked ⊢ with negative
  · have opposite : (-x).toModel.unpack = .finite .positive (significand x) (exponent x) positive := by
      rw [unpack_neg, unpacked]
      rfl
    rw [← double_neg x, ← ofModel_pack_unpack (-x), opposite]
  · rw [← ofModel_pack_unpack x, unpacked]

theorem legal_of_isFinite {x : Float} (finite : x.isFinite = true) (nonzero : magnitudeBits x ≠ 0) :
    Legal (significand x) (exponent x) := by
  obtain ⟨positive, unpacked⟩ := unpack_eq finite nonzero
  obtain ⟨short, above, below⟩ := unpack_finite_bounds unpacked
  refine ⟨positive, short, ?_, above, below⟩
  rw [significand, exponent]
  split_ifs with lowest <;> omega

end Schoolbook.Double
