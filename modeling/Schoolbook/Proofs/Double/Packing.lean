import Mathlib
import Schoolbook.Proofs.Double.Rounding

/-! Double precision patterns and the values they are unpacked to. -/
namespace Schoolbook.Double
open Float.Model Float.Model.UnpackedFloat

private theorem ofNat_ne_infinite {biased : Nat} (bound : biased < 2047) :
    BitVec.ofNat 11 biased ≠ -1#11 := by
  intro same
  have bits := congrArg BitVec.toNat same
  rw [BitVec.toNat_ofNat, Nat.mod_eq_of_lt (by omega)] at bits
  rw [bits] at bound
  exact absurd bound (by decide)

private theorem ofNat_ne_zero {biased : Nat} (some_bits : biased ≠ 0) (bound : biased < 2047) :
    BitVec.ofNat 11 biased ≠ 0#11 := by
  intro same
  have bits := congrArg BitVec.toNat same
  rw [BitVec.toNat_ofNat, Nat.mod_eq_of_lt (by omega)] at bits
  exact some_bits bits

private theorem implicit_bit {mantissa : Nat} (long : 2 ^ 52 ≤ mantissa) (short : mantissa < 2 ^ 53) :
    (1#1 ++ BitVec.ofNat 52 mantissa).toNat = mantissa := by
  rw [BitVec.toNat_append, BitVec.toNat_ofNat, ← Nat.shiftLeft_add_eq_or_of_lt (by omega)]
  change 1 <<< 52 + mantissa % 2 ^ 52 = mantissa
  rw [Nat.shiftLeft_eq]
  omega

private theorem bias_eq {exponent : Int} {biased : Nat} (shifted : exponent + 1075 = biased) :
    (exponent + (Format.binary64.exponentBias : Int) + (52 : Nat)).toNat = biased := by
  change (exponent + 1023 + 52).toNat = biased
  omega

/-- A value with a mantissa of full length and an exponent in range survives packing. -/
theorem unpack_pack_normal {sign : Sign} {mantissa : Nat} {exponent : Int} (positive : 0 < mantissa)
    (long : 2 ^ 52 ≤ mantissa) (short : mantissa < 2 ^ 53) (above : -1074 ≤ exponent)
    (below : exponent ≤ 971) :
    (Float.Model.pack (.finite sign mantissa exponent positive)).unpack =
      .finite sign mantissa exponent positive := by
  have length := log2_of_full long short
  obtain ⟨biased, shifted⟩ := Int.eq_ofNat_of_zero_le (show 0 ≤ exponent + 1075 by omega)
  have infinite := ofNat_ne_infinite (show biased < 2047 by omega)
  have zero := ofNat_ne_zero (show biased ≠ 0 by omega) (show biased < 2047 by omega)
  have packed : UnpackedFloat.pack .binary64 (.finite sign mantissa exponent positive) =
      packComponents .binary64 sign (BitVec.ofNat 11 biased) (BitVec.ofNat 52 mantissa) := by
    simp only [UnpackedFloat.pack, bias_eq shifted]
    rw [if_neg (by omega), if_pos (by rw [length]; rfl)]
  have field : (BitVec.ofNat 11 biased).toNat = biased := by
    rw [BitVec.toNat_ofNat, Nat.mod_eq_of_lt (by omega)]
  change UnpackedFloat.unpack .binary64 (UnpackedFloat.pack .binary64 _) = _
  rw [packed, UnpackedFloat.unpack]
  simp only [unpackExponent_packComponents, unpackMantissa_packComponents,
    unpackSign_packComponents, Sign.ofBitVec_toBitVec, infinite, zero, if_false, field,
    implicit_bit long short, finite.injEq, true_and]
  change (biased : Int) - (1023 + 52) = exponent
  omega

/-- Values that were unpacked from a pattern survive packing, subnormal ones included. -/
theorem unpack_pack_unpack (bits : BitVec Format.binary64.numBits) :
    (Float.Model.pack (UnpackedFloat.unpack .binary64 bits)).unpack =
      UnpackedFloat.unpack .binary64 bits := by
  change UnpackedFloat.unpack .binary64 (UnpackedFloat.pack .binary64 _) = _
  rw [pack_unpack]
  split_ifs with nan
  · obtain ⟨all, payload⟩ := of_decide_eq_true nan
    rw [unpack_packedNaN, UnpackedFloat.unpack]
    dsimp only
    rw [if_pos all, if_neg payload]
  · rfl

theorem ofModel_pack_unpack (x : Float) : .ofModel (.pack x.toModel.unpack) = x := by
  obtain ⟨⟨bits, valid⟩⟩ := x
  have same : UnpackedFloat.pack .binary64 (UnpackedFloat.unpack .binary64 bits.toBitVec) =
      bits.toBitVec := pack_unpack_of_valid valid
  simp only [Float.Model.pack, Float.Model.unpack, same]

theorem unpack_neg (x : Float) : (-x).toModel.unpack = x.toModel.unpack.neg := by
  let bits : BitVec Format.binary64.numBits := x.toModel.toBits.toBitVec
  let flipped := packComponents .binary64 (-Sign.ofBitVec (unpackSign bits)) (unpackExponent bits)
    (unpackMantissa bits)
  have opposite : UnpackedFloat.unpack .binary64 flipped = x.toModel.unpack.neg := by
    change _ = (UnpackedFloat.unpack .binary64 bits).neg
    simp only [UnpackedFloat.unpack, flipped, unpackExponent_packComponents,
      unpackMantissa_packComponents, unpackSign_packComponents, Sign.ofBitVec_toBitVec]
    split_ifs <;> rfl
  change (Float.Model.pack x.toModel.unpack.neg).unpack = _
  rw [← opposite, unpack_pack_unpack]

private theorem isFinite_unpack (bits : BitVec Format.binary64.numBits)
    (exponent : @unpackExponent .binary64 bits ≠ -1#11) :
    (UnpackedFloat.unpack .binary64 bits).isFinite = true := by
  rw [UnpackedFloat.unpack]
  simp only [exponent, if_false]
  split_ifs <;> rfl

theorem isFinite_pack_zero (sign : Sign) : (Float.Model.pack (.zero sign)).isFinite = true := by
  refine isFinite_unpack (UnpackedFloat.pack .binary64 (.zero sign)) ?_
  rw [UnpackedFloat.pack, packedZero, unpackExponent_packComponents]
  decide

/-- Only an exponent that is too high turns a finite value into an infinity. -/
theorem isFinite_pack_finite {sign : Sign} {mantissa : Nat} {exponent : Int}
    (positive : 0 < mantissa) (below : exponent ≤ 971) :
    (Float.Model.pack (.finite sign mantissa exponent positive)).isFinite = true := by
  have small : (exponent + (Format.binary64.exponentBias : Int) + (52 : Nat)).toNat < 2047 := by
    change (exponent + 1023 + 52).toNat < 2047
    omega
  refine isFinite_unpack (UnpackedFloat.pack .binary64 (.finite sign mantissa exponent positive)) ?_
  simp only [UnpackedFloat.pack]
  rw [if_neg (by omega)]
  split_ifs
  · rw [unpackExponent_packComponents]
    exact ofNat_ne_infinite small
  · rw [unpackExponent_packComponents]
    decide

theorem unpack_finite_bounds {x : Float.Model} {sign : Sign} {mantissa : Nat} {exponent : Int}
    {positive : 0 < mantissa} (unpacked : x.unpack = .finite sign mantissa exponent positive) :
    mantissa < 2 ^ 53 ∧ -1074 ≤ exponent ∧ exponent ≤ 971 := by
  rw [Float.Model.unpack, UnpackedFloat.unpack] at unpacked
  generalize x.toBits.toBitVec = bits at unpacked
  dsimp only at unpacked
  have offset : (Format.binary64.exponentBias : Int) + (52 : Nat) = 1075 := rfl
  split_ifs at unpacked with infinite empty zero vanishing
  · cases unpacked
    have length : (@unpackMantissa .binary64 bits).toNat < 2 ^ 52 := BitVec.isLt _
    rw [zero, offset]
    refine ⟨by omega, ?_, ?_⟩ <;> decide
  · cases unpacked
    have length : (1#1 ++ @unpackMantissa .binary64 bits).toNat < 2 ^ 53 := BitVec.isLt _
    have low : (@unpackExponent .binary64 bits).toNat ≠ 0 := fun none =>
      zero (BitVec.eq_of_toNat_eq none)
    have high : (@unpackExponent .binary64 bits).toNat ≠ 2047 := fun all =>
      infinite (BitVec.eq_of_toNat_eq all)
    have field : (@unpackExponent .binary64 bits).toNat < 2048 := BitVec.isLt _
    rw [offset]
    exact ⟨length, by omega, by omega⟩

end Schoolbook.Double
