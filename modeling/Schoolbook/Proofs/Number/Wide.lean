import Mathlib
import Schoolbook.Proofs.Number.Double

/-! Ratios of 64-bit parts do not leave the 128-bit word while they are added, subtracted,
multiplied or divided, nor on the way to a power whose parts fit 64 bits again. So these operations
on exact numbers are those of the rationals, and what is lost is only lost where the result is
narrowed. -/
namespace Schoolbook

/-- Whether both parts of a rational number fit a word. -/
structure Narrow (q : ℚ) : Prop where
  num : FitsWord 64 q.num
  den : FitsWord 64 q.den

namespace Narrow
variable {q : ℚ}

theorem natAbs_num_le (narrow : Narrow q) : q.num.natAbs ≤ 2 ^ 63 := by
  have := narrow.num
  simp only [FitsWord] at this
  omega

theorem den_le (narrow : Narrow q) : q.den ≤ 2 ^ 63 - 1 := by
  have := narrow.den
  simp only [FitsWord] at this
  omega

theorem neg_iff (narrow : Narrow q) : Narrow (-q) ↔ q.num ≠ -2 ^ 63 := by
  have bounds : -2 ^ 63 ≤ q.num ∧ q.num < 2 ^ 63 := narrow.num
  constructor
  · intro opposite lowest
    have bounds : -2 ^ 63 ≤ (-q).num ∧ (-q).num < 2 ^ 63 := opposite.num
    rw [Rat.num_neg_eq_neg_num] at bounds
    omega
  · intro higher
    constructor
    · change -2 ^ 63 ≤ (-q).num ∧ (-q).num < 2 ^ 63
      rw [Rat.num_neg_eq_neg_num]
      omega
    · rw [Rat.den_neg_eq_den]
      exact narrow.den

theorem fits_pow_of_le {i : ℤ} {m n : Nat} (fits : FitsWord 64 (i ^ n)) (le : m ≤ n) :
    FitsWord 64 (i ^ m) := by
  rcases Nat.eq_or_lt_of_le le with rfl | less
  · exact fits
  have bounds : -2 ^ 63 ≤ i ^ n ∧ i ^ n < 2 ^ 63 := fits
  change -2 ^ 63 ≤ i ^ m ∧ i ^ m < 2 ^ 63
  have top : (i ^ n).natAbs ≤ 2 ^ 63 := by omega
  rw [Int.natAbs_pow] at top
  have small : (i ^ m).natAbs < 2 ^ 63 := by
    rw [Int.natAbs_pow]
    rcases Nat.lt_or_ge i.natAbs 2 with unit | large
    · calc i.natAbs ^ m ≤ 1 ^ m := Nat.pow_le_pow_left (by omega) m
        _ < 2 ^ 63 := by rw [one_pow]; norm_num
    · -- A further factor of two would still fit.
      have step : i.natAbs ^ m * 2 ≤ i.natAbs ^ n :=
        calc i.natAbs ^ m * 2 ≤ i.natAbs ^ m * i.natAbs := Nat.mul_le_mul_left _ large
          _ = i.natAbs ^ (m + 1) := (pow_succ _ _).symm
          _ ≤ i.natAbs ^ n := Nat.pow_le_pow_right (by omega) less
      omega
  omega

/-- The lower powers of a number take no more room than the higher ones. -/
theorem pow_of_le {m n : Nat} (narrow : Narrow (q ^ n)) (le : m ≤ n) : Narrow (q ^ m) := by
  have num := narrow.num
  have den := narrow.den
  rw [Rat.num_pow] at num
  rw [Rat.den_pow, Nat.cast_pow] at den
  constructor
  · rw [Rat.num_pow]
    exact fits_pow_of_le num le
  · rw [Rat.den_pow, Nat.cast_pow]
    exact fits_pow_of_le den le

theorem of_pow {n : Nat} (narrow : Narrow (q ^ n)) (nonzero : n ≠ 0) : Narrow q := by
  have first := narrow.pow_of_le (Nat.one_le_iff_ne_zero.mpr nonzero)
  rwa [pow_one] at first

end Narrow

namespace WideRatio
variable {a b : ℚ}

theorem fits_of_natAbs {i : Int} (bound : i.natAbs < 2 ^ 127) : Fits i := by
  simp only [Fits, FitsWord]
  omega

/-- A numerator over the common denominator leaves room for one more bit. -/
theorem natAbs_scaled_le {q : ℚ} {factor n : Nat} (narrow : Narrow q) (small : factor ≤ n)
    (bound : n ≤ 2 ^ 63 - 1) : ((factor : Int) * q.num).natAbs ≤ 2 ^ 126 - 2 ^ 63 := by
  rw [Int.natAbs_mul, Int.natAbs_natCast]
  calc factor * q.num.natAbs ≤ (2 ^ 63 - 1) * 2 ^ 63 :=
        Nat.mul_le_mul (small.trans bound) narrow.natAbs_num_le
    _ = 2 ^ 126 - 2 ^ 63 := by norm_num

theorem isSome_combine? {op : Int → Int → Int} (ha : Narrow a) (hb : Narrow b)
    (grows : ∀ l r, (op l r).natAbs ≤ l.natAbs + r.natAbs) : (combine? op a b).isSome = true := by
  have least : a.den / a.den.gcd b.den * b.den = a.den.lcm b.den :=
    Nat.div_mul_right_comm (Nat.gcd_dvd_left _ _) _
  have product : a.den.lcm b.den ≤ a.den * b.den :=
    Nat.le_of_dvd (Nat.mul_pos a.den_pos b.den_pos) (Nat.lcm_dvd_mul _ _)
  have denominator : a.den.lcm b.den ≤ (2 ^ 63 - 1) * (2 ^ 63 - 1) :=
    product.trans (Nat.mul_le_mul ha.den_le hb.den_le)
  have left := natAbs_scaled_le ha (Nat.div_le_of_le_mul product) hb.den_le
  rw [Nat.mul_comm] at product
  have right := natAbs_scaled_le hb (Nat.div_le_of_le_mul product) ha.den_le
  have result := grows (((a.den.lcm b.den / a.den : Nat) : Int) * a.num)
    (((a.den.lcm b.den / b.den : Nat) : Int) * b.num)
  unfold combine?
  simp only [least]
  rw [if_pos, Option.isSome_some]
  refine ⟨fits_of_natAbs ?_, fits_of_natAbs ?_, fits_of_natAbs ?_, fits_of_natAbs ?_⟩
  · omega
  · omega
  · omega
  · omega

theorem isSome_mul? (ha : Narrow a) (hb : Narrow b) : (mul? a b).isSome = true := by
  unfold mul?
  generalize a.num.natAbs.gcd b.den = down
  generalize a.den.gcd b.num.natAbs = up
  have numerator : (a.num / down * (b.num / up)).natAbs ≤ 2 ^ 63 * 2 ^ 63 := by
    rw [Int.natAbs_mul]
    exact Nat.mul_le_mul ((Int.natAbs_ediv_le_natAbs _ _).trans ha.natAbs_num_le)
      ((Int.natAbs_ediv_le_natAbs _ _).trans hb.natAbs_num_le)
  have denominator : a.den / up * (b.den / down) ≤ (2 ^ 63 - 1) * (2 ^ 63 - 1) :=
    Nat.mul_le_mul ((Nat.div_le_self _ _).trans ha.den_le) ((Nat.div_le_self _ _).trans hb.den_le)
  simp only
  rw [if_pos, Option.isSome_some]
  constructor
  · apply fits_of_natAbs
    omega
  · apply fits_of_natAbs
    rw [Int.natAbs_natCast]
    omega

theorem add?_eq (ha : Narrow a) (hb : Narrow b) : add? a b = some (a + b) := by
  obtain ⟨r, computed⟩ := Option.isSome_iff_exists.mp (isSome_combine? ha hb Int.natAbs_add_le)
  rw [add?, computed, add?_eq_some computed]

theorem sub?_eq (ha : Narrow a) (hb : Narrow b) : sub? a b = some (a - b) := by
  obtain ⟨r, computed⟩ := Option.isSome_iff_exists.mp (isSome_combine? ha hb Int.natAbs_sub_le)
  rw [sub?, computed, sub?_eq_some computed]

theorem mul?_eq (ha : Narrow a) (hb : Narrow b) : mul? a b = some (a * b) := by
  obtain ⟨r, computed⟩ := Option.isSome_iff_exists.mp (isSome_mul? ha hb)
  rw [computed, mul?_eq_some computed]

theorem natAbs_cancelled_le {i : Int} {n : Nat} (hi : i.natAbs ≤ 2 ^ 63) (hn : n ≤ 2 ^ 63 - 1)
    (k l : Nat) : (i / k * (n / l : Nat)).natAbs ≤ 2 ^ 126 := by
  rw [Int.natAbs_mul, Int.natAbs_natCast]
  calc (i / k).natAbs * (n / l) ≤ 2 ^ 63 * (2 ^ 63 - 1) :=
        Nat.mul_le_mul ((Int.natAbs_ediv_le_natAbs i k).trans hi) ((Nat.div_le_self n l).trans hn)
    _ ≤ 2 ^ 126 := by norm_num

/-- The parts of a quotient take twice the bits of the parts of its operands, and the lower one is
not zero. -/
theorem quotientParts_bounds (ha : Narrow a) (hb : Narrow b) (nonzero : b ≠ 0) :
    (quotientParts a b).1.natAbs ≤ 2 ^ 126 ∧ (quotientParts a b).2.natAbs ≤ 2 ^ 126 ∧
      (quotientParts a b).2 ≠ 0 := by
  have na := ha.natAbs_num_le
  have nb := hb.natAbs_num_le
  have da := ha.den_le
  have db := hb.den_le
  have below : b.num ≠ 0 := Rat.num_ne_zero.mpr nonzero
  unfold quotientParts
  split_ifs with same_den same_num
  · exact ⟨by omega, by omega, below⟩
  · have above := a.den_pos
    refine ⟨?_, ?_, ?_⟩
    · rw [Int.natAbs_natCast]
      omega
    · rw [Int.natAbs_natCast]
      omega
    · exact Nat.cast_ne_zero.mpr a.den_nz
  · refine ⟨natAbs_cancelled_le na db _ _, ?_, ?_⟩
    · dsimp only
      rw [mul_comm]
      exact natAbs_cancelled_le nb da _ _
    · have left : a.den / a.den.gcd b.den ≠ 0 :=
        (Nat.div_gcd_pos_of_pos_left _ a.den_pos).ne'
      have right : b.num / (a.num.natAbs.gcd b.num.natAbs : Nat) ≠ 0 := by
        intro zero
        refine below (Int.eq_zero_of_ediv_eq_zero ?_ zero)
        exact Int.natCast_dvd.mpr (Nat.gcd_dvd_right _ _)
      exact mul_ne_zero (Nat.cast_ne_zero.mpr left) right

theorem isSome_div? (ha : Narrow a) (hb : Narrow b) (nonzero : b ≠ 0) :
    (div? a b).isSome = true := by
  obtain ⟨numerator, denominator, divisible⟩ := quotientParts_bounds ha hb nonzero
  have opposite {i : Int} (bound : i.natAbs ≤ 2 ^ 126) (common : Nat) : Fits (-(i / common)) := by
    apply fits_of_natAbs
    have shrunk := Int.natAbs_ediv_le_natAbs i common
    omega
  unfold div?
  simp only
  rw [if_neg (by simp only [nonzero, divisible, or_self, not_false_eq_true]), if_pos,
    Option.isSome_some]
  refine ⟨fits_of_natAbs ?_, fits_of_natAbs ?_, fun _ => ⟨?_, ?_⟩⟩
  · omega
  · omega
  · exact opposite numerator _
  · exact opposite denominator _

theorem div?_eq (ha : Narrow a) (hb : Narrow b) (nonzero : b ≠ 0) : div? a b = some (a / b) := by
  obtain ⟨r, computed⟩ := Option.isSome_iff_exists.mp (isSome_div? ha hb nonzero)
  rw [computed, div?_eq_some computed]

/-- Both running powers divide the result, so they are no wider than it. -/
theorem accumulate?_eq {q : ℚ} {i k n : Nat} (narrow : Narrow (q ^ (i + k * (2 * (n / 2))))) :
    accumulate? (q ^ i) (q ^ k) n = some (q ^ (i + k * (2 * (n / 2)))) := by
  induction n using Nat.strongRecOn generalizing i k with
  | ind n ih =>
    rw [accumulate?]
    split
    next small =>
      rw [Nat.div_eq_of_lt (by omega)]
      rfl
    next large =>
      have reached : k * 2 ≤ k * (2 * (n / 2)) := Nat.mul_le_mul_left k (by omega)
      have base : Narrow (q ^ k) := narrow.pow_of_le (by omega)
      have square : Narrow (q ^ (k * 2)) := narrow.pow_of_le (by omega)
      have squared : mul? (q ^ k) (q ^ k) = some (q ^ (k * 2)) := by
        rw [mul?_eq base base, ← pow_add, Nat.mul_two]
      rw [squared]
      rcases Nat.mod_two_eq_zero_or_one (n / 2) with even | odd
      · have exponent : i + k * (2 * (n / 2)) = i + k * 2 * (2 * (n / 2 / 2)) := by
          rw [Nat.mul_div_cancel' (Nat.dvd_of_mod_eq_zero even), Nat.mul_assoc]
        rw [exponent] at narrow ⊢
        simp only [even, zero_ne_one, if_false, Option.bind_eq_bind, Option.bind_some]
        exact ih (n / 2) (by omega) narrow
      · have exponent : i + k * (2 * (n / 2)) = i + k * 2 + k * 2 * (2 * (n / 2 / 2)) := by
          conv_lhs => rw [← Nat.div_add_mod (n / 2) 2, odd]
          ring
        have product : mul? (q ^ i) (q ^ (k * 2)) = some (q ^ (i + k * 2)) := by
          rw [mul?_eq (narrow.pow_of_le (by omega)) square, ← pow_add]
        rw [exponent] at narrow ⊢
        simp only [odd, if_true, product, Option.bind_eq_bind, Option.bind_some]
        exact ih (n / 2) (by omega) narrow

/-- A power that is narrow is formed from narrow powers. -/
theorem pow?_eq {q : ℚ} {n : Nat} (narrow : Narrow (q ^ n)) : pow? q n = some (q ^ n) := by
  induction n using Nat.strongRecOn generalizing q with
  | ind n ih =>
    rw [pow?]
    split_ifs with zero even
    · rw [zero, pow_zero]
    · have base : Narrow q := narrow.of_pow zero
      have halves : q ^ n = (q * q) ^ (n / 2) := by
        rw [← pow_two, ← pow_mul, Nat.mul_div_cancel' (Nat.dvd_of_mod_eq_zero even)]
      rw [mul?_eq base base, Option.bind_eq_bind, Option.bind_some, halves]
      rw [halves] at narrow
      exact ih (n / 2) (by omega) narrow
    · have bits : n = 1 + 1 * (2 * (n / 2)) := by omega
      rw [bits] at narrow
      have accumulated := accumulate?_eq narrow
      rwa [← bits, pow_one] at accumulated

end WideRatio

namespace Number
variable {x y : Number} {p q : ℚ}

theorem narrow_of_toRat? (stored : x.toRat? = some q) : Narrow q :=
  ⟨(fits_of_toRat? stored).1, (fits_of_toRat? stored).2⟩

theorem combine_eq {exact : Rat → Rat → Option Rat} {rounded : Float → Float → Float} {r : ℚ}
    (hx : x.toRat? = some p) (hy : y.toRat? = some q) (computed : exact p q = some r) :
    combine exact rounded x y = ofRat r := by
  simp only [combine, hx, hy, computed, Option.map_some, Option.getD_some]

theorem add_eq (hx : x.toRat? = some p) (hy : y.toRat? = some q) : x + y = ofRat (p + q) :=
  combine_eq hx hy (WideRatio.add?_eq (narrow_of_toRat? hx) (narrow_of_toRat? hy))

theorem sub_eq (hx : x.toRat? = some p) (hy : y.toRat? = some q) : x - y = ofRat (p - q) :=
  combine_eq hx hy (WideRatio.sub?_eq (narrow_of_toRat? hx) (narrow_of_toRat? hy))

theorem mul_eq (hx : x.toRat? = some p) (hy : y.toRat? = some q) : x * y = ofRat (p * q) :=
  combine_eq hx hy (WideRatio.mul?_eq (narrow_of_toRat? hx) (narrow_of_toRat? hy))

theorem neg_eq (stored : x.toRat? = some q) : -x = ofRat (-q) := by
  have computed := WideRatio.sub?_eq (narrow_of_toRat? toRat?_zero) (narrow_of_toRat? stored)
  rw [zero_sub] at computed
  change combine WideRatio.sub? (fun _ x => -x) 0 x = ofRat (-q)
  exact combine_eq toRat?_zero stored computed

theorem div_eq (hx : x.toRat? = some p) (hy : y.toRat? = some q) (nonzero : q ≠ 0) :
    x.div y = .ok (ofRat (p / q)) := by
  rw [div, if_neg fun zero => nonzero ((isZero_iff hy).mp zero)]
  exact congrArg _ (combine_eq hx hy
    (WideRatio.div?_eq (narrow_of_toRat? hx) (narrow_of_toRat? hy) nonzero))

theorem reciprocal_eq (stored : x.toRat? = some q) (nonzero : q ≠ 0) :
    x.reciprocal = .ok (ofRat q⁻¹) := by
  rw [reciprocal, div_eq toRat?_one stored nonzero, one_div]

theorem IsExact.zero_add_eq (exact : x.IsExact) : 0 + x = x := by
  obtain ⟨q, stored⟩ := exact.exists
  rw [add_eq toRat?_zero stored, zero_add, ofRat_toRat? stored]

theorem IsExact.add_zero_eq (exact : x.IsExact) : x + 0 = x := by
  obtain ⟨q, stored⟩ := exact.exists
  rw [add_eq stored toRat?_zero, add_zero, ofRat_toRat? stored]

theorem IsExact.zero_mul_eq (exact : x.IsExact) : 0 * x = 0 := by
  obtain ⟨q, stored⟩ := exact.exists
  rw [mul_eq toRat?_zero stored, zero_mul, ofRat_toRat? toRat?_zero]

theorem IsExact.mul_zero_eq (exact : x.IsExact) : x * 0 = 0 := by
  obtain ⟨q, stored⟩ := exact.exists
  rw [mul_eq stored toRat?_zero, mul_zero, ofRat_toRat? toRat?_zero]

theorem IsExact.eq_zero (exact : x.IsExact) (zero : x.isZero = true) : x = 0 := by
  obtain ⟨q, stored⟩ := exact.exists
  rw [(isZero_iff stored).mp zero] at stored
  exact toRat?_inj stored toRat?_zero

theorem isZero_sub_iff (exact : (x - y).IsExact) : (x - y).isZero = true ↔ x = y := by
  obtain ⟨r, stored⟩ := exact.exists
  obtain ⟨p, q, hp, hq, rfl⟩ := toRat?_sub stored
  rw [isZero_iff stored, sub_eq_zero]
  constructor
  · rintro rfl
    exact toRat?_inj hp hq
  · rintro rfl
    exact Option.some.inj (hp.symm.trans hq)

theorem toRat?_ofRat_of_narrow (narrow : Narrow q) : (ofRat q).toRat? = some q :=
  toRat?_ofRat_of_fits narrow.num narrow.den

theorem isExact_ofRat_iff : (ofRat q).IsExact ↔ Narrow q := by
  constructor
  · intro exact
    obtain ⟨r, stored⟩ := exact.exists
    rw [← toRat?_ofRat stored]
    exact narrow_of_toRat? stored
  · intro narrow
    exact isExact_of_toRat? (toRat?_ofRat_of_narrow narrow)

/-- A double makes a double of every sum. -/
theorem add_double (x : Number) (z : Float) : x + .double z = .double (x.toFloat + z) := by
  change combine _ _ x (.double z) = _
  unfold combine
  cases x <;> rfl

theorem ofRat_of_not_narrow (wide : ¬Narrow q) : ofRat q = .double (roundedRatio q) :=
  dif_neg fun fits => wide ⟨fits.1, fits.2⟩

/-- The lowest whole number and the fractions with this numerator have no exact opposite, but the
sum with what is stored instead is zero. -/
theorem toFloat_add_neg (stored : x.toRat? = some q) (lowest : q.num = -2 ^ 63) :
    (x.toFloat + roundedRatio (-q) == 0) = true := by
  cases x with
  | integer n =>
    cases stored
    rw [Rat.num_intCast] at lowest
    rw [toFloat, lowest]
    decide +kernel
  | fraction f =>
    cases stored
    exact roundedRatio_add_neg (Rat.num_neg.mp (by rw [lowest]; norm_num)) f.num_fits f.den_fits
  | double y => cases stored

end Number
end Schoolbook
