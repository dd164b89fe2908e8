import Mathlib
import Schoolbook.Proofs.Number.Power
import Schoolbook.Proofs.Number.Wide

/-! Powers that stay exact. A root that is a whole number is always found, and so is the root of a
ratio; a power whose parts fit the word is then formed without rounding. -/
namespace Schoolbook

/-- All high powers but those of one and minus one are too wide. -/
theorem Narrow.pow_eq_one_or_neg_one {q : ℚ} {n : Nat} (narrow : Narrow (q ^ n)) (nonzero : q ≠ 0)
    (high : 64 ≤ n) : q ^ n = 1 ∨ q ^ n = -1 := by
  have unit {i : Nat} (bound : i ^ n ≤ 2 ^ 63) : i ≤ 1 := by
    by_contra large
    have grown : 2 ^ 64 ≤ i ^ n :=
      calc 2 ^ 64 ≤ 2 ^ n := Nat.pow_le_pow_right two_pos high
        _ ≤ i ^ n := Nat.pow_le_pow_left (by omega) n
    omega
  have num := narrow.natAbs_num_le
  have den := narrow.den_le
  rw [Rat.num_pow, Int.natAbs_pow] at num
  rw [Rat.den_pow] at den
  have whole : q.den = 1 := le_antisymm (unit (by omega)) q.den_pos
  have numerator := unit num
  have positive : q.num ≠ 0 := Rat.num_ne_zero.mpr nonzero
  rw [← Rat.coe_int_num_of_den_eq_one whole]
  rcases (by omega : q.num = 1 ∨ q.num = -1) with one | one
  · exact .inl (by rw [one, Int.cast_one, one_pow])
  · rw [one, Int.cast_neg, Int.cast_one]
    exact neg_one_pow_eq_or ℚ n

/-- The root of a rational power is rational too, because its exponent is in lowest terms. -/
theorem IsPower.exists_root {b y r : ℚ} (power : IsPower b y r) (nonzero : b ≠ 0) :
    ∃ root : ℚ, root ^ y.den = b ∧ (Even y.den → 0 ≤ root) ∧ r = root ^ y.num := by
  obtain ⟨-, root, base, sign, value⟩ := power
  have root_nonzero : root ≠ 0 := by
    rintro rfl
    rw [zero_pow y.den_nz] at base
    exact nonzero (Rat.cast_eq_zero.mp base.symm)
  obtain ⟨u, v, bezout⟩ : IsCoprime y.num y.den := Int.isCoprime_iff_nat_coprime.mpr y.reduced
  have rational : root = ((r ^ u * b ^ v : ℚ) : ℝ) := by
    calc root = root ^ (u * y.num + v * y.den) := by rw [bezout, zpow_one]
      _ = (root ^ y.num) ^ u * (root ^ y.den) ^ v := by
        rw [zpow_add₀ root_nonzero, mul_comm u, mul_comm v, zpow_mul, zpow_mul, zpow_natCast]
      _ = ((r ^ u * b ^ v : ℚ) : ℝ) := by
        rw [base, ← value, Rat.cast_mul, Rat.cast_zpow, Rat.cast_zpow]
  rw [rational] at base sign value
  exact ⟨r ^ u * b ^ v, by exact_mod_cast base, fun even => by exact_mod_cast sign even,
    by exact_mod_cast value⟩

namespace Number

theorem floorRootFrom_eq {degree root bits found : Nat} (nonzero : degree ≠ 0)
    (above : found ≤ root) (below : root < found + 2 ^ bits) :
    floorRootFrom degree (root ^ degree) bits found = root := by
  induction bits generalizing found with
  | zero =>
    rw [floorRootFrom]
    omega
  | succ bits ih =>
    rw [pow_succ] at below
    rw [floorRootFrom]
    split_ifs with reached
    · exact ih ((Nat.pow_le_pow_iff_left nonzero).mp reached) (by omega)
    · refine ih above (not_le.mp fun high => reached ?_)
      exact Nat.pow_le_pow_left high degree

theorem exactRoot?_pow {degree : Nat} (root : Nat) (nonzero : degree ≠ 0) :
    exactRoot? (root ^ degree) degree = some root := by
  unfold exactRoot?
  split
  next small =>
    rcases Nat.lt_or_ge root 2 with bit | large
    · interval_cases root
      · rw [zero_pow nonzero]
      · rw [one_pow]
    · have grown := Nat.pow_le_pow_left large degree
      have := Nat.one_lt_two_pow nonzero
      omega
  next large =>
    have two : 2 ≤ root := by
      by_contra bit
      have unit := Nat.pow_le_pow_left (show root ≤ 1 by omega) degree
      rw [one_pow] at unit
      omega
    have positive : root ^ degree ≠ 0 := by omega
    have long : degree ≤ (root ^ degree).log2 :=
      (Nat.le_log2 positive).mpr (Nat.pow_le_pow_left two degree)
    have below : root < 2 ^ ((root ^ degree).log2 / degree + 1) := by
      by_contra high
      have grown := Nat.pow_le_pow_left (not_lt.mp high) degree
      rw [← pow_mul] at grown
      have bits : (root ^ degree).log2 + 1 ≤ ((root ^ degree).log2 / degree + 1) * degree :=
        Nat.lt_div_mul_add (Nat.pos_of_ne_zero nonzero) |>.trans_eq (Nat.succ_mul _ _).symm
      exact absurd Nat.lt_log2_self
        (not_lt.mpr ((Nat.pow_le_pow_right two_pos bits).trans grown))
    rw [if_neg (not_lt.mpr long)]
    dsimp only
    rw [floorRootFrom_eq nonzero (Nat.zero_le _) (by rwa [Nat.zero_add]), if_pos rfl]

theorem exactRoot?_eq_some_iff {n degree root : Nat} (nonzero : degree ≠ 0) :
    exactRoot? n degree = some root ↔ root ^ degree = n := by
  constructor
  · exact exactRoot?_eq_some nonzero
  · rintro rfl
    exact exactRoot?_pow root nonzero

/-- The root of `n`, looked for at an estimate and at its two neighbours. -/
def rootNear? (estimate n degree : Nat) : Option Nat :=
  if n < 2 then some n
  else [estimate - 1, estimate, estimate + 1].find? fun root => root ^ degree = n

/-- With an estimate that is off by one at most, the three candidates contain every root. -/
theorem rootNear?_eq {estimate n degree : Nat} (nonzero : degree ≠ 0)
    (close : ∀ root, root ^ degree = n → estimate ≤ root + 1 ∧ root ≤ estimate + 1) :
    rootNear? estimate n degree = exactRoot? n degree := by
  by_cases small : n < 2
  · rw [rootNear?, exactRoot?, if_pos small, if_pos small]
  · rw [rootNear?, if_neg small]
    refine Option.ext fun root => ?_
    rw [exactRoot?_eq_some_iff nonzero]
    constructor
    · intro found
      simpa using List.find?_some found
    · intro power
      obtain ⟨low, high⟩ := close root power
      have hit : ∃ other ∈ [estimate - 1, estimate, estimate + 1],
          decide (other ^ degree = n) = true := by
        refine ⟨root, ?_, decide_eq_true power⟩
        simp only [List.mem_cons, List.not_mem_nil, or_false]
        omega
      obtain ⟨other, found⟩ := Option.isSome_iff_exists.mp (List.find?_isSome.mpr hit)
      have same : other ^ degree = n := by simpa using List.find?_some found
      rw [found, Nat.pow_left_injective nonzero (same.trans power.symm)]

theorem exactRatioRoot?_pow {root : ℚ} {degree : Nat} (nonzero : degree ≠ 0)
    (sign : Even degree → 0 ≤ root) : exactRatioRoot? (root ^ degree) degree = some root := by
  have magnitude : (root ^ degree).num.natAbs = root.num.natAbs ^ degree := by
    rw [Rat.num_pow, Int.natAbs_pow]
  have negative : (root ^ degree).num < 0 ↔ root.num < 0 := by
    rw [Rat.num_neg, Rat.num_neg]
    rcases Nat.even_or_odd degree with even | odd
    · exact iff_of_false (not_lt.mpr (even.pow_nonneg root)) (not_lt.mpr (sign even))
    · exact odd.pow_neg_iff
  have numerator :
      (if root.num < 0 then -(root.num.natAbs : ℤ) else root.num.natAbs) = root.num := by
    split_ifs <;> omega
  rw [exactRatioRoot?, magnitude, exactRoot?_pow _ nonzero, Rat.den_pow, exactRoot?_pow _ nonzero]
  simp only [negative, Option.bind_eq_bind, Option.bind_some, numerator, Rat.mkRat_self]
  rfl

variable {base exponent : Number} {b y r : ℚ}

theorem raised_eq {m : Nat} {rounded : Number} (stored : base.toRat? = some b)
    (narrow : Narrow (b ^ m)) :
    ((base.toRat?.bind fun q => WideRatio.pow? q m).map ofRat).getD rounded = ofRat (b ^ m) := by
  rw [stored, Option.bind_some, WideRatio.pow?_eq narrow, Option.map_some, Option.getD_some]

/-- A whole power is exact if it is narrow, and so is the reciprocal that it is a power of. -/
theorem powWhole_eq {n : ℤ} (stored : base.toRat? = some b) (defined : b ≠ 0 ∨ 0 < n)
    (narrow : Narrow (b ^ n)) : base.powWhole n = .ok (ofRat (b ^ n)) := by
  by_cases zero : b = 0
  · have positive : 0 < n := defined.resolve_left (not_not.mpr zero)
    rw [powWhole, if_pos ((isZero_iff stored).mpr zero), if_pos positive, ← ofRat_toRat? stored,
      zero, zero_zpow n positive.ne']
  · rw [powWhole_of_nonzero (mt (isZero_iff stored).mp zero)]
    split_ifs with negative
    · have inverse : b ^ n = b⁻¹ ^ n.natAbs := by
        rw [inv_pow, ← zpow_natCast, Int.ofNat_natAbs_of_nonpos negative.le, zpow_neg, inv_inv]
      rw [inverse] at narrow ⊢
      have factor : Narrow b⁻¹ := narrow.of_pow (Int.natAbs_ne_zero.mpr negative.ne)
      rw [reciprocal_eq stored zero]
      exact congrArg Except.ok (raised_eq (toRat?_ofRat_of_narrow factor) narrow)
    · have same : b ^ n = b ^ n.natAbs := by
        rw [← zpow_natCast, Int.natAbs_of_nonneg (not_lt.mp negative)]
      rw [same] at narrow ⊢
      exact congrArg Except.ok (raised_eq stored narrow)

theorem powFraction_zero (stored : base.toRat? = some 0) (power : IsPower (0 : ℚ) y r) :
    base.powFraction y = .ok (ofRat r) := by
  rw [Rat.cast_zero] at power
  have positive : 0 < y := power.1.resolve_left (not_not.mpr rfl)
  have value : r = 0 := by exact_mod_cast power.unique (.of_zero positive)
  rw [powFraction, if_pos ((isZero_iff stored).mpr rfl), if_pos (Rat.num_pos.mpr positive), value,
    ofRat_toRat? stored]

theorem powFraction_eq (stored : base.toRat? = some b) (power : IsPower b y r) (narrow : Narrow r)
    (searched : y.den < UInt32.size) : base.powFraction y = .ok (ofRat r) := by
  by_cases nonzero : b = 0
  · subst nonzero
    exact powFraction_zero stored power
  obtain ⟨root, rfl, sign, rfl⟩ := power.exists_root nonzero
  have root_nonzero : root ≠ 0 := by
    rintro rfl
    exact nonzero (zero_pow y.den_nz)
  have real : ¬(base.isNegative = true ∧ y.den % 2 = 0) := by
    rintro ⟨negative, even⟩
    have even := Nat.even_iff.mpr even
    exact absurd ((isNegative_iff stored).mp negative) (not_lt.mpr (even.pow_nonneg root))
  have narrow_root : Narrow root := (narrow_of_toRat? stored).of_pow y.den_nz
  rw [powFraction, if_neg (mt (isZero_iff stored).mp nonzero), if_neg real]
  simp only [if_pos searched, stored, Option.bind_some, exactRatioRoot?_pow y.den_nz sign]
  exact powWhole_eq (toRat?_ofRat_of_narrow narrow_root) (.inl root_nonzero) narrow

theorem isFinite_ofRat (narrow : Narrow r) : (ofRat r).IsFinite :=
  (isExact_ofRat_iff.mpr narrow).isFinite

/-- Beyond the degrees of the search all powers are rounded. -/
theorem toRat?_powFraction_of_wide {v : Number} (nonzero : ¬base.isZero = true)
    (wide : UInt32.size ≤ y.den) (computed : base.powFraction y = .ok v) : v.toRat? = none := by
  rw [powFraction, if_neg nonzero] at computed
  split at computed
  next => cases computed
  next =>
    simp only [if_neg (not_lt.mpr wide)] at computed
    cases computed
    rfl

theorem toRat?_pow_of_wide {f : Fraction} {v : Number} (stored : base.toRat? = some (-1))
    (wide : UInt32.size ≤ f.value.den) (computed : base.pow (.fraction f) = .ok v) :
    v.toRat? = none := by
  have other : base ≠ 1 := by
    rintro rfl
    exact absurd (Option.some.inj (stored.symm.trans toRat?_one)) (by norm_num)
  have nonzero : ¬base.isZero = true := mt (isZero_iff stored).mp (by norm_num)
  rw [pow_of_ne_one other] at computed
  obtain ⟨power, raised, finite⟩ := bind_eq_ok_iff.mp computed
  obtain ⟨rfl, -⟩ := realOnly_eq_ok_iff.mp finite
  exact toRat?_powFraction_of_wide nonzero wide raised

/-- A narrow power of an exact number is exact. Of the numbers that have roots of degrees beyond the
search, only minus one is not one. -/
theorem pow_eq (hb : base.toRat? = some b) (hy : exponent.toRat? = some y) (power : IsPower b y r)
    (narrow : Narrow r) (searched : y.den < UInt32.size ∨ b ≠ -1) :
    base.pow exponent = .ok (ofRat r) := by
  by_cases one : base = 1
  · subst one
    cases hb.symm.trans toRat?_one
    rw [Rat.cast_one] at power
    have value : r = 1 := by exact_mod_cast power.of_one
    rw [pow, if_pos rfl, value, ofRat_toRat? toRat?_one]
  have raised : base.anyPow exponent = .ok (ofRat r) := by
    cases exponent with
    | integer n =>
      cases hy
      have defined : b ≠ 0 ∨ 0 < n.toInt := power.1.imp Rat.cast_ne_zero.mp Int.cast_pos.mp
      have value : r = b ^ n.toInt := by
        have same := power.unique (.whole (power.1.imp_right Int.cast_pos.mp))
        exact_mod_cast same
      subst value
      exact powWhole_eq hb defined narrow
    | fraction f =>
      cases hy
      rcases Nat.lt_or_ge f.value.den UInt32.size with small | wide
      · exact powFraction_eq hb power narrow small
      · by_cases zero : b = 0
        · subst zero
          exact powFraction_zero hb power
        exfalso
        obtain ⟨root, rfl, -, -⟩ := power.exists_root zero
        have root_nonzero : root ≠ 0 := by
          rintro rfl
          exact zero (zero_pow f.value.den_nz)
        have high : 64 ≤ f.value.den := le_trans (by decide) wide
        rcases (narrow_of_toRat? hb).pow_eq_one_or_neg_one root_nonzero high with unit | unit
        · exact one (toRat?_inj (hb.trans (congrArg some unit)) toRat?_one)
        · exact searched.elim (not_lt.mpr wide) (fun other => other unit)
    | double x => cases hy
  rw [pow_of_ne_one one, raised]
  exact realOnly_eq_ok_iff.mpr ⟨rfl, isFinite_ofRat narrow⟩

/-- Roots of whole numbers are found next to every estimate that is off by one at most. The power
of an exact number with a rational root is exact and the true one if its parts fit the word, except
that minus one is not raised exactly to fractions with a denominator beyond 32 bits. -/
theorem powers_with_rational_root {f : Fraction} {root : ℚ} {estimate : Nat → Nat → Nat}
    (stored : base.toRat? = some b) (nonzero : b ≠ 0) (power : root ^ f.value.den = b)
    (sign : Even f.value.den → 0 ≤ root) (narrow : Narrow (root ^ f.value.num))
    (close : ∀ r degree, 0 < degree → degree < UInt32.size → r ^ degree ≤ 2 ^ 63 →
      estimate (r ^ degree) degree ≤ r + 1 ∧ r ≤ estimate (r ^ degree) degree + 1) :
    (f.value.den < UInt32.size → ∀ n ∈ [b.num.natAbs, b.den],
      rootNear? (estimate n f.value.den) n f.value.den = exactRoot? n f.value.den) ∧
    ((∃ v, base.pow (.fraction f) = .ok v ∧ v.toRat? = some (root ^ f.value.num)) ↔
      f.value.den < UInt32.size ∨ b ≠ -1) := by
  have fits := narrow_of_toRat? stored
  refine ⟨fun small n part => ?_, ?_, fun searched => ?_⟩
  · refine rootNear?_eq f.value.den_nz fun r same => ?_
    subst same
    refine close r f.value.den f.value.den_pos small ?_
    have num := fits.natAbs_num_le
    have den := fits.den_le
    simp only [List.mem_cons, List.not_mem_nil, or_false] at part
    omega
  · rintro ⟨v, computed, exact⟩
    by_contra wide
    rw [not_or, not_lt, not_not] at wide
    rw [toRat?_pow_of_wide (wide.2 ▸ stored) wide.1 computed] at exact
    cases exact
  · refine ⟨_, pow_eq stored rfl ⟨?_, root, ?_, ?_, ?_⟩ narrow searched,
      toRat?_ofRat_of_narrow narrow⟩
    · exact .inl (Rat.cast_ne_zero.mpr nonzero)
    · rw [← power, Rat.cast_pow]
    · exact fun even => Rat.cast_nonneg.mpr (sign even)
    · rw [Rat.cast_zpow]

/-- The power is `(-8/27)^(-2/3)`, the square of the reciprocal of `-2/3`. -/
theorem powers_with_rational_root_cube :
    ∃ f : Fraction, f.value = -2 / 3 ∧
      ∃ v, (ofRat (-8 / 27)).pow (.fraction f) = .ok v ∧ v.toRat? = some (9 / 4) := by
  let f : Fraction := ⟨-2 / 3, by decide +kernel, by decide +kernel, by decide +kernel⟩
  let estimate (n degree : Nat) : Nat := (exactRoot? n degree).getD 0
  have den : f.value.den = 3 := by decide +kernel
  have num : f.value.num = -2 := by decide +kernel
  have stored : (ofRat (-8 / 27)).toRat? = some (-8 / 27) := by decide +kernel
  have power : (-2 / 3 : ℚ) ^ f.value.den = -8 / 27 := by
    rw [den]
    norm_num
  have value : (-2 / 3 : ℚ) ^ f.value.num = 9 / 4 := by
    rw [num]
    norm_num
  have sign : Even f.value.den → (0 : ℚ) ≤ -2 / 3 := by
    rw [den]
    exact fun even => absurd even (by decide)
  have narrow : Narrow ((-2 / 3 : ℚ) ^ f.value.num) := by
    rw [value]
    exact ⟨by decide +kernel, by decide +kernel⟩
  have close : ∀ r degree, 0 < degree → degree < UInt32.size → r ^ degree ≤ 2 ^ 63 →
      estimate (r ^ degree) degree ≤ r + 1 ∧ r ≤ estimate (r ^ degree) degree + 1 := by
    intro r degree positive _ _
    have exact : estimate (r ^ degree) degree = r := by
      simp only [estimate, exactRoot?_pow r positive.ne', Option.getD_some]
    omega
  obtain ⟨-, exact⟩ := powers_with_rational_root stored (by norm_num) power sign narrow close
  rw [value] at exact
  exact ⟨f, rfl, exact.mpr (.inl (by rw [den]; decide))⟩

/-- The root of minus one of an odd degree is minus one, but of this degree it is not looked for. -/
theorem minus_one_has_rounded_power :
    ∃ f : Fraction, f.value = 1 / 4294967297 ∧ (-1 : ℚ) ^ f.value.den = -1 ∧
      (-1 : ℚ) ^ f.value.num = -1 ∧
        ∀ v, (integer (-1)).pow (.fraction f) = .ok v → v.toRat? = none := by
  let f : Fraction := ⟨1 / 4294967297, by decide +kernel, by decide +kernel, by decide +kernel⟩
  have den : f.value.den = 4294967297 := by decide +kernel
  have num : f.value.num = 1 := by decide +kernel
  refine ⟨f, rfl, ?_, ?_, fun v => ?_⟩
  · rw [den]
    exact Odd.neg_one_pow (by decide)
  · rw [num, zpow_one]
  · refine toRat?_pow_of_wide (by decide +kernel) ?_
    rw [den]
    decide

end Number
end Schoolbook
