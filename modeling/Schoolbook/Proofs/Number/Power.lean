import Mathlib
import Schoolbook.Proofs.Diagnosis
import Schoolbook.Proofs.Number.Exact

/-! Powers and roots of exact numbers. An exact result is the true power; only one to any power is
exact without an exact exponent. -/
namespace Schoolbook

/-- A power with an exponent `p/q` in lowest terms is the `p`-th power of the `q`-th root, which is
not negative for even `q`. There is no power of zero but to positive exponents. -/
def IsPower (base : ℝ) (exponent : ℚ) (power : ℝ) : Prop :=
  (base ≠ 0 ∨ 0 < exponent) ∧ ∃ root : ℝ, root ^ exponent.den = base ∧
    (Even exponent.den → 0 ≤ root) ∧ power = root ^ exponent.num

namespace IsPower
variable {base power : ℝ} {exponent : ℚ}

theorem unique {other : ℝ} (left : IsPower base exponent power)
    (right : IsPower base exponent other) : power = other := by
  obtain ⟨-, r, hr, positive_r, rfl⟩ := left
  obtain ⟨-, s, hs, positive_s, rfl⟩ := right
  have roots : r = s := by
    rcases Nat.even_or_odd exponent.den with even | odd
    · exact (pow_left_inj₀ (positive_r even) (positive_s even) exponent.den_nz).mp (hr.trans hs.symm)
    · exact odd.pow_injective (hr.trans hs.symm)
  rw [roots]

theorem one (exponent : ℚ) : IsPower 1 exponent 1 :=
  ⟨.inl one_ne_zero, 1, one_pow _, fun _ => zero_le_one, (one_zpow _).symm⟩

theorem of_one (power_of_one : IsPower 1 exponent power) : power = 1 :=
  power_of_one.unique (one exponent)

theorem whole {n : ℤ} (defined : base ≠ 0 ∨ 0 < n) : IsPower base n (base ^ n) := by
  refine ⟨defined.imp_right Int.cast_pos.mpr, base, ?_, ?_, ?_⟩
  · rw [Rat.den_intCast, pow_one]
  · rw [Rat.den_intCast]
    exact fun even => absurd even (by decide)
  · rw [Rat.num_intCast]

theorem eq_pow {a r : ℚ} {n : Nat} (raised : IsPower a (n : ℚ) r) : r = a ^ n := by
  have defined : (a : ℝ) ≠ 0 ∨ 0 < (n : ℤ) := raised.1.imp_right Int.cast_pos.mp
  have same := raised.unique (.whole defined)
  rw [zpow_natCast] at same
  exact_mod_cast same

theorem of_zero (positive : 0 < exponent) : IsPower 0 exponent 0 :=
  ⟨.inr positive, 0, zero_pow exponent.den_nz, fun _ => le_rfl,
    (zero_zpow _ (Rat.num_pos.mpr positive).ne').symm⟩

end IsPower

namespace Number

theorem exactRoot?_eq_some {n degree root : Nat} (nonzero : degree ≠ 0)
    (found : exactRoot? n degree = some root) : root ^ degree = n := by
  unfold exactRoot? at found
  split at found
  next small =>
    cases found
    interval_cases n
    · exact zero_pow nonzero
    · exact one_pow degree
  next =>
    split at found
    next => cases found
    next =>
      dsimp only at found
      split at found
      next hit =>
        cases found
        exact hit
      next => cases found

theorem exactRatioRoot?_eq_some {q root : ℚ} {degree : Nat} (nonzero : degree ≠ 0)
    (real : q < 0 → ¬Even degree) (found : exactRatioRoot? q degree = some root) :
    root ^ degree = q ∧ (0 ≤ q → 0 ≤ root) := by
  obtain ⟨numerator, top, found⟩ := Option.bind_eq_some_iff.mp found
  obtain ⟨denominator, bottom, found⟩ := Option.bind_eq_some_iff.mp found
  cases found
  have top := exactRoot?_eq_some nonzero top
  have bottom := exactRoot?_eq_some nonzero bottom
  rw [Rat.mkRat_eq_div, div_pow, ← Nat.cast_pow, bottom]
  -- The sign is put back onto the root of the magnitude, so it has to come from an odd power.
  split_ifs with negative
  · have odd : Odd degree := Nat.not_even_iff_odd.mp (real (Rat.num_neg.mp negative))
    have sign : (-(numerator : ℤ)) ^ degree = q.num := by
      rw [odd.neg_pow, ← Nat.cast_pow, top, Int.ofNat_natAbs_of_nonpos negative.le, neg_neg]
    refine ⟨?_, fun positive => absurd (Rat.num_nonneg.mpr positive) (not_le.mpr negative)⟩
    rw [← Int.cast_pow, sign, Rat.num_div_den]
  · have sign : (numerator : ℤ) ^ degree = q.num := by
      rw [← Nat.cast_pow, top, Int.natAbs_of_nonneg (not_lt.mp negative)]
    refine ⟨by rw [← Int.cast_pow, sign, Rat.num_div_den], fun _ => ?_⟩
    exact div_nonneg (Int.cast_nonneg (Int.natCast_nonneg _)) (Nat.cast_nonneg _)

theorem powWhole_of_nonzero {base : Number} (nonzero : ¬base.isZero = true) (n : ℤ) :
    base.powWhole n = (if n < 0 then base.reciprocal else .ok base) >>= fun factor =>
      .ok (((factor.toRat?.bind fun q => WideRatio.pow? q n.natAbs).map ofRat).getD
        (.double (factor.toFloat.pow (Float.ofNat n.natAbs)))) := by
  rw [powWhole, if_neg nonzero]
  split_ifs <;> rfl

theorem toRat?_powWhole {base result : Number} {n : ℤ} {r : ℚ}
    (computed : base.powWhole n = .ok result) (stored : result.toRat? = some r) :
    ∃ b, base.toRat? = some b ∧ (b ≠ 0 ∨ 0 < n) ∧ r = b ^ n := by
  by_cases zero : base.isZero = true
  · unfold powWhole at computed
    rw [if_pos zero] at computed
    split_ifs at computed with positive whole
    cases computed
    obtain rfl := (isZero_iff stored).mp zero
    exact ⟨0, stored, .inr positive, (zero_zpow n positive.ne').symm⟩
  · rw [powWhole_of_nonzero zero] at computed
    obtain ⟨factor, inverted, computed⟩ := bind_eq_ok_iff.mp computed
    cases computed
    have multiplied : ∃ f, factor.toRat? = some f ∧ r = f ^ n.natAbs := by
      cases raised : factor.toRat?.bind fun q => WideRatio.pow? q n.natAbs with
      | none =>
        rw [raised] at stored
        cases stored
      | some s =>
        obtain ⟨f, hf, power⟩ := Option.bind_eq_some_iff.mp raised
        rw [raised, Option.map_some, Option.getD_some] at stored
        exact ⟨f, hf, (toRat?_ofRat stored).trans (WideRatio.pow?_eq_some power)⟩
    obtain ⟨f, hf, rfl⟩ := multiplied
    -- A negative exponent raises the reciprocal, which is exact only where the base is.
    split_ifs at inverted with negative
    · obtain ⟨one, b, h₁, hb, b_nonzero, rfl⟩ := toRat?_div inverted hf
      cases toRat?_one.symm.trans h₁
      refine ⟨b, hb, .inl b_nonzero, ?_⟩
      rw [one_div, inv_pow, ← zpow_natCast, Int.ofNat_natAbs_of_nonpos negative.le, zpow_neg, inv_inv]
    · cases inverted
      refine ⟨f, hf, .inl fun none => zero ((isZero_iff hf).mpr none), ?_⟩
      rw [← zpow_natCast, Int.natAbs_of_nonneg (not_lt.mp negative)]

/-- The ways to a power with a fraction as its exponent. -/
inductive FractionalPower (base : Number) (exponent : ℚ) :
    Except ArithmeticFault Number → Prop where
  | zero : base.isZero = true → 0 < exponent → FractionalPower base exponent (.ok base)
  | pole : base.isZero = true → ¬0 < exponent →
      FractionalPower base exponent (.error .divisionByZero)
  | nonReal : base.isNegative = true → Even exponent.den →
      FractionalPower base exponent (.error .nonReal)
  | root {b root : ℚ} : base.isZero ≠ true → base.toRat? = some b →
      (b < 0 → ¬Even exponent.den) → exactRatioRoot? b exponent.den = some root →
        FractionalPower base exponent ((ofRat root).powWhole exponent.num)
  | rounded : (base.isNegative = true → ¬Even exponent.den) →
      FractionalPower base exponent (.ok (.double
        (if base.isNegative ∧ exponent.num % 2 ≠ 0 then -roundedPower base.abs.toFloat exponent
        else roundedPower base.abs.toFloat exponent)))

theorem fractionalPower_powFraction (base : Number) (exponent : ℚ) :
    FractionalPower base exponent (base.powFraction exponent) := by
  unfold powFraction
  split
  next zero =>
    split
    next positive => exact .zero zero (Rat.num_pos.mp positive)
    next negative => exact .pole zero fun positive => negative (Rat.num_pos.mpr positive)
  next nonzero =>
    split
    next unreal => exact .nonReal unreal.1 (Nat.even_iff.mpr unreal.2)
    next real =>
      have odd (negative : base.isNegative = true) : ¬Even exponent.den := fun even =>
        real ⟨negative, Nat.even_iff.mp even⟩
      dsimp only
      split
      next root found =>
        split_ifs at found
        obtain ⟨b, stored, found⟩ := Option.bind_eq_some_iff.mp found
        exact .root nonzero stored (fun below => odd ((isNegative_iff stored).mpr below)) found
      next => exact .rounded odd

theorem toRat?_powFraction {base result : Number} {exponent r : ℚ}
    (computed : base.powFraction exponent = .ok result) (stored : result.toRat? = some r) :
    ∃ b, base.toRat? = some b ∧ IsPower b exponent r := by
  have way := fractionalPower_powFraction base exponent
  generalize base.powFraction exponent = outcome at way computed
  cases way with
  | zero zero positive =>
    cases computed
    obtain rfl := (isZero_iff stored).mp zero
    exact ⟨0, stored, by simpa using IsPower.of_zero positive⟩
  | pole => cases computed
  | nonReal => cases computed
  | @root b root nonzero hb odd found =>
    obtain ⟨power, sign⟩ := exactRatioRoot?_eq_some exponent.den_nz odd found
    obtain ⟨s, hs, -, rfl⟩ := toRat?_powWhole computed stored
    obtain rfl := toRat?_ofRat hs
    refine ⟨b, hb, .inl ?_, s, ?_, fun even => ?_, ?_⟩
    · exact Rat.cast_ne_zero.mpr fun zero => nonzero ((isZero_iff hb).mpr zero)
    · rw [← power, Rat.cast_pow]
    · exact Rat.cast_nonneg.mpr (sign (not_lt.mp fun negative => odd negative even))
    · rw [Rat.cast_zpow]
  | rounded =>
    cases computed
    cases stored

/-- A power that may turn out not to be finite. -/
def anyPow (base : Number) : Number → Except ArithmeticFault Number
  | .integer n => base.powWhole n.toInt
  | .fraction q => base.powFraction q.value
  | .double x => powDouble base.toFloat x

def realOnly (result : Number) : Except ArithmeticFault Number :=
  match result with
  | .double x => if x.isFinite then .ok result else .error .nonReal
  | _ => .ok result

theorem pow_of_ne_one {base : Number} (other : base ≠ 1) (exponent : Number) :
    base.pow exponent = base.anyPow exponent >>= realOnly := by
  rw [pow, if_neg other]
  cases exponent <;> rfl

/-- Whether the value is no infinity and no NaN. -/
def IsFinite (x : Number) : Prop := ∀ y, x = .double y → y.isFinite = true

theorem IsExact.isFinite {x : Number} (exact : x.IsExact) : x.IsFinite := by
  rintro y rfl
  cases exact

theorem isFinite_double {y : Float} : (double y).IsFinite ↔ y.isFinite = true := by
  simp [IsFinite]

theorem realOnly_eq_ok_iff {x y : Number} : x.realOnly = .ok y ↔ x = y ∧ x.IsFinite := by
  cases x with
  | double z =>
    rw [realOnly, isFinite_double]
    split_ifs with finite <;> simp [finite]
  | integer n => simp [realOnly, IsFinite]
  | fraction f => simp [realOnly, IsFinite]

theorem toRat?_powDouble {base exponent : Float} {result : Number}
    (computed : powDouble base exponent = .ok result) : result.toRat? = none := by
  unfold powDouble at computed
  split at computed
  next =>
    split at computed
    next =>
      cases computed
      rfl
    next => split at computed <;> cases computed
  next =>
    split at computed <;> cases computed
    rfl

theorem toRat?_pow {base exponent result : Number} {r : ℚ}
    (computed : base.pow exponent = .ok result) (stored : result.toRat? = some r) :
    base = 1 ∧ result = 1 ∨
      ∃ b y, base.toRat? = some b ∧ exponent.toRat? = some y ∧ IsPower b y r := by
  by_cases one : base = 1
  · rw [pow, if_pos one] at computed
    cases computed
    exact .inl ⟨one, rfl⟩
  · rw [pow_of_ne_one one] at computed
    obtain ⟨power, raised, finite⟩ := bind_eq_ok_iff.mp computed
    obtain ⟨rfl, -⟩ := realOnly_eq_ok_iff.mp finite
    refine .inr ?_
    cases exponent with
    | integer n =>
      obtain ⟨b, hb, defined, rfl⟩ := toRat?_powWhole raised stored
      refine ⟨b, n.toInt, hb, rfl, ?_⟩
      rw [Rat.cast_zpow]
      exact .whole (defined.imp_left Rat.cast_ne_zero.mpr)
    | fraction y =>
      obtain ⟨b, hb, power⟩ := toRat?_powFraction raised stored
      exact ⟨b, y.value, hb, rfl, power⟩
    | double x =>
      rw [toRat?_powDouble raised] at stored
      cases stored

theorem half_parts : (mkRat 1 2).num = 1 ∧ (mkRat 1 2).den = 2 := by decide +kernel

theorem toRat?_sqrt {a result : Number} {r : ℚ} (computed : a.sqrt = .ok result)
    (stored : result.toRat? = some r) : ∃ b, a.toRat? = some b ∧ 0 ≤ r ∧ r * r = b := by
  unfold sqrt at computed
  split at computed
  next => cases computed
  next =>
    split at computed
    next =>
      cases computed
      cases stored
    next =>
      obtain ⟨b, hb, -, root, power, sign, value⟩ := toRat?_powFraction computed stored
      rw [half_parts.2] at power sign
      rw [half_parts.1, zpow_one] at value
      subst value
      refine ⟨b, hb, Rat.cast_nonneg.mp (sign even_two), ?_⟩
      rw [pow_two] at power
      exact_mod_cast power

end Number
end Schoolbook
