import Mathlib
import Schoolbook.Number.Power

/-! Numbers that are stored exactly. Where an operation has an exact result, its operands are
exact too and the result is the true one: once a double takes part, only doubles follow. -/
namespace Schoolbook

namespace WideRatio

private theorem mkRat_scaled (q : Rat) {common : Nat} (divides : q.den ∣ common)
    (nonzero : common ≠ 0) : mkRat ((common / q.den : Nat) * q.num) common = q := by
  obtain ⟨factor, rfl⟩ := divides
  have factor_nonzero : factor ≠ 0 := by rintro rfl; simp at nonzero
  rw [Nat.mul_div_cancel_left _ q.den_pos, Nat.mul_comm, Rat.mkRat_mul_left factor_nonzero,
    Rat.mkRat_self]

theorem combine?_eq_some {op : Int → Int → Int} {a b r : Rat} (computed : combine? op a b = some r) :
    ∃ (left right : Int) (common : Nat), mkRat left common = a ∧ mkRat right common = b ∧
      r = mkRat (op left right) common := by
  simp only [combine?, Option.ite_none_right_eq_some, Option.some.injEq] at computed
  obtain ⟨-, rfl⟩ := computed
  have least : a.den / a.den.gcd b.den * b.den = a.den.lcm b.den :=
    Nat.div_mul_right_comm (Nat.gcd_dvd_left _ _) _
  have nonzero : a.den.lcm b.den ≠ 0 := Nat.lcm_ne_zero a.den_nz b.den_nz
  rw [least]
  exact ⟨_, _, _, mkRat_scaled a (Nat.dvd_lcm_left _ _) nonzero,
    mkRat_scaled b (Nat.dvd_lcm_right _ _) nonzero, rfl⟩

theorem add?_eq_some {a b r : Rat} (computed : add? a b = some r) : r = a + b := by
  obtain ⟨left, right, common, rfl, rfl, rfl⟩ := combine?_eq_some computed
  simp only [Rat.mkRat_eq_div, Int.cast_add, add_div]

theorem sub?_eq_some {a b r : Rat} (computed : sub? a b = some r) : r = a - b := by
  obtain ⟨left, right, common, rfl, rfl, rfl⟩ := combine?_eq_some computed
  simp only [Rat.mkRat_eq_div, Int.cast_sub, sub_div]

private theorem cast_num_div {n : Int} {factor : Nat} (divides : factor ∣ n.natAbs)
    (nonzero : factor ≠ 0) : ((n / factor : Int) : ℚ) = n / factor := by
  have factor_cast : ((factor : Int) : ℚ) ≠ 0 := by simpa using nonzero
  rw [Int.cast_div (Int.natCast_dvd.mpr divides) factor_cast, Int.cast_natCast]

private theorem cast_den_div {n factor : Nat} (divides : factor ∣ n) (nonzero : factor ≠ 0) :
    ((n / factor : Nat) : ℚ) = n / factor :=
  Nat.cast_div divides (Nat.cast_ne_zero.mpr nonzero)

/-- A common factor of a numerator and the other denominator does not change the product. -/
theorem mul?_eq_some {a b r : Rat} (computed : mul? a b = some r) : r = a * b := by
  simp only [mul?, Option.ite_none_right_eq_some, Option.some.injEq] at computed
  obtain ⟨-, rfl⟩ := computed
  have down_nonzero : a.num.natAbs.gcd b.den ≠ 0 := Nat.gcd_ne_zero_right b.den_nz
  have up_nonzero : a.den.gcd b.num.natAbs ≠ 0 := Nat.gcd_ne_zero_left a.den_nz
  have da : (a.den : ℚ) ≠ 0 := Nat.cast_ne_zero.mpr a.den_nz
  have db : (b.den : ℚ) ≠ 0 := Nat.cast_ne_zero.mpr b.den_nz
  have down_cast := Nat.cast_ne_zero (R := ℚ).mpr down_nonzero
  have up_cast := Nat.cast_ne_zero (R := ℚ).mpr up_nonzero
  conv_rhs => rw [← Rat.num_div_den a, ← Rat.num_div_den b]
  rw [Rat.mkRat_eq_div, Int.cast_mul, Nat.cast_mul,
    cast_num_div (Nat.gcd_dvd_left _ _) down_nonzero,
    cast_num_div (Nat.gcd_dvd_right _ _) up_nonzero, cast_den_div (Nat.gcd_dvd_left _ _) up_nonzero,
    cast_den_div (Nat.gcd_dvd_right _ _) down_nonzero]
  field_simp

private theorem quotientParts_div {a b : Rat} (nonzero : b ≠ 0) :
    ((quotientParts a b).1 : ℚ) / (quotientParts a b).2 = a / b := by
  have da : (a.den : ℚ) ≠ 0 := Nat.cast_ne_zero.mpr a.den_nz
  have db : (b.den : ℚ) ≠ 0 := Nat.cast_ne_zero.mpr b.den_nz
  have nb : (b.num : ℚ) ≠ 0 := Int.cast_ne_zero.mpr (Rat.num_ne_zero.mpr nonzero)
  conv_rhs => rw [← Rat.num_div_den a, ← Rat.num_div_den b]
  unfold quotientParts
  split_ifs with same_den same_num
  · rw [same_den]
    field_simp
  · rw [same_num]
    simp only [Int.cast_natCast]
    field_simp
  · have top_nonzero : a.num.natAbs.gcd b.num.natAbs ≠ 0 :=
      Nat.gcd_ne_zero_right (Int.natAbs_ne_zero.mpr (Rat.num_ne_zero.mpr nonzero))
    have bottom_nonzero : a.den.gcd b.den ≠ 0 := Nat.gcd_ne_zero_left a.den_nz
    have top_cast := Nat.cast_ne_zero (R := ℚ).mpr top_nonzero
    have bottom_cast := Nat.cast_ne_zero (R := ℚ).mpr bottom_nonzero
    dsimp only
    rw [Int.cast_mul, Int.cast_mul, cast_num_div (Nat.gcd_dvd_left _ _) top_nonzero,
      cast_num_div (Nat.gcd_dvd_right _ _) top_nonzero, Int.cast_natCast, Int.cast_natCast,
      cast_den_div (Nat.gcd_dvd_left _ _) bottom_nonzero,
      cast_den_div (Nat.gcd_dvd_right _ _) bottom_nonzero]
    field_simp

theorem div?_eq_some {a b r : Rat} (computed : div? a b = some r) : r = a / b := by
  simp only [div?] at computed
  split_ifs at computed with degenerate fits
  cases computed
  rw [Rat.divInt_eq_div, quotientParts_div (fun zero => degenerate (.inl zero))]

theorem accumulate?_eq_some {product base r : Rat} {n : Nat}
    (computed : accumulate? product base n = some r) : r = product * base ^ (2 * (n / 2)) := by
  -- The lowest bit of n is already in the product; those above it are the bits of n / 2.
  induction n using Nat.strongRecOn generalizing product base with
  | ind n ih =>
    rw [accumulate?] at computed
    split at computed
    next small =>
      cases computed
      rw [Nat.div_eq_of_lt (by omega)]
      simp
    next large =>
      have halve : 2 * (n / 2) = 2 * (n / 2 % 2) + 2 * (2 * (n / 2 / 2)) := by omega
      obtain ⟨square, squared, rest⟩ := Option.bind_eq_some_iff.mp computed
      have squared := mul?_eq_some squared
      split at rest
      next odd =>
        obtain ⟨next, multiplied, rest⟩ := Option.bind_eq_some_iff.mp rest
        rw [ih (n / 2) (by omega) rest, mul?_eq_some multiplied, squared, halve, odd]
        ring
      next even =>
        rw [ih (n / 2) (by omega) rest, squared, halve, Nat.mod_two_ne_one.mp even]
        ring

theorem pow?_eq_some {base r : Rat} {n : Nat} (computed : pow? base n = some r) :
    r = base ^ n := by
  induction n using Nat.strongRecOn generalizing base with
  | ind n ih =>
    rw [pow?] at computed
    split_ifs at computed with zero even
    · cases computed
      rw [zero, pow_zero]
    · obtain ⟨square, squared, rest⟩ := Option.bind_eq_some_iff.mp computed
      rw [ih (n / 2) (by omega) rest, mul?_eq_some squared, ← pow_two, ← pow_mul]
      congr 1
      omega
    · rw [accumulate?_eq_some computed, ← pow_succ']
      congr 1
      omega

end WideRatio

namespace Number

/-- Whether the value is stored exactly. -/
def IsExact (x : Number) : Prop := x.toRat?.isSome = true

instance (x : Number) : Decidable x.IsExact := inferInstanceAs (Decidable (_ = true))

theorem isExact_of_toRat? {x : Number} {q : Rat} (stored : x.toRat? = some q) : x.IsExact := by
  rw [IsExact, stored, Option.isSome_some]

theorem IsExact.exists {x : Number} (exact : x.IsExact) : ∃ q, x.toRat? = some q :=
  Option.isSome_iff_exists.mp exact

/-- An exact value is stored in one form only. -/
theorem toRat?_inj {x y : Number} {q : Rat} (hx : x.toRat? = some q) (hy : y.toRat? = some q) :
    x = y := by
  have whole (n : Int64) (f : Fraction) (same : (n.toInt : Rat) = f.value) : False := by
    have den := congrArg Rat.den same
    rw [Rat.den_intCast] at den
    have := f.one_lt_den
    omega
  cases x <;> cases y <;> simp only [toRat?, Option.some.injEq, reduceCtorEq] at hx hy
  case integer.integer n m =>
    have same : (n.toInt : Rat) = m.toInt := hx.trans hy.symm
    rw [Int64.toInt_inj.mp (Int.cast_injective same)]
  case integer.fraction n f => exact (whole n f (hx.trans hy.symm)).elim
  case fraction.integer f n => exact (whole n f (hy.trans hx.symm)).elim
  case fraction.fraction f g =>
    obtain ⟨value, _, _, _⟩ := f
    obtain ⟨_, _, _, _⟩ := g
    simp only at hx hy
    subst hx
    subst hy
    rfl

@[simp] theorem toRat?_zero : (0 : Number).toRat? = some 0 := by
  change some ((0 : Int64).toInt : Rat) = some 0
  simp

@[simp] theorem toRat?_one : (1 : Number).toRat? = some 1 := by
  change some ((1 : Int64).toInt : Rat) = some 1
  simp

theorem isZero_iff {x : Number} {q : Rat} (stored : x.toRat? = some q) :
    x.isZero = true ↔ q = 0 := by
  cases x with
  | integer n =>
    cases stored
    rw [isZero, beq_iff_eq, ← Int64.toInt_inj, ← Int.cast_inj (α := ℚ)]
    simp
  | fraction f =>
    cases stored
    have nonzero : f.value ≠ 0 := by
      intro zero
      have := f.one_lt_den
      rw [zero] at this
      simp at this
    simp [isZero, nonzero]
  | double y => cases stored

theorem isNegative_iff {x : Number} {q : Rat} (stored : x.toRat? = some q) :
    x.isNegative = true ↔ q < 0 := by
  cases x with
  | integer n =>
    cases stored
    rw [isNegative, decide_eq_true_eq, Int64.lt_iff_toInt_lt, ← Int.cast_lt (R := ℚ)]
    simp
  | fraction f =>
    cases stored
    simp [isNegative]
  | double y => cases stored

private theorem toInt_ofInt_of_fits {i : Int} (fits : FitsWord 64 i) : (Int64.ofInt i).toInt = i := by
  have bounds : -2 ^ 63 ≤ i ∧ i < 2 ^ 63 := by simpa [FitsWord] using fits
  exact Int64.toInt_ofInt_of_le bounds.1 bounds.2

theorem toRat?_ofRat_of_fits {q : Rat} (num : FitsWord 64 q.num) (den : FitsWord 64 q.den) :
    (ofRat q).toRat? = some q := by
  unfold ofRat
  split_ifs with fits whole
  · rw [toRat?, toInt_ofInt_of_fits num, Rat.coe_int_num_of_den_eq_one whole]
  · rfl
  · exact (fits ⟨num, den⟩).elim

/-- Narrowing keeps the value or gives up on exactness. -/
theorem toRat?_ofRat {q r : Rat} (stored : (ofRat q).toRat? = some r) : r = q := by
  by_cases fits : FitsWord 64 q.num ∧ FitsWord 64 q.den
  · rw [toRat?_ofRat_of_fits fits.1 fits.2] at stored
    exact (Option.some.inj stored).symm
  · rw [ofRat, dif_neg fits] at stored
    cases stored

theorem fits_of_toRat? {x : Number} {q : ℚ} (stored : x.toRat? = some q) :
    FitsWord 64 q.num ∧ FitsWord 64 q.den := by
  cases x with
  | integer n =>
    cases stored
    have lower := n.le_toInt
    have upper := n.toInt_lt
    simp only [FitsWord, Rat.num_intCast, Rat.den_intCast]
    omega
  | fraction f =>
    cases stored
    exact ⟨f.num_fits, f.den_fits⟩
  | double y => cases stored

theorem ofRat_toRat? {x : Number} {q : Rat} (stored : x.toRat? = some q) : ofRat q = x := by
  obtain ⟨num, den⟩ := fits_of_toRat? stored
  exact toRat?_inj (toRat?_ofRat_of_fits num den) stored

theorem toRat?_combine {exact : Rat → Rat → Option Rat} {rounded : Float → Float → Float}
    {a b : Number} {r : Rat} (stored : (combine exact rounded a b).toRat? = some r) :
    ∃ p q, a.toRat? = some p ∧ b.toRat? = some q ∧ exact p q = some r := by
  unfold combine at stored
  split at stored
  next p q hp hq =>
    cases computed : exact p q with
    | none => simp [computed, toRat?] at stored
    | some s =>
      rw [computed, Option.map_some, Option.getD_some] at stored
      exact ⟨p, q, hp, hq, by rw [computed, toRat?_ofRat stored]⟩
  next => cases stored

theorem toRat?_add {a b : Number} {r : Rat} (stored : (a + b).toRat? = some r) :
    ∃ p q, a.toRat? = some p ∧ b.toRat? = some q ∧ r = p + q := by
  obtain ⟨p, q, hp, hq, computed⟩ := toRat?_combine stored
  exact ⟨p, q, hp, hq, WideRatio.add?_eq_some computed⟩

theorem toRat?_sub {a b : Number} {r : Rat} (stored : (a - b).toRat? = some r) :
    ∃ p q, a.toRat? = some p ∧ b.toRat? = some q ∧ r = p - q := by
  obtain ⟨p, q, hp, hq, computed⟩ := toRat?_combine stored
  exact ⟨p, q, hp, hq, WideRatio.sub?_eq_some computed⟩

theorem toRat?_mul {a b : Number} {r : Rat} (stored : (a * b).toRat? = some r) :
    ∃ p q, a.toRat? = some p ∧ b.toRat? = some q ∧ r = p * q := by
  obtain ⟨p, q, hp, hq, computed⟩ := toRat?_combine stored
  exact ⟨p, q, hp, hq, WideRatio.mul?_eq_some computed⟩

theorem toRat?_neg {a : Number} {r : Rat} (stored : (-a).toRat? = some r) :
    ∃ p, a.toRat? = some p ∧ r = -p := by
  change (combine WideRatio.sub? (fun _ x => -x) 0 a).toRat? = some r at stored
  obtain ⟨zero, p, hz, hp, computed⟩ := toRat?_combine stored
  have difference := WideRatio.sub?_eq_some computed
  rw [← Option.some.inj (toRat?_zero.symm.trans hz), zero_sub] at difference
  exact ⟨p, hp, difference⟩

theorem toRat?_div {a b c : Number} {r : Rat} (computed : a.div b = .ok c)
    (stored : c.toRat? = some r) :
    ∃ p q, a.toRat? = some p ∧ b.toRat? = some q ∧ q ≠ 0 ∧ r = p / q := by
  unfold div at computed
  split at computed
  next => cases computed
  next nonzero =>
    cases computed
    obtain ⟨p, q, hp, hq, divided⟩ := toRat?_combine stored
    exact ⟨p, q, hp, hq, fun zero => nonzero ((isZero_iff hq).mpr zero),
      WideRatio.div?_eq_some divided⟩

end Number
end Schoolbook
