import Mathlib
import Schoolbook.Proofs.Double.Rounding

/-! Rounding to a mantissa of full length takes the nearest one, so it keeps the order of the values
that are rounded and leaves alone those that need no more bits. -/
namespace Schoolbook.Double
open Float.Model Float.Model.UnpackedFloat

/-- The two bits after a mantissa tell on which side of the middle between it and the next one a
value lies. -/
inductive Approximates : ExtendedMantissa → ℚ → Prop
  | exact {m : Nat} {v : ℚ} (same : v = m) : Approximates ⟨m, false, false⟩ v
  | below {m : Nat} {v : ℚ} (more : m < v) (less : v < m + 1 / 2) : Approximates ⟨m, false, true⟩ v
  | middle {m : Nat} {v : ℚ} (same : v = m + 1 / 2) : Approximates ⟨m, true, false⟩ v
  | above {m : Nat} {v : ℚ} (more : m + 1 / 2 < v) (less : v < m + 1) : Approximates ⟨m, true, true⟩ v

private theorem shiftRightOne_even (n : Nat) (half rest : Bool) :
    ExtendedMantissa.shiftRightOne ⟨2 * n, half, rest⟩ = ⟨n, false, half || rest⟩ := by
  simp [ExtendedMantissa.shiftRightOne]

private theorem shiftRightOne_odd (n : Nat) (half rest : Bool) :
    ExtendedMantissa.shiftRightOne ⟨2 * n + 1, half, rest⟩ = ⟨n, true, half || rest⟩ := by
  have kept : (2 * n + 1) / 2 = n := by omega
  simp [ExtendedMantissa.shiftRightOne, kept, Nat.add_mod]

namespace Approximates
variable {em : ExtendedMantissa} {v : ℚ}

theorem bounds (close : Approximates em v) : (em.mantissa : ℚ) ≤ v ∧ v < em.mantissa + 1 := by
  cases close <;> constructor <;> dsimp only <;> linarith

/-- The last bit becomes the first of the two, which become one. -/
theorem shiftRightOne (close : Approximates em v) : Approximates em.shiftRightOne (v / 2) := by
  obtain ⟨m, half, rest⟩ := em
  obtain ⟨n, rfl | rfl⟩ := m.even_or_odd'
  · have cast : ((2 * n : ℕ) : ℚ) = 2 * n := by push_cast; rfl
    rw [shiftRightOne_even]
    cases close with
    | exact same => exact .exact (by linarith)
    | below more less => exact .below (by linarith) (by linarith)
    | middle same => exact .below (by linarith) (by linarith)
    | above more less => exact .below (by linarith) (by linarith)
  · have cast : ((2 * n + 1 : ℕ) : ℚ) = 2 * n + 1 := by push_cast; rfl
    rw [shiftRightOne_odd]
    cases close with
    | exact same => exact .middle (by linarith)
    | below more less => exact .above (by linarith) (by linarith)
    | middle same => exact .above (by linarith) (by linarith)
    | above more less => exact .above (by linarith) (by linarith)

theorem shiftRight (close : Approximates em v) (count : Nat) :
    Approximates (em >>> count) (v / 2 ^ count) := by
  change Approximates (count.repeat ExtendedMantissa.shiftRightOne em) _
  induction count with
  | zero => simpa [Nat.repeat] using close
  | succ count ih =>
    rw [pow_succ, ← div_div]
    exact ih.shiftRightOne

theorem nearest (close : Approximates em v) : |(em.roundedMantissa : ℚ) - v| ≤ 1 / 2 := by
  rw [abs_le]
  cases close with
  | @exact m v same =>
    have rounded : ExtendedMantissa.roundedMantissa ⟨m, false, false⟩ = m := rfl
    rw [rounded]
    constructor <;> linarith
  | @below m v more less =>
    have rounded : ExtendedMantissa.roundedMantissa ⟨m, false, true⟩ = m := rfl
    rw [rounded]
    constructor <;> linarith
  | @middle m v same =>
    have rounded : ExtendedMantissa.roundedMantissa ⟨m, true, false⟩ = m + m % 2 := rfl
    have parity : ((m % 2 : ℕ) : ℚ) = 0 ∨ ((m % 2 : ℕ) : ℚ) = 1 := by
      exact_mod_cast Nat.mod_two_eq_zero_or_one m
    rw [rounded, Nat.cast_add]
    rcases parity with even | odd <;> constructor <;> linarith
  | @above m v more less =>
    have rounded : ExtendedMantissa.roundedMantissa ⟨m, true, true⟩ = m + 1 := rfl
    rw [rounded, Nat.cast_add_one]
    constructor <;> linarith

end Approximates

theorem approximates_exact (mantissa : Nat) :
    Approximates (.ofMantissaAndAccuracy mantissa .exact) mantissa :=
  .exact rfl

theorem approximates_quotient (n : Nat) {d : Nat} (positive : 0 < d) :
    Approximates (.ofMantissaAndAccuracy (n / d) (accuracyOfFraction (n % d) d)) (n / d) := by
  have below : ((n % d : ℕ) : ℚ) < d := by exact_mod_cast Nat.mod_lt n positive
  have divisor : (0 : ℚ) < d := by exact_mod_cast positive
  have quotient : (n : ℚ) / d = (n / d : ℕ) + (n % d : ℕ) / (d : ℚ) := by
    rw [div_eq_iff divisor.ne', add_mul, div_mul_cancel₀ _ divisor.ne']
    exact_mod_cast (Nat.div_add_mod' n d).symm
  rw [quotient, accuracyOfFraction]
  split_ifs with none
  · exact .exact (by rw [none, Nat.cast_zero, zero_div, add_zero])
  · have some_rest : (0 : ℚ) < (n % d : ℕ) := by exact_mod_cast Nat.pos_of_ne_zero none
    cases side : compare (2 * (n % d)) d with
    | lt =>
      have less : (2 : ℚ) * (n % d : ℕ) < d := by exact_mod_cast compare_lt_iff_lt.mp side
      refine .below (by linarith [div_pos some_rest divisor]) ?_
      rw [add_lt_add_iff_left, div_lt_iff₀ divisor]
      linarith
    | eq =>
      have same : (2 : ℚ) * (n % d : ℕ) = d := by exact_mod_cast compare_eq_iff_eq.mp side
      refine .middle ?_
      rw [add_right_inj, div_eq_iff divisor.ne']
      linarith
    | gt =>
      have more : (d : ℚ) < 2 * (n % d : ℕ) := by exact_mod_cast compare_gt_iff_gt.mp side
      refine .above ?_ ?_
      · rw [add_lt_add_iff_left, lt_div_iff₀ divisor]
        linarith
      · rw [add_lt_add_iff_left, div_lt_one divisor]
        exact below

def signed : Sign → ℚ → ℚ
  | .negative, v => -v
  | .positive, v => v

theorem signed_div (sign : Sign) (v w : ℚ) : signed sign v / w = signed sign (v / w) := by
  cases sign with
  | negative => exact neg_div w v
  | positive => rfl

/-- Scaled so that it has as many bits before the point as a mantissa, a value is rounded to a
nearest integer. -/
def Rounds (v r : ℚ) : Prop :=
  ∃ (u : ℚ) (k t : ℤ), v = u * 2 ^ t ∧ r = k * 2 ^ t ∧ 2 ^ 52 ≤ |u| ∧ |u| < 2 ^ 53 ∧
    |(k : ℚ) - u| ≤ 1 / 2

theorem rounds_shortened {mantissa : Nat} {exponent : Int} {accuracy : Accuracy} {v : ℚ}
    (close : Approximates (.ofMantissaAndAccuracy mantissa accuracy) v) (long : 2 ^ 52 ≤ mantissa)
    (above : -1074 ≤ exponent) :
    Rounds (v * 2 ^ exponent)
      (shortened mantissa exponent accuracy * 2 ^ (exponent + excess mantissa exponent)) := by
  obtain ⟨dropped, full, kept⟩ := excess_of_long long above
  have scaled := close.shiftRight (excess mantissa exponent)
  obtain ⟨lower, upper⟩ := scaled.bounds
  have leading : (ExtendedMantissa.ofMantissaAndAccuracy mantissa accuracy >>>
      excess mantissa exponent).mantissa = mantissa / 2 ^ (mantissa.log2 - 52) := by
    rw [mantissa_shiftRight_ofMantissaAndAccuracy, dropped]
  rw [leading] at lower upper
  have full : (2 ^ 52 : ℚ) ≤ (mantissa / 2 ^ (mantissa.log2 - 52) : ℕ) := by exact_mod_cast full
  have kept : ((mantissa / 2 ^ (mantissa.log2 - 52) : ℕ) : ℚ) + 1 ≤ 2 ^ 53 := by exact_mod_cast kept
  have positive : 0 < v / 2 ^ excess mantissa exponent := by linarith
  refine ⟨v / 2 ^ excess mantissa exponent, shortened mantissa exponent accuracy, _, ?_, rfl, ?_, ?_,
    scaled.nearest⟩
  · rw [add_comm, zpow_add₀ two_ne_zero, zpow_natCast]
    field_simp
  · rw [abs_of_pos positive]
    linarith
  · rw [abs_of_pos positive]
    linarith

/-- The values of an exponent end where those of the next one start. -/
theorem scale_le {u w : ℚ} {t s : ℤ} (short : u ≤ 2 ^ 53) (long : 2 ^ 52 ≤ w) (lower : t < s) :
    u * 2 ^ t ≤ w * 2 ^ s := by
  calc u * 2 ^ t ≤ 2 ^ 53 * 2 ^ t := by gcongr
    _ = 2 ^ 52 * 2 ^ (t + 1) := by rw [zpow_add_one₀ two_ne_zero]; ring
    _ ≤ w * 2 ^ s := by gcongr; norm_num; omega

theorem scale_lt {u w : ℚ} {t s : ℤ} (short : u < 2 ^ 53) (long : 2 ^ 52 ≤ w) (lower : t < s) :
    u * 2 ^ t < w * 2 ^ s := by
  have below : u * 2 ^ t < 2 ^ 53 * 2 ^ t := by gcongr
  exact below.trans_le (scale_le le_rfl long lower)

namespace Rounds
variable {v w r s : ℚ}

theorem neg (rounds : Rounds v r) : Rounds (-v) (-r) := by
  obtain ⟨u, k, t, rfl, rfl, long, short, near⟩ := rounds
  refine ⟨-u, -k, t, by ring, by push_cast; ring, by rwa [abs_neg], by rwa [abs_neg], ?_⟩
  rwa [Int.cast_neg, neg_sub_neg, abs_sub_comm]

theorem pos (rounds : Rounds v r) (positive : 0 < v) : 0 < r := by
  obtain ⟨u, k, t, rfl, rfl, long, short, near⟩ := rounds
  have scale : (0 : ℚ) < 2 ^ t := by positivity
  have positive : 0 < u := pos_of_mul_pos_left positive scale.le
  rw [abs_of_pos positive] at long
  have := (abs_le.mp near).1
  exact mul_pos (by linarith) scale

private theorem mono_of_pos (first : Rounds v r) (second : Rounds w s) (positive : 0 < v)
    (below : v < w) : r ≤ s := by
  obtain ⟨u, k, t, rfl, rfl, long, short, near⟩ := first
  obtain ⟨u', k', t', rfl, rfl, long', short', near'⟩ := second
  have scale : (0 : ℚ) < 2 ^ t := by positivity
  have scale' : (0 : ℚ) < 2 ^ t' := by positivity
  have first : 0 < u := pos_of_mul_pos_left positive scale.le
  have second : 0 < u' := pos_of_mul_pos_left (positive.trans below) scale'.le
  rw [abs_of_pos first] at long short
  rw [abs_of_pos second] at long' short'
  rw [abs_le] at near near'
  rcases lt_trichotomy t t' with lower | rfl | higher
  · have last : (k : ℚ) < (2 ^ 53 : ℤ) + 1 := by
      push_cast
      linarith
    have start : ((2 ^ 52 : ℤ) : ℚ) - 1 < k' := by
      push_cast
      linarith
    have last : k ≤ 2 ^ 53 := Int.lt_add_one_iff.mp (by exact_mod_cast last)
    have start : 2 ^ 52 ≤ k' := Int.sub_one_lt_iff.mp (by exact_mod_cast start)
    exact scale_le (by exact_mod_cast last) (by exact_mod_cast start) lower
  · have below : u < u' := lt_of_mul_lt_mul_right below scale.le
    have less : (k : ℚ) < k' + 1 := by linarith
    have less : k ≤ k' := Int.lt_add_one_iff.mp (by exact_mod_cast less)
    gcongr
  · exact absurd below (scale_lt short' long higher).not_gt

theorem ne_zero (rounds : Rounds v r) : v ≠ 0 := by
  obtain ⟨u, k, t, rfl, -, long, -, -⟩ := rounds
  have nonzero : u ≠ 0 := by
    rintro rfl
    norm_num at long
  exact mul_ne_zero nonzero (by positivity)

/-- Values of either sign keep their order. -/
theorem mono (first : Rounds v r) (second : Rounds w s) (below : v < w) : r ≤ s := by
  rcases lt_or_gt_of_ne first.ne_zero with negative | positive
  · rcases lt_or_gt_of_ne second.ne_zero with negative' | positive'
    · have flipped := second.neg.mono_of_pos first.neg (by linarith) (by linarith)
      linarith
    · have left := first.neg.pos (by linarith)
      have right := second.pos positive'
      linarith
  · exact first.mono_of_pos second positive below

protected theorem signed (rounds : Rounds v r) (sign : Sign) :
    Rounds (signed sign v) (signed sign r) := by
  cases sign with
  | negative => exact rounds.neg
  | positive => exact rounds

/-- Whole numbers of at most fifty-three bits, and the power of two that follows them, stay. -/
theorem eq_of_whole {n : Nat} (rounds : Rounds n r) (short : n ≤ 2 ^ 53) : r = n := by
  obtain ⟨u, k, t, value, rfl, long, -, near⟩ := rounds
  have scale : (0 : ℚ) < 2 ^ t := by positivity
  have positive : 0 ≤ u := nonneg_of_mul_nonneg_left (value ▸ n.cast_nonneg) scale
  rw [abs_of_nonneg positive] at long
  have short : (n : ℚ) ≤ 2 ^ 53 := by exact_mod_cast short
  -- Either the point stands behind the last bit or further right, or `n` is the power of two.
  have whole : ∃ i : ℤ, u = i := by
    rcases le_or_gt t 0 with low | high
    · obtain ⟨d, rfl⟩ : ∃ d : ℕ, t = -d := ⟨t.natAbs, by omega⟩
      rw [zpow_neg, zpow_natCast, ← div_eq_mul_inv, eq_div_iff (by positivity)] at value
      exact ⟨n * 2 ^ d, by push_cast; exact value.symm⟩
    · have two : (2 : ℚ) ^ (1 : ℤ) ≤ 2 ^ t := zpow_le_zpow_right₀ one_le_two (by omega)
      have : u * 2 ≤ u * 2 ^ t := by
        rw [zpow_one] at two
        gcongr
      exact ⟨2 ^ 52, by push_cast; linarith⟩
  obtain ⟨i, rfl⟩ := whole
  have close : |((k - i : ℤ) : ℚ)| < 1 := by
    rw [Int.cast_sub]
    linarith
  have close : |k - i| < 1 := by exact_mod_cast close
  have same : k = i := sub_eq_zero.mp (Int.abs_lt_one_iff.mp close)
  rw [value, same]

/-- Half a unit of the last of fifty-three bits is lost at most. -/
theorem relative_error (rounds : Rounds v r) : |r - v| ≤ |v| / 2 ^ 53 := by
  obtain ⟨u, k, t, rfl, rfl, long, -, near⟩ := rounds
  have scale : (0 : ℚ) < 2 ^ t := by positivity
  rw [← sub_mul, abs_mul, abs_mul, abs_of_pos scale]
  calc |(k : ℚ) - u| * 2 ^ t ≤ 1 / 2 * 2 ^ t := by gcongr
    _ = 2 ^ 52 * 2 ^ t / 2 ^ 53 := by ring
    _ ≤ |u| * 2 ^ t / 2 ^ 53 := by gcongr

end Rounds
end Schoolbook.Double
