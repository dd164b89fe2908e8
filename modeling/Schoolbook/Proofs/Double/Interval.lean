import Mathlib
import Schoolbook.Proofs.Double.Nearest

/-! The values that are rounded to a double lie in an interval around it, which reaches half a unit of
the last bit to either side, and half as far down from a power of two. Rounding takes every value of the
interval back to the double, subnormal ones included. -/
namespace Schoolbook.Double
open Float.Model Float.Model.UnpackedFloat

/-- Mantissa and exponent of a finite double other than zero. Leading bits are missing only at the lowest
exponent. -/
structure Legal (m : Nat) (e : Int) : Prop where
  positive : 0 < m
  short : m < 2 ^ 53
  full : 2 ^ 52 ≤ m ∨ e = -1074
  above : -1074 ≤ e
  below : e ≤ 971

/-- How far down the interval reaches, in quarters of a unit. -/
def quartersBelow (m : Nat) (e : Int) : Nat := if m = 2 ^ 52 ∧ -1074 < e then 1 else 2

/-- The value `u * 2 ^ e` lies in the interval of `m * 2 ^ e`. Both ends of the interval belong to it if
the mantissa is even. -/
structure Surrounds (m : Nat) (e : Int) (u : ℚ) : Prop where
  lower : 4 * (m : ℚ) - quartersBelow m e < 4 * u ∨ m % 2 = 0 ∧ 4 * (m : ℚ) - quartersBelow m e = 4 * u
  upper : 4 * u < 4 * (m : ℚ) + 2 ∨ m % 2 = 0 ∧ 4 * u = 4 * (m : ℚ) + 2

theorem quartersBelow_le (m : Nat) (e : Int) : quartersBelow m e ≤ 2 := by
  rw [quartersBelow]
  split_ifs <;> decide

theorem quartersBelow_pos (m : Nat) (e : Int) : 0 < quartersBelow m e := by
  rw [quartersBelow]
  split_ifs <;> decide

theorem surrounds_self (m : Nat) (e : Int) : Surrounds m e m := by
  have reach : (0 : ℚ) < quartersBelow m e := by exact_mod_cast quartersBelow_pos m e
  exact ⟨.inl (by linarith), .inl (by linarith)⟩

namespace Surrounds
variable {m : Nat} {e : Int} {u : ℚ}

theorem bounds (inside : Surrounds m e u) : (m : ℚ) - 1 / 2 ≤ u ∧ u ≤ m + 1 / 2 := by
  have reach : (quartersBelow m e : ℚ) ≤ 2 := by exact_mod_cast quartersBelow_le m e
  constructor
  · rcases inside.lower with less | ⟨-, same⟩ <;> linarith
  · rcases inside.upper with less | ⟨-, same⟩ <;> linarith

theorem lt_of_legal (inside : Surrounds m e u) (legal : Legal m e) : u < 2 ^ 53 := by
  have short : (m : ℚ) + 1 ≤ 2 ^ 53 := by exact_mod_cast legal.short
  linarith [inside.bounds.2]

theorem pos (inside : Surrounds m e u) (legal : Legal m e) : 0 < u := by
  have positive : (1 : ℚ) ≤ m := by exact_mod_cast legal.positive
  linarith [inside.bounds.1]

/-- The interval lies within the range of the doubles. -/
theorem range (inside : Surrounds m e u) (legal : Legal m e) :
    1 / 2 ^ 1075 ≤ u * 2 ^ e ∧ u * 2 ^ e < 2 ^ 1024 := by
  have positive : (1 : ℚ) ≤ m := by exact_mod_cast legal.positive
  have half : 1 / 2 ≤ u := by linarith [inside.bounds.1]
  have short := inside.lt_of_legal legal
  have lowest : (2 : ℚ) ^ (-1074 : ℤ) ≤ 2 ^ e := zpow_le_zpow_right₀ one_le_two legal.above
  have highest : (2 : ℚ) ^ e ≤ 2 ^ (971 : ℤ) := zpow_le_zpow_right₀ one_le_two legal.below
  constructor
  · calc (1 : ℚ) / 2 ^ 1075 = 1 / 2 * 2 ^ (-1074 : ℤ) := by
          rw [zpow_neg, zpow_ofNat, ← one_div, div_mul_div_comm, one_mul, ← pow_succ']
      _ ≤ u * 2 ^ e := mul_le_mul half lowest (by positivity) (inside.pos legal).le
  · calc u * 2 ^ e < 2 ^ 53 * 2 ^ e := by gcongr
      _ ≤ 2 ^ 53 * 2 ^ (971 : ℤ) := by gcongr
      _ = 2 ^ 1024 := by rw [zpow_ofNat, ← pow_add]

/-- A value with fewer bits in front of the point than the mantissa belongs to a power of two. -/
theorem of_lt (inside : Surrounds m e u) (legal : Legal m e) (low : u < 2 ^ 52) (higher : -1074 < e) :
    m = 2 ^ 52 ∧ 2 ^ 52 - 1 / 4 ≤ u := by
  have long : 2 ^ 52 ≤ m := legal.full.resolve_right (by omega)
  have close : (m : ℚ) < 2 ^ 52 + 1 := by linarith [inside.bounds.1]
  have close : m < 2 ^ 52 + 1 := by exact_mod_cast close
  obtain rfl : m = 2 ^ 52 := by omega
  have reach : quartersBelow (2 ^ 52) e = 1 := if_pos ⟨rfl, higher⟩
  have lower := inside.lower
  rw [reach] at lower
  push_cast at lower
  refine ⟨rfl, ?_⟩
  rcases lower with less | ⟨-, same⟩ <;> linarith

end Surrounds

/-- Half a unit to either side is rounded away, and a tie goes to an even mantissa. -/
theorem Approximates.roundedMantissa_eq {em : ExtendedMantissa} {v : ℚ} {m : Nat}
    (close : Approximates em v) (lower : (m : ℚ) - 1 / 2 < v ∨ m % 2 = 0 ∧ (m : ℚ) - 1 / 2 = v)
    (upper : v < (m : ℚ) + 1 / 2 ∨ m % 2 = 0 ∧ v = (m : ℚ) + 1 / 2) : em.roundedMantissa = m := by
  have least : (m : ℚ) - 1 / 2 ≤ v := lower.elim le_of_lt fun tie => tie.2.le
  have most : v ≤ (m : ℚ) + 1 / 2 := upper.elim le_of_lt fun tie => tie.2.le
  cases close with
  | @exact k v same =>
    have first : (m : ℚ) < k + 1 := by linarith
    have second : (k : ℚ) < m + 1 := by linarith
    change k = m
    norm_cast at first second
    omega
  | @below k v more less =>
    have first : (m : ℚ) < k + 1 := by linarith
    have second : (k : ℚ) < m + 1 := by linarith
    change k = m
    norm_cast at first second
    omega
  | @middle k v same =>
    -- The tie is one of the two ends, so the mantissa is even.
    have tie : k = m ∧ m % 2 = 0 ∨ k + 1 = m ∧ m % 2 = 0 := by
      rcases lower with less | ⟨even, equal⟩
      · rcases upper with more | ⟨even, equal⟩
        · have first : (m : ℚ) < k + 1 := by linarith
          have second : (k : ℚ) < m := by linarith
          norm_cast at first second
          omega
        · have : (k : ℚ) = m := by linarith
          exact .inl ⟨by exact_mod_cast this, even⟩
      · have : (k : ℚ) + 1 = m := by linarith
        exact .inr ⟨by exact_mod_cast this, even⟩
    change k + k % 2 = m
    omega
  | @above k v more less =>
    have first : (m : ℚ) < k + 2 := by linarith
    have second : (k : ℚ) < m := by linarith
    change k + 1 = m
    norm_cast at first second
    omega

/-- The excess is what has to be dropped for a value with all bits in front of the point, or with as many
as the lowest exponent leaves. -/
theorem excess_eq_of_approximates {mantissa shift : Nat} {exponent : Int} {accuracy : Accuracy} {w : ℚ}
    (close : Approximates (.ofMantissaAndAccuracy mantissa accuracy) (w * 2 ^ shift))
    (short : w < 2 ^ 53) (full : 2 ^ 52 ≤ w ∨ exponent + shift = -1074)
    (above : -1074 ≤ exponent + shift) : excess mantissa exponent = shift := by
  obtain ⟨lower, upper⟩ := close.bounds
  have whole : (ExtendedMantissa.ofMantissaAndAccuracy mantissa accuracy).mantissa = mantissa :=
    mantissa_shiftRight_ofMantissaAndAccuracy mantissa accuracy 0 |>.trans (Nat.div_one mantissa)
  rw [whole] at lower upper
  have most : (mantissa : ℚ) < 2 ^ (53 + shift) := by
    rw [pow_add]
    exact lower.trans_lt (by gcongr)
  have most : mantissa < 2 ^ (53 + shift) := by exact_mod_cast most
  have most : mantissa.log2 < 53 + shift := by
    by_cases zero : mantissa = 0
    · rw [zero, Nat.log2_zero]
      omega
    · exact (Nat.log2_lt zero).mpr most
  rw [excess_eq]
  rcases full with long | lowest
  · have least : (2 : ℚ) ^ (52 + shift) < mantissa + 1 := by
      rw [pow_add]
      exact lt_of_le_of_lt (by gcongr) upper
    have least : 2 ^ (52 + shift) < mantissa + 1 := by exact_mod_cast least
    have nonzero : mantissa ≠ 0 := by
      have := Nat.two_pow_pos (52 + shift)
      omega
    have least := (Nat.le_log2 nonzero).mpr (Nat.le_of_lt_succ least)
    omega
  · omega

theorem excess_of_short {m : Nat} {e : Int} (short : m < 2 ^ 53) (above : -1074 ≤ e) :
    excess m e = 0 := by
  have : m.log2 < 53 := by
    by_cases zero : m = 0
    · rw [zero]
      decide
    · exact (Nat.log2_lt zero).mpr short
  rw [excess_eq]
  omega

section
variable {m mantissa shift : Nat} {e : Int} {accuracy : Accuracy} {u : ℚ}

/-- Cut off at the last bit of the mantissa, a value of the interval is rounded to the mantissa. -/
theorem Surrounds.shortened_eq (inside : Surrounds m e u) (legal : Legal m e)
    (close : Approximates (.ofMantissaAndAccuracy mantissa accuracy) (u * 2 ^ shift))
    (full : 2 ^ 52 ≤ u ∨ e = -1074) :
    excess mantissa (e - shift) = shift ∧ shortened mantissa (e - shift) accuracy = m := by
  have lift : e - shift + shift = e := by omega
  have dropped : excess mantissa (e - shift) = shift :=
    excess_eq_of_approximates close (inside.lt_of_legal legal) (by rwa [lift]) (lift.symm ▸ legal.above)
  have scaled := close.shiftRight shift
  rw [mul_div_cancel_right₀ _ (by positivity)] at scaled
  rw [shortened, dropped]
  refine ⟨rfl, scaled.roundedMantissa_eq ?_ ?_⟩
  · by_cases half : quartersBelow m e = 2
    · have lower := inside.lower
      rw [half] at lower
      push_cast at lower
      exact lower.imp (fun less => by linarith) (And.imp_right fun same => by linarith)
    · have power : m = 2 ^ 52 ∧ -1074 < e := by
        by_contra other
        exact half (if_neg other)
      have long := full.resolve_right (by omega)
      refine .inl ?_
      rw [power.1]
      push_cast
      linarith
  · exact inside.upper.imp (fun less => by linarith) (And.imp_right fun same => by linarith)

/-- Below a power of two one more bit is kept at first, and rounding makes it the next power. -/
theorem Surrounds.shortened_eq_of_lt (inside : Surrounds m e u) (legal : Legal m e)
    (close : Approximates (.ofMantissaAndAccuracy mantissa accuracy) (u * 2 ^ (shift + 1)))
    (low : u < 2 ^ 52) (higher : -1074 < e) :
    excess mantissa (e - (shift + 1 : ℕ)) = shift ∧
      shortened mantissa (e - (shift + 1 : ℕ)) accuracy = 2 ^ 53 := by
  obtain ⟨-, reach⟩ := inside.of_lt legal low higher
  have twice : u * 2 ^ (shift + 1) = 2 * u * 2 ^ shift := by ring
  rw [twice] at close
  have dropped : excess mantissa (e - (shift + 1 : ℕ)) = shift :=
    excess_eq_of_approximates close (by linarith) (.inl (by linarith)) (by omega)
  have scaled := close.shiftRight shift
  rw [mul_div_cancel_right₀ _ (by positivity)] at scaled
  rw [shortened, dropped]
  refine ⟨rfl, scaled.roundedMantissa_eq ?_ (.inl ?_)⟩
  · rcases reach.lt_or_eq with less | same
    · exact .inl (by push_cast; linarith)
    · exact .inr ⟨by norm_num, by push_cast; linarith⟩
  · push_cast
    linarith

/-- A value of the interval is rounded to the double, if it is given with enough bits. -/
theorem roundWithAccuracy_of_surrounds (legal : Legal m e) (inside : Surrounds m e u)
    (close : Approximates (.ofMantissaAndAccuracy mantissa accuracy) (u * 2 ^ shift))
    (finer : u < 2 ^ 52 → -1074 < e → 0 < shift) (sign : Sign) :
    roundWithAccuracy .binary64 sign mantissa (e - shift) accuracy =
      .finite sign m e legal.positive := by
  have result := roundWithAccuracy_eq sign mantissa (e - shift) accuracy
  by_cases full : 2 ^ 52 ≤ u ∨ e = -1074
  · obtain ⟨dropped, rounded⟩ := inside.shortened_eq legal close full
    have lift : e - shift + shift = e := by omega
    have none := excess_of_short legal.short legal.above
    simp only [rounded, dropped, lift, none, pow_zero, Nat.div_one, legal.positive.ne', dite_false,
      Nat.cast_zero, add_zero] at result
    exact result
  · obtain ⟨low, higher⟩ := not_or.mp full
    have low : u < 2 ^ 52 := not_le.mp low
    have higher : -1074 < e := lt_of_le_of_ne legal.above (Ne.symm higher)
    obtain ⟨rfl, -⟩ := inside.of_lt legal low higher
    obtain ⟨count, rfl⟩ : ∃ count, shift = count + 1 :=
      ⟨shift - 1, by have := finer low higher; omega⟩
    obtain ⟨dropped, rounded⟩ := inside.shortened_eq_of_lt legal close low higher
    have lift : e - (count + 1 : ℕ) + count = e - 1 := by omega
    have one : excess (2 ^ 53) (e - 1) = 1 := by
      rw [excess_eq, Nat.log2_two_pow]
      omega
    simp only [rounded, dropped, lift, one] at result
    rw [result, dif_neg (by norm_num)]
    congr 1
    omega

end

end Schoolbook.Double
