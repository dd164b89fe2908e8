import Mathlib
import Schoolbook.Decimal.Shortest
import Schoolbook.Proofs.Double.Scientific

/-! The shortest decimal of a double lies in the interval of the values that are rounded to it, and has no
place after the point exactly if the double is whole. -/
namespace Schoolbook.Decimal
open Double

/-- The number that a decimal stands for. -/
def value (d : Decimal) : ℚ := d.digits * 10 ^ d.place

section
variable {x : Float}

/-- Multiples of a unit are compared with the ends of the interval without fractions, all of them scaled
by the same factor. -/
theorem surrounds_of_scaled {m digits scale unit : Nat} {e : Int} {step : ℚ} (positive : 0 < m)
    (some_scale : 0 < scale) (ratio : (unit : ℚ) = 4 * step * scale)
    (lower : (4 * m - quartersBelow m e) * scale < digits * unit ∨
      m % 2 = 0 ∧ (4 * m - quartersBelow m e) * scale = digits * unit)
    (upper : digits * unit < (4 * m + 2) * scale ∨
      m % 2 = 0 ∧ digits * unit = (4 * m + 2) * scale) : Surrounds m e (digits * step) := by
  have scale_pos : (0 : ℚ) < scale := by exact_mod_cast some_scale
  have reach : quartersBelow m e ≤ 4 * m := (quartersBelow_le m e).trans (by omega)
  have middle : ((digits * unit : ℕ) : ℚ) = 4 * (digits * step) * scale := by
    rw [Nat.cast_mul, ratio]
    ring
  have bottom : (((4 * m - quartersBelow m e) * scale : ℕ) : ℚ) =
      (4 * m - quartersBelow m e) * scale := by
    rw [Nat.cast_mul, Nat.cast_sub reach]
    push_cast
    rfl
  have top : (((4 * m + 2) * scale : ℕ) : ℚ) = (4 * m + 2) * scale := by push_cast; rfl
  refine ⟨lower.imp (fun less => ?_) (And.imp_right fun same => ?_),
    upper.imp (fun less => ?_) (And.imp_right fun same => ?_)⟩
  · have less := Nat.cast_lt (α := ℚ) |>.mpr less
    rw [bottom, middle] at less
    exact lt_of_mul_lt_mul_right less scale_pos.le
  · have same := congrArg (Nat.cast (R := ℚ)) same
    rw [bottom, middle] at same
    exact mul_right_cancel₀ scale_pos.ne' same
  · have less := Nat.cast_lt (α := ℚ) |>.mpr less
    rw [top, middle] at less
    exact lt_of_mul_lt_mul_right less scale_pos.le
  · have same := congrArg (Nat.cast (R := ℚ)) same
    rw [top, middle] at same
    exact mul_right_cancel₀ scale_pos.ne' same

theorem quartersBelow_eq (x : Float) :
    (if fractionBits x = 0 ∧ 1 < biasedExponent x then 1 else 2) =
      quartersBelow (significand x) (exponent x) := by
  have fraction : fractionBits x < 2 ^ 52 := Nat.mod_lt _ (by norm_num)
  rw [quartersBelow, significand, exponent]
  split_ifs <;> omega

/-- The neighbour of a double at a place lies in its interval. -/
theorem surrounds_neighbour {place : Int} {digits : Nat} (legal : Legal (significand x) (exponent x))
    (found : neighbour? x place = some digits) :
    Surrounds (significand x) (exponent x) (digits * (10 ^ place / 2 ^ exponent x)) := by
  rw [neighbour?] at found
  simp only [quartersBelow_eq] at found
  have ratio : ((2 ^ (2 - exponent x).toNat * 10 ^ place.toNat : ℕ) : ℚ) =
      4 * (10 ^ place / 2 ^ exponent x) *
        (2 ^ (exponent x - 2).toNat * 10 ^ (-place).toNat : ℕ) := by
    have four : (4 : ℚ) / 2 ^ exponent x = 2 ^ (2 - exponent x) := by
      rw [zpow_sub₀ two_ne_zero]
      norm_num
    rw [mul_div_left_comm, four, zpow_eq_div two_ne_zero, zpow_eq_div (by norm_num : (10 : ℚ) ≠ 0),
      neg_sub]
    push_cast
    field_simp
  have some_scale : 0 < 2 ^ (exponent x - 2).toNat * 10 ^ (-place).toNat := by positivity
  have some_unit : 0 < 2 ^ (2 - exponent x).toNat * 10 ^ place.toNat := by positivity
  have positive := legal.positive
  generalize 2 ^ (exponent x - 2).toNat * 10 ^ (-place).toNat = scale at *
  generalize 2 ^ (2 - exponent x).toNat * 10 ^ place.toNat = unit at *
  have inside : (4 * significand x - quartersBelow (significand x) (exponent x)) * scale <
      4 * significand x * scale := by
    have reach := quartersBelow_pos (significand x) (exponent x)
    exact Nat.mul_lt_mul_of_pos_right (by omega) some_scale
  have outside : 4 * significand x * scale < (4 * significand x + 2) * scale :=
    Nat.mul_lt_mul_of_pos_right (by omega) some_scale
  have below := Nat.div_mul_le_self (4 * significand x * scale) unit
  have above := Nat.lt_mul_div_succ (4 * significand x * scale) some_unit
  rw [mul_comm unit] at above
  split_ifs at found with nearer other
  · cases found
    exact surrounds_of_scaled positive some_scale ratio nearer.1 (.inl (below.trans_lt outside))
  · cases found
    exact surrounds_of_scaled positive some_scale ratio (.inl (inside.trans above)) other

theorem value_exactly (x : Float) : (exactly x).value = significand x * 2 ^ exponent x := by
  have five : (5 : ℚ) ≠ 0 := by norm_num
  rw [value, exactly]
  push_cast
  rcases le_or_gt 0 (exponent x) with above | below
  · rw [min_eq_right above, zpow_zero, Int.toNat_of_nonpos (neg_nonpos.mpr above), pow_zero, mul_one,
      mul_one, ← zpow_natCast, Int.toNat_of_nonneg above]
  · have power : (5 : ℚ) ^ (-exponent x).toNat * 5 ^ exponent x = 1 := by
      rw [← zpow_natCast, Int.toNat_of_nonneg (by omega), ← zpow_add₀ five, neg_add_cancel, zpow_zero]
    rw [min_eq_left below.le, Int.toNat_of_nonpos below.le, pow_zero, mul_one,
      show (10 : ℚ) = 5 * 2 by norm_num, mul_zpow, mul_assoc, ← mul_assoc (5 ^ _), power, one_mul]

/-- The places are tried from the top down, and without a neighbour all digits are kept. -/
theorem shortest_cases (x : Float) :
    (∃ (i : Nat) (digits : Nat), (∀ j < i, neighbour? x (topPlace x - (j : Nat)) = none) ∧
      neighbour? x (topPlace x - i) = some digits ∧ shortest x = ⟨digits, topPlace x - i⟩) ∨
    (∀ j < 19, neighbour? x (topPlace x - (j : Nat)) = none) ∧ shortest x = exactly x := by
  rw [shortest, List.findSome?_map]
  cases found : (List.range 19).findSome? _ with
  | none =>
    refine .inr ⟨fun j small => ?_, rfl⟩
    exact Option.map_eq_none_iff.mp (List.findSome?_eq_none_iff.mp found j (List.mem_range.mpr small))
  | some d =>
    obtain ⟨before, i, after, split, here, nothing⟩ := List.findSome?_eq_some_iff.mp found
    obtain ⟨digits, neighbour, rfl⟩ := Option.map_eq_some_iff.mp here
    have small : i < 19 := List.mem_range.mp (split ▸ List.mem_append_right _ List.mem_cons_self)
    have sorted := List.pairwise_lt_range (n := 19)
    rw [split, List.pairwise_append, List.pairwise_cons] at sorted
    refine .inl ⟨i, digits, fun j lower => ?_, neighbour, rfl⟩
    have member : j ∈ before ++ i :: after := split ▸ List.mem_range.mpr (lower.trans small)
    rcases List.mem_append.mp member with first | later
    · exact Option.map_eq_none_iff.mp (nothing j first)
    · rcases List.mem_cons.mp later with rfl | later
      · exact absurd lower (lt_irrefl _)
      · exact absurd lower (sorted.2.1.1 j later).not_gt

/-- Whatever number of digits is chosen, their decimal is rounded to the double. -/
theorem surrounds_shortest (legal : Legal (significand x) (exponent x)) :
    Surrounds (significand x) (exponent x) ((shortest x).value / 2 ^ exponent x) := by
  rcases shortest_cases x with ⟨i, digits, -, found, same⟩ | ⟨-, same⟩
  · rw [same, value, mul_div_assoc]
    exact surrounds_neighbour legal found
  · rw [same, value_exactly, mul_div_cancel_right₀ _ (by positivity)]
    exact surrounds_self _ _

/-- A whole number is at its own place a neighbour of itself. -/
theorem neighbour_zero_ne_none (legal : Legal (significand x) (exponent x))
    (whole : significand x % 2 ^ (-exponent x).toNat = 0) : neighbour? x 0 ≠ none := by
  have positive := legal.positive
  rw [neighbour?]
  simp only [quartersBelow_eq, neg_zero, Int.toNat_zero, pow_zero, mul_one]
  have some_scale : 0 < 2 ^ (exponent x - 2).toNat := by positivity
  have some_unit : 0 < 2 ^ (2 - exponent x).toNat := by positivity
  have divides : 2 ^ (2 - exponent x).toNat ∣ 4 * significand x * 2 ^ (exponent x - 2).toNat := by
    refine Dvd.dvd.mul_right ?_ _
    calc 2 ^ (2 - exponent x).toNat ∣ 2 ^ (2 + (-exponent x).toNat) := pow_dvd_pow 2 (by omega)
      _ = 4 * 2 ^ (-exponent x).toNat := pow_add 2 2 _
      _ ∣ 4 * significand x := mul_dvd_mul_left 4 (Nat.dvd_of_mod_eq_zero whole)
  have reach := quartersBelow_pos (significand x) (exponent x)
  have inside : (4 * significand x - quartersBelow (significand x) (exponent x)) *
      2 ^ (exponent x - 2).toNat < 4 * significand x * 2 ^ (exponent x - 2).toNat :=
    Nat.mul_lt_mul_of_pos_right (by omega) some_scale
  rw [Nat.div_mul_cancel divides, Nat.sub_self, mul_zero, if_pos ⟨.inl inside, .inr some_unit⟩]
  exact Option.some_ne_none _

/-- The next whole number is further away from a double that is not whole than its interval reaches. -/
theorem whole_of_surrounds {m n : Nat} {e : Int} (inside : Surrounds m e (n / 2 ^ e)) :
    m % 2 ^ (-e).toNat = 0 := by
  rcases le_or_gt 0 e with above | below
  · rw [Int.toNat_of_nonpos (by omega), pow_zero, Nat.mod_one]
  · obtain ⟨count, rfl⟩ : ∃ count : Nat, e = -count := ⟨e.natAbs, by omega⟩
    have shifted : (n : ℚ) / 2 ^ (-count : ℤ) = (n * 2 ^ count : ℕ) := by
      rw [zpow_neg, zpow_natCast, div_inv_eq_mul]
      push_cast
      rfl
    obtain ⟨lower, upper⟩ := inside.bounds
    rw [shifted] at lower upper
    have first : (m : ℚ) < (n * 2 ^ count : ℕ) + 1 := by linarith
    have second : ((n * 2 ^ count : ℕ) : ℚ) < m + 1 := by linarith
    have first : m < n * 2 ^ count + 1 := by exact_mod_cast first
    have second : n * 2 ^ count < m + 1 := by exact_mod_cast second
    rw [neg_neg, Int.toNat_natCast, show m = n * 2 ^ count by omega, Nat.mul_mod_left]

theorem isWhole_iff (finite : x.isFinite = true) :
    isWhole x = true ↔ significand x % 2 ^ (-exponent x).toNat = 0 := by
  rw [isWhole, finite, Bool.true_and, beq_iff_eq]

/-- The places tried for a whole double include that of the digit before the point. -/
theorem topPlace_pos (legal : Legal (significand x) (exponent x))
    (whole : significand x % 2 ^ (-exponent x).toNat = 0) : 0 < topPlace x := by
  have positive := legal.positive
  have least := Nat.le_of_dvd positive (Nat.dvd_of_mod_eq_zero whole)
  have least := (Nat.le_log2 positive.ne').mpr least
  rw [topPlace]
  omega

/-- The shortest decimal of a double has no places after the point exactly if the double is whole. -/
theorem place_nonneg_iff (finite : x.isFinite = true) (legal : Legal (significand x) (exponent x)) :
    0 ≤ (shortest x).place ↔ isWhole x = true := by
  rw [isWhole_iff finite]
  constructor
  · intro above
    have inside := surrounds_shortest legal
    have natural : (shortest x).value = ((shortest x).digits * 10 ^ (shortest x).place.toNat : ℕ) := by
      rw [value]
      push_cast
      rw [← zpow_natCast, Int.toNat_of_nonneg above]
    rw [natural] at inside
    exact whole_of_surrounds inside
  · intro whole
    have top := topPlace_pos legal whole
    have here := neighbour_zero_ne_none legal whole
    have reached {j : Nat} (same : topPlace x = j) : neighbour? x (topPlace x - j) ≠ none := by
      rwa [same, sub_self]
    rcases shortest_cases x with ⟨i, digits, nothing, -, same⟩ | ⟨nothing, same⟩
    · rw [same]
      by_contra below
      have below : topPlace x < i := by
        dsimp only at below
        omega
      exact reached (Int.toNat_of_nonneg top.le).symm (nothing _ (by omega))
    · rw [same, exactly]
      by_contra below
      have below : exponent x < 0 := by
        dsimp only at below
        omega
      have short : (significand x).log2 < 53 := (Nat.log2_lt legal.positive.ne').mpr legal.short
      have bound : topPlace x < 19 := by
        rw [topPlace]
        omega
      exact reached (Int.toNat_of_nonneg top.le).symm (nothing _ (by omega))

end
end Schoolbook.Decimal
