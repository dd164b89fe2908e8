import Mathlib
import Schoolbook.Proofs.Number.Double
import Schoolbook.Proofs.Number.Order

/-! How far the order of numbers is total. Exact numbers are compared with doubles as the doubles
they are rounded to, and a fraction is rounded three times: in both parts and in their quotient. Two
numbers that change places in this way and a double between them form a cycle. -/
namespace Schoolbook.Number
open Double Float.Model.UnpackedFloat

theorem isLE_of_exact {x y : Number} {p q : ℚ} (hx : x.toRat? = some p) (hy : y.toRat? = some q) :
    (cmp x y).isLE = true ↔ p ≤ q := by
  rw [cmp_of_exact hx hy, Ordering.isLE_iff_ne_gt]
  exact compare_le_iff_le

theorem isLE_double (x : Number) (d : Float) :
    (cmp x (.double d)).isLE = true ↔ orderKey x.toFloat ≤ orderKey d := by
  have decided : (cmp x (.double d)).isLE = (totalCmp x.toFloat d).isLE := by
    cases x <;>
      simp only [cmp, cmpValue, toRat?, toFloat, rank] <;> cases totalCmp _ d <;> rfl
  rw [decided]
  exact Int.isLE_compare

theorem double_isLE {y : Number} {q : ℚ} (d : Float) (stored : y.toRat? = some q) :
    (cmp (.double d) y).isLE = true ↔ orderKey d < orderKey y.toFloat := by
  have decided : (cmp (.double d) y).isLE = true ↔ totalCmp d y.toFloat = .lt := by
    cases y with
    | double u => cases stored
    | _ => simp only [cmp, cmpValue, toRat?, toFloat, rank]; cases totalCmp d _ <;> decide
  rw [decided]
  exact compare_lt_iff_lt

/-- Two exact numbers that change places when they are rounded to doubles. -/
def Crossed (x y : Number) : Prop :=
  ∃ p q, x.toRat? = some p ∧ y.toRat? = some q ∧ p < q ∧ orderKey y.toFloat < orderKey x.toFloat

/-- A fraction with a part of more than fifty-three bits. -/
def IsWide : Number → Prop
  | .fraction f => 2 ^ 53 < f.value.num.natAbs ∨ 2 ^ 53 < f.value.den
  | _ => False

theorem isNearest_toFloat {x : Number} {q : ℚ} (stored : x.toRat? = some q) (nonzero : q ≠ 0)
    (narrow : ¬x.IsWide) :
    ∃ sign low high, q = signed sign |q| ∧ IsNearest x.toFloat sign |q| low high := by
  cases x with
  | integer n =>
    cases stored
    have fits := (fits_of_toRat? (x := .integer n) rfl).1
    rw [Rat.num_intCast] at fits
    obtain ⟨sign, value, near⟩ := isNearest_ofInt (Int.cast_ne_zero.mp nonzero) fits
    rw [Nat.cast_natAbs, Int.cast_abs] at value near
    exact ⟨sign, _, _, value, near⟩
  | fraction f =>
    cases stored
    simp only [IsWide, not_or, not_lt] at narrow
    obtain ⟨sign, value, near⟩ := isNearest_roundedRatio nonzero narrow.1 narrow.2
    exact ⟨sign, _, _, value, near⟩
  | double y => cases stored

/-- Numbers that are rounded only once keep their order. -/
theorem orderKey_toFloat_le {x y : Number} {p q : ℚ} (hx : x.toRat? = some p)
    (hy : y.toRat? = some q) (below : p < q) (narrow : ¬x.IsWide) (narrow' : ¬y.IsWide) :
    orderKey x.toFloat ≤ orderKey y.toFloat := by
  have zero : orderKey 0 = 0 := rfl
  by_cases left : p = 0
  · subst left
    obtain ⟨sign, low, high, value, r, rounds, exactly⟩ := isNearest_toFloat hy below.ne' narrow'
    rw [toFloat_zero hx, zero]
    cases sign with
    | negative =>
      have : q = -|q| := value
      linarith [abs_nonneg q]
    | positive => exact exactly.orderKey_nonneg
  obtain ⟨sign, low, high, value, r, rounds, exactly⟩ := isNearest_toFloat hx left narrow
  by_cases right : q = 0
  · subst right
    rw [toFloat_zero hy, zero]
    cases sign with
    | negative => exact exactly.orderKey_neg.le
    | positive =>
      have : p = |p| := value
      linarith [abs_nonneg p]
  obtain ⟨sign', low', high', value', r', rounds', exactly'⟩ := isNearest_toFloat hy right narrow'
  have rounds := rounds.signed sign
  have rounds' := rounds'.signed sign'
  rw [← value] at rounds
  rw [← value'] at rounds'
  exact exactly.orderKey_le exactly' (rounds.mono rounds' below)

theorem Crossed.isWide {x y : Number} (crossed : Crossed x y) : x.IsWide ∨ y.IsWide := by
  obtain ⟨p, q, hx, hy, below, places⟩ := crossed
  by_contra narrow
  rw [not_or] at narrow
  exact absurd (orderKey_toFloat_le hx hy below narrow.1 narrow.2) places.not_ge

theorem toRat?_cases (x : Number) : (∃ q, x.toRat? = some q) ∨ ∃ d, x = .double d := by
  cases x with
  | integer n => exact .inl ⟨_, rfl⟩
  | fraction f => exact .inl ⟨_, rfl⟩
  | double d => exact .inr ⟨d, rfl⟩

theorem orderKey_le_of_isLE {x y : Number} (below : (cmp x y).isLE = true)
    (straight : ¬Crossed x y) : orderKey x.toFloat ≤ orderKey y.toFloat := by
  rcases y.toRat?_cases with ⟨q, hy⟩ | ⟨v, rfl⟩
  · rcases x.toRat?_cases with ⟨p, hx⟩ | ⟨u, rfl⟩
    · rcases ((isLE_of_exact hx hy).mp below).lt_or_eq with less | rfl
      · by_contra places
        exact straight ⟨p, q, hx, hy, less, not_le.mp places⟩
      · rw [toRat?_inj hx hy]
    · exact ((double_isLE u hy).mp below).le
  · exact (isLE_double x v).mp below

/-- A cycle needs two exact numbers that cross. -/
theorem isLE_trans_of_straight {a b c : Number}
    (straight : ∀ x ∈ [a, b, c], ∀ y ∈ [a, b, c], ¬Crossed x y) (first : (cmp a b).isLE = true)
    (second : (cmp b c).isLE = true) : (cmp a c).isLE = true := by
  have left := orderKey_le_of_isLE first (straight a (by simp) b (by simp))
  have right := orderKey_le_of_isLE second (straight b (by simp) c (by simp))
  rcases c.toRat?_cases with ⟨r, hc⟩ | ⟨w, rfl⟩
  · -- A double is below an exact number only if it is strictly below what that is rounded to.
    rcases b.toRat?_cases with ⟨q, hb⟩ | ⟨v, rfl⟩
    · rcases a.toRat?_cases with ⟨p, ha⟩ | ⟨u, rfl⟩
      · rw [isLE_of_exact ha hb] at first
        rw [isLE_of_exact hb hc] at second
        rw [isLE_of_exact ha hc]
        exact first.trans second
      · rw [double_isLE u hb] at first
        rw [double_isLE u hc]
        exact first.trans_le right
    · rw [double_isLE v hc] at second
      rcases a.toRat?_cases with ⟨p, ha⟩ | ⟨u, rfl⟩
      · rw [isLE_of_exact ha hc]
        by_contra above
        exact straight c (by simp) a (by simp) ⟨r, p, hc, ha, not_le.mp above, left.trans_lt second⟩
      · rw [double_isLE u hc]
        exact left.trans_lt second
  · rw [isLE_double]
    exact left.trans right

theorem Crossed.exists_cycle {x y : Number} (crossed : Crossed x y) :
    ∃ d, cmp x y = .lt ∧ (cmp y (.double d)).isLE = true ∧ (cmp (.double d) x).isLE = true := by
  obtain ⟨p, q, hx, hy, below, places⟩ := crossed
  -- The double that the greater of the two is rounded to closes the cycle.
  refine ⟨y.toFloat, ?_, ?_, ?_⟩
  · rw [cmp_of_exact hx hy]
    exact compare_lt_iff_lt.mpr below
  · exact (isLE_double y _).mpr le_rfl
  · exact (double_isLE _ hx).mpr places

/-- The order tells all numbers apart, can be turned around, and is transitive unless two of the
numbers cross. Then one of these is a wide fraction, and there is a cycle. -/
theorem order_is_total_unless_crossed (a b c : Number) :
    (cmp a b).swap = cmp b a ∧ (cmp a b = .eq ↔ a = b) ∧
      ((cmp a b).isLE = true → (cmp b c).isLE = true →
        (cmp a c).isLE = true ∨ ∃ x ∈ [a, b, c], ∃ y ∈ [a, b, c], Crossed x y) ∧
      ∀ x y, Crossed x y → (x.IsWide ∨ y.IsWide) ∧
        ∃ d, cmp x y = .lt ∧ (cmp y (.double d)).isLE = true ∧ (cmp (.double d) x).isLE = true := by
  refine ⟨cmp_swap a b, cmp_eq_eq_iff, fun first second => ?_, fun x y crossed => ?_⟩
  · by_contra failed
    rw [not_or] at failed
    refine failed.1 (isLE_trans_of_straight (fun x hx y hy crossed => ?_) first second)
    exact failed.2 ⟨x, hx, y, hy, crossed⟩
  · exact ⟨crossed.isWide, crossed.exists_cycle⟩

/-- The numerator of the fraction, which is below the integer by a fifth, is rounded up by four, so
its quotient is rounded to the double above the integer. -/
theorem order_has_cycle :
    cmp (ofRat (45035996273704924 / 5)) (.integer 9007199254740985) = .lt ∧
      cmp (.integer 9007199254740985) (.double (.ofBits 0x433ffffffffffff9)) = .lt ∧
      cmp (ofRat (45035996273704924 / 5)) (.double (.ofBits 0x433ffffffffffff9)) = .gt := by
  decide +kernel

end Schoolbook.Number
