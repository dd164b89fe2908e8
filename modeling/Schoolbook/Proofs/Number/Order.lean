import Mathlib
import Schoolbook.Number.Order
import Schoolbook.Proofs.Double.Order
import Schoolbook.Proofs.Number.Exact

/-! The order of numbers tells all stored values apart. Between exact numbers it is the order of
their values. -/
namespace Schoolbook

namespace Number

theorem cmpValue_of_exact {x y : Number} {p q : Rat} (hx : x.toRat? = some p)
    (hy : y.toRat? = some q) : cmpValue x y = compare p q := by
  rw [cmpValue, hx, hy]
  exact (LinearOrder.compare_eq_compareOfLessAndEq p q).symm

theorem cmp_of_exact {x y : Number} {p q : Rat} (hx : x.toRat? = some p)
    (hy : y.toRat? = some q) : cmp x y = compare p q := by
  have values : cmp x y = (cmpValue x y).then (compare x.rank y.rank) := by
    cases x with
    | double u => cases hx
    | integer n => cases y <;> simp only [cmp, Ordering.then_eq]
    | fraction f => cases y <;> simp only [cmp, Ordering.then_eq]
  rw [values, cmpValue_of_exact hx hy]
  cases order : compare p q with
  | lt => rfl
  | gt => rfl
  | eq =>
    obtain rfl := Std.compare_eq_iff_eq.mp order
    rw [toRat?_inj hx hy]
    simp

theorem cmpValue_swap (x y : Number) : (cmpValue x y).swap = cmpValue y x := by
  cases x <;> cases y <;>
    first
    | exact Double.totalCmp_swap _ _
    | rw [cmpValue_of_exact rfl rfl, cmpValue_of_exact rfl rfl]
      exact Std.OrientedOrd.eq_swap.symm

theorem cmp_swap (x y : Number) : (cmp x y).swap = cmp y x := by
  have ranks : (compare x.rank y.rank).swap = compare y.rank x.rank := Std.OrientedOrd.eq_swap.symm
  have forms : ((cmpValue x y).then (compare x.rank y.rank)).swap =
      (cmpValue y x).then (compare y.rank x.rank) := by
    rw [Ordering.swap_then, cmpValue_swap, ranks]
  cases x <;> cases y
  case double.double u v =>
    rw [cmp, cmp, ← Ordering.then_assoc, ← Ordering.then_assoc, Ordering.swap_then, forms,
      Double.totalCmp_swap]
  all_goals
    simp only [cmp, Ordering.then_eq]
    exact forms

/-- Numbers that compare equal are the same number in the same form. -/
theorem cmp_eq_eq_iff {x y : Number} : cmp x y = .eq ↔ x = y := by
  have exact_iff {p q : Rat} (hx : x.toRat? = some p) (hy : y.toRat? = some q) :
      cmp x y = .eq ↔ x = y := by
    rw [cmp_of_exact hx hy, Std.compare_eq_iff_eq]
    exact ⟨fun same => toRat?_inj hx (same ▸ hy),
      fun same => Option.some.inj (hx.symm.trans (same ▸ hy))⟩
  cases x <;> cases y
  case double.double u v =>
    simp [cmp, cmpValue, toRat?, toFloat, rank, Double.totalCmp_eq_eq_iff]
  case integer.double | fraction.double | double.integer | double.fraction =>
    simp [cmp, rank]
  all_goals exact exact_iff rfl rfl

end Number
end Schoolbook
