import Mathlib

/-! Orders that are put together from comparisons of parts. -/
namespace Schoolbook

/-- What the comparisons of two values with one between them say about the two values. -/
def Composes (first second both : Ordering) : Prop :=
  (first = .eq → both = second) ∧ (second = .eq → both = first) ∧ (first = second → both = first)

instance (first second both : Ordering) : Decidable (Composes first second both) :=
  inferInstanceAs (Decidable (_ ∧ _ ∧ _))

/-- Comparisons that decide only where earlier ones do not. -/
theorem Composes.then : ∀ {o₁ o₂ o₃ p₁ p₂ p₃ : Ordering}, Composes o₁ o₂ o₃ → Composes p₁ p₂ p₃ →
    Composes (o₁.then p₁) (o₂.then p₂) (o₃.then p₃) := by
  decide

theorem composes_compare {α : Type} [Ord α] [Std.TransOrd α] [Std.LawfulEqOrd α] (x y z : α) :
    Composes (compare x y) (compare y z) (compare x z) := by
  refine ⟨fun same => ?_, fun same => ?_, fun same => ?_⟩
  · rw [Std.compare_eq_iff_eq.mp same]
  · rw [Std.compare_eq_iff_eq.mp same]
  · cases first : compare x y with
    | eq => rw [Std.compare_eq_iff_eq.mp first, ← same, first]
    | lt => exact Std.TransCmp.lt_trans first (same.symm.trans first)
    | gt => exact Std.TransCmp.gt_trans first (same.symm.trans first)

namespace Composes
variable {first second both : Ordering}

theorem symm (composed : Composes first second both) : Composes second first both :=
  ⟨composed.2.1, composed.1, fun same => (composed.2.2 same.symm).trans same.symm⟩

theorem lt_trans (composed : Composes first second both) (left : first = .lt)
    (right : second = .lt) : both = .lt :=
  (composed.2.2 (left.trans right.symm)).trans left

theorem isLE_trans (composed : Composes first second both) (left : first.isLE = true)
    (right : second.isLE = true) : both.isLE = true := by
  cases h : first with
  | lt => cases h' : second with
    | lt => rw [composed.lt_trans h h']; rfl
    | eq => rw [composed.2.1 h', h]; rfl
    | gt => simp [h'] at right
  | eq => rw [composed.1 h]; exact right
  | gt => simp [h] at left

end Composes
end Schoolbook
