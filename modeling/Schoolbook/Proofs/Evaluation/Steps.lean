import Mathlib
import Schoolbook.Evaluation
import Schoolbook.Proofs.Diagnosis
import Schoolbook.Proofs.Number.Faults

/-! What one node adds to an evaluation: when it gives a value, and when and where it fails. -/
namespace Schoolbook

theorem Number.finite_eq_ok_iff {x y : Number} : x.finite = .ok y ↔ x = y ∧ x.IsFinite := by
  cases x with
  | double z =>
    rw [finite, isFinite_double]
    split_ifs with finite <;> simp [finite, Blame.here]
  | integer n => simp [finite, IsFinite]
  | fraction f => simp [finite, IsFinite]

theorem Number.finite_eq_error_iff {x : Number} {b : Blame} :
    x.finite = .error b ↔ ¬x.IsFinite ∧ b = ⟨[], .nonRealResult⟩ := by
  cases x with
  | double z =>
    rw [finite, isFinite_double]
    split_ifs with finite <;> simp [finite, Blame.here, eq_comm]
  | integer n => simp [finite, IsFinite]
  | fraction f => simp [finite, IsFinite]

namespace Expr
variable {v : Number} {b : Blame}

theorem value_binary_eq_ok_iff {op : BinaryOp} {lhs rhs : Expr} :
    (binary op lhs rhs).value = .ok v ↔ op.kind ≠ .unknown ∧
      ∃ x y, lhs.value = .ok x ∧ rhs.value = .ok y ∧ op.kind.apply x y = .ok v ∧ v.IsFinite := by
  rw [value]
  split_ifs with unknown
  · simp [Blame.here, unknown]
  · simp only [bind_eq_ok_iff, Blame.within_eq_ok_iff, Number.finite_eq_ok_iff, ne_eq, unknown,
      not_false_eq_true, true_and]
    constructor
    · rintro ⟨x, left, y, right, _, applied, rfl, finite⟩
      exact ⟨x, y, left, right, applied, finite⟩
    · rintro ⟨x, y, left, right, applied, finite⟩
      exact ⟨x, left, y, right, v, applied, rfl, finite⟩

theorem value_neg_eq_ok_iff {operand : Expr} :
    (unary .neg operand).value = .ok v ↔
      ∃ x, operand.value = .ok x ∧ -x = v ∧ v.IsFinite := by
  simp only [value, bind_eq_ok_iff, Blame.within_eq_ok_iff, Number.finite_eq_ok_iff]
  constructor <;> rintro ⟨x, below, rfl, finite⟩ <;> exact ⟨x, below, rfl, finite⟩

theorem value_sqrt_eq_ok_iff {arg : Expr} :
    (call .sqrt arg).value = .ok v ↔ ∃ x, arg.value = .ok x ∧ x.sqrt = .ok v := by
  simp only [value, bind_eq_ok_iff, Blame.within_eq_ok_iff, mapError_eq_ok_iff]

/-- A value that is returned is finite; a root is not checked, but it cannot be anything else. -/
theorem isFinite_value {e : Expr} (evaluated : e.value = .ok v) : v.IsFinite := by
  induction e generalizing v with
  | constant x =>
    obtain ⟨rfl, finite⟩ := Number.finite_eq_ok_iff.mp evaluated
    exact finite
  | var name => cases evaluated
  | unset => cases evaluated
  | group inner ih => exact ih (Blame.within_eq_ok_iff.mp evaluated)
  | unary op operand ih =>
    cases op with
    | unknown => cases evaluated
    | pos => exact ih (Blame.within_eq_ok_iff.mp evaluated)
    | neg =>
      obtain ⟨_, _, _, finite⟩ := value_neg_eq_ok_iff.mp evaluated
      exact finite
  | call func arg ih =>
    cases func with
    | unknown => cases evaluated
    | sqrt =>
      obtain ⟨x, below, root⟩ := value_sqrt_eq_ok_iff.mp evaluated
      exact Number.isFinite_sqrt (ih below) root
  | binary op lhs rhs _ _ =>
    obtain ⟨_, _, _, _, _, _, finite⟩ := value_binary_eq_ok_iff.mp evaluated
    exact finite

theorem value_binary_eq_error {op : BinaryOp} {lhs rhs : Expr}
    (failed : (binary op lhs rhs).value = .error b) :
    op.kind = .unknown ∧ b = ⟨[], .malformedOperator⟩ ∨
      (∃ c, lhs.value = .error c ∧ c.under 0 = b) ∨
        (∃ c, rhs.value = .error c ∧ c.under 1 = b) ∨
          ∃ x y, lhs.value = .ok x ∧ rhs.value = .ok y ∧
            (op.kind.apply x y = .error b ∨ b = ⟨[], .nonRealResult⟩) := by
  rw [value] at failed
  split_ifs at failed with unknown
  · cases failed
    exact .inl ⟨unknown, rfl⟩
  · refine .inr ?_
    rcases bind_eq_error_iff.mp failed with left | ⟨x, left, failed⟩
    · exact .inl (Blame.within_eq_error_iff.mp left)
    refine .inr ?_
    have left := Blame.within_eq_ok_iff.mp left
    rcases bind_eq_error_iff.mp failed with right | ⟨y, right, failed⟩
    · exact .inl (Blame.within_eq_error_iff.mp right)
    refine .inr ⟨x, y, left, Blame.within_eq_ok_iff.mp right, ?_⟩
    rcases bind_eq_error_iff.mp failed with applied | ⟨_, _, unbounded⟩
    · exact .inl applied
    · exact .inr (Number.finite_eq_error_iff.mp unbounded).2

theorem value_neg_eq_error {operand : Expr} (failed : (unary .neg operand).value = .error b) :
    (∃ c, operand.value = .error c ∧ c.under 0 = b) ∨
      (∃ x, operand.value = .ok x) ∧ b = ⟨[], .nonRealResult⟩ := by
  rcases bind_eq_error_iff.mp failed with below | ⟨x, below, unbounded⟩
  · exact .inl (Blame.within_eq_error_iff.mp below)
  · exact .inr ⟨⟨x, Blame.within_eq_ok_iff.mp below⟩, (Number.finite_eq_error_iff.mp unbounded).2⟩

theorem value_sqrt_eq_error {arg : Expr} (failed : (call .sqrt arg).value = .error b) :
    (∃ c, arg.value = .error c ∧ c.under 0 = b) ∨
      (∃ x, arg.value = .ok x) ∧ b = ⟨[], .nonRealResult⟩ := by
  rcases bind_eq_error_iff.mp failed with below | ⟨x, below, rooted⟩
  · exact .inl (Blame.within_eq_error_iff.mp below)
  · obtain ⟨fault, unreal, rfl⟩ := mapError_eq_error_iff.mp rooted
    rw [Number.sqrt_eq_error unreal]
    exact .inr ⟨⟨x, Blame.within_eq_ok_iff.mp below⟩, rfl⟩

end Expr
end Schoolbook
