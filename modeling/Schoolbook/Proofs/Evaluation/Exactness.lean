import Mathlib
import Schoolbook.Proofs.Evaluation.Steps
import Schoolbook.Proofs.Expr.Nodes

/-! The real value of an expression, and the evaluator as a way to it: an exact answer is that value,
and it is never computed from a double. -/
namespace Schoolbook

namespace BinaryKind

/-- The result of an operator on two rationals. -/
def Yields (x y q : ℚ) : BinaryKind → Prop
  | .add => q = x + y
  | .sub => q = x - y
  | .mul => q = x * y
  | .div => y ≠ 0 ∧ q = x / y
  | .pow => IsPower x y q
  | .unknown => False

/-- An exact result comes from exact operands, but for the powers of one. -/
theorem yields_of_apply {kind : BinaryKind} {a b v : Number} {q : ℚ}
    (applied : kind.apply a b = .ok v) (stored : v.toRat? = some q) :
    (kind = .pow ∧ a = 1 ∧ v = 1) ∨
      ∃ x y, a.toRat? = some x ∧ b.toRat? = some y ∧ kind.Yields x y q := by
  cases kind with
  | add =>
    cases applied
    exact .inr (Number.toRat?_add stored)
  | sub =>
    cases applied
    exact .inr (Number.toRat?_sub stored)
  | mul =>
    cases applied
    exact .inr (Number.toRat?_mul stored)
  | div => exact .inr (Number.toRat?_div (mapError_eq_ok_iff.mp applied) stored)
  | pow =>
    rcases Number.toRat?_pow (mapError_eq_ok_iff.mp applied) stored with one | powers
    · exact .inl ⟨rfl, one⟩
    · exact .inr powers
  | unknown => cases applied

end BinaryKind

namespace Expr

/-- The value of an expression whose constants are exact. One to any power is one, whatever the
exponent is. -/
inductive HasValue : Expr → ℝ → Prop where
  | constant {x : Number} {q : ℚ} : x.toRat? = some q → HasValue (.constant x) q
  | group {e : Expr} {x : ℝ} : HasValue e x → HasValue (.group e) x
  | pos {e : Expr} {x : ℝ} : HasValue e x → HasValue (.unary .pos e) x
  | neg {e : Expr} {x : ℝ} : HasValue e x → HasValue (.unary .neg e) (-x)
  | add {a b : Expr} {x y : ℝ} (flag : Bool) : HasValue a x → HasValue b y →
      HasValue (.binary ⟨.add, flag⟩ a b) (x + y)
  | sub {a b : Expr} {x y : ℝ} (flag : Bool) : HasValue a x → HasValue b y →
      HasValue (.binary ⟨.sub, flag⟩ a b) (x - y)
  | mul {a b : Expr} {x y : ℝ} (flag : Bool) : HasValue a x → HasValue b y →
      HasValue (.binary ⟨.mul, flag⟩ a b) (x * y)
  | div {a b : Expr} {x y : ℝ} (flag : Bool) : HasValue a x → HasValue b y → y ≠ 0 →
      HasValue (.binary ⟨.div, flag⟩ a b) (x / y)
  | pow {a b : Expr} {x z : ℝ} {y : ℚ} (flag : Bool) : HasValue a x → HasValue b y →
      IsPower x y z → HasValue (.binary ⟨.pow, flag⟩ a b) z
  | powOne {a : Expr} (b : Expr) (flag : Bool) : HasValue a 1 →
      HasValue (.binary ⟨.pow, flag⟩ a b) 1
  | sqrt {a : Expr} {x z : ℝ} : HasValue a x → 0 ≤ z → z * z = x → HasValue (.call .sqrt a) z

theorem HasValue.unique {e : Expr} {x y : ℝ} (left : e.HasValue x) (right : e.HasValue y) :
    x = y := by
  induction left generalizing y with
  | constant stored =>
    cases right with
    | constant stored' => rw [Option.some.inj (stored.symm.trans stored')]
  | group _ ih => cases right with | group inner => exact ih inner
  | pos _ ih => cases right with | pos inner => exact ih inner
  | neg _ ih => cases right with | neg inner => rw [ih inner]
  | add _ _ _ ih₁ ih₂ => cases right with | add _ a b => rw [ih₁ a, ih₂ b]
  | sub _ _ _ ih₁ ih₂ => cases right with | sub _ a b => rw [ih₁ a, ih₂ b]
  | mul _ _ _ ih₁ ih₂ => cases right with | mul _ a b => rw [ih₁ a, ih₂ b]
  | div _ _ _ _ ih₁ ih₂ => cases right with | div _ a b => rw [ih₁ a, ih₂ b]
  | pow _ _ _ power ih₁ ih₂ =>
    cases right with
    | pow _ a b power' =>
      rw [ih₁ a, Rat.cast_injective (ih₂ b)] at power
      exact power.unique power'
    | powOne _ _ a =>
      rw [ih₁ a] at power
      exact power.of_one
  | powOne _ _ _ ih =>
    cases right with
    | pow _ a b power =>
      rw [← ih a] at power
      exact power.of_one.symm
    | powOne => rfl
  | sqrt _ positive square ih =>
    cases right with
    | sqrt a positive' square' =>
      rw [← Real.sqrt_mul_self positive, ← Real.sqrt_mul_self positive', square, square', ih a]

/-- The exact results of an operator are the true ones, given that exact operands are. -/
theorem hasValue_apply {op : BinaryOp} {lhs rhs : Expr} {a b v : Number} {q : ℚ}
    (left : ∀ p, a.toRat? = some p → lhs.HasValue p)
    (right : ∀ p, b.toRat? = some p → rhs.HasValue p) (applied : op.kind.apply a b = .ok v)
    (stored : v.toRat? = some q) : (binary op lhs rhs).HasValue q := by
  obtain ⟨kind, flag⟩ := op
  rcases BinaryKind.yields_of_apply applied stored with ⟨rfl, rfl, rfl⟩ | ⟨x, y, hx, hy, result⟩
  · cases stored.symm.trans Number.toRat?_one
    have one := left 1 Number.toRat?_one
    rw [Rat.cast_one] at one ⊢
    exact .powOne rhs flag one
  · have hx := left x hx
    have hy := right y hy
    cases kind with
    | add =>
      obtain rfl : q = x + y := result
      rw [Rat.cast_add]
      exact .add flag hx hy
    | sub =>
      obtain rfl : q = x - y := result
      rw [Rat.cast_sub]
      exact .sub flag hx hy
    | mul =>
      obtain rfl : q = x * y := result
      rw [Rat.cast_mul]
      exact .mul flag hx hy
    | div =>
      obtain ⟨nonzero, rfl⟩ : y ≠ 0 ∧ q = x / y := result
      rw [Rat.cast_div]
      exact .div flag hx hy (Rat.cast_ne_zero.mpr nonzero)
    | pow => exact .pow flag hx hy result
    | unknown => exact result.elim

theorem hasValue_value {e : Expr} {v : Number} {q : ℚ} (evaluated : e.value = .ok v)
    (stored : v.toRat? = some q) : e.HasValue q := by
  induction e generalizing v q with
  | constant x =>
    obtain ⟨rfl, -⟩ := Number.finite_eq_ok_iff.mp evaluated
    exact .constant stored
  | var name => cases evaluated
  | unset => cases evaluated
  | group inner ih => exact .group (ih (Blame.within_eq_ok_iff.mp evaluated) stored)
  | unary op operand ih =>
    cases op with
    | unknown => cases evaluated
    | pos => exact .pos (ih (Blame.within_eq_ok_iff.mp evaluated) stored)
    | neg =>
      obtain ⟨x, below, rfl, -⟩ := value_neg_eq_ok_iff.mp evaluated
      obtain ⟨p, hp, rfl⟩ := Number.toRat?_neg stored
      rw [Rat.cast_neg]
      exact .neg (ih below hp)
  | call func arg ih =>
    cases func with
    | unknown => cases evaluated
    | sqrt =>
      obtain ⟨x, below, root⟩ := value_sqrt_eq_ok_iff.mp evaluated
      obtain ⟨p, hp, positive, rfl⟩ := Number.toRat?_sqrt root stored
      exact .sqrt (ih below hp) (Rat.cast_nonneg.mpr positive) (Rat.cast_mul q q).symm
  | binary op lhs rhs ihl ihr =>
    obtain ⟨-, x, y, left, right, applied, -⟩ := value_binary_eq_ok_iff.mp evaluated
    exact hasValue_apply (fun p => ihl left) (fun p => ihr right) applied stored

theorem exact_operands {kind : BinaryKind} {a b v : Number} (applied : kind.apply a b = .ok v)
    (exact : v.IsExact) : a.IsExact ∧ b.IsExact ∨ kind = .pow ∧ a = 1 ∧ v = 1 := by
  obtain ⟨q, stored⟩ := exact.exists
  rcases BinaryKind.yields_of_apply applied stored with one | ⟨x, y, hx, hy, -⟩
  · exact .inr one
  · exact .inl ⟨Number.isExact_of_toRat? hx, Number.isExact_of_toRat? hy⟩

/-- A child of an exact node is exact itself, but for the exponent of a power of one. -/
theorem exact_child {e c : Expr} {index : Nat} {v : Number} (evaluated : e.value = .ok v)
    (exact : v.IsExact) (step : e.child? index = some c) :
    ∃ w, c.value = .ok w ∧ (w.IsExact ∨
      ∃ flag lhs, e = .binary ⟨.pow, flag⟩ lhs c ∧ index = 1 ∧ lhs.value = .ok 1 ∧ v = 1) := by
  cases e with
  | constant x => simp [child?, children] at step
  | var name => simp [child?, children] at step
  | unset => simp [child?, children] at step
  | group inner =>
    obtain ⟨-, rfl⟩ := child?_group_eq_some.mp step
    exact ⟨v, Blame.within_eq_ok_iff.mp evaluated, .inl exact⟩
  | unary op operand =>
    obtain ⟨-, rfl⟩ := child?_unary_eq_some.mp step
    cases op with
    | unknown => cases evaluated
    | pos => exact ⟨v, Blame.within_eq_ok_iff.mp evaluated, .inl exact⟩
    | neg =>
      obtain ⟨x, below, rfl, -⟩ := value_neg_eq_ok_iff.mp evaluated
      obtain ⟨q, stored⟩ := exact.exists
      obtain ⟨p, hp, -⟩ := Number.toRat?_neg stored
      exact ⟨x, below, .inl (Number.isExact_of_toRat? hp)⟩
  | call func arg =>
    obtain ⟨-, rfl⟩ := child?_call_eq_some.mp step
    cases func with
    | unknown => cases evaluated
    | sqrt =>
      obtain ⟨x, below, root⟩ := value_sqrt_eq_ok_iff.mp evaluated
      obtain ⟨q, stored⟩ := exact.exists
      obtain ⟨p, hp, -⟩ := Number.toRat?_sqrt root stored
      exact ⟨x, below, .inl (Number.isExact_of_toRat? hp)⟩
  | binary op lhs rhs =>
    obtain ⟨-, x, y, left, right, applied, -⟩ := value_binary_eq_ok_iff.mp evaluated
    rcases exact_operands applied exact with ⟨hx, hy⟩ | ⟨power, rfl, result⟩
    · rcases child?_binary_eq_some.mp step with ⟨-, rfl⟩ | ⟨-, rfl⟩
      · exact ⟨x, left, .inl hx⟩
      · exact ⟨y, right, .inl hy⟩
    · rcases child?_binary_eq_some.mp step with ⟨-, rfl⟩ | ⟨second, rfl⟩
      · exact ⟨1, left, .inl rfl⟩
      · obtain ⟨kind, flag⟩ := op
        cases power
        exact ⟨y, right, .inr ⟨flag, lhs, rfl, second, left, result⟩⟩

theorem double_below_exact {e n : Expr} {path : List Nat} {v : Number} {y : Float}
    (evaluated : e.value = .ok v) (exact : v.IsExact) (found : e.node? path = some n)
    (double : n.value = .ok (.double y)) :
    ∃ upper lower flag lhs rhs, path = upper ++ 1 :: lower ∧
      e.node? upper = some (.binary ⟨.pow, flag⟩ lhs rhs) ∧ lhs.value = .ok 1 ∧
        (binary ⟨.pow, flag⟩ lhs rhs).value = .ok 1 := by
  -- Down the path all values stay exact until it enters the exponent of a power of one.
  induction path generalizing e v with
  | nil =>
    cases found
    cases evaluated.symm.trans double
    cases exact
  | cons index path ih =>
    obtain ⟨c, step, found⟩ := node?_cons_eq_some.mp found
    obtain ⟨w, below, exact | ⟨flag, lhs, rfl, rfl, one, rfl⟩⟩ := exact_child evaluated exact step
    · obtain ⟨upper, lower, flag, lhs, rhs, rfl, power, one, result⟩ := ih below exact found
      exact ⟨index :: upper, lower, flag, lhs, rhs, rfl,
        node?_cons_eq_some.mpr ⟨c, step, power⟩, one, result⟩
    · exact ⟨[], path, flag, lhs, c, rfl, rfl, one, evaluated⟩

/-- An exact answer is the one real value of the expression. Where a node below it evaluates to a
double, this is in the exponent of a power of one, which evaluates to one. -/
theorem evaluate_exact {e : Expr} {v : Number} {q : ℚ} (evaluated : e.evaluate = .ok v)
    (stored : v.toRat? = some q) :
    (∀ x, e.HasValue x ↔ x = q) ∧
      ∀ (path : List Nat) (n : Expr) (y : Float), e.node? path = some n →
        n.evaluate = .ok (.double y) → ∃ upper lower flag lhs rhs, path = upper ++ 1 :: lower ∧
          e.node? upper = some (.binary ⟨.pow, flag⟩ lhs rhs) ∧ lhs.evaluate = .ok 1 ∧
            (binary ⟨.pow, flag⟩ lhs rhs).evaluate = .ok 1 := by
  have evaluated := mapError_eq_ok_iff.mp evaluated
  have value := hasValue_value evaluated stored
  refine ⟨fun x => ⟨fun other => other.unique value, fun same => same ▸ value⟩, ?_⟩
  intro path n y found double
  obtain ⟨upper, lower, flag, lhs, rhs, split, power, one, result⟩ :=
    double_below_exact evaluated (Number.isExact_of_toRat? stored) found (mapError_eq_ok_iff.mp double)
  exact ⟨upper, lower, flag, lhs, rhs, split, power, mapError_eq_ok_iff.mpr one,
    mapError_eq_ok_iff.mpr result⟩

/-- The expression is `(-8/27)^(2/3) * 1^sqrt(2)`, where the square root is a double. -/
theorem evaluate_exact_root :
    let root : Expr := .binary ⟨.pow, false⟩ (.group (.constant (.ofRat (-8 / 27))))
      (.constant (.ofRat (2 / 3)))
    let e : Expr := .binary ⟨.mul, false⟩ root
      (.binary ⟨.pow, false⟩ (.constant 1) (.call .sqrt (.constant (.integer 2))))
    e.HasValue (4 / 9) := by
  intro root e
  have evaluated : e.evaluate = .ok (.ofRat (4 / 9)) := by decide +kernel
  have stored : (Number.ofRat (4 / 9)).toRat? = some (4 / 9) := by decide +kernel
  refine ((evaluate_exact evaluated stored).1 _).mpr ?_
  norm_num

end Expr
end Schoolbook
