import Mathlib
import Schoolbook.Proofs.Evaluation.Steps
import Schoolbook.Proofs.Expr.Nodes
import Schoolbook.Proofs.Polynomial.Overflow

/-! Infinities and NaN. Evaluation never lets one through. Reduction does where an operation outgrows
the doubles, and an expression does not cancel against itself then. -/
namespace Schoolbook.Expr
open Schoolbook.Polynomial

/-- Whatever the constants are, the value of an expression is no infinity and no NaN. -/
theorem evaluate_is_finite {e : Expr} {v : Number} (evaluated : e.evaluate = .ok v) : v.IsFinite :=
  isFinite_value (mapError_eq_ok_iff.mp evaluated)

/-- In `-sqrt((10^18)^2)` the square leaves the whole numbers, so the root is taken of a double. -/
theorem evaluate_is_finite_root :
    let e : Expr := .unary .neg (.call .sqrt (.binary ⟨.pow, false⟩
      (.constant (.integer 1000000000000000000)) (.constant (.integer 2))))
    e.evaluate = .ok (.double (-1e18)) ∧ (Number.double (-1e18)).IsFinite := by
  intro e
  have evaluated : e.evaluate = .ok (.double (-1e18)) := by decide +kernel
  exact ⟨evaluated, evaluate_is_finite evaluated⟩

def FiniteConstants (e : Expr) : Prop :=
  e.Everywhere fun n => ∀ x, n = constant x → x.IsFinite

/-- The operation of the node itself takes finite coefficients to one that is not finite. -/
def Outgrows (n : Expr) : Prop :=
  ∃ op lhs rhs p q r, n = binary op lhs rhs ∧ lhs.expand = .ok p ∧ rhs.expand = .ok q ∧
    n.expand = .ok r ∧ p.AllFinite ∧ q.AllFinite ∧ ¬r.AllFinite

/-- A sum or a product of two finite coefficients is not finite, and the operation of the node itself
forms it. -/
def Overflows (n : Expr) : Prop :=
  ∃ op lhs rhs p q, n = binary op lhs rhs ∧ lhs.expand = .ok p ∧ rhs.expand = .ok q ∧
    op.kind.Overflows p q

theorem Outgrows.overflows {n : Expr} (outgrows : n.Outgrows) : n.Overflows := by
  obtain ⟨op, lhs, rhs, p, q, r, rfl, left, right, expanded, hp, hq, grown⟩ := outgrows
  obtain ⟨-, -, p', q', left', right', combined⟩ := expand_binary_eq_ok_iff.mp expanded
  cases left.symm.trans left'
  cases right.symm.trans right'
  refine ⟨op, lhs, rhs, p, q, rfl, left, right, ?_⟩
  by_contra bounded
  exact grown (allFinite_combine hp hq bounded combined)

theorem allFinite_expand {e : Expr} {p : Polynomial} (finite : e.FiniteConstants)
    (bounded : e.Everywhere fun n => ¬n.Outgrows) (expanded : e.expand = .ok p) : p.AllFinite := by
  induction e generalizing p with
  | constant x =>
    cases expanded
    exact allFinite_constant (everywhere_constant.mp finite x rfl)
  | var name =>
    cases expanded
    exact allFinite_var name
  | unset => cases expanded
  | group inner ih =>
    exact ih (everywhere_group.mp finite).2 (everywhere_group.mp bounded).2
      (Blame.within_eq_ok_iff.mp expanded)
  | call func arg _ => cases func <;> cases expanded
  | unary op operand ih =>
    have below {q : Polynomial} := ih (p := q) (everywhere_unary.mp finite).2
      (everywhere_unary.mp bounded).2
    cases op with
    | unknown => cases expanded
    | pos => exact below (Blame.within_eq_ok_iff.mp expanded)
    | neg =>
      obtain ⟨q, inner, rfl⟩ := expand_neg_eq_ok_iff.mp expanded
      exact allFinite_neg (isNormalized_expand inner) (below inner)
  | binary op lhs rhs ihl ihr =>
    obtain ⟨-, finite, finite'⟩ := everywhere_binary.mp finite
    obtain ⟨here, bounded, bounded'⟩ := everywhere_binary.mp bounded
    obtain ⟨-, -, p', q, left, right, -⟩ := expand_binary_eq_ok_iff.mp expanded
    -- Both operands are finite, so this node would be the one that outgrows the doubles.
    by_contra grown
    exact here ⟨op, lhs, rhs, p', q, p, rfl, left, right, expanded, ihl finite bounded left,
      ihr finite' bounded' right, grown⟩

/-- Coefficients stay finite as long as no two of them have a sum or a product that is not. -/
theorem allFinite_expand_of_not_overflows {e : Expr} {p : Polynomial} (finite : e.FiniteConstants)
    (bounded : e.Everywhere fun n => ¬n.Overflows) (expanded : e.expand = .ok p) : p.AllFinite :=
  allFinite_expand finite (fun path n found grown => bounded path n found grown.overflows) expanded

/-- The coefficients of a reduced expression are finite unless some operation outgrows the doubles, and
an expression cancels against itself exactly if they are. -/
theorem reduce_is_finite_unless_outgrown {e : Expr} {p : Polynomial} (finite : e.FiniteConstants)
    (reduced : e.reduce = .ok p) :
    ((e.Everywhere fun n => ¬n.Outgrows) → p.AllFinite) ∧
      ∃ r, (Equation.mk e e).reduce = .ok r ∧ (r = .zero ↔ p.AllFinite) := by
  have expanded : e.expand = .ok p := mapError_eq_ok_iff.mp reduced
  refine ⟨fun bounded => allFinite_expand finite bounded expanded, p - p, ?_,
    sub_self_eq_zero_iff (isNormalized_expand expanded)⟩
  rw [Equation.reduce, Equation.expand, expanded]
  rfl

theorem not_outgrows {n : Expr} {r : Polynomial} (expanded : n.expand = .ok r) (finite : r.AllFinite) :
    ¬n.Outgrows := by
  rintro ⟨_, _, _, _, _, r', -, -, -, other, -, -, grown⟩
  rw [expanded] at other
  cases other
  exact grown finite

/-- The coefficient of `(0.5x)^2` is finite, that of the eighteenth power of `10^18 * x` is not. -/
theorem reduce_is_finite_unless_outgrown_power :
    let power (x : Number) (n : Int64) : Expr := .binary ⟨.pow, false⟩
      (.binary ⟨.mul, true⟩ (.constant x) (.var "x")) (.constant (.integer n))
    let e : Expr := power (.double 0.5) 2
    let f : Expr := power (.integer 1000000000000000000) 18
    ∃ p q r, e.reduce = .ok p ∧ p.AllFinite ∧ (Equation.mk e e).reduce = .ok .zero ∧
      f.reduce = .ok q ∧ ¬q.AllFinite ∧ (Equation.mk f f).reduce = .ok r ∧ r ≠ .zero := by
  intro power e f
  have constants {x : Number} (n : Int64) (finite : x.IsFinite) : (power x n).FiniteConstants := by
    have whole : (Number.integer n).IsFinite := Number.IsExact.isFinite rfl
    simp [power, FiniteConstants, finite, whole]
  let half : Polynomial := ⟨[⟨.double 0.5, .var "x"⟩]⟩
  let p : Polynomial := ⟨[⟨.double 0.25, .ofList [("x", 2)]⟩]⟩
  let q : Polynomial := ⟨[⟨.double (1 / 0), .ofList [("x", 18)]⟩]⟩
  have reduced : e.reduce = .ok p := by decide +kernel
  have reduced' : f.reduce = .ok q := by decide +kernel
  have grown : ¬q.AllFinite := by decide +kernel
  have bounded : e.Everywhere fun n => ¬n.Outgrows := by
    have product : (binary ⟨.mul, true⟩ (constant (.double 0.5)) (.var "x")).expand = .ok half := by
      decide +kernel
    have leaf {n : Expr} (small : ∀ op lhs rhs, n ≠ binary op lhs rhs) : ¬n.Outgrows := by
      rintro ⟨op, lhs, rhs, _, _, _, same, -⟩
      exact small op lhs rhs same
    refine everywhere_binary.mpr ⟨not_outgrows (mapError_eq_ok_iff.mp reduced) (by decide +kernel), ?_,
      everywhere_constant.mpr (leaf nofun)⟩
    exact everywhere_binary.mpr ⟨not_outgrows product (by decide +kernel),
      everywhere_constant.mpr (leaf nofun), everywhere_var.mpr (leaf nofun)⟩
  obtain ⟨stays, r, difference, cancels⟩ := reduce_is_finite_unless_outgrown
    (constants 2 (x := .double 0.5) (by decide +kernel)) reduced
  obtain ⟨-, r', difference', cancels'⟩ := reduce_is_finite_unless_outgrown
    (constants 18 (x := .integer 1000000000000000000) (Number.IsExact.isFinite rfl)) reduced'
  rw [cancels.mpr (stays bounded)] at difference
  exact ⟨p, q, r', reduced, stays bounded, difference, reduced', grown, difference',
    fun zero => grown (cancels'.mp zero)⟩

/-- The eighteenth power of `10^18` is infinite, and its difference with itself is not a number. -/
theorem reduce_leaves_the_doubles :
    ∃ (e : Expr) (p r : Polynomial), e.FiniteConstants ∧ e.reduce = .ok p ∧ ¬p.AllFinite ∧
      (Equation.mk e e).reduce = .ok r ∧ r ≠ .zero := by
  let e : Expr := .binary ⟨.pow, false⟩ (.constant (.integer 1000000000000000000))
    (.constant (.integer 18))
  refine ⟨e, ⟨[⟨.double (1 / 0), .one⟩]⟩, ⟨[⟨.double (0 / 0), .one⟩]⟩, ?_, ?_, ?_, ?_, ?_⟩
  · simp [e, FiniteConstants, Number.IsFinite]
  · decide +kernel
  · decide +kernel
  · decide +kernel
  · decide +kernel

end Schoolbook.Expr
