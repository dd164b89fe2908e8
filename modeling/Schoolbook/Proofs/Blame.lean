import Mathlib
import Schoolbook.Polynomial.Expansion
import Schoolbook.Proofs.Evaluation.Steps
import Schoolbook.Proofs.Expr.Spans

/-! Which node has a fault. Evaluation, reduction and the reduction of an equation only blame nodes
that have the fault they report, and each of their errors underlines one such node. -/
namespace Schoolbook

/-- Whether the node at a path has a fault. A divisor of zero has the fault itself, and so has an
exponent that is no whole number; all others are faults of an operation. -/
def Fault.IsAt (node? : List Nat → Option Expr) (path : List Nat) : Fault → Prop
  | .unboundVariable name => node? path = some (.var name)
  | .malformedOperator => ∃ n, node? path = some n ∧ n.isMalformedNode = true
  | .divisionByZero =>
    (∃ parent flag lhs rhs x, path = parent ++ [1] ∧
      node? parent = some (.binary ⟨.div, flag⟩ lhs rhs) ∧ node? path = some rhs ∧
        rhs.evaluate = .ok x ∧ x.isZero = true) ∨
      ∃ flag lhs rhs x y, node? path = some (.binary ⟨.pow, flag⟩ lhs rhs) ∧
        lhs.evaluate = .ok x ∧ x.isZero = true ∧ rhs.evaluate = .ok y ∧ y.isNegative = true
  | .zeroToZeroPower =>
    ∃ flag lhs rhs x y, node? path = some (.binary ⟨.pow, flag⟩ lhs rhs) ∧
      lhs.evaluate = .ok x ∧ x.isZero = true ∧ rhs.evaluate = .ok y ∧ y.isZero = true
  | .nonRealResult =>
    ∃ n, node? path = some n ∧
      ((∃ x, n = .constant x) ∨ (∃ op a, n = .unary op a) ∨ (∃ op a b, n = .binary op a b) ∨
        ∃ a, n = .call .sqrt a) ∧ ∀ c ∈ n.children, ∃ x, c.evaluate = .ok x
  | .nonPolynomial .division => ∃ flag lhs rhs, node? path = some (.binary ⟨.div, flag⟩ lhs rhs)
  | .nonPolynomial .squareRoot => ∃ arg, node? path = some (.call .sqrt arg)
  | .nonPolynomial .fractionalPower =>
    ∃ parent flag lhs rhs, path = parent ++ [1] ∧
      node? parent = some (.binary ⟨.pow, flag⟩ lhs rhs) ∧ node? path = some rhs
  | .degreeOverflow =>
    ∃ op lhs rhs p q, node? path = some (.binary op lhs rhs) ∧ (op.kind = .mul ∨ op.kind = .pow) ∧
      lhs.reduce = .ok p ∧ rhs.reduce = .ok q
  | .unsupportedLanguage _ => False

namespace Fault.IsAt
variable {node? : List Nat → Option Expr} {path : List Nat} {fault : Fault}

theorem node (there : fault.IsAt node? path) : ∃ n, node? path = some n := by
  cases fault with
  | unboundVariable name => exact ⟨_, there⟩
  | malformedOperator => exact ⟨_, there.choose_spec.1⟩
  | divisionByZero =>
    rcases there with ⟨_, _, _, rhs, _, _, _, found, _⟩ | ⟨_, _, _, _, _, found, _⟩
    · exact ⟨rhs, found⟩
    · exact ⟨_, found⟩
  | zeroToZeroPower =>
    obtain ⟨_, _, _, _, _, found, _⟩ := there
    exact ⟨_, found⟩
  | nonRealResult => exact ⟨_, there.choose_spec.1⟩
  | nonPolynomial construct =>
    cases construct with
    | division =>
      obtain ⟨_, _, _, found⟩ := there
      exact ⟨_, found⟩
    | squareRoot => exact ⟨_, there.choose_spec⟩
    | fractionalPower =>
      obtain ⟨_, _, _, rhs, _, _, found⟩ := there
      exact ⟨rhs, found⟩
  | degreeOverflow =>
    obtain ⟨_, _, _, _, _, found, _⟩ := there
    exact ⟨_, found⟩
  | unsupportedLanguage language => exact there.elim

/-- A fault below a node stays the fault of the same node seen from above. -/
theorem under {outer? : List Nat → Option Expr} {index : Nat}
    (below : ∀ path, outer? (index :: path) = node? path) (there : fault.IsAt node? path) :
    fault.IsAt outer? (index :: path) := by
  cases fault with
  | unboundVariable name => exact (below path).trans there
  | malformedOperator =>
    obtain ⟨n, found, malformed⟩ := there
    exact ⟨n, (below path).trans found, malformed⟩
  | divisionByZero =>
    rcases there with ⟨parent, flag, lhs, rhs, x, split, division, found, zero⟩ |
      ⟨flag, lhs, rhs, x, y, found, operands⟩
    · exact .inl ⟨index :: parent, flag, lhs, rhs, x, by rw [split, List.cons_append],
        (below parent).trans division, (below path).trans found, zero⟩
    · exact .inr ⟨flag, lhs, rhs, x, y, (below path).trans found, operands⟩
  | zeroToZeroPower =>
    obtain ⟨flag, lhs, rhs, x, y, found, operands⟩ := there
    exact ⟨flag, lhs, rhs, x, y, (below path).trans found, operands⟩
  | nonRealResult =>
    obtain ⟨n, found, rest⟩ := there
    exact ⟨n, (below path).trans found, rest⟩
  | nonPolynomial construct =>
    cases construct with
    | division =>
      obtain ⟨flag, lhs, rhs, found⟩ := there
      exact ⟨flag, lhs, rhs, (below path).trans found⟩
    | squareRoot =>
      obtain ⟨arg, found⟩ := there
      exact ⟨arg, (below path).trans found⟩
    | fractionalPower =>
      obtain ⟨parent, flag, lhs, rhs, split, power, found⟩ := there
      exact ⟨index :: parent, flag, lhs, rhs, by rw [split, List.cons_append],
        (below parent).trans power, (below path).trans found⟩
  | degreeOverflow =>
    obtain ⟨op, lhs, rhs, p, q, found, expanded⟩ := there
    exact ⟨op, lhs, rhs, p, q, (below path).trans found, expanded⟩
  | unsupportedLanguage language => exact there.elim

end Fault.IsAt

namespace Expr
variable {b : Blame}

/-- Whether the node that is blamed has the fault it is blamed for. -/
def Justifies (e : Expr) (b : Blame) : Prop := b.fault.IsAt e.node? b.path

theorem justifies_under {e c : Expr} {index : Nat} {inner : Blame}
    (step : e.child? index = some c) (justified : c.Justifies inner)
    (passed : inner.under index = b) : e.Justifies b := by
  subst passed
  refine Fault.IsAt.under (fun path => ?_) justified
  rw [node?, step]
  rfl

theorem evaluate_eq_ok {e : Expr} {x : Number} (evaluated : e.value = .ok x) :
    e.evaluate = .ok x :=
  mapError_eq_ok_iff.mpr evaluated

theorem reduce_eq_ok {e : Expr} {p : Polynomial} (expanded : e.expand = .ok p) :
    e.reduce = .ok p :=
  mapError_eq_ok_iff.mpr expanded

theorem justifies_nonReal {op : BinaryOp} {lhs rhs : Expr} {x y : Number} (left : lhs.value = .ok x)
    (right : rhs.value = .ok y) : (binary op lhs rhs).Justifies ⟨[], .nonRealResult⟩ := by
  refine ⟨binary op lhs rhs, rfl, .inr (.inr (.inl ⟨op, lhs, rhs, rfl⟩)), fun c member => ?_⟩
  rcases List.mem_pair.mp member with rfl | rfl
  · exact ⟨x, evaluate_eq_ok left⟩
  · exact ⟨y, evaluate_eq_ok right⟩

theorem justifies_apply {op : BinaryOp} {lhs rhs : Expr} {x y : Number} (left : lhs.value = .ok x)
    (right : rhs.value = .ok y) (failed : op.kind.apply x y = .error b) :
    (binary op lhs rhs).Justifies b := by
  have left' := evaluate_eq_ok left
  have right' := evaluate_eq_ok right
  obtain ⟨kind, flag⟩ := op
  cases kind with
  | add => cases failed
  | sub => cases failed
  | mul => cases failed
  | div =>
    obtain ⟨fault, divided, rfl⟩ := mapError_eq_error_iff.mp failed
    obtain ⟨zero, rfl⟩ := Number.div_eq_error_iff.mp divided
    exact .inl ⟨[], flag, lhs, rhs, y, rfl, rfl, rfl, right', zero⟩
  | pow =>
    obtain ⟨fault, raised, rfl⟩ := mapError_eq_error_iff.mp failed
    rcases Number.pow_eq_error (isFinite_value right) raised with
      ⟨zero, none, rfl⟩ | ⟨zero, negative, rfl⟩ | rfl
    · exact ⟨flag, lhs, rhs, x, y, rfl, left', zero, right', none⟩
    · exact .inr ⟨flag, lhs, rhs, x, y, rfl, left', zero, right', negative⟩
    · exact justifies_nonReal left right
  | unknown =>
    cases failed
    exact ⟨_, rfl, rfl⟩

theorem justifies_value {e : Expr} (failed : e.value = .error b) : e.Justifies b := by
  -- A fault comes from the node itself or from a child, whose blame is then passed on.
  induction e generalizing b with
  | constant x =>
    obtain ⟨-, rfl⟩ := Number.finite_eq_error_iff.mp failed
    exact ⟨constant x, rfl, .inl ⟨x, rfl⟩, List.forall_mem_nil _⟩
  | var name =>
    cases failed
    exact rfl
  | unset =>
    cases failed
    exact ⟨unset, rfl, rfl⟩
  | group inner ih =>
    obtain ⟨c, below, passed⟩ := Blame.within_eq_error_iff.mp failed
    exact justifies_under rfl (ih below) passed
  | unary op operand ih =>
    cases op with
    | unknown =>
      cases failed
      exact ⟨unary .unknown operand, rfl, rfl⟩
    | pos =>
      obtain ⟨c, below, passed⟩ := Blame.within_eq_error_iff.mp failed
      exact justifies_under rfl (ih below) passed
    | neg =>
      rcases value_neg_eq_error failed with ⟨c, below, passed⟩ | ⟨⟨x, below⟩, rfl⟩
      · exact justifies_under rfl (ih below) passed
      · refine ⟨unary .neg operand, rfl, .inr (.inl ⟨.neg, operand, rfl⟩), ?_⟩
        exact List.forall_mem_singleton.mpr ⟨x, evaluate_eq_ok below⟩
  | call func arg ih =>
    cases func with
    | unknown =>
      cases failed
      exact ⟨call .unknown arg, rfl, rfl⟩
    | sqrt =>
      rcases value_sqrt_eq_error failed with ⟨c, below, passed⟩ | ⟨⟨x, below⟩, rfl⟩
      · exact justifies_under rfl (ih below) passed
      · refine ⟨call .sqrt arg, rfl, .inr (.inr (.inr ⟨arg, rfl⟩)), ?_⟩
        exact List.forall_mem_singleton.mpr ⟨x, evaluate_eq_ok below⟩
  | binary op lhs rhs ihl ihr =>
    rcases value_binary_eq_error failed with ⟨unknown, rfl⟩ | ⟨c, below, passed⟩ |
      ⟨c, below, passed⟩ | ⟨x, y, left, right, applied | rfl⟩
    · exact ⟨binary op lhs rhs, rfl, decide_eq_true unknown⟩
    · exact justifies_under rfl (ihl below) passed
    · exact justifies_under rfl (ihr below) passed
    · exact justifies_apply left right applied
    · exact justifies_nonReal left right

theorem expand_binary_eq_error {op : BinaryOp} {lhs rhs : Expr}
    (failed : (binary op lhs rhs).expand = .error b) :
    op.kind = .unknown ∧ b = ⟨[], .malformedOperator⟩ ∨
      op.kind = .div ∧ b = ⟨[], .nonPolynomial .division⟩ ∨
        (∃ c, lhs.expand = .error c ∧ c.under 0 = b) ∨
          (∃ c, rhs.expand = .error c ∧ c.under 1 = b) ∨
            ∃ p q, lhs.expand = .ok p ∧ rhs.expand = .ok q ∧
              expand.combine op.kind p q = .error b := by
  rw [expand] at failed
  split_ifs at failed with unknown division
  · cases failed
    exact .inl ⟨unknown, rfl⟩
  · cases failed
    exact .inr (.inl ⟨division, rfl⟩)
  · refine .inr (.inr ?_)
    rcases bind_eq_error_iff.mp failed with left | ⟨p, left, failed⟩
    · exact .inl (Blame.within_eq_error_iff.mp left)
    refine .inr ?_
    have left := Blame.within_eq_ok_iff.mp left
    rcases bind_eq_error_iff.mp failed with right | ⟨q, right, failed⟩
    · exact .inl (Blame.within_eq_error_iff.mp right)
    · exact .inr ⟨p, q, left, Blame.within_eq_ok_iff.mp right, failed⟩

theorem unlessTooHigh_eq_error {result : Option Polynomial}
    (failed : expand.unlessTooHigh result = .error b) : b = ⟨[], .degreeOverflow⟩ := by
  cases result with
  | none =>
    cases failed
    rfl
  | some p => cases failed

theorem justifies_combine {op : BinaryOp} {lhs rhs : Expr} {p q : Polynomial}
    (left : lhs.expand = .ok p) (right : rhs.expand = .ok q)
    (failed : expand.combine op.kind p q = .error b) : (binary op lhs rhs).Justifies b := by
  have left := reduce_eq_ok left
  have right := reduce_eq_ok right
  obtain ⟨kind, flag⟩ := op
  cases kind with
  | add => cases failed
  | sub => cases failed
  | mul =>
    rw [unlessTooHigh_eq_error failed]
    exact ⟨⟨.mul, flag⟩, lhs, rhs, p, q, rfl, .inl rfl, left, right⟩
  | div =>
    cases failed
    exact ⟨flag, lhs, rhs, rfl⟩
  | pow =>
    simp only [expand.combine] at failed
    split at failed
    next n whole =>
      rw [unlessTooHigh_eq_error failed]
      exact ⟨⟨.pow, flag⟩, lhs, rhs, p, q, rfl, .inr rfl, left, right⟩
    next =>
      cases failed
      exact ⟨[], flag, lhs, rhs, rfl, rfl, rfl⟩
  | unknown =>
    cases failed
    exact ⟨_, rfl, rfl⟩

theorem justifies_expand {e : Expr} (failed : e.expand = .error b) : e.Justifies b := by
  induction e generalizing b with
  | constant x => cases failed
  | var name => cases failed
  | unset =>
    cases failed
    exact ⟨unset, rfl, rfl⟩
  | group inner ih =>
    obtain ⟨c, below, passed⟩ := Blame.within_eq_error_iff.mp failed
    exact justifies_under rfl (ih below) passed
  | unary op operand ih =>
    cases op with
    | unknown =>
      cases failed
      exact ⟨unary .unknown operand, rfl, rfl⟩
    | pos =>
      obtain ⟨c, below, passed⟩ := Blame.within_eq_error_iff.mp failed
      exact justifies_under rfl (ih below) passed
    | neg =>
      rcases bind_eq_error_iff.mp failed with below | ⟨p, -, negated⟩
      · obtain ⟨c, below, passed⟩ := Blame.within_eq_error_iff.mp below
        exact justifies_under rfl (ih below) passed
      · cases negated
  | call func arg _ =>
    cases func with
    | unknown =>
      cases failed
      exact ⟨call .unknown arg, rfl, rfl⟩
    | sqrt =>
      cases failed
      exact ⟨arg, rfl⟩
  | binary op lhs rhs ihl ihr =>
    rcases expand_binary_eq_error failed with ⟨unknown, rfl⟩ | ⟨division, rfl⟩ |
      ⟨c, below, passed⟩ | ⟨c, below, passed⟩ | ⟨p, q, left, right, combined⟩
    · exact ⟨binary op lhs rhs, rfl, decide_eq_true unknown⟩
    · obtain ⟨kind, flag⟩ := op
      cases division
      exact ⟨flag, lhs, rhs, rfl⟩
    · exact justifies_under rfl (ihl below) passed
    · exact justifies_under rfl (ihr below) passed
    · exact justifies_combine left right combined

end Expr

/-- Evaluation and reduction report a fault from the position of the node they blame. -/
theorem Expr.outcomes_eq_report (e : Expr) :
    e.evaluate = e.value.mapError (Cursor.root e).report ∧
      e.reduce = e.expand.mapError (Cursor.root e).report := by
  rw [Cursor.report_root]
  exact ⟨rfl, rfl⟩

/-- The sides of an equation are reduced one by one, each from its own position. -/
theorem Equation.reduce_eq_report (q : Equation) : q.reduce = do
    let left ← q.lhs.expand.mapError (Cursor.side q 0).report
    let right ← q.rhs.expand.mapError (Cursor.side q 1).report
    return left - right := by
  rw [reduce, expand, mapError_bind, Cursor.mapError_side]
  refine congrArg _ (funext fun left => ?_)
  rw [mapError_bind, Cursor.mapError_side]
  rfl

/-- A diagnosis that underlines one node, the one at the path, which has the fault. -/
def Subject.Justifies (s : Subject) (path : List Nat) (d : Diagnosis) : Prop :=
  ∃ span, s.span? path = some span ∧ d.spans = [span] ∧ d.fault.IsAt s.node? path

theorem Subject.justifies_diagnose {s : Subject} {b : Blame} (there : b.fault.IsAt s.node? b.path) :
    s.Justifies b.path (s.diagnose b) := by
  obtain ⟨n, found⟩ := there.node
  obtain ⟨span, spanned, underlined⟩ := s.exists_diagnose b found
  refine ⟨span, spanned, ?_, there⟩
  rw [underlined]

theorem Equation.isAt_expand {q : Equation} {b : Blame} (failed : q.expand = .error b) :
    ∃ side path, side < 2 ∧ b.path = side :: path ∧ b.fault.IsAt q.node? b.path := by
  have lift {e : Expr} {side : Nat} {c : Blame} (on : q.side? side = some e)
      (below : e.expand = .error c) : c.fault.IsAt q.node? (side :: c.path) := by
    refine Fault.IsAt.under (fun path => ?_) (Expr.justifies_expand below)
    rw [node?, on]
    rfl
  rcases bind_eq_error_iff.mp failed with left | ⟨p, -, failed⟩
  · obtain ⟨c, below, rfl⟩ := Blame.within_eq_error_iff.mp left
    exact ⟨0, c.path, by decide, rfl, lift rfl below⟩
  rcases bind_eq_error_iff.mp failed with right | ⟨r, -, combined⟩
  · obtain ⟨c, below, rfl⟩ := Blame.within_eq_error_iff.mp right
    exact ⟨1, c.path, by decide, rfl, lift rfl below⟩
  · cases combined

/-- Every error of evaluation and reduction underlines exactly one node, and this node has the fault
that the error reports. -/
theorem errors_blame_faulty_nodes :
    (∀ (e : Expr) (d : Diagnosis), e.evaluate = .error d ∨ e.reduce = .error d →
      ∃ path, (Subject.expr e).Justifies path d) ∧
    ∀ (q : Equation) (d : Diagnosis), q.reduce = .error d →
      ∃ side path, side < 2 ∧ (Subject.equation q).Justifies (side :: path) d := by
  constructor
  · rintro e d (failed | failed)
    · obtain ⟨b, blamed, rfl⟩ := mapError_eq_error_iff.mp failed
      exact ⟨b.path, Subject.justifies_diagnose (Expr.justifies_value blamed)⟩
    · obtain ⟨b, blamed, rfl⟩ := mapError_eq_error_iff.mp failed
      exact ⟨b.path, Subject.justifies_diagnose (Expr.justifies_expand blamed)⟩
  · intro q d failed
    obtain ⟨b, blamed, rfl⟩ := mapError_eq_error_iff.mp failed
    obtain ⟨side, path, bound, split, there⟩ := Equation.isAt_expand blamed
    exact ⟨side, path, bound, split ▸ Subject.justifies_diagnose there⟩

/-- The expression is `3+1/(2-2)` and the equation `x = x^y`; the parts to blame are `2-2` and `y`. -/
theorem errors_blame_faulty_nodes_zero :
    let two : Expr := .constant (.integer 2)
    let e : Expr := .binary ⟨.add, false⟩ (.constant (.integer 3))
      (.binary ⟨.div, false⟩ (.constant 1) (.binary ⟨.sub, false⟩ two two))
    let q : Equation := ⟨.var "x", .binary ⟨.pow, false⟩ (.var "x") (.var "y")⟩
    let d : Diagnosis := ⟨.divisionByZero, [⟨5, 8⟩]⟩
    let f : Diagnosis := ⟨.nonPolynomial .fractionalPower, [⟨6, 7⟩]⟩
    e.evaluate = .error d ∧ q.reduce = .error f ∧ (∃ path, (Subject.expr e).Justifies path d) ∧
      ∃ side path, side < 2 ∧ (Subject.equation q).Justifies (side :: path) f := by
  intro two e q d f
  have evaluated : e.evaluate = .error d := by decide +kernel
  have reduced : q.reduce = .error f := by decide +kernel
  exact ⟨evaluated, reduced, errors_blame_faulty_nodes.1 e d (.inl evaluated),
    errors_blame_faulty_nodes.2 q f reduced⟩

end Schoolbook
