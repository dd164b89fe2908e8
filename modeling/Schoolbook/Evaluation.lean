import Schoolbook.Diagnosis
import Schoolbook.Number.Power

/-!
The value of expressions without variables.
-/
namespace Schoolbook

/-- Lets a number pass unless it is a double without a finite value. -/
def Number.finite (x : Number) : Except Blame Number :=
  match x with
  | .double y => if y.isFinite then .ok x else Blame.here .nonRealResult
  | _ => .ok x

/-- A quotient by zero is blamed on the divisor, all else on the operation. -/
def BinaryKind.apply (kind : BinaryKind) (a b : Number) : Except Blame Number :=
  match kind with
  | .add => .ok (a + b)
  | .sub => .ok (a - b)
  | .mul => .ok (a * b)
  | .div => (a.div b).mapError fun
    | .divisionByZero => ⟨[1], .divisionByZero⟩
    | fault => ⟨[], .ofArithmetic fault⟩
  | .pow => (a.pow b).mapError fun fault => ⟨[], .ofArithmetic fault⟩
  | .unknown => Blame.here .malformedOperator

namespace Expr

/-- An operator is looked at before its operands, and these from left to right. -/
def value : Expr → Except Blame Number
  | .constant x => x.finite
  | .var name => Blame.here (.unboundVariable name)
  | .binary op lhs rhs =>
    if op.kind = .unknown then Blame.here .malformedOperator
    else do
      let a ← Blame.within 0 lhs.value
      let b ← Blame.within 1 rhs.value
      (← op.kind.apply a b).finite
  | .unary .neg operand => do (-(← Blame.within 0 operand.value)).finite
  | .unary .pos operand => Blame.within 0 operand.value
  | .unary .unknown _ => Blame.here .malformedOperator
  | .call .sqrt arg => do
    let a ← Blame.within 0 arg.value
    a.sqrt.mapError fun fault => ⟨[], .ofArithmetic fault⟩
  | .call .unknown _ => Blame.here .malformedOperator
  | .group inner => Blame.within 0 inner.value
  | .unset => Blame.here .malformedOperator

def evaluate (e : Expr) : Except Diagnosis Number := e.value.mapError (Subject.expr e).diagnose

end Expr
end Schoolbook
