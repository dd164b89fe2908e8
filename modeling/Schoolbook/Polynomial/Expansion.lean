import Schoolbook.Diagnosis
import Schoolbook.Polynomial.Basic

/-!
Expansion of expressions into polynomials.
-/
namespace Schoolbook

/-- The whole number that a constant polynomial stands for, if it fits 32 bits. -/
def Polynomial.wholeExponent? (p : Polynomial) : Option Nat :=
  if p.isConstant then
    match p.constantTerm with
    | .integer n => if 0 ≤ n.toInt ∧ n.toInt < UInt32.size then some n.toInt.toNat else none
    | _ => none
  else none

namespace Expr

/-- Sums, differences, products, signs and whole powers are multiplied out. A division or a root
is refused without looking at its operands. -/
def expand : Expr → Except Blame Polynomial
  | .constant x => .ok (.constant x)
  | .var name => .ok (.var name)
  | .group inner => Blame.within 0 inner.expand
  | .unary .neg operand => do return -(← Blame.within 0 operand.expand)
  | .unary .pos operand => Blame.within 0 operand.expand
  | .unary .unknown _ => Blame.here .malformedOperator
  | .call .sqrt _ => Blame.here (.nonPolynomial .squareRoot)
  | .call .unknown _ => Blame.here .malformedOperator
  | .binary op lhs rhs =>
    if op.kind = .unknown then Blame.here .malformedOperator
    else if op.kind = .div then Blame.here (.nonPolynomial .division)
    else do
      let p ← Blame.within 0 lhs.expand
      let q ← Blame.within 1 rhs.expand
      combine op.kind p q
  | .unset => Blame.here .malformedOperator
where
  combine (kind : BinaryKind) (p q : Polynomial) : Except Blame Polynomial :=
    match kind with
    | .add => .ok (p + q)
    | .sub => .ok (p - q)
    | .mul => unlessTooHigh (p.mul? q)
    | .pow =>
      match q.wholeExponent? with
      | some n => unlessTooHigh (p.pow? n)
      | none => Blame.child 1 (.nonPolynomial .fractionalPower)
    | .div => Blame.here (.nonPolynomial .division)
    | .unknown => Blame.here .malformedOperator
  unlessTooHigh : Option Polynomial → Except Blame Polynomial
    | some p => .ok p
    | none => Blame.here .degreeOverflow

def reduce (e : Expr) : Except Diagnosis Polynomial := e.expand.mapError (Subject.expr e).diagnose

end Expr

namespace Equation

/-- The left side minus the right side. -/
def expand (q : Equation) : Except Blame Polynomial := do
  let left ← Blame.within 0 q.lhs.expand
  let right ← Blame.within 1 q.rhs.expand
  return left - right

def reduce (q : Equation) : Except Diagnosis Polynomial :=
  q.expand.mapError (Subject.equation q).diagnose

end Equation
end Schoolbook
