import Schoolbook.Expr.Operator
import Schoolbook.Number.Arithmetic

/-!
Expressions as a learner enters them: explicit parentheses are kept, and parts that were never
filled in can be represented so that they can be reported.
-/
namespace Schoolbook

inductive Expr where
  | constant (value : Number)
  | var (name : String)
  | binary (op : BinaryOp) (lhs rhs : Expr)
  | unary (op : UnaryKind) (operand : Expr)
  | call (func : FunctionKind) (arg : Expr)
  | group (inner : Expr)
  | unset
  deriving DecidableEq, Inhabited

namespace Expr

/-- A negative constant is written with a sign in front and binds like one. -/
def precedence : Expr → Precedence
  | .constant x => if x.isNegative then .sign else .atom
  | .binary op _ _ => op.kind.precedence
  | .unary op _ => op.precedence
  | .var _ | .call _ _ | .group _ | .unset => .atom

/-- The expression inside all outer groups. -/
def innermost : Expr → Expr
  | .group inner => inner.innermost
  | e => e

/-- Whether the expression reads as one term: a constant, a variable or a call, in any number of
groups. -/
def isSingleTerm : Expr → Bool
  | .constant _ | .var _ | .call _ _ => true
  | .group inner => inner.isSingleTerm
  | .binary _ _ _ | .unary _ _ | .unset => false

/-- Operands are numbered from the left, starting with zero. -/
def children : Expr → List Expr
  | .binary _ lhs rhs => [lhs, rhs]
  | .unary _ operand => [operand]
  | .call _ arg => [arg]
  | .group inner => [inner]
  | .constant _ | .var _ | .unset => []

def child? (e : Expr) (index : Nat) : Option Expr := e.children[index]?

/-- The node that is reached by taking the numbered children in turn. -/
def node? : Expr → List Nat → Option Expr
  | e, [] => some e
  | e, index :: path => do (← e.child? index).node? path

/-- All nodes with their paths, every node before its children. -/
def nodes : Expr → List (List Nat × Expr)
  | e@(.binary _ lhs rhs) => ([], e) :: (below 0 lhs.nodes ++ below 1 rhs.nodes)
  | e@(.unary _ inner) | e@(.call _ inner) | e@(.group inner) => ([], e) :: below 0 inner.nodes
  | e => [([], e)]
where
  below (index : Nat) (found : List (List Nat × Expr)) : List (List Nat × Expr) :=
    found.map fun (path, e) => (index :: path, e)

/-- The same expression without any group; operators keep their flags. -/
def stripGroups : Expr → Expr
  | .binary op lhs rhs => .binary op lhs.stripGroups rhs.stripGroups
  | .unary op operand => .unary op operand.stripGroups
  | .call func arg => .call func arg.stripGroups
  | .group inner => inner.stripGroups
  | e => e

/-- Whether the node itself is unset or has an unknown operator; its children do not matter. -/
def isMalformedNode : Expr → Bool
  | .unset => true
  | .binary op _ _ => op.kind = .unknown
  | .unary op _ => op = .unknown
  | .call func _ => func = .unknown
  | .constant _ | .var _ | .group _ => false

/-- The path of the first malformed node, every node before its children. -/
def malformed? : Expr → Option (List Nat)
  | .unset => some []
  | .binary op lhs rhs =>
    if op.kind = .unknown then some []
    else (lhs.malformed?.map (0 :: ·)).or (rhs.malformed?.map (1 :: ·))
  | .unary op operand => if op = .unknown then some [] else operand.malformed?.map (0 :: ·)
  | .call func arg => if func = .unknown then some [] else arg.malformed?.map (0 :: ·)
  | .group inner => inner.malformed?.map (0 :: ·)
  | .constant _ | .var _ => none

end Expr
end Schoolbook
