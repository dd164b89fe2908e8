import Schoolbook.Equation
import Schoolbook.Number.Order

/-!
Canonical trees of expressions: sums and products are lists, everything else keeps its shape. The
order of these trees sorts the lists.
-/
namespace Schoolbook

inductive Canonical where
  | constant (value : Number)
  | var (name : String)
  | sqrt (arg : Canonical)
  | neg (operand : Canonical)
  | pos (operand : Canonical)
  | sum (operands : List Canonical)
  | difference (lhs rhs : Canonical)
  | product (operands : List Canonical)
  | quotient (lhs rhs : Canonical)
  | power (base exponent : Canonical)
  /-- Stands for a node that was unset or had an unknown operator. -/
  | invalid
  deriving Inhabited

namespace Canonical

def rank : Canonical → Nat
  | .constant _ => 0
  | .var _ => 1
  | .sqrt _ => 2
  | .neg _ => 3
  | .pos _ => 4
  | .sum _ => 5
  | .difference _ _ => 6
  | .product _ => 7
  | .quotient _ _ => 8
  | .power _ _ => 9
  | .invalid => 10

mutual

/-- Trees of one kind are compared by their parts, others by the rank of their kinds. -/
def cmp : Canonical → Canonical → Ordering
  | .constant x, .constant y => x.cmp y
  | .var x, .var y => compare x y
  | .sqrt x, .sqrt y | .neg x, .neg y | .pos x, .pos y => cmp x y
  | .sum xs, .sum ys | .product xs, .product ys => cmpAll xs ys
  | .difference x₁ x₂, .difference y₁ y₂
  | .quotient x₁ x₂, .quotient y₁ y₂
  | .power x₁ x₂, .power y₁ y₂ => (cmp x₁ y₁).then (cmp x₂ y₂)
  | x, y => compare x.rank y.rank

/-- The first difference decides; a list comes before its extensions. -/
def cmpAll : List Canonical → List Canonical → Ordering
  | [], [] => .eq
  | [], _ :: _ => .lt
  | _ :: _, [] => .gt
  | x :: xs, y :: ys => (cmp x y).then (cmpAll xs ys)

end

mutual

/-- Whether a malformed node is anywhere in the tree. -/
def isInvalid : Canonical → Bool
  | .invalid => true
  | .constant _ | .var _ => false
  | .sqrt x | .neg x | .pos x => x.isInvalid
  | .sum xs | .product xs => anyInvalid xs
  | .difference x y | .quotient x y | .power x y => x.isInvalid || y.isInvalid

def anyInvalid : List Canonical → Bool
  | [] => false
  | x :: xs => x.isInvalid || anyInvalid xs

end

mutual

/-- Equality for grading: a malformed node is equal to nothing, not even to itself. -/
def agrees : Canonical → Canonical → Bool
  | .constant x, .constant y => x == y
  | .var x, .var y => x == y
  | .sqrt x, .sqrt y | .neg x, .neg y | .pos x, .pos y => agrees x y
  | .sum xs, .sum ys | .product xs, .product ys => agreeAll xs ys
  | .difference x₁ x₂, .difference y₁ y₂
  | .quotient x₁ x₂, .quotient y₁ y₂
  | .power x₁ x₂, .power y₁ y₂ => agrees x₁ y₁ && agrees x₂ y₂
  | _, _ => false

def agreeAll : List Canonical → List Canonical → Bool
  | [], [] => true
  | x :: xs, y :: ys => agrees x y && agreeAll xs ys
  | _, _ => false

end

/-- Puts a tree into a list that descends, before all trees that are not above it. -/
def insertDown (x : Canonical) : List Canonical → List Canonical
  | [] => [x]
  | y :: ys => if cmp x y = .lt then y :: insertDown x ys else x :: y :: ys

/-- Sorts into ascending order if the order is total on the list. Elsewhere the same insertions are
made and never fail, which other sorts do not promise; `Canonical.Sorting` is about all of them. -/
def sort (xs : List Canonical) : List Canonical :=
  (xs.foldl (fun sorted x => insertDown x sorted) []).reverse

/-- The operation on all operands, grouped to the left. -/
def chain (kind : BinaryKind) (empty : Number) : List Expr → Expr
  | [] => .constant empty
  | e :: es => es.foldl (fun left right => .binary ⟨kind, false⟩ left right) e

mutual

/-- An expression with this canonical tree if the tree comes from a well-formed expression. A sum
of nothing is zero and a product of nothing is one. -/
def toExpr : Canonical → Expr
  | .constant x => .constant x
  | .var name => .var name
  | .sqrt x => .call .sqrt x.toExpr
  | .neg x => .unary .neg x.toExpr
  | .pos x => .unary .pos x.toExpr
  | .sum xs => chain .add 0 (toExprs xs)
  | .product xs => chain .mul 1 (toExprs xs)
  | .difference x y => .binary ⟨.sub, false⟩ x.toExpr y.toExpr
  | .quotient x y => .binary ⟨.div, false⟩ x.toExpr y.toExpr
  | .power x y => .binary ⟨.pow, false⟩ x.toExpr y.toExpr
  | .invalid => .unset

def toExprs : List Canonical → List Expr
  | [] => []
  | x :: xs => x.toExpr :: toExprs xs

end

def plain (t : Canonical) : String := t.toExpr.plain

end Canonical
end Schoolbook
