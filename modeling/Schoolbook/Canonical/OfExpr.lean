import Schoolbook.Canonical.Basic

/-!
Canonical trees of expressions. Two expressions that differ only in the order and the nesting of
the operands of sums and products, or in groups, have equal trees.
-/
namespace Schoolbook

/-- What an expression becomes by itself, and what it adds to a sum or a product around it: its
own operands if it is one, and otherwise itself. -/
structure CanonicalParts where
  tree : Canonical
  terms : List Canonical
  factors : List Canonical

namespace CanonicalParts

/-- An expression that stands as one operand in every sum and every product. -/
def single (tree : Canonical) : CanonicalParts := ⟨tree, [tree], [tree]⟩

def sum (terms : List Canonical) : CanonicalParts :=
  let tree := Canonical.sum (Canonical.sort terms)
  ⟨tree, terms, [tree]⟩

def product (factors : List Canonical) : CanonicalParts :=
  let tree := Canonical.product (Canonical.sort factors)
  ⟨tree, [tree], factors⟩

end CanonicalParts

namespace Expr
open CanonicalParts

/-- Groups are looked through. A malformed node hides what is below it. -/
def canonicalParts : Expr → CanonicalParts
  | .constant x => single (.constant x)
  | .var name => single (.var name)
  | .group inner => inner.canonicalParts
  | .unary .neg operand => single (.neg operand.canonicalParts.tree)
  | .unary .pos operand => single (.pos operand.canonicalParts.tree)
  | .call .sqrt arg => single (.sqrt arg.canonicalParts.tree)
  | .binary op lhs rhs =>
    let left := lhs.canonicalParts
    let right := rhs.canonicalParts
    match op.kind with
    | .add => sum (left.terms ++ right.terms)
    | .mul => product (left.factors ++ right.factors)
    | .sub => single (.difference left.tree right.tree)
    | .div => single (.quotient left.tree right.tree)
    | .pow => single (.power left.tree right.tree)
    | .unknown => single .invalid
  | .unary .unknown _ | .call .unknown _ | .unset => single .invalid

def canonicalize (e : Expr) : Canonical := e.canonicalParts.tree

end Expr

structure CanonicalEquation where
  lhs : Canonical
  rhs : Canonical

/-- The sides are compared one by one and never exchanged. -/
def CanonicalEquation.agrees (p q : CanonicalEquation) : Bool :=
  p.lhs.agrees q.lhs && p.rhs.agrees q.rhs

def Equation.canonicalize (q : Equation) : CanonicalEquation :=
  ⟨q.lhs.canonicalize, q.rhs.canonicalize⟩

end Schoolbook
