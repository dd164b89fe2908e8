import Schoolbook.Canonical.OfExpr

/-!
Canonical trees with the sorting of the operands left open. Where doubles stand among fractions that
are no doubles, the order of trees can run in a circle, and a sort along such an order promises
little.
-/
namespace Schoolbook

namespace Canonical

/-- The order is transitive among the trees of a list. It is total there: two trees always come one
before the other, and in both ways only if they are the same. -/
def TotalOn (xs : List Canonical) : Prop :=
  ∀ a ∈ xs, ∀ b ∈ xs, ∀ c ∈ xs, cmp a b ≠ .gt → cmp b c ≠ .gt → cmp a c ≠ .gt

/-- A sort as its users know it. Where the order is not total on the list, the sort may fail, and if
it does not, the order of the result is not specified. Trees that compare equal are the same, so
nothing has to be said about keeping their order. -/
structure Sorting where
  sort? : List Canonical → Option (List Canonical)
  perm {xs ys : List Canonical} : sort? xs = some ys → ys.Perm xs
  ascends {xs : List Canonical} : TotalOn xs →
    ∃ ys, sort? xs = some ys ∧ ys.Pairwise fun a b => cmp a b ≠ .gt

end Canonical

/-- What an expression becomes by itself and what it adds to a sum or a product around it, each of
them missing if a sort fails on the way to it. An outer sum takes the terms of an inner one as they
are, so it does not depend on the sort of the inner one. -/
structure SortedParts where
  tree : Option Canonical
  terms : Option (List Canonical)
  factors : Option (List Canonical)

namespace SortedParts

def single (tree : Option Canonical) : SortedParts :=
  ⟨tree, tree.map fun t => [t], tree.map fun t => [t]⟩

def sum (sorting : Canonical.Sorting) (terms : Option (List Canonical)) : SortedParts :=
  let tree := (terms.bind sorting.sort?).map .sum
  ⟨tree, terms, tree.map fun t => [t]⟩

def product (sorting : Canonical.Sorting) (factors : Option (List Canonical)) : SortedParts :=
  let tree := (factors.bind sorting.sort?).map .product
  ⟨tree, tree.map fun t => [t], factors⟩

end SortedParts

namespace Expr
open SortedParts

/-- The operand of an unknown sign is gone through although nothing of it is kept; what is below the
other malformed nodes is not. -/
def sortedParts (sorting : Canonical.Sorting) : Expr → SortedParts
  | .constant x => single (some (.constant x))
  | .var name => single (some (.var name))
  | .group inner => inner.sortedParts sorting
  | .unary op operand =>
    let tree := (operand.sortedParts sorting).tree
    match op with
    | .neg => single (tree.map .neg)
    | .pos => single (tree.map .pos)
    | .unknown => single (tree.map fun _ => .invalid)
  | .call .sqrt arg => single ((arg.sortedParts sorting).tree.map .sqrt)
  | .binary op lhs rhs =>
    let left := lhs.sortedParts sorting
    let right := rhs.sortedParts sorting
    let pair (whole : Canonical → Canonical → Canonical) : SortedParts :=
      single (do return whole (← left.tree) (← right.tree))
    match op.kind with
    | .add => sum sorting (do return (← left.terms) ++ (← right.terms))
    | .mul => product sorting (do return (← left.factors) ++ (← right.factors))
    | .sub => pair .difference
    | .div => pair .quotient
    | .pow => pair .power
    | .unknown => single (some .invalid)
  | .call .unknown _ | .unset => single (some .invalid)

/-- The canonical tree by any sort, or nothing if the sort fails. -/
def canonicalize? (e : Expr) (sorting : Canonical.Sorting) : Option Canonical :=
  (e.sortedParts sorting).tree

end Expr
end Schoolbook
