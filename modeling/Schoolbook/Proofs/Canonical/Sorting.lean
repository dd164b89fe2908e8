import Mathlib
import Schoolbook.Canonical.Sorting
import Schoolbook.Proofs.Canonical.Rearrangement

/-! Which sort is used for the operands matters only where their order is not total: on a total order
all sorts give the same list, and then all canonical trees are the same. -/
namespace Schoolbook

namespace Canonical

/-- The sort by insertion. -/
def Sorting.insertion : Sorting where
  sort? xs := some (sort xs)
  perm := by
    rintro xs _ ⟨⟩
    exact sort_perm xs
  ascends total := ⟨_, rfl, sort_ascends total⟩

theorem Sorting.sort?_of_totalOn (sorting : Sorting) {xs : List Canonical} (total : TotalOn xs) :
    sorting.sort? xs = some (sort xs) := by
  obtain ⟨ys, sorted, ascends⟩ := sorting.ascends total
  have perm := (sorting.perm sorted).trans (sort_perm xs).symm
  rw [sorted, eq_of_ascends perm ascends (sort_ascends total)]

end Canonical

/-- The parts of an expression if no sort fails. -/
def CanonicalParts.sorted (parts : CanonicalParts) : SortedParts :=
  ⟨some parts.tree, some parts.terms, some parts.factors⟩

namespace Expr
open Canonical CanonicalParts

/-- Whether the order is total on the operands of every sum and of every product. Another node is a
single operand, on which every order is total. -/
def OrdersOperands (e : Expr) : Prop :=
  e.Everywhere fun n => TotalOn n.canonicalParts.terms ∧ TotalOn n.canonicalParts.factors

theorem ordersOperands_of_exactConstants {e : Expr} (exact : e.ExactConstants) :
    e.OrdersOperands := by
  intro path n found
  have parts := isExact_canonicalParts (exact.below found)
  exact ⟨totalOn_of_allExact (allExact_iff.mpr parts.terms),
    totalOn_of_allExact (allExact_iff.mpr parts.factors)⟩

theorem sortedParts_eq (sorting : Sorting) {e : Expr}
    (sorts : e.Everywhere fun n =>
      sorting.sort? n.canonicalParts.terms = some (sort n.canonicalParts.terms) ∧
      sorting.sort? n.canonicalParts.factors = some (sort n.canonicalParts.factors)) :
    e.sortedParts sorting = e.canonicalParts.sorted := by
  induction e with
  | constant x => rfl
  | var name => rfl
  | unset => rfl
  | group inner ih =>
    rw [everywhere_group] at sorts
    exact ih sorts.2
  | unary op operand ih =>
    rw [everywhere_unary] at sorts
    cases op <;> simp only [sortedParts, ih sorts.2] <;> rfl
  | call func arg ih =>
    rw [everywhere_call] at sorts
    cases func with
    | sqrt =>
      simp only [sortedParts, ih sorts.2]
      rfl
    | unknown => rfl
  | binary op lhs rhs ihl ihr =>
    obtain ⟨here, left, right⟩ := everywhere_binary.mp sorts
    obtain ⟨kind, flag⟩ := op
    cases kind with
    | add =>
      have sorted : sorting.sort? (lhs.canonicalParts.terms ++ rhs.canonicalParts.terms) = _ := here.1
      simp [sortedParts, ihl left, ihr right, SortedParts.sum, CanonicalParts.sorted, sorted,
        canonicalParts, CanonicalParts.sum]
    | mul =>
      have sorted : sorting.sort? (lhs.canonicalParts.factors ++ rhs.canonicalParts.factors) = _ :=
        here.2
      simp [sortedParts, ihl left, ihr right, SortedParts.product, CanonicalParts.sorted, sorted,
        canonicalParts, CanonicalParts.product]
    | sub | div | pow | unknown =>
      simp only [sortedParts, ihl left, ihr right]
      rfl

/-- Where the order of the operands is total, the tree exists and does not depend on the sort. -/
theorem canonicalize?_of_ordersOperands {e : Expr} (sorting : Sorting) (total : e.OrdersOperands) :
    e.canonicalize? sorting = some e.canonicalize := by
  have sorts := sortedParts_eq sorting fun path n found =>
    ⟨sorting.sort?_of_totalOn (total path n found).1, sorting.sort?_of_totalOn (total path n found).2⟩
  rw [canonicalize?, sorts]
  rfl

theorem canonicalize?_insertion (e : Expr) :
    e.canonicalize? Sorting.insertion = some e.canonicalize := by
  rw [canonicalize?, sortedParts_eq .insertion fun _ _ _ => ⟨rfl, rfl⟩]
  rfl

end Expr
end Schoolbook
