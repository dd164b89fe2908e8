import Mathlib
import Schoolbook.Canonical.Sorting
import Schoolbook.Proofs.Comparison
import Schoolbook.Proofs.Number.Order

/-! The order of canonical trees. It tells all trees apart, whatever their constants are, and it is
transitive where the constants are exact. A list is sorted into one order only. -/
namespace Schoolbook

namespace Canonical

theorem cmp_of_rank_ne {a b : Canonical} (differ : a.rank ≠ b.rank) :
    cmp a b = compare a.rank b.rank := by
  cases a <;> cases b <;> first | rfl | exact absurd rfl differ

theorem cmp_ne_eq_of_rank_ne {a b : Canonical} (differ : a.rank ≠ b.rank) : cmp a b ≠ .eq := by
  rw [cmp_of_rank_ne differ]
  exact fun same => differ (Nat.compare_eq_eq.mp same)

/-- Trees of different kinds never spoil the order: their ranks decide. -/
theorem composes_of_rank_ne {a b c : Canonical} (differ : a.rank = b.rank → b.rank ≠ c.rank) :
    Composes (cmp a b) (cmp b c) (cmp a c) := by
  by_cases first : a.rank = b.rank
  · have second := differ first
    have outer : cmp a c = cmp b c := by
      rw [cmp_of_rank_ne second, cmp_of_rank_ne (first ▸ second), first]
    rw [outer]
    exact ⟨fun _ => rfl, fun same => absurd same (cmp_ne_eq_of_rank_ne second), Eq.symm⟩
  · by_cases second : b.rank = c.rank
    · have outer : cmp a c = cmp a b := by
        rw [cmp_of_rank_ne first, cmp_of_rank_ne (second ▸ first), second]
      rw [outer]
      exact ⟨fun same => absurd same (cmp_ne_eq_of_rank_ne first), fun _ => rfl, fun _ => rfl⟩
    · by_cases outer : a.rank = c.rank
      · refine ⟨fun same => absurd same (cmp_ne_eq_of_rank_ne first),
          fun same => absurd same (cmp_ne_eq_of_rank_ne second), fun same => ?_⟩
        have distinct := cmp_ne_eq_of_rank_ne second
        rw [cmp_of_rank_ne first, cmp_of_rank_ne second, outer, ← Nat.compare_swap] at same
        rw [cmp_of_rank_ne second] at distinct
        cases order : compare b.rank c.rank <;> simp [order] at same distinct
      · rw [cmp_of_rank_ne first, cmp_of_rank_ne second, cmp_of_rank_ne outer]
        exact composes_compare _ _ _

mutual

theorem cmp_eq_eq_iff (a b : Canonical) : cmp a b = .eq ↔ a = b := by
  by_cases kinds : a.rank = b.rank
  · cases a <;> cases b
    any_goals (simp [rank] at kinds; done)
    case constant => simp [cmp, Number.cmp_eq_eq_iff]
    case var => simp [cmp]
    case sqrt x y | neg x y | pos x y => simp [cmp, cmp_eq_eq_iff x y]
    case sum xs ys | product xs ys => simp [cmp, cmpAll_eq_eq_iff xs ys]
    case difference x₁ x₂ y₁ y₂ | quotient x₁ x₂ y₁ y₂ | power x₁ x₂ y₁ y₂ =>
      simp [cmp, cmp_eq_eq_iff x₁ y₁, cmp_eq_eq_iff x₂ y₂]
    case invalid => simp [cmp]
  · exact iff_of_false (cmp_ne_eq_of_rank_ne kinds) fun same => kinds (same ▸ rfl)

theorem cmpAll_eq_eq_iff (xs ys : List Canonical) : cmpAll xs ys = .eq ↔ xs = ys := by
  cases xs <;> cases ys
  case cons.cons x xs y ys => simp [cmpAll, cmp_eq_eq_iff x y, cmpAll_eq_eq_iff xs ys]
  all_goals simp [cmpAll]

end

mutual

theorem cmp_swap (a b : Canonical) : (cmp a b).swap = cmp b a := by
  by_cases kinds : a.rank = b.rank
  · cases a <;> cases b
    any_goals (simp [rank] at kinds; done)
    case constant x y => exact Number.cmp_swap x y
    case var x y => exact Std.OrientedOrd.eq_swap.symm
    case sqrt x y | neg x y | pos x y => exact cmp_swap x y
    case sum xs ys | product xs ys => exact cmpAll_swap xs ys
    case difference x₁ x₂ y₁ y₂ | quotient x₁ x₂ y₁ y₂ | power x₁ x₂ y₁ y₂ =>
      simp only [cmp, Ordering.swap_then, cmp_swap x₁ y₁, cmp_swap x₂ y₂]
    case invalid => rfl
  · rw [cmp_of_rank_ne kinds, cmp_of_rank_ne (Ne.symm kinds), Nat.compare_swap]

theorem cmpAll_swap (xs ys : List Canonical) : (cmpAll xs ys).swap = cmpAll ys xs := by
  cases xs <;> cases ys
  case cons.cons x xs y ys =>
    simp only [cmpAll, Ordering.swap_then, cmp_swap x y, cmpAll_swap xs ys]
  all_goals rfl

end

mutual

/-- Whether all constants of a tree are stored exactly. -/
def IsExact : Canonical → Prop
  | .constant x => x.IsExact
  | .var _ | .invalid => True
  | .sqrt x | .neg x | .pos x => x.IsExact
  | .sum xs | .product xs => AllExact xs
  | .difference x y | .quotient x y | .power x y => x.IsExact ∧ y.IsExact

def AllExact : List Canonical → Prop
  | [] => True
  | x :: xs => x.IsExact ∧ AllExact xs

end

theorem allExact_iff {xs : List Canonical} : AllExact xs ↔ ∀ x ∈ xs, x.IsExact := by
  induction xs with
  | nil => simp [AllExact]
  | cons x xs ih => simp [AllExact, ih]

mutual

theorem cmp_composes (a b c : Canonical) (ha : a.IsExact) (hb : b.IsExact) (hc : c.IsExact) :
    Composes (cmp a b) (cmp b c) (cmp a c) := by
  -- Three trees of one kind are compared by their parts; otherwise the ranks decide.
  by_cases kinds : a.rank = b.rank ∧ b.rank = c.rank
  · obtain ⟨first, second⟩ := kinds
    cases a <;> cases b
    any_goals (simp [rank] at first; done)
    all_goals cases c
    any_goals (simp [rank] at second; done)
    case constant x y z =>
      obtain ⟨p, hp⟩ := Number.IsExact.exists ha
      obtain ⟨q, hq⟩ := Number.IsExact.exists hb
      obtain ⟨r, hr⟩ := Number.IsExact.exists hc
      simp only [cmp, Number.cmp_of_exact hp hq, Number.cmp_of_exact hq hr, Number.cmp_of_exact hp hr]
      exact composes_compare p q r
    case var x y z => exact composes_compare x y z
    case sqrt x y z | neg x y z | pos x y z => exact cmp_composes x y z ha hb hc
    case sum xs ys zs | product xs ys zs => exact cmpAll_composes xs ys zs ha hb hc
    case difference x₁ x₂ y₁ y₂ z₁ z₂ | quotient x₁ x₂ y₁ y₂ z₁ z₂ | power x₁ x₂ y₁ y₂ z₁ z₂ =>
      exact (cmp_composes x₁ y₁ z₁ ha.1 hb.1 hc.1).then (cmp_composes x₂ y₂ z₂ ha.2 hb.2 hc.2)
    case invalid => exact composes_compare 10 10 10
  · exact composes_of_rank_ne fun first second => kinds ⟨first, second⟩

theorem cmpAll_composes (xs ys zs : List Canonical) (hx : AllExact xs) (hy : AllExact ys)
    (hz : AllExact zs) : Composes (cmpAll xs ys) (cmpAll ys zs) (cmpAll xs zs) := by
  cases xs <;> cases ys <;> cases zs
  case cons.cons.cons x xs y ys z zs =>
    exact (cmp_composes x y z hx.1 hy.1 hz.1).then (cmpAll_composes xs ys zs hx.2 hy.2 hz.2)
  case cons.cons.nil x xs y ys => exact ⟨fun _ => rfl, nofun, Eq.symm⟩
  all_goals simp [cmpAll, Composes]

end

theorem insertDown_perm (x : Canonical) (ys : List Canonical) : (insertDown x ys).Perm (x :: ys) := by
  induction ys with
  | nil => exact .refl _
  | cons y ys ih =>
    rw [insertDown]
    split
    · exact (ih.cons y).trans (.swap x y ys)
    · exact .refl _

private theorem foldl_insertDown_perm (xs sorted : List Canonical) :
    (xs.foldl (fun sorted x => insertDown x sorted) sorted).Perm (xs ++ sorted) := by
  induction xs generalizing sorted with
  | nil => exact .refl _
  | cons x xs ih =>
    exact (ih (insertDown x sorted)).trans
      (((insertDown_perm x sorted).append_left xs).trans List.perm_middle)

/-- Sorting loses nothing and adds nothing, whatever the constants are. -/
theorem sort_perm (xs : List Canonical) : (sort xs).Perm xs := by
  have folded := foldl_insertDown_perm xs []
  rw [List.append_nil] at folded
  exact (List.reverse_perm _).trans folded

/-- Exact trees are in a total order. -/
theorem totalOn_of_allExact {xs : List Canonical} (exact : AllExact xs) : TotalOn xs := by
  rw [allExact_iff] at exact
  intro a ha b hb c hc first second
  have composed := cmp_composes a b c (exact a ha) (exact b hb) (exact c hc)
  exact Ordering.isLE_iff_ne_gt.mp (composed.isLE_trans (Ordering.isLE_iff_ne_gt.mpr first)
    (Ordering.isLE_iff_ne_gt.mpr second))

theorem TotalOn.mono {xs ys : List Canonical} (total : TotalOn ys) (sub : xs ⊆ ys) : TotalOn xs :=
  fun a ha b hb c hc => total a (sub ha) b (sub hb) c (sub hc)

private theorem insertDown_descends {x : Canonical} {ys zs : List Canonical} (total : TotalOn zs)
    (hx : x ∈ zs) (hy : ys ⊆ zs) (descends : ys.Pairwise fun a b => cmp b a ≠ .gt) :
    (insertDown x ys).Pairwise fun a b => cmp b a ≠ .gt := by
  induction ys with
  | nil => exact List.pairwise_singleton _ _
  | cons y ys ih =>
    obtain ⟨upper, rest⟩ := List.pairwise_cons.mp descends
    obtain ⟨head, tail⟩ := List.cons_subset.mp hy
    rw [insertDown]
    split
    next below =>
      refine List.pairwise_cons.mpr ⟨fun z member => ?_, ih tail rest⟩
      rcases List.mem_cons.mp ((insertDown_perm x ys).mem_iff.mp member) with rfl | inside
      · rw [below]
        nofun
      · exact upper z inside
    next above =>
      have step : cmp y x ≠ .gt := by
        rwa [← cmp_swap, Ne, Ordering.swap_eq_gt]
      refine List.pairwise_cons.mpr ⟨fun z member => ?_, descends⟩
      rcases List.mem_cons.mp member with rfl | inside
      · exact step
      · exact total z (tail inside) y head x hx (upper z inside) step

private theorem foldl_insertDown_descends {xs sorted zs : List Canonical} (total : TotalOn zs)
    (hx : xs ⊆ zs) (hs : sorted ⊆ zs) (descends : sorted.Pairwise fun a b => cmp b a ≠ .gt) :
    (xs.foldl (fun sorted x => insertDown x sorted) sorted).Pairwise fun a b => cmp b a ≠ .gt := by
  induction xs generalizing sorted with
  | nil => exact descends
  | cons x xs ih =>
    obtain ⟨head, tail⟩ := List.cons_subset.mp hx
    refine ih tail (fun y member => ?_) (insertDown_descends total head hs descends)
    rcases List.mem_cons.mp ((insertDown_perm x sorted).mem_iff.mp member) with rfl | inside
    · exact head
    · exact hs inside

theorem sort_ascends {xs : List Canonical} (total : TotalOn xs) :
    (sort xs).Pairwise fun a b => cmp a b ≠ .gt :=
  List.pairwise_reverse.mpr
    (foldl_insertDown_descends total (List.Subset.refl xs) (List.nil_subset xs) .nil)

/-- Two ascending lists of the same trees are the same list: trees that stand in both orders are
equal. -/
theorem eq_of_ascends {xs ys : List Canonical} (perm : xs.Perm ys)
    (hx : xs.Pairwise fun a b => cmp a b ≠ .gt) (hy : ys.Pairwise fun a b => cmp a b ≠ .gt) :
    xs = ys := by
  refine perm.eq_of_pairwise (fun a b _ _ up down => ?_) hx hy
  rw [← cmp_swap, Ne, Ordering.swap_eq_gt] at down
  refine (cmp_eq_eq_iff a b).mp ?_
  cases order : cmp a b with
  | lt => exact absurd order down
  | eq => rfl
  | gt => exact absurd order up

/-- Exact operands have one sorted order, so the order in which they come does not matter. -/
theorem sort_eq_of_perm {xs ys : List Canonical} (exact : AllExact xs) (perm : xs.Perm ys) :
    sort xs = sort ys := by
  have total := totalOn_of_allExact exact
  exact eq_of_ascends ((sort_perm xs).trans (perm.trans (sort_perm ys).symm)) (sort_ascends total)
    (sort_ascends (total.mono perm.symm.subset))

mutual

/-- Trees agree where they are the same tree and no node in it is malformed. -/
theorem agrees_iff (a b : Canonical) : agrees a b = true ↔ a = b ∧ a.isInvalid = false := by
  by_cases kinds : a.rank = b.rank
  · cases a <;> cases b
    any_goals (simp [rank] at kinds; done)
    case constant x y => simp [agrees, isInvalid]
    case var x y => simp [agrees, isInvalid]
    case sqrt x y | neg x y | pos x y => simp [agrees, isInvalid, agrees_iff x y]
    case sum xs ys | product xs ys => simp [agrees, isInvalid, agreeAll_iff xs ys]
    case difference x₁ x₂ y₁ y₂ | quotient x₁ x₂ y₁ y₂ | power x₁ x₂ y₁ y₂ =>
      simp only [agrees, isInvalid, Bool.and_eq_true, Bool.or_eq_false_iff, agrees_iff x₁ y₁,
        agrees_iff x₂ y₂, difference.injEq, quotient.injEq, power.injEq]
      tauto
    case invalid => simp [agrees, isInvalid]
  · have apart : agrees a b = false := by
      cases a <;> cases b <;> first | rfl | exact absurd rfl kinds
    simp only [apart, Bool.false_eq_true, false_iff, not_and]
    rintro rfl
    exact absurd rfl kinds

theorem agreeAll_iff (xs ys : List Canonical) :
    agreeAll xs ys = true ↔ xs = ys ∧ anyInvalid xs = false := by
  cases xs <;> cases ys
  case cons.cons x xs y ys =>
    simp only [agreeAll, anyInvalid, Bool.and_eq_true, Bool.or_eq_false_iff, agrees_iff x y,
      agreeAll_iff xs ys, List.cons.injEq]
    tauto
  all_goals simp [agreeAll, anyInvalid]

end

theorem anyInvalid_eq_false_iff {xs : List Canonical} :
    anyInvalid xs = false ↔ ∀ x ∈ xs, x.isInvalid = false := by
  induction xs with
  | nil => simp [anyInvalid]
  | cons x xs ih => simp [anyInvalid, ih]

/-- The order is total and finds trees equal where they are the same tree; only for its
transitivity the constants have to be exact. The equality for grading is the order's, less the
trees with a malformed node. -/
theorem cmp_is_total_order_of_agreement (a b : Canonical) :
    (cmp a b).swap = cmp b a ∧ (cmp a b = .eq ↔ a = b) ∧
      (∀ c : Canonical, a.IsExact → b.IsExact → c.IsExact → (cmp a b).isLE = true →
        (cmp b c).isLE = true → (cmp a c).isLE = true) ∧
      (agrees a b = true ↔ cmp a b = .eq ∧ a.isInvalid = false) := by
  refine ⟨cmp_swap a b, cmp_eq_eq_iff a b, fun c ha hb hc first second => ?_, ?_⟩
  · exact (cmp_composes a b c ha hb hc).isLE_trans first second
  · rw [cmp_eq_eq_iff]
    exact agrees_iff a b

/-- The empty sum, a sum that is not sorted, and its extension by a malformed node. -/
theorem cmp_is_total_order_of_agreement_sums :
    let short : Canonical := .sum []
    let middle : Canonical := .sum [.var "y", .product [.constant (.integer 2), .var "x"]]
    let long : Canonical := .sum [.var "y", .product [.constant (.integer 2), .var "x"], .invalid]
    (short.IsExact ∧ middle.IsExact ∧ long.IsExact) ∧
      ((cmp short middle).isLE = true ∧ (cmp middle long).isLE = true) ∧
      (cmp short long).isLE = true ∧ (cmp long long = .eq ∧ agrees long long = false) := by
  intro short middle long
  have two : (Number.integer 2).IsExact := by decide
  have exact : short.IsExact ∧ middle.IsExact ∧ long.IsExact := by
    simp [short, middle, long, IsExact, AllExact, two]
  have first : (cmp short middle).isLE = true := by decide
  have second : (cmp middle long).isLE = true := by decide
  obtain ⟨-, -, transitive, -⟩ := cmp_is_total_order_of_agreement short middle
  obtain ⟨-, same, -, agreement⟩ := cmp_is_total_order_of_agreement long long
  refine ⟨exact, ⟨first, second⟩,
    transitive long exact.1 exact.2.1 exact.2.2 first second, same.mpr rfl, ?_⟩
  refine Bool.eq_false_iff.mpr fun agree => ?_
  have malformed : long.isInvalid = true := by decide
  simp [(agreement.mp agree).2] at malformed

end Canonical
end Schoolbook
