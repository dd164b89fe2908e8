import Mathlib
import Schoolbook.Polynomial.Basic
import Schoolbook.Proofs.Number.Exact
import Schoolbook.Proofs.Polynomial.Monomial

/-! Sums of terms and their normal form. Whatever the coefficients are, the terms of a normal form
ascend and their monomials differ. Exact coefficients are those of the polynomial that the sum
stands for. -/
namespace Schoolbook

theorem Term.cmp_eq_eq_iff {s t : Term} : s.cmp t = .eq ↔ s.monomial = t.monomial :=
  Monomial.cmp_eq_eq_iff

theorem Term.cmp_trans {s t u : Term} (left : s.cmp t = .lt) (right : t.cmp u = .lt) :
    s.cmp u = .lt :=
  (Monomial.cmp_composes s.monomial t.monomial u.monomial).lt_trans left right

/-- The polynomial a term stands for, if its coefficient is exact. -/
noncomputable def Term.meaning (t : Term) : MvPolynomial String ℚ :=
  MvPolynomial.monomial t.monomial.exponents (t.coefficient.toRat?.getD 0)

namespace Polynomial

def Ascends (ts : List Term) : Prop := ts.Pairwise fun s t => s.cmp t = .lt

def AllExact (ts : List Term) : Prop := ∀ t ∈ ts, t.coefficient.IsExact

def AllPositive (ts : List Term) : Prop := ∀ t ∈ ts, t.monomial.IsPositive

section
variable (ts : List Term)

instance : Decidable (Ascends ts) := inferInstanceAs (Decidable (ts.Pairwise _))
instance : Decidable (AllExact ts) := inferInstanceAs (Decidable (∀ t ∈ ts, _))
instance : Decidable (AllPositive ts) := inferInstanceAs (Decidable (∀ t ∈ ts, _))

end

/-- The sums of like terms, before those without a value are dropped. -/
def sums (ts : List Term) : List Term := ts.foldl (fun sum t => addTerm t sum) []

noncomputable def meaningOf (ts : List Term) : MvPolynomial String ℚ :=
  (ts.map Term.meaning).sum

theorem ofTerms_terms (ts : List Term) :
    (ofTerms ts).terms = (sums ts).filter fun t => !t.coefficient.isZero := rfl

theorem meaningOf_cons (t : Term) (ts : List Term) :
    meaningOf (t :: ts) = t.meaning + meaningOf ts := by
  rw [meaningOf, List.map_cons, List.sum_cons, meaningOf]

theorem meaningOf_append (ss ts : List Term) :
    meaningOf (ss ++ ts) = meaningOf ss + meaningOf ts := by
  rw [meaningOf, List.map_append, List.sum_append, meaningOf, meaningOf]

section
variable {t : Term} {ts : List Term}

theorem monomial_of_mem_addTerm {s : Term} (member : s ∈ addTerm t ts) :
    s.monomial = t.monomial ∨ ∃ u ∈ ts, u.monomial = s.monomial := by
  induction ts with
  | nil =>
    rw [addTerm, List.mem_singleton] at member
    exact .inl (by rw [member])
  | cons u ts ih =>
    rw [addTerm] at member
    split at member
    next =>
      rcases List.mem_cons.mp member with rfl | member
      · exact .inl rfl
      · exact .inr ⟨s, member, rfl⟩
    next =>
      rcases List.mem_cons.mp member with rfl | member
      · exact .inr ⟨u, List.mem_cons_self, rfl⟩
      · exact .inr ⟨s, List.mem_cons_of_mem u member, rfl⟩
    next =>
      rcases List.mem_cons.mp member with rfl | member
      · exact .inr ⟨s, List.mem_cons_self, rfl⟩
      · rcases ih member with same | ⟨v, inside, same⟩
        · exact .inl same
        · exact .inr ⟨v, List.mem_cons_of_mem u inside, same⟩

theorem ascends_addTerm (ascends : Ascends ts) : Ascends (addTerm t ts) := by
  induction ts with
  | nil => exact List.pairwise_singleton _ _
  | cons u ts ih =>
    obtain ⟨above, rest⟩ := List.pairwise_cons.mp ascends
    rw [addTerm]
    split
    next before =>
      refine List.pairwise_cons.mpr ⟨fun s member => ?_, ascends⟩
      rcases List.mem_cons.mp member with rfl | member
      · exact before
      · exact Term.cmp_trans before (above s member)
    next => exact List.pairwise_cons.mpr ⟨above, rest⟩
    next after =>
      refine List.pairwise_cons.mpr ⟨fun s member => ?_, ih rest⟩
      have below : u.cmp t = .lt := by
        rw [Term.cmp, ← Monomial.cmp_swap]
        exact congrArg Ordering.swap after
      rcases monomial_of_mem_addTerm member with same | ⟨v, inside, same⟩
      · rw [Term.cmp, same]
        exact below
      · rw [Term.cmp, ← same]
        exact above v inside

private theorem meaning_add (s u : Term) (like : s.monomial = u.monomial)
    (exact : (s.coefficient + u.coefficient).IsExact) :
    s.coefficient.IsExact ∧ u.coefficient.IsExact ∧
      (Term.mk (s.coefficient + u.coefficient) u.monomial).meaning =
        s.meaning + u.meaning := by
  obtain ⟨r, stored⟩ := exact.exists
  obtain ⟨p, q, hp, hq, value⟩ := Number.toRat?_add stored
  refine ⟨Number.isExact_of_toRat? hp, Number.isExact_of_toRat? hq, ?_⟩
  simp only [Term.meaning, stored, hp, hq, like, Option.getD_some, value, map_add]

private theorem meaning_first (t : Term) (exact : (0 + t.coefficient).IsExact) :
    t.coefficient.IsExact ∧
      (Term.mk (0 + t.coefficient) t.monomial).meaning = t.meaning := by
  obtain ⟨-, exact, denoted⟩ := meaning_add ⟨0, t.monomial⟩ t rfl exact
  refine ⟨exact, ?_⟩
  rw [denoted, add_eq_right]
  simp [Term.meaning]

theorem meaningOf_addTerm (exact : AllExact (addTerm t ts)) :
    t.coefficient.IsExact ∧ AllExact ts ∧
      meaningOf (addTerm t ts) = t.meaning + meaningOf ts := by
  unfold AllExact at *
  induction ts with
  | nil =>
    obtain ⟨here, denoted⟩ := meaning_first t (exact _ List.mem_cons_self)
    exact ⟨here, List.forall_mem_nil _, by rw [addTerm, meaningOf_cons, denoted]⟩
  | cons u ts ih =>
    rw [addTerm] at exact ⊢
    split at exact
    next =>
      obtain ⟨here, denoted⟩ := meaning_first t (exact _ List.mem_cons_self)
      refine ⟨here, fun s member => exact s (List.mem_cons_of_mem _ member), ?_⟩
      rw [meaningOf_cons, denoted]
    next same =>
      have like : u.monomial = t.monomial := (Term.cmp_eq_eq_iff.mp same).symm
      obtain ⟨there, here, denoted⟩ := meaning_add u t like (exact _ List.mem_cons_self)
      refine ⟨here, fun s member => ?_, ?_⟩
      · rcases List.mem_cons.mp member with rfl | member
        · exact there
        · exact exact s (List.mem_cons_of_mem _ member)
      · rw [meaningOf_cons, like, denoted, meaningOf_cons]
        abel
    next =>
      obtain ⟨here, rest, denoted⟩ := ih fun s member => exact s (List.mem_cons_of_mem _ member)
      refine ⟨here, fun s member => ?_, ?_⟩
      · rcases List.mem_cons.mp member with rfl | member
        · exact exact s List.mem_cons_self
        · exact rest s member
      · rw [meaningOf_cons, denoted, meaningOf_cons]
        abel

end

private theorem foldl_addTerm_ascends (ts : List Term) {acc : List Term} (ascends : Ascends acc) :
    Ascends (ts.foldl (fun sum t => addTerm t sum) acc) := by
  induction ts generalizing acc with
  | nil => exact ascends
  | cons t ts ih => exact ih (ascends_addTerm ascends)

private theorem foldl_addTerm_positive {ts acc : List Term} (positive : AllPositive ts)
    (done : AllPositive acc) : AllPositive (ts.foldl (fun sum t => addTerm t sum) acc) := by
  induction ts generalizing acc with
  | nil => exact done
  | cons t ts ih =>
    refine ih (fun s member => positive s (List.mem_cons_of_mem t member)) fun s member => ?_
    rcases monomial_of_mem_addTerm member with same | ⟨u, inside, same⟩
    · rw [same]
      exact positive t List.mem_cons_self
    · rw [← same]
      exact done u inside

private theorem foldl_addTerm_meaning {ts acc : List Term}
    (exact : AllExact (ts.foldl (fun sum t => addTerm t sum) acc)) :
    AllExact acc ∧ AllExact ts ∧
      meaningOf (ts.foldl (fun sum t => addTerm t sum) acc) =
        meaningOf acc + meaningOf ts := by
  induction ts generalizing acc with
  | nil => exact ⟨exact, List.forall_mem_nil _, (add_zero _).symm⟩
  | cons t ts ih =>
    obtain ⟨next, rest, denoted⟩ := ih exact
    obtain ⟨here, done, added⟩ := meaningOf_addTerm next
    refine ⟨done, List.forall_mem_cons.mpr ⟨here, rest⟩, ?_⟩
    rw [List.foldl_cons, denoted, added, meaningOf_cons]
    abel

theorem sums_ascends (ts : List Term) : Ascends (sums ts) := foldl_addTerm_ascends ts .nil

theorem sums_positive {ts : List Term} (positive : AllPositive ts) : AllPositive (sums ts) :=
  foldl_addTerm_positive positive (List.forall_mem_nil _)

/-- Exact sums come from exact terms, and none of their value is lost. -/
theorem sums_meaning {ts : List Term} (exact : AllExact (sums ts)) :
    AllExact ts ∧ meaningOf (sums ts) = meaningOf ts := by
  obtain ⟨-, terms, denoted⟩ := foldl_addTerm_meaning exact
  exact ⟨terms, denoted.trans (zero_add _)⟩

theorem coeff_meaningOf_absent {ts : List Term} {m : String →₀ ℕ}
    (absent : ∀ t ∈ ts, t.monomial.exponents ≠ m) : (meaningOf ts).coeff m = 0 := by
  induction ts with
  | nil => rfl
  | cons t ts ih =>
    rw [meaningOf_cons, MvPolynomial.coeff_add, Term.meaning, MvPolynomial.coeff_monomial,
      if_neg (absent t List.mem_cons_self), zero_add]
    exact ih fun s member => absent s (List.mem_cons_of_mem t member)

theorem coeff_meaningOf_mem {ts : List Term} {t : Term}
    (once : (ts.map fun t => t.monomial.exponents).Nodup) (member : t ∈ ts) :
    (meaningOf ts).coeff t.monomial.exponents = t.coefficient.toRat?.getD 0 := by
  induction ts with
  | nil => cases member
  | cons u ts ih =>
    obtain ⟨absent, once⟩ := List.nodup_cons.mp once
    have differ (s : Term) (inside : s ∈ ts) : s.monomial.exponents ≠ u.monomial.exponents :=
      fun same => absent (List.mem_map.mpr ⟨s, inside, same⟩)
    rw [meaningOf_cons, MvPolynomial.coeff_add, Term.meaning, MvPolynomial.coeff_monomial]
    rcases List.mem_cons.mp member with rfl | inside
    · rw [if_pos rfl, coeff_meaningOf_absent differ, add_zero]
    · rw [if_neg (differ t inside).symm, zero_add, ih once inside]

/-- The terms of a polynomial are the monomials of `P` whose coefficient is not zero, each once,
with that coefficient, in order, and none with a power of zero. -/
structure IsNormalFormOf (p : Polynomial) (P : MvPolynomial String ℚ) : Prop where
  ascends : Ascends p.terms
  positive : AllPositive p.terms
  once : (p.terms.map fun t => t.monomial.exponents).Nodup
  coefficient : ∀ t ∈ p.terms, t.coefficient.toRat? = some (P.coeff t.monomial.exponents)
  complete : ∀ m, P.coeff m ≠ 0 ↔ ∃ t ∈ p.terms, t.monomial.exponents = m

theorem nodup_exponents {ts : List Term} (ascends : Ascends ts) (positive : AllPositive ts) :
    (ts.map fun t => t.monomial.exponents).Nodup := by
  refine List.pairwise_map.mpr (ascends.imp_of_mem fun {s t} hs ht before same => ?_)
  have equal := Monomial.exponents_inj (positive s hs) (positive t ht) same
  rw [Term.cmp_eq_eq_iff.mpr equal] at before
  cases before

theorem mem_ofTerms {ts : List Term} {t : Term} :
    t ∈ (ofTerms ts).terms ↔ t ∈ sums ts ∧ t.coefficient.isZero = false := by
  rw [ofTerms_terms, List.mem_filter, Bool.not_eq_true']

theorem isNormalFormOf_ofTerms {ts : List Term} (positive : AllPositive ts)
    (exact : AllExact (sums ts)) : (ofTerms ts).IsNormalFormOf (meaningOf ts) := by
  have all_positive := sums_positive positive
  have all_once := nodup_exponents (sums_ascends ts) all_positive
  have stored (t : Term) (member : t ∈ sums ts) :
      t.coefficient.toRat? = some ((meaningOf ts).coeff t.monomial.exponents) := by
    obtain ⟨q, value⟩ := (exact t member).exists
    rw [← (sums_meaning exact).2, coeff_meaningOf_mem all_once member, value, Option.getD_some]
  have ascends : Ascends (ofTerms ts).terms := (sums_ascends ts).filter _
  have positive : AllPositive (ofTerms ts).terms := fun t member =>
    all_positive t (mem_ofTerms.mp member).1
  refine ⟨ascends, positive, nodup_exponents ascends positive,
    fun t member => stored t (mem_ofTerms.mp member).1, fun m => ⟨fun nonzero => ?_, ?_⟩⟩
  · have found : ∃ t ∈ sums ts, t.monomial.exponents = m := by
      by_contra absent
      rw [← (sums_meaning exact).2] at nonzero
      exact nonzero (coeff_meaningOf_absent fun t member same => absent ⟨t, member, same⟩)
    obtain ⟨t, member, rfl⟩ := found
    refine ⟨t, mem_ofTerms.mpr ⟨member, Bool.eq_false_iff.mpr fun zero => nonzero ?_⟩, rfl⟩
    exact (Number.isZero_iff (stored t member)).mp zero
  · rintro ⟨t, member, rfl⟩ zero
    obtain ⟨inside, nonzero⟩ := mem_ofTerms.mp member
    exact Bool.eq_false_iff.mp nonzero ((Number.isZero_iff (stored t inside)).mpr zero)

namespace IsNormalFormOf
variable {p q : Polynomial} {P Q : MvPolynomial String ℚ}

theorem meaningOf_terms (normal : p.IsNormalFormOf P) : meaningOf p.terms = P := by
  refine MvPolynomial.ext _ _ fun m => ?_
  by_cases found : ∃ t ∈ p.terms, t.monomial.exponents = m
  · obtain ⟨t, member, rfl⟩ := found
    rw [coeff_meaningOf_mem normal.once member, normal.coefficient t member, Option.getD_some]
  · rw [coeff_meaningOf_absent fun t member same => found ⟨t, member, same⟩]
    exact (not_not.mp (mt (normal.complete m).mp found)).symm

private theorem subset (hp : p.IsNormalFormOf P) (hq : q.IsNormalFormOf P) :
    p.terms ⊆ q.terms := by
  intro t member
  obtain ⟨u, inside, same⟩ :=
    (hq.complete t.monomial.exponents).mp ((hp.complete _).mpr ⟨t, member, rfl⟩)
  have monomial := Monomial.exponents_inj (hq.positive u inside) (hp.positive t member) same
  have value := hq.coefficient u inside
  rw [same] at value
  have coefficient := Number.toRat?_inj value (hp.coefficient t member)
  obtain ⟨_, _⟩ := t
  obtain ⟨_, _⟩ := u
  cases monomial
  cases coefficient
  exact inside

/-- A polynomial has one normal form only. -/
theorem unique (hp : p.IsNormalFormOf P) (hq : q.IsNormalFormOf P) : p = q := by
  -- Both hold the same terms without duplicates, so they differ by their order at most.
  have perm : p.terms.Perm q.terms :=
    (List.perm_ext_iff_of_nodup (.of_map _ hp.once) (.of_map _ hq.once)).mpr fun t =>
      ⟨fun member => subset hp hq member, fun member => subset hq hp member⟩
  have terms : p.terms = q.terms := by
    refine perm.eq_of_pairwise (fun s t _ _ before after => ?_) hp.ascends hq.ascends
    have cycle := Term.cmp_trans before after
    rw [Term.cmp_eq_eq_iff.mpr rfl] at cycle
    cases cycle
  obtain ⟨_⟩ := p
  obtain ⟨_⟩ := q
  cases terms
  rfl

theorem eq_iff (hp : p.IsNormalFormOf P) (hq : q.IsNormalFormOf Q) : p = q ↔ P = Q := by
  constructor
  · rintro rfl
    exact hp.meaningOf_terms.symm.trans hq.meaningOf_terms
  · rintro rfl
    exact hp.unique hq

end IsNormalFormOf
end Polynomial
end Schoolbook
