import Mathlib
import Schoolbook.Proofs.Polynomial.Reduction

/-! The form that all operations on polynomials keep, whatever the coefficients are. What is read off
the first and the last term of a polynomial depends on it. -/
namespace Schoolbook

namespace Monomial

theorem degreeOf_cons (x : String × UInt32) (powers : List (String × UInt32))
    (sorted : (x :: powers).Pairwise (·.1 < ·.1)) :
    degree ⟨x :: powers, sorted⟩ = x.2.toNat + degree ⟨powers, (List.pairwise_cons.mp sorted).2⟩ :=
  rfl

/-- Without powers of zero only the product of no variables has degree zero. -/
theorem eq_one_of_degree {m : Monomial} (positive : m.IsPositive) (zero : m.degree = 0) :
    m = one := by
  obtain ⟨powers, sorted⟩ := m
  cases powers with
  | nil => rfl
  | cons x powers =>
    rw [degreeOf_cons] at zero
    have vanishes : x.2.toNat = 0 := by omega
    exact absurd (UInt32.toNat_inj.mp vanishes) (positive x List.mem_cons_self)

theorem degree_le_of_cmp {a b : Monomial} (before : cmp a b = .lt) : b.degree ≤ a.degree := by
  rw [cmp] at before
  cases order : compare b.degree a.degree with
  | lt => exact (Nat.compare_eq_lt.mp order).le
  | eq => exact (Nat.compare_eq_eq.mp order).le
  | gt =>
    rw [order] at before
    cases before

/-- The product of no variables comes after all others. -/
theorem ne_one_of_cmp {a b : Monomial} (positive : b.IsPositive) (before : cmp a b = .lt) :
    a ≠ one := by
  rintro rfl
  have last := eq_one_of_degree positive (Nat.le_zero.mp (degree_le_of_cmp before))
  rw [cmp_eq_eq_iff.mpr last.symm] at before
  cases before

end Monomial

namespace Polynomial

/-- Terms in strict order, none without a value and none with a power of zero. -/
structure IsNormalized (p : Polynomial) : Prop where
  ascends : Ascends p.terms
  nonzero : ∀ t ∈ p.terms, t.coefficient.isZero = false
  positive : AllPositive p.terms

section
variable {p q r : Polynomial}

/-- A normalized polynomial with exact coefficients is the normal form of what its terms add up to. -/
theorem IsNormalized.isNormalFormOf (normal : p.IsNormalized) (exact : AllExact p.terms) :
    p.IsNormalFormOf (meaningOf p.terms) := by
  have once := nodup_exponents normal.ascends normal.positive
  have stored (t : Term) (member : t ∈ p.terms) :
      t.coefficient.toRat? = some ((meaningOf p.terms).coeff t.monomial.exponents) := by
    obtain ⟨q, value⟩ := (exact t member).exists
    rw [coeff_meaningOf_mem once member, value, Option.getD_some]
  refine ⟨normal.ascends, normal.positive, once, stored, fun m => ⟨fun nonzero => ?_, ?_⟩⟩
  · by_contra absent
    exact nonzero (coeff_meaningOf_absent fun t member same => absent ⟨t, member, same⟩)
  · rintro ⟨t, member, rfl⟩ zero
    exact Bool.eq_false_iff.mp (normal.nonzero t member)
      ((Number.isZero_iff (stored t member)).mpr zero)

theorem IsNormalFormOf.isNormalized {P : MvPolynomial String ℚ} (normal : p.IsNormalFormOf P) :
    p.IsNormalized where
  ascends := normal.ascends
  nonzero t member := by
    have nonzero := (normal.complete _).mpr ⟨t, member, rfl⟩
    exact Bool.eq_false_iff.mpr fun zero =>
      nonzero ((Number.isZero_iff (normal.coefficient t member)).mp zero)
  positive := normal.positive

theorem isNormalized_ofTerms {ts : List Term} (positive : AllPositive ts) :
    (ofTerms ts).IsNormalized where
  ascends := (sums_ascends ts).filter _
  nonzero _ member := (mem_ofTerms.mp member).2
  positive t member := sums_positive positive t (mem_ofTerms.mp member).1

theorem isNormalized_zero : zero.IsNormalized := isNormalized_ofTerms (List.forall_mem_nil _)

theorem isNormalized_constant (x : Number) : (constant x).IsNormalized :=
  isNormalized_ofTerms (List.forall_mem_singleton.mpr Monomial.isPositive_one)

theorem isNormalized_var (name : String) : (var name).IsNormalized :=
  isNormalized_ofTerms (List.forall_mem_singleton.mpr (Monomial.isPositive_var name))

theorem isNormalized_add (hp : p.IsNormalized) (hq : q.IsNormalized) : (p + q).IsNormalized :=
  isNormalized_ofTerms (List.forall_mem_append.mpr ⟨hp.positive, hq.positive⟩)

theorem isNormalized_neg (hp : p.IsNormalized) : (-p).IsNormalized :=
  isNormalized_ofTerms (allPositive_map_neg hp.positive)

theorem isNormalized_sub (hp : p.IsNormalized) (hq : q.IsNormalized) : (p - q).IsNormalized :=
  isNormalized_ofTerms
    (List.forall_mem_append.mpr ⟨hp.positive, allPositive_map_neg hq.positive⟩)

theorem isNormalized_mul? (hp : p.IsNormalized) (hq : q.IsNormalized)
    (computed : p.mul? q = some r) : r.IsNormalized := by
  rw [mul?_eq] at computed
  obtain ⟨ts, products, rfl⟩ := Option.map_eq_some_iff.mp computed
  exact isNormalized_ofTerms (allPositive_products? products hp.positive hq.positive)

theorem isNormalized_powFrom? {result base : Polynomial} {n : Nat} (hr : result.IsNormalized)
    (hb : base.IsNormalized) (computed : powFrom? result base n = some r) : r.IsNormalized := by
  induction n using Nat.strongRecOn generalizing result base with
  | ind n ih =>
    rw [powFrom?_eq] at computed
    split at computed
    next =>
      cases computed
      exact hr
    next positive =>
      obtain ⟨next, multiplied, computed⟩ := Option.bind_eq_some_iff.mp computed
      have stepped : next.IsNormalized := by
        split at multiplied
        · exact isNormalized_mul? hr hb multiplied
        · cases multiplied
          exact hr
      split at computed
      next =>
        cases computed
        exact stepped
      next =>
        obtain ⟨square, squared, computed⟩ := Option.bind_eq_some_iff.mp computed
        exact ih (n / 2) (by omega) stepped (isNormalized_mul? hb hb squared) computed

theorem isNormalized_pow? {n : Nat} (hp : p.IsNormalized) (computed : p.pow? n = some r) :
    r.IsNormalized :=
  isNormalized_powFrom? (isNormalized_constant 1) hp computed

end
end Polynomial

namespace Expr
open Schoolbook.Polynomial

theorem isNormalized_combine {kind : BinaryKind} {p q r : Polynomial} (hp : p.IsNormalized)
    (hq : q.IsNormalized) (computed : expand.combine kind p q = .ok r) : r.IsNormalized := by
  cases kind with
  | add =>
    cases computed
    exact isNormalized_add hp hq
  | sub =>
    cases computed
    exact isNormalized_sub hp hq
  | mul => exact isNormalized_mul? hp hq (unlessTooHigh_eq_ok_iff.mp computed)
  | pow =>
    obtain ⟨n, -, raised⟩ := combine_pow_eq_ok_iff.mp computed
    exact isNormalized_pow? hp raised
  | div => cases computed
  | unknown => cases computed

theorem isNormalized_expand {e : Expr} {p : Polynomial} (expanded : e.expand = .ok p) :
    p.IsNormalized := by
  induction e generalizing p with
  | constant x =>
    cases expanded
    exact isNormalized_constant x
  | var name =>
    cases expanded
    exact isNormalized_var name
  | unset => cases expanded
  | group inner ih => exact ih (Blame.within_eq_ok_iff.mp expanded)
  | call func arg _ => cases func <;> cases expanded
  | unary op operand ih =>
    cases op with
    | unknown => cases expanded
    | pos => exact ih (Blame.within_eq_ok_iff.mp expanded)
    | neg =>
      obtain ⟨q, inner, rfl⟩ := expand_neg_eq_ok_iff.mp expanded
      exact isNormalized_neg (ih inner)
  | binary op lhs rhs ihl ihr =>
    obtain ⟨-, -, p, q, left, right, combined⟩ := expand_binary_eq_ok_iff.mp expanded
    exact isNormalized_combine (ihl left) (ihr right) combined

end Expr

theorem Equation.isNormalized_expand {q : Equation} {p : Polynomial} (expanded : q.expand = .ok p) :
    p.IsNormalized := by
  obtain ⟨a, left, expanded⟩ := bind_eq_ok_iff.mp expanded
  obtain ⟨b, right, expanded⟩ := bind_eq_ok_iff.mp expanded
  cases expanded
  exact Polynomial.isNormalized_sub (Expr.isNormalized_expand (Blame.within_eq_ok_iff.mp left))
    (Expr.isNormalized_expand (Blame.within_eq_ok_iff.mp right))

namespace Polynomial

/-- The polynomials that can be put together from terms without powers of zero. -/
inductive Built : Polynomial → Prop where
  | ofTerms (ts : List Term) : AllPositive ts → Built (ofTerms ts)
  | zero : Built zero
  | one : Built one
  | constant (x : Number) : Built (constant x)
  | var (name : String) : Built (var name)
  | add {p q : Polynomial} : Built p → Built q → Built (p + q)
  | sub {p q : Polynomial} : Built p → Built q → Built (p - q)
  | neg {p : Polynomial} : Built p → Built (-p)
  | mul {p q r : Polynomial} : Built p → Built q → p.mul? q = some r → Built r
  | pow {p r : Polynomial} (n : Nat) : Built p → p.pow? n = some r → Built r
  | reduce {e : Expr} {p : Polynomial} : e.reduce = .ok p → Built p
  | reduceEquation {q : Equation} {p : Polynomial} : q.reduce = .ok p → Built p

theorem Built.isNormalized {p : Polynomial} (built : Built p) : p.IsNormalized := by
  induction built with
  | ofTerms ts positive => exact isNormalized_ofTerms positive
  | zero => exact isNormalized_zero
  | one => exact isNormalized_constant 1
  | constant x => exact isNormalized_constant x
  | var name => exact isNormalized_var name
  | add _ _ hp hq => exact isNormalized_add hp hq
  | sub _ _ hp hq => exact isNormalized_sub hp hq
  | neg _ hp => exact isNormalized_neg hp
  | mul _ _ computed hp hq => exact isNormalized_mul? hp hq computed
  | pow n _ computed hp => exact isNormalized_pow? hp computed
  | reduce reduced => exact Expr.isNormalized_expand (mapError_eq_ok_iff.mp reduced)
  | reduceEquation reduced => exact Equation.isNormalized_expand (mapError_eq_ok_iff.mp reduced)

namespace IsNormalized
variable {p : Polynomial}

theorem once (normal : p.IsNormalized) : (p.terms.map Term.monomial).Nodup := by
  refine List.pairwise_map.mpr (normal.ascends.imp fun {s t} before same => ?_)
  rw [Term.cmp_eq_eq_iff.mpr same] at before
  cases before

/-- Degrees fall, and nothing follows a constant term. -/
theorem falls (normal : p.IsNormalized) :
    p.terms.Pairwise fun s t => t.degree ≤ s.degree ∧ s.monomial ≠ .one :=
  normal.ascends.imp_of_mem fun {_ t} _ member before =>
    ⟨Monomial.degree_le_of_cmp before, Monomial.ne_one_of_cmp (normal.positive t member) before⟩

theorem degree_eq (normal : p.IsNormalized) :
    p.degree = (p.terms.map Term.degree).foldr max 0 := by
  have falls := normal.falls
  unfold degree
  generalize p.terms = ts at falls ⊢
  cases ts with
  | nil => rfl
  | cons t ts =>
    have bound : (ts.map Term.degree).foldr max 0 ≤ t.degree := by
      have above := (List.pairwise_cons.mp falls).1
      clear falls
      induction ts with
      | nil => exact Nat.zero_le _
      | cons s ts ih =>
        obtain ⟨here, rest⟩ := List.forall_mem_cons.mp above
        exact max_le here.1 (ih rest)
    exact (max_eq_left bound).symm

theorem constantTerm_of_mem (normal : p.IsNormalized) {t : Term} (member : t ∈ p.terms)
    (constant : t.monomial = .one) : p.constantTerm = t.coefficient := by
  have last : p.terms.getLast? = some t := by
    obtain ⟨before, after, split⟩ := List.append_of_mem member
    have falls := normal.falls
    rw [split] at falls ⊢
    cases after with
    | nil => exact List.getLast?_concat
    | cons s after =>
      have first := (List.pairwise_cons.mp (List.pairwise_append.mp falls).2.1).1
      exact absurd constant (first s List.mem_cons_self).2
  rw [constantTerm, last]
  exact if_pos (Monomial.isOne_iff.mpr constant)

theorem constantTerm_of_absent (absent : ∀ t ∈ p.terms, t.monomial ≠ .one) :
    p.constantTerm = 0 := by
  unfold constantTerm
  split
  next t last =>
    have member : t ∈ p.terms := List.mem_of_getLast? last
    exact if_neg fun constant => absent t member (Monomial.isOne_iff.mp constant)
  next => rfl

end IsNormalized

/-- Every polynomial that the operations build is normalized, with exact coefficients or not. So its
degree, its constant term and whether it is constant may be read off its ends. -/
theorem built_polynomials_are_normalized (p : Polynomial) (built : Built p) :
    (p.terms.map Term.monomial).Nodup ∧
    (∀ t ∈ p.terms, t.coefficient.isZero = false) ∧
    (∀ t ∈ p.terms, ∀ x ∈ t.monomial.powers, 1 ≤ x.2) ∧
    p.terms.Pairwise (fun s t => s.cmp t = .lt) ∧
    p.terms.Pairwise (fun s t => t.degree ≤ s.degree ∧ s.monomial ≠ .one) ∧
    p.degree = (p.terms.map Term.degree).foldr max 0 ∧
    (∀ t ∈ p.terms, t.monomial = .one → p.constantTerm = t.coefficient) ∧
    ((∀ t ∈ p.terms, t.monomial ≠ .one) → p.constantTerm = 0) ∧
    (p.isConstant = true ↔ ∀ t ∈ p.terms, t.monomial.powers = []) := by
  have normal := built.isNormalized
  refine ⟨normal.once, normal.nonzero, ?_, normal.ascends, normal.falls, normal.degree_eq,
    fun t member => normal.constantTerm_of_mem member, IsNormalized.constantTerm_of_absent, ?_⟩
  · intro t member x inside
    have nonzero : x.2.toNat ≠ 0 := fun zero =>
      normal.positive t member x inside (UInt32.toNat_inj.mp zero)
    exact UInt32.le_iff_toNat_le.mpr (Nat.one_le_iff_ne_zero.mpr nonzero)
  · simp [isConstant, Term.isConstant, Monomial.isOne]

/-- The terms are `1`, `0.5x` and `-0.5y`, and their sum is squared. -/
theorem built_polynomials_are_normalized_square :
    let p := ofTerms [⟨1, .one⟩, ⟨.double 0.5, .var "x"⟩, ⟨.double (-0.5), .var "y"⟩]
    ∃ r, p.pow? 2 = some r ∧ r.degree = 2 ∧ (r.terms.map Term.monomial).Nodup ∧
      r.degree = (r.terms.map Term.degree).foldr max 0 := by
  intro p
  have positive : AllPositive [⟨1, .one⟩, ⟨.double 0.5, .var "x"⟩, ⟨.double (-0.5), .var "y"⟩] :=
    List.forall_mem_cons.mpr ⟨Monomial.isPositive_one, List.forall_mem_cons.mpr
      ⟨Monomial.isPositive_var "x", List.forall_mem_singleton.mpr (Monomial.isPositive_var "y")⟩⟩
  have squared : (p.pow? 2).isSome = true := by decide +kernel
  obtain ⟨r, squared⟩ := Option.isSome_iff_exists.mp squared
  have high : (p.pow? 2).map degree = some 2 := by decide +kernel
  rw [squared] at high
  obtain ⟨once, -, -, -, -, top, -⟩ :=
    built_polynomials_are_normalized r (.pow 2 (.ofTerms _ positive) squared)
  exact ⟨r, squared, Option.some.inj high, once, top⟩

end Polynomial
end Schoolbook
