import Mathlib
import Schoolbook.Proofs.Polynomial.Cancellation
import Schoolbook.Proofs.Polynomial.Reduction

/-! Where coefficients leave the doubles. A result that is not finite goes back to one sum or one
product of two finite coefficients that is not finite itself. -/
namespace Schoolbook

namespace Polynomial

def FiniteTerms (ts : List Term) : Prop := ∀ t ∈ ts, t.coefficient.IsFinite

/-- While terms are added up, a coefficient is added to the sum `u` of the like terms before it, both
finite, and the new sum is not. -/
def SumOverflows (ts : List Term) : Prop :=
  ∃ before t after u, ts = before ++ t :: after ∧ u ∈ sums before ∧ u.monomial = t.monomial ∧
    u.coefficient.IsFinite ∧ t.coefficient.IsFinite ∧ ¬(u.coefficient + t.coefficient).IsFinite

/-- The product of a coefficient of each polynomial, both finite, is not finite, or a sum of such
products is not. -/
def ProductOverflows (p q : Polynomial) : Prop :=
  (∃ s ∈ p.terms, ∃ t ∈ q.terms, s.coefficient.IsFinite ∧ t.coefficient.IsFinite ∧
    ¬(s.coefficient * t.coefficient).IsFinite) ∨
  ∃ products, p.products? q = some products ∧ SumOverflows products

/-- One of the multiplications overflows that put a power together from squares. -/
inductive PowerOverflows : Polynomial → Polynomial → Nat → Prop where
  | product {result base : Polynomial} {n : Nat} : n % 2 = 1 → result.ProductOverflows base →
      PowerOverflows result base n
  | square {result base : Polynomial} {n : Nat} : n / 2 ≠ 0 → base.ProductOverflows base →
      PowerOverflows result base n
  | later {result base next squared : Polynomial} {n : Nat} : n / 2 ≠ 0 →
      (if n % 2 = 1 then result.mul? base else some result) = some next →
      base.mul? base = some squared → PowerOverflows next squared (n / 2) →
      PowerOverflows result base n

section
variable {t : Term} {ts us : List Term}

theorem SumOverflows.append (overflows : SumOverflows ts) : SumOverflows (ts ++ us) := by
  obtain ⟨before, t, after, u, rfl, rest⟩ := overflows
  exact ⟨before, t, after ++ us, u, by rw [List.append_assoc, List.cons_append], rest⟩

theorem eq_of_mem_addTerm {s : Term} (member : s ∈ addTerm t ts) :
    s ∈ ts ∨ s = ⟨0 + t.coefficient, t.monomial⟩ ∨
      ∃ u ∈ ts, u.monomial = t.monomial ∧ s = ⟨u.coefficient + t.coefficient, u.monomial⟩ := by
  induction ts with
  | nil => exact .inr (.inl (List.mem_singleton.mp member))
  | cons u ts ih =>
    rw [addTerm] at member
    split at member
    next =>
      rcases List.mem_cons.mp member with rfl | inside
      · exact .inr (.inl rfl)
      · exact .inl inside
    next like =>
      rcases List.mem_cons.mp member with rfl | inside
      · exact .inr (.inr ⟨u, List.mem_cons_self, (Term.cmp_eq_eq_iff.mp like).symm, rfl⟩)
      · exact .inl (List.mem_cons_of_mem u inside)
    next =>
      rcases List.mem_cons.mp member with rfl | inside
      · exact .inl List.mem_cons_self
      rcases ih inside with kept | first | ⟨v, there, like, sum⟩
      · exact .inl (List.mem_cons_of_mem u kept)
      · exact .inr (.inl first)
      · exact .inr (.inr ⟨v, List.mem_cons_of_mem u there, like, sum⟩)

theorem finite_sums (finite : FiniteTerms ts) (bounded : ¬SumOverflows ts) :
    FiniteTerms (sums ts) := by
  induction ts using List.reverseRecOn with
  | nil => exact List.forall_mem_nil _
  | append_singleton ts t ih =>
    obtain ⟨before, last⟩ := List.forall_mem_append.mp finite
    have last : t.coefficient.IsFinite := last t (List.mem_singleton_self t)
    have done := ih before fun overflows => bounded overflows.append
    have step : sums (ts ++ [t]) = addTerm t (sums ts) := List.foldl_concat _ _ _ _
    rw [step]
    intro s member
    rcases eq_of_mem_addTerm member with kept | rfl | ⟨u, there, like, rfl⟩
    · exact done s kept
    · exact Number.isFinite_zero_add last
    · by_contra grown
      exact bounded ⟨ts, t, [], u, rfl, there, like, done u there, last, grown⟩

theorem allFinite_ofTerms (finite : FiniteTerms ts) (bounded : ¬SumOverflows ts) :
    (ofTerms ts).AllFinite := fun t member =>
  finite_sums finite bounded t (mem_ofTerms.mp member).1

theorem finiteTerms_map_neg (finite : FiniteTerms ts) : FiniteTerms (ts.map Term.neg) :=
  List.forall_mem_map.mpr fun t member => Number.isFinite_neg (finite t member)

end

section
variable {p q r : Polynomial}

theorem exists_of_mem_mapM {α β : Type} {f : α → Option β} {xs : List α} {ys : List β}
    (computed : xs.mapM f = some ys) {y : β} (member : y ∈ ys) : ∃ x ∈ xs, f x = some y := by
  have each := forall₂_of_mapM computed
  clear computed
  induction each with
  | nil => cases member
  | @cons x z xs ys first _ ih =>
    rcases List.mem_cons.mp member with rfl | inside
    · exact ⟨x, List.mem_cons_self, first⟩
    · obtain ⟨w, there, found⟩ := ih inside
      exact ⟨w, List.mem_cons_of_mem x there, found⟩

theorem coefficient_of_mem_products? {products : List Term} (formed : p.products? q = some products)
    {t : Term} (member : t ∈ products) :
    ∃ a ∈ p.terms, ∃ b ∈ q.terms, t.coefficient = a.coefficient * b.coefficient := by
  obtain ⟨rows, found, rfl⟩ := Option.map_eq_some_iff.mp formed
  obtain ⟨row, inside, member⟩ := List.mem_flatten.mp member
  obtain ⟨a, ha, multiplied⟩ := exists_of_mem_mapM found inside
  obtain ⟨b, hb, computed⟩ := exists_of_mem_mapM multiplied member
  obtain ⟨m, -, same⟩ := Option.bind_eq_some_iff.mp computed
  cases same
  exact ⟨a, ha, b, hb, rfl⟩

theorem allFinite_mul? (hp : p.AllFinite) (hq : q.AllFinite) (bounded : ¬p.ProductOverflows q)
    (multiplied : p.mul? q = some r) : r.AllFinite := by
  rw [mul?_eq] at multiplied
  obtain ⟨products, formed, rfl⟩ := Option.map_eq_some_iff.mp multiplied
  refine allFinite_ofTerms (fun t member => ?_) fun overflows => bounded (.inr ⟨_, formed, overflows⟩)
  obtain ⟨a, ha, b, hb, coefficient⟩ := coefficient_of_mem_products? formed member
  rw [coefficient]
  by_contra grown
  exact bounded (.inl ⟨a, ha, b, hb, hp a ha, hq b hb, grown⟩)

theorem allFinite_powFrom? {result base : Polynomial} {n : Nat} (hr : result.AllFinite)
    (hb : base.AllFinite) (bounded : ¬PowerOverflows result base n)
    (raised : powFrom? result base n = some r) : r.AllFinite := by
  induction n using Nat.strongRecOn generalizing result base with
  | ind n ih =>
    rw [powFrom?_eq] at raised
    by_cases none : n = 0
    · rw [if_pos none] at raised
      cases raised
      exact hr
    rw [if_neg none] at raised
    obtain ⟨next, multiplied, raised⟩ := Option.bind_eq_some_iff.mp raised
    have finite : next.AllFinite := by
      split at multiplied
      next odd => exact allFinite_mul? hr hb (fun grown => bounded (.product odd grown)) multiplied
      next =>
        cases multiplied
        exact hr
    by_cases last : n / 2 = 0
    · rw [if_pos last] at raised
      cases raised
      exact finite
    · rw [if_neg last] at raised
      obtain ⟨square, squared, raised⟩ := Option.bind_eq_some_iff.mp raised
      have finite' := allFinite_mul? hb hb (fun grown => bounded (.square last grown)) squared
      exact ih (n / 2) (by omega) finite finite'
        (fun grown => bounded (.later last multiplied squared grown)) raised

theorem allFinite_one : one.AllFinite := allFinite_constant (Number.IsExact.isFinite rfl)

end
end Polynomial

open Schoolbook.Polynomial

/-- A sum, a difference, a product or a power overflows while its coefficients are put together. -/
def BinaryKind.Overflows (p q : Polynomial) : BinaryKind → Prop
  | .add => SumOverflows (p.terms ++ q.terms)
  | .sub => SumOverflows (p.terms ++ q.terms.map Term.neg)
  | .mul => p.ProductOverflows q
  | .pow => ∃ n, q.wholeExponent? = some n ∧ PowerOverflows .one p n
  | .div | .unknown => False

theorem Expr.allFinite_combine {kind : BinaryKind} {p q r : Polynomial} (hp : p.AllFinite)
    (hq : q.AllFinite) (bounded : ¬kind.Overflows p q)
    (combined : Expr.expand.combine kind p q = .ok r) : r.AllFinite := by
  cases kind with
  | add =>
    cases combined
    exact allFinite_ofTerms (List.forall_mem_append.mpr ⟨hp, hq⟩) bounded
  | sub =>
    cases combined
    exact allFinite_ofTerms (List.forall_mem_append.mpr ⟨hp, finiteTerms_map_neg hq⟩) bounded
  | mul => exact allFinite_mul? hp hq bounded (unlessTooHigh_eq_ok_iff.mp combined)
  | pow =>
    obtain ⟨n, whole, raised⟩ := combine_pow_eq_ok_iff.mp combined
    exact allFinite_powFrom? allFinite_one hp (fun grown => bounded ⟨n, whole, grown⟩) raised
  | div => cases combined
  | unknown => cases combined

end Schoolbook
