import Mathlib
import Schoolbook.Proofs.Number.Finite
import Schoolbook.Proofs.Polynomial.Normalized

/-! Sums of terms that are already in order. Every term of a polynomial meets its opposite in the
difference of the polynomial with itself, and what is left depends on the coefficient being finite. -/
namespace Schoolbook.Polynomial
variable {ts : List Term} {p : Polynomial}

def AllFinite (p : Polynomial) : Prop := ∀ t ∈ p.terms, t.coefficient.IsFinite

instance (p : Polynomial) : Decidable p.AllFinite :=
  inferInstanceAs (Decidable (∀ t ∈ p.terms, t.coefficient.IsFinite))

theorem addTerm_append {before : List Term} {t : Term} (first : ∀ s ∈ before, s.cmp t = .lt)
    (after : List Term) : addTerm t (before ++ after) = before ++ addTerm t after := by
  induction before with
  | nil => rfl
  | cons s before ih =>
    obtain ⟨here, first⟩ := List.forall_mem_cons.mp first
    have behind : t.cmp s = .gt := by
      rw [Term.cmp, ← Monomial.cmp_swap]
      exact congrArg Ordering.swap here
    rw [List.cons_append, addTerm, behind, ih first]
    rfl

theorem addTerm_like (x y : Number) (m : Monomial) (after : List Term) :
    addTerm ⟨y, m⟩ (⟨x, m⟩ :: after) = ⟨x + y, m⟩ :: after := by
  have like : Term.cmp ⟨y, m⟩ ⟨x, m⟩ = .eq := Term.cmp_eq_eq_iff.mpr rfl
  rw [addTerm, like]

/-- Terms in order stay where they are. -/
theorem sums_of_ascends (ascends : Ascends ts) :
    sums ts = ts.map fun t => ⟨0 + t.coefficient, t.monomial⟩ := by
  induction ts using List.reverseRecOn with
  | nil => rfl
  | append_singleton ts t ih =>
    obtain ⟨ascends, -, first⟩ := List.pairwise_append.mp ascends
    have before : ∀ s ∈ ts.map fun t => Term.mk (0 + t.coefficient) t.monomial, s.cmp t = .lt := by
      rw [List.forall_mem_map]
      intro s member
      exact first s member t (List.mem_singleton_self t)
    have step : sums (ts ++ [t]) = addTerm t (sums ts) := List.foldl_concat _ _ _ _
    have added := addTerm_append before []
    rw [List.append_nil] at added
    rw [step, ih ascends, added, List.map_append]
    rfl

/-- Terms that are added in the order of the terms they are like meet them one after the other. -/
theorem foldl_addTerm_like (f g : Term → Number) (ascends : Ascends ts) (done : List Term)
    (first : ∀ s ∈ done, ∀ t ∈ ts, s.cmp t = .lt) :
    (ts.map fun t => Term.mk (g t) t.monomial).foldl (fun sum t => addTerm t sum)
        (done ++ ts.map fun t => ⟨f t, t.monomial⟩) =
      done ++ ts.map fun t => ⟨f t + g t, t.monomial⟩ := by
  induction ts generalizing done with
  | nil => rfl
  | cons t ts ih =>
    obtain ⟨above, ascends⟩ := List.pairwise_cons.mp ascends
    have before : ∀ s ∈ done, s.cmp ⟨g t, t.monomial⟩ = .lt := fun s member =>
      first s member t List.mem_cons_self
    have next : ∀ s ∈ done ++ [⟨f t + g t, t.monomial⟩], ∀ u ∈ ts, s.cmp u = .lt := by
      refine List.forall_mem_append.mpr ⟨fun s member u inside => ?_, ?_⟩
      · exact first s member u (List.mem_cons_of_mem t inside)
      · exact List.forall_mem_singleton.mpr above
    have rest := ih ascends _ next
    rw [List.append_assoc, List.append_assoc] at rest
    rw [List.map_cons, List.map_cons, List.map_cons, List.foldl_cons, addTerm_append before,
      addTerm_like]
    exact rest

theorem sums_append_neg (ascends : Ascends ts) : sums (ts ++ ts.map Term.neg) =
    ts.map fun t => ⟨0 + t.coefficient + -t.coefficient, t.monomial⟩ := by
  have met := foldl_addTerm_like (fun t => 0 + t.coefficient) (fun t => -t.coefficient) ascends []
    (List.forall_mem_nil _)
  rw [List.nil_append, List.nil_append, ← sums_of_ascends ascends] at met
  rw [sums, List.foldl_append]
  exact met

theorem allFinite_constant {x : Number} (finite : x.IsFinite) : (constant x).AllFinite := by
  intro t member
  obtain ⟨inside, -⟩ := mem_ofTerms.mp member
  rw [List.mem_singleton.mp inside]
  exact Number.isFinite_zero_add finite

theorem allFinite_var (name : String) : (var name).AllFinite := by
  intro t member
  obtain ⟨inside, -⟩ := mem_ofTerms.mp member
  rw [List.mem_singleton.mp inside]
  exact Number.isFinite_zero_add (Number.IsExact.isFinite rfl)

theorem allFinite_neg (normal : p.IsNormalized) (finite : p.AllFinite) : (-p).AllFinite := by
  intro t member
  obtain ⟨inside, -⟩ := mem_ofTerms.mp member
  have ascends : Ascends (p.terms.map Term.neg) := List.pairwise_map.mpr normal.ascends
  rw [sums_of_ascends ascends, List.map_map] at inside
  obtain ⟨s, source, rfl⟩ := List.mem_map.mp inside
  exact Number.isFinite_zero_add (Number.isFinite_neg (finite s source))

/-- A polynomial cancels against itself exactly if its coefficients are finite. -/
theorem sub_self_eq_zero_iff (normal : p.IsNormalized) : p - p = zero ↔ p.AllFinite := by
  have terms : (p - p).terms = (p.terms.map fun t =>
      ⟨0 + t.coefficient + -t.coefficient, t.monomial⟩).filter fun t => !t.coefficient.isZero := by
    rw [← sums_append_neg normal.ascends]
    rfl
  have empty : p - p = zero ↔ (p - p).terms = [] :=
    ⟨fun same => by rw [same]; rfl, fun none => congrArg mk none⟩
  rw [empty, terms, List.filter_eq_nil_iff, List.forall_mem_map, AllFinite]
  refine forall₂_congr fun t member => ?_
  rw [Bool.not_eq_true', Bool.not_eq_false, Number.zero_add_of_nonzero (normal.nonzero t member),
    Number.isZero_add_neg_iff]

end Schoolbook.Polynomial
