import Mathlib
import Schoolbook.Polynomial.Monomial
import Schoolbook.Proofs.Comparison

/-! Monomials as vectors of exponents, and their order. -/
namespace Schoolbook.Monomial

noncomputable def exponentsOf (powers : List (String × UInt32)) : String →₀ ℕ :=
  (powers.map fun x => Finsupp.single x.1 x.2.toNat).sum

noncomputable def exponents (m : Monomial) : String →₀ ℕ := exponentsOf m.powers

/-- Every variable that is kept has a power of at least one. -/
def IsPositive (m : Monomial) : Prop := ∀ x ∈ m.powers, x.2 ≠ 0

instance (m : Monomial) : Decidable m.IsPositive :=
  inferInstanceAs (Decidable (∀ x ∈ m.powers, x.2 ≠ 0))

theorem exponentsOf_cons (x : String × UInt32) (powers : List (String × UInt32)) :
    exponentsOf (x :: powers) = Finsupp.single x.1 x.2.toNat + exponentsOf powers := by
  rw [exponentsOf, List.map_cons, List.sum_cons, exponentsOf]

theorem degree_eq_sum (m : Monomial) : m.degree = (m.powers.map fun x => x.2.toNat).sum := rfl

/-- Powers of 32 bits, and no more variables than 32 bits can number, have a degree of 64 bits. -/
theorem degree_lt {m : Monomial} (few : m.powers.length ≤ UInt32.size) :
    m.degree < UInt64.size := by
  have each : ∀ p ∈ m.powers.map fun x => x.2.toNat, p ≤ UInt32.size - 1 := by
    intro p member
    obtain ⟨x, -, rfl⟩ := List.mem_map.mp member
    exact Nat.le_sub_one_of_lt x.2.toNat_lt_size
  calc
    m.degree ≤ m.powers.length * (UInt32.size - 1) := by
      simpa [degree_eq_sum] using List.sum_le_card_nsmul _ _ each
    _ ≤ UInt32.size * (UInt32.size - 1) := Nat.mul_le_mul_right _ few
    _ < UInt64.size := by decide

theorem exponentsOf_absent {powers : List (String × UInt32)} {name : String}
    (absent : ∀ x ∈ powers, name ≠ x.1) : exponentsOf powers name = 0 := by
  induction powers with
  | nil => rfl
  | cons x powers ih =>
    have differ : x.1 ≠ name := (absent x List.mem_cons_self).symm
    rw [exponentsOf_cons, Finsupp.add_apply, Finsupp.single_eq_of_ne' differ,
      ih fun y member => absent y (List.mem_cons_of_mem x member)]

theorem exponentsOf_alterIn {powers : List (String × UInt32)} {name : String} {extra : UInt32}
    (fits : ((powers.lookup name).getD 0).toNat + extra.toNat < UInt32.size) :
    exponentsOf (alterIn name (· + extra) powers) =
      exponentsOf powers + Finsupp.single name extra.toNat := by
  induction powers with
  | nil => simp [alterIn, exponentsOf]
  | cons x powers ih =>
    obtain ⟨n, p⟩ := x
    rw [alterIn]
    split_ifs with before same
    · simp [exponentsOf_cons, add_comm]
    · subst same
      have carry : (p + extra).toNat = p.toNat + extra.toNat := by
        simp only [List.lookup_cons_self, Option.getD_some] at fits
        rw [UInt32.toNat_add, Nat.mod_eq_of_lt fits]
      rw [exponentsOf_cons, exponentsOf_cons, carry, Finsupp.single_add]
      abel
    · have passed : ((n, p) :: powers).lookup name = powers.lookup name := by
        rw [List.lookup_cons, beq_false_of_ne same]
      rw [passed] at fits
      rw [exponentsOf_cons, exponentsOf_cons, ih fits, add_assoc]

theorem exponents_raise? {m r : Monomial} {name : String} {extra : UInt32}
    (raised : m.raise? name extra = some r) :
    r.exponents = m.exponents + Finsupp.single name extra.toNat := by
  unfold raise? at raised
  split at raised
  next fits =>
    cases raised
    exact exponentsOf_alterIn fits
  next => cases raised

theorem exponents_mul? {a b r : Monomial} (computed : a.mul? b = some r) :
    r.exponents = a.exponents + b.exponents := by
  unfold mul? at computed
  rw [exponents, exponents, exponents]
  generalize b.powers = powers at computed
  induction powers generalizing a with
  | nil =>
    cases computed
    exact (add_zero _).symm
  | cons x powers ih =>
    rw [List.foldlM_cons] at computed
    obtain ⟨next, raised, rest⟩ := Option.bind_eq_some_iff.mp computed
    have raised := exponents_raise? raised
    rw [exponents, exponents] at raised
    rw [ih rest, raised, exponentsOf_cons, add_assoc]

theorem exponentsOf_mem {powers : List (String × UInt32)} {x : String × UInt32}
    (sorted : powers.Pairwise (·.1 < ·.1)) (member : x ∈ powers) :
    exponentsOf powers x.1 = x.2.toNat := by
  induction powers with
  | nil => cases member
  | cons y powers ih =>
    obtain ⟨above, sorted⟩ := List.pairwise_cons.mp sorted
    rw [exponentsOf_cons, Finsupp.add_apply]
    rcases List.mem_cons.mp member with rfl | member
    · rw [Finsupp.single_eq_same, exponentsOf_absent fun z inside => (above z inside).ne, add_zero]
    · rw [Finsupp.single_eq_of_ne' (above x member).ne, ih sorted member, zero_add]

theorem exponents_mem {m : Monomial} {x : String × UInt32} (member : x ∈ m.powers) :
    m.exponents x.1 = x.2.toNat :=
  exponentsOf_mem m.sorted member

/-- Positive powers can be read off the exponents, so they are kept by what adds to these. -/
theorem isPositive_iff {m : Monomial} : m.IsPositive ↔ ∀ x ∈ m.powers, m.exponents x.1 ≠ 0 := by
  refine forall₂_congr fun x member => not_congr ?_
  rw [exponents_mem member, ← UInt32.toNat_inj]
  rfl

theorem isPositive_raise? {m r : Monomial} {name : String} {extra : UInt32}
    (raised : m.raise? name extra = some r) (positive : m.IsPositive) (some_extra : extra ≠ 0) :
    r.IsPositive := by
  have added := exponents_raise? raised
  have positive := isPositive_iff.mp positive
  refine isPositive_iff.mpr fun x member => ?_
  rw [added, Finsupp.add_apply]
  unfold raise? at raised
  split at raised
  next =>
    cases raised
    rcases name_of_mem_alterIn member with same | ⟨y, inside, same⟩
    · have extra_nonzero : extra.toNat ≠ 0 := fun zero => some_extra (UInt32.toNat_inj.mp zero)
      rw [same, Finsupp.single_eq_same]
      omega
    · have nonzero := positive y inside
      rw [← same]
      omega
  next => cases raised

theorem isPositive_mul? {a b r : Monomial} (computed : a.mul? b = some r) (ha : a.IsPositive)
    (hb : b.IsPositive) : r.IsPositive := by
  unfold mul? at computed
  unfold IsPositive at hb
  generalize b.powers = powers at computed hb
  induction powers generalizing a with
  | nil =>
    cases computed
    exact ha
  | cons x powers ih =>
    rw [List.foldlM_cons] at computed
    obtain ⟨next, raised, rest⟩ := Option.bind_eq_some_iff.mp computed
    have positive := isPositive_raise? raised ha (hb x List.mem_cons_self)
    exact ih positive rest fun y member => hb y (List.mem_cons_of_mem x member)

theorem isPositive_one : one.IsPositive := nofun

theorem isPositive_var (name : String) : (var name).IsPositive := by
  simp [IsPositive, var, alter, one, alterIn]

theorem exponents_var (name : String) : (var name).exponents = Finsupp.single name 1 := by
  simp [exponents, var, alter, one, alterIn, exponentsOf]

theorem isOne_iff {m : Monomial} : m.isOne = true ↔ m = one := by
  obtain ⟨powers, _⟩ := m
  simp [isOne, one]

private theorem exponentsOf_inj {xs ys : List (String × UInt32)}
    (hx : xs.Pairwise (·.1 < ·.1)) (hy : ys.Pairwise (·.1 < ·.1)) (px : ∀ x ∈ xs, x.2 ≠ 0)
    (py : ∀ y ∈ ys, y.2 ≠ 0) (same : exponentsOf xs = exponentsOf ys) : xs = ys := by
  -- A variable of one list has a nonzero exponent, so it is in the other list too.
  have found {us vs : List (String × UInt32)} (hu : us.Pairwise (·.1 < ·.1))
      (hv : vs.Pairwise (·.1 < ·.1)) (pu : ∀ u ∈ us, u.2 ≠ 0)
      (same : exponentsOf us = exponentsOf vs) : us ⊆ vs := by
    intro u member
    have exponent := exponentsOf_mem hu member
    rw [same] at exponent
    by_contra absent
    by_cases named : ∃ v ∈ vs, v.1 = u.1
    · obtain ⟨v, inside, named⟩ := named
      rw [← named, exponentsOf_mem hv inside, UInt32.toNat_inj] at exponent
      exact absent (Prod.ext named exponent ▸ inside)
    · rw [exponentsOf_absent fun v inside equal => named ⟨v, inside, equal.symm⟩] at exponent
      exact pu u member (UInt32.toNat_inj.mp exponent.symm)
  have perm : xs.Perm ys := (List.perm_ext_iff_of_nodup hx.nodup hy.nodup).mpr fun x =>
    ⟨fun member => found hx hy px same member, fun member => found hy hx py same.symm member⟩
  exact perm.eq_of_pairwise (fun a b _ _ up down => absurd (up.trans down) (lt_irrefl _)) hx hy

/-- Without powers of zero a monomial is its exponents. -/
theorem exponents_inj {a b : Monomial} (ha : a.IsPositive) (hb : b.IsPositive)
    (same : a.exponents = b.exponents) : a = b := by
  have powers := exponentsOf_inj a.sorted b.sorted ha hb same
  obtain ⟨left, _⟩ := a
  obtain ⟨right, _⟩ := b
  cases powers
  rfl

theorem cmpPowers_eq_eq_iff {xs ys : List (String × UInt32)} : cmpPowers xs ys = .eq ↔ xs = ys := by
  induction xs generalizing ys with
  | nil => cases ys <;> simp [cmpPowers]
  | cons x xs ih =>
    cases ys with
    | nil => simp [cmpPowers]
    | cons y ys =>
      simp only [cmpPowers, Ordering.then_eq_eq, Std.compare_eq_iff_eq, ih, List.cons.injEq,
        Prod.ext_iff, and_assoc, eq_comm (a := y.2)]

theorem cmpPowers_swap (xs ys : List (String × UInt32)) :
    (cmpPowers xs ys).swap = cmpPowers ys xs := by
  induction xs generalizing ys with
  | nil => cases ys <;> rfl
  | cons x xs ih =>
    cases ys with
    | nil => rfl
    | cons y ys =>
      rw [cmpPowers, cmpPowers, Ordering.swap_then, Ordering.swap_then, ih,
        ← Std.OrientedOrd.eq_swap, ← Std.OrientedOrd.eq_swap]

theorem cmpPowers_composes (xs ys zs : List (String × UInt32)) :
    Composes (cmpPowers xs ys) (cmpPowers ys zs) (cmpPowers xs zs) := by
  induction xs generalizing ys zs with
  | nil => cases ys <;> cases zs <;> simp [cmpPowers, Composes]
  | cons x xs ih =>
    cases ys with
    | nil => cases zs <;> simp [cmpPowers, Composes]
    | cons y ys =>
      cases zs with
      | nil => exact ⟨fun _ => rfl, nofun, Eq.symm⟩
      | cons z zs =>
        exact (composes_compare x.1 y.1 z.1).then
          ((composes_compare z.2 y.2 x.2).symm.then (ih ys zs))

theorem cmp_eq_eq_iff {a b : Monomial} : cmp a b = .eq ↔ a = b := by
  constructor
  · intro same
    have powers := cmpPowers_eq_eq_iff.mp (Ordering.then_eq_eq.mp same).2
    obtain ⟨left, _⟩ := a
    obtain ⟨right, _⟩ := b
    cases powers
    rfl
  · rintro rfl
    simp [cmp, cmpPowers_eq_eq_iff]

theorem cmp_swap (a b : Monomial) : (cmp a b).swap = cmp b a := by
  rw [cmp, cmp, Ordering.swap_then, cmpPowers_swap, ← Std.OrientedOrd.eq_swap]

theorem cmp_composes (a b c : Monomial) : Composes (cmp a b) (cmp b c) (cmp a c) :=
  (composes_compare c.degree b.degree a.degree).symm.then
    (cmpPowers_composes a.powers b.powers c.powers)

end Schoolbook.Monomial
