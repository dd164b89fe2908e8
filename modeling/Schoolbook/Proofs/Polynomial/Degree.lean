import Mathlib
import Schoolbook.Proofs.Polynomial.Arithmetic

/-! The highest powers of variables. A product of polynomials is refused because of two of its terms,
and that is exactly where the product that is meant has a power of more than 32 bits: the highest
powers never cancel. The same is true of powers by repeated squaring, because no square is formed that
is not a factor of the result. -/
namespace Schoolbook

namespace Monomial
variable {a b m : Monomial} {name : String} {extra : UInt32}

theorem exponentsOf_apply {powers : List (String × UInt32)} (sorted : powers.Pairwise (·.1 < ·.1))
    (name : String) : exponentsOf powers name = ((powers.lookup name).getD 0).toNat := by
  induction powers with
  | nil => rfl
  | cons x powers ih =>
    obtain ⟨above, sorted⟩ := List.pairwise_cons.mp sorted
    rw [exponentsOf_cons, Finsupp.add_apply, List.lookup_cons]
    by_cases same : name = x.1
    · subst same
      rw [Finsupp.single_eq_same, exponentsOf_absent fun y member => (above y member).ne, beq_self_eq_true]
      rfl
    · rw [Finsupp.single_eq_of_ne same, ih sorted, beq_false_of_ne same, zero_add]

theorem toNat_power (m : Monomial) (name : String) : (m.power name).toNat = m.exponents name :=
  (exponentsOf_apply m.sorted name).symm

theorem exponents_lt (m : Monomial) (name : String) : m.exponents name < UInt32.size := by
  rw [← toNat_power]
  exact UInt32.toNat_lt_size _

theorem isSome_raise? :
    (m.raise? name extra).isSome = true ↔ m.exponents name + extra.toNat < UInt32.size := by
  rw [raise?, toNat_power]
  split_ifs with fits <;> simp [fits]

theorem isSome_mul? : (a.mul? b).isSome = true ↔
    ∀ name, a.exponents name + b.exponents name < UInt32.size := by
  obtain ⟨powers, sorted⟩ := b
  change Option.isSome (powers.foldlM _ a) = true ↔
    ∀ name, a.exponents name + exponentsOf powers name < UInt32.size
  clear sorted
  induction powers generalizing a with
  | nil => exact iff_of_true rfl a.exponents_lt
  | cons x powers ih =>
    obtain ⟨n, extra⟩ := x
    rw [List.foldlM_cons]
    cases raised : a.raise? n extra with
    | none =>
      have high : ¬(a.exponents n + extra.toNat < UInt32.size) := by
        rw [← isSome_raise?, raised]
        exact Bool.false_ne_true
      simp only [raised, Option.bind_eq_bind, Option.bind_none]
      refine iff_of_false Bool.false_ne_true fun low => high (lt_of_le_of_lt ?_ (low n))
      rw [exponentsOf_cons, Finsupp.add_apply, Finsupp.single_eq_same]
      exact Nat.add_le_add_left (Nat.le_add_right _ _) _
    | some r =>
      simp only [raised, Option.bind_eq_bind, Option.bind_some]
      refine ih.trans (forall_congr' fun name => ?_)
      rw [exponents_raise? raised, exponentsOf_cons, Finsupp.add_apply, Finsupp.add_apply, add_assoc]

end Monomial

namespace Polynomial
variable {p q : Polynomial} {P Q : MvPolynomial String ℚ}

theorem isSome_mapM {α β : Type} {f : α → Option β} {xs : List α} :
    (xs.mapM f).isSome = true ↔ ∀ x ∈ xs, (f x).isSome = true := by
  induction xs with
  | nil => exact iff_of_true rfl (List.forall_mem_nil _)
  | cons x xs ih =>
    rw [List.mapM_cons, List.forall_mem_cons, ← ih]
    cases f x <;> cases xs.mapM f <;> simp

theorem isSome_term_mul? {a b : Term} : (a.mul? b).isSome = true ↔
    ∀ name, a.monomial.exponents name + b.monomial.exponents name < UInt32.size := by
  rw [← Monomial.isSome_mul?, Term.mul?]
  cases a.monomial.mul? b.monomial <;> rfl

theorem isSome_mul? : (p.mul? q).isSome = true ↔ ∀ a ∈ p.terms, ∀ b ∈ q.terms, ∀ name,
    a.monomial.exponents name + b.monomial.exponents name < UInt32.size := by
  rw [mul?_eq, products?, Option.isSome_map, Option.isSome_map, isSome_mapM]
  simp only [isSome_mapM, isSome_term_mul?]

/-- The highest power of a variable. -/
def highestPower (p : Polynomial) (name : String) : Nat :=
  (p.terms.map fun t => (t.monomial.power name).toNat).foldr max 0

theorem highestPower_le_iff {n : Nat} :
    p.highestPower name ≤ n ↔ ∀ t ∈ p.terms, t.monomial.exponents name ≤ n := by
  unfold highestPower
  induction p.terms with
  | nil => exact iff_of_true (Nat.zero_le n) (List.forall_mem_nil _)
  | cons t ts ih => rw [List.map_cons, List.foldr_cons, max_le_iff, List.forall_mem_cons, ih,
      Monomial.toNat_power]

namespace IsNormalFormOf

theorem forall_mem_support_iff (normal : p.IsNormalFormOf P) {property : (String →₀ ℕ) → Prop} :
    (∀ m ∈ P.support, property m) ↔ ∀ t ∈ p.terms, property t.monomial.exponents := by
  simp only [MvPolynomial.mem_support_iff, normal.complete]
  constructor
  · intro all t member
    exact all _ ⟨t, member, rfl⟩
  · rintro all m ⟨t, member, rfl⟩
    exact all t member

theorem highestPower_eq (normal : p.IsNormalFormOf P) (name : String) :
    p.highestPower name = P.degreeOf name := by
  refine eq_of_forall_ge_iff fun n => ?_
  rw [highestPower_le_iff, MvPolynomial.degreeOf_le_iff, normal.forall_mem_support_iff]

theorem degreeOf_lt (normal : p.IsNormalFormOf P) (name : String) :
    P.degreeOf name < UInt32.size := by
  rw [MvPolynomial.degreeOf_lt_iff (by decide), normal.forall_mem_support_iff]
  exact fun t _ => t.monomial.exponents_lt name

theorem exists_highest (normal : p.IsNormalFormOf P) (nonzero : P ≠ 0) (name : String) :
    ∃ t ∈ p.terms, t.monomial.exponents name = P.degreeOf name := by
  obtain ⟨m, inside, highest⟩ := Finset.exists_mem_eq_sup P.support
    (MvPolynomial.support_nonempty.mpr nonzero) fun m => m name
  obtain ⟨t, member, rfl⟩ := (normal.complete m).mp (MvPolynomial.mem_support_iff.mp inside)
  exact ⟨t, member, by rw [MvPolynomial.degreeOf_eq_sup, highest]⟩

theorem le_degreeOf (normal : p.IsNormalFormOf P) {t : Term} (member : t ∈ p.terms)
    (name : String) : t.monomial.exponents name ≤ P.degreeOf name :=
  MvPolynomial.le_degreeOf_of_mem_support name
    (MvPolynomial.mem_support_iff.mpr ((normal.complete _).mpr ⟨t, member, rfl⟩))

theorem ne_zero_of_mem (normal : p.IsNormalFormOf P) {t : Term} (member : t ∈ p.terms) : P ≠ 0 := by
  rintro rfl
  exact (normal.complete t.monomial.exponents).mpr ⟨t, member, rfl⟩ (MvPolynomial.coeff_zero _)

end IsNormalFormOf

theorem isSome_mul?_iff (hp : p.IsNormalFormOf P) (hq : q.IsNormalFormOf Q) :
    (p.mul? q).isSome = true ↔ ∀ name, (P * Q).degreeOf name < UInt32.size := by
  rw [isSome_mul?]
  constructor
  · intro low name
    by_cases zero : P * Q = 0
    · rw [zero, MvPolynomial.degreeOf_zero]
      decide
    · obtain ⟨left, right⟩ := mul_ne_zero_iff.mp zero
      obtain ⟨a, inside, highest⟩ := hp.exists_highest left name
      obtain ⟨b, inside', highest'⟩ := hq.exists_highest right name
      rw [MvPolynomial.degreeOf_mul_eq left right, ← highest, ← highest']
      exact low a inside b inside' name
  · intro low a inside b inside' name
    have degree := low name
    rw [MvPolynomial.degreeOf_mul_eq (hp.ne_zero_of_mem inside) (hq.ne_zero_of_mem inside')] at degree
    have := hp.le_degreeOf inside name
    have := hq.le_degreeOf inside' name
    omega

/-- A result that is refused exactly where a power of the polynomial does not fit 32 bits, and is its
normal form everywhere else. -/
structure IsCheckedFormOf (result : Option Polynomial) (P : MvPolynomial String ℚ) : Prop where
  normal : ∀ r, result = some r → r.IsNormalFormOf P
  isSome_iff : result.isSome = true ↔ ∀ name, P.degreeOf name < UInt32.size

theorem IsNormalFormOf.checked (normal : p.IsNormalFormOf P) : IsCheckedFormOf (some p) P where
  normal _ same := Option.some.inj same ▸ normal
  isSome_iff := iff_of_true rfl normal.degreeOf_lt

theorem isCheckedFormOf_mul? (hp : p.IsNormalFormOf P) (hq : q.IsNormalFormOf Q)
    (exact : AllExact (p.mulSums q)) : IsCheckedFormOf (p.mul? q) (P * Q) where
  normal _ computed := isNormalFormOf_mul? hp hq computed exact
  isSome_iff := isSome_mul?_iff hp hq

namespace IsCheckedFormOf
variable {result result' : Option Polynomial}

theorem unique (first : IsCheckedFormOf result P) (second : IsCheckedFormOf result' P) :
    result = result' := by
  have both := first.isSome_iff.trans second.isSome_iff.symm
  cases result with
  | none => cases result' with
    | none => rfl
    | some r' => cases both.mpr rfl
  | some r => cases result' with
    | none => cases both.mp rfl
    | some r' => rw [(first.normal r rfl).unique (second.normal r' rfl)]

theorem eq_none_iff (checked : IsCheckedFormOf result P) :
    result = none ↔ ∃ name, UInt32.size ≤ P.degreeOf name := by
  rw [← Option.not_isSome_iff_eq_none, checked.isSome_iff]
  push Not
  rfl

/-- An intermediate result may be refused where the result that it is part of is. -/
theorem bind (checked : IsCheckedFormOf result P) {next : Polynomial → Option Polynomial}
    (lower : result = none → ∀ name, P.degreeOf name ≤ Q.degreeOf name)
    (continues : ∀ r, result = some r → IsCheckedFormOf (next r) Q) :
    IsCheckedFormOf (result.bind next) Q := by
  cases result with
  | some r => exact continues r rfl
  | none =>
    refine ⟨nofun, iff_of_false nofun fun low => ?_⟩
    obtain ⟨name, high⟩ := checked.eq_none_iff.mp rfl
    exact absurd (high.trans (lower rfl name)) (low name).not_ge

end IsCheckedFormOf

/-- Highest powers do not cancel in a product. -/
theorem degreeOf_le_of_dvd (divides : P ∣ Q) (zero : Q = 0 → P = 0) (name : String) :
    P.degreeOf name ≤ Q.degreeOf name := by
  obtain ⟨R, rfl⟩ := divides
  by_cases vanishes : P * R = 0
  · rw [zero vanishes, MvPolynomial.degreeOf_zero]
    exact Nat.zero_le _
  · obtain ⟨left, right⟩ := mul_ne_zero_iff.mp vanishes
    rw [MvPolynomial.degreeOf_mul_eq left right]
    exact Nat.le_add_right _ _

section
variable {result base r : Polynomial} {R B : MvPolynomial String ℚ} {n : Nat}

theorem isCheckedFormOf_lowestBit (hr : result.IsNormalFormOf R) (hb : base.IsNormalFormOf B)
    (exact : AllExact (if n % 2 = 1 then result.mulSums base else [])) :
    IsCheckedFormOf (if n % 2 = 1 then result.mul? base else some result) (R * B ^ (n % 2)) := by
  split_ifs at exact ⊢ with odd
  · rw [odd, pow_one]
    exact isCheckedFormOf_mul? hr hb exact
  · rw [Nat.mod_two_ne_one.mp odd, pow_zero, mul_one]
    exact hr.checked

/-- The invariant of repeated squaring: `result` times the power that is left. The result vanishes only
with the base, so that the squares are factors of the power even then. -/
theorem isCheckedFormOf_powFrom? (hr : result.IsNormalFormOf R) (hb : base.IsNormalFormOf B)
    (kept : R = 0 → B = 0) (exact : AllExact (powSums result base n)) :
    IsCheckedFormOf (powFrom? result base n) (R * B ^ n) := by
  induction n using Nat.strongRecOn generalizing result base R B with
  | ind n ih =>
    rw [powFrom?_eq]
    rw [powSums] at exact
    by_cases none : n = 0
    · rw [if_pos none, none, pow_zero, mul_one]
      exact hr.checked
    rw [if_neg none] at exact ⊢
    obtain ⟨first, exact⟩ := allExact_append.mp exact
    have halved : R * B ^ n = R * B ^ (n % 2) * (B * B) ^ (n / 2) := by
      rw [mul_assoc, ← pow_two, ← pow_mul, ← pow_add, Nat.mod_add_div]
    have vanishes {k : Nat} (zero : R * B ^ k = 0) : B = 0 :=
      (mul_eq_zero.mp zero).elim kept eq_zero_of_pow_eq_zero
    have stepped := isCheckedFormOf_lowestBit hr hb first
    refine stepped.bind (fun refused => degreeOf_le_of_dvd ⟨_, halved⟩ fun zero => ?_)
      fun next computed => ?_
    · -- Only a multiplication is refused, and that belongs to an odd power.
      have odd : n % 2 = 1 := by
        by_contra even
        rw [if_neg even] at refused
        cases refused
      rw [odd, pow_one, vanishes zero, mul_zero]
    · have normal := stepped.normal next computed
      rw [computed] at exact
      rw [halved]
      by_cases last : n / 2 = 0
      · rw [if_pos last, last, pow_zero, mul_one]
        exact normal.checked
      rw [if_neg last] at exact ⊢
      obtain ⟨second, exact⟩ := allExact_append.mp exact
      have squared := isCheckedFormOf_mul? hb hb second
      have factor : B * B ∣ R * B ^ (n % 2) * (B * B) ^ (n / 2) := (dvd_pow_self _ last).mul_left _
      refine squared.bind (fun _ => degreeOf_le_of_dvd factor fun zero => ?_) fun square computed => ?_
      · rw [vanishes (halved.trans zero), mul_zero]
      · rw [computed] at exact
        refine ih (n / 2) (by omega) normal (squared.normal square computed) (fun zero => ?_) exact
        rw [vanishes zero, mul_zero]

theorem isCheckedFormOf_pow? (hp : p.IsNormalFormOf P) (exact : AllExact (powSums one p n)) :
    IsCheckedFormOf (p.pow? n) (P ^ n) := by
  rw [← one_mul (P ^ n)]
  exact isCheckedFormOf_powFrom? isNormalFormOf_one hp (fun zero => absurd zero one_ne_zero) exact

theorem isNormalFormOf_pow? (hp : p.IsNormalFormOf P) (computed : p.pow? n = some r)
    (exact : AllExact (powSums one p n)) : r.IsNormalFormOf (P ^ n) :=
  (isCheckedFormOf_pow? hp exact).normal r computed

end

end Polynomial
end Schoolbook
