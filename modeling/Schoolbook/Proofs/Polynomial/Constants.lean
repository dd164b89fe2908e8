import Mathlib
import Schoolbook.Proofs.Number.Wide
import Schoolbook.Proofs.Polynomial.Reduction

/-! Polynomials without variables. Their arithmetic is that of their numbers as long as these are
stored exactly; only differences, which add the opposite, may lose what a difference of numbers
keeps. -/
namespace Schoolbook.Polynomial
variable {x y : Number} {q : ℚ}

/-- The terms of a polynomial without variables. -/
def numberTerms (x : Number) : List Term := if x.isZero then [] else [.constant x]

theorem ofTerms_single (x : Number) : ofTerms [.constant x] = ⟨numberTerms (0 + x)⟩ := by
  change mk ([.constant (0 + x)].filter fun t => !t.coefficient.isZero) = _
  unfold numberTerms
  cases zero : (0 + x).isZero <;> simp [Term.constant, zero]

theorem ofTerms_pair (x y : Number) :
    ofTerms [.constant x, .constant y] = ⟨numberTerms (0 + x + y)⟩ := by
  change mk ([.constant (0 + x + y)].filter fun t => !t.coefficient.isZero) = _
  unfold numberTerms
  cases zero : (0 + x + y).isZero <;> simp [Term.constant, zero]

theorem constant_eq (exact : x.IsExact) : constant x = ⟨numberTerms x⟩ := by
  rw [constant, ofTerms_single, exact.zero_add_eq]

theorem ofTerms_numberTerms (exact : x.IsExact) : ofTerms (numberTerms x) = ⟨numberTerms x⟩ := by
  unfold numberTerms
  split
  next => rfl
  next nonzero =>
    rw [ofTerms_single, exact.zero_add_eq, numberTerms, if_neg nonzero]

/-- The second number need not be exact. -/
theorem ofTerms_append (exact : x.IsExact) (y : Number) :
    ofTerms (numberTerms x ++ [.constant y]) = ⟨numberTerms (x + y)⟩ := by
  by_cases zero : x.isZero = true
  · rw [exact.eq_zero zero]
    exact ofTerms_single y
  · rw [numberTerms, if_neg zero, List.singleton_append, ofTerms_pair, exact.zero_add_eq]

theorem constant_add (hx : x.IsExact) (hy : y.IsExact) (sum : (x + y).IsExact) :
    constant x + constant y = constant (x + y) := by
  change ofTerms ((constant x).terms ++ (constant y).terms) = _
  rw [constant_eq hx, constant_eq hy, constant_eq sum]
  by_cases zero : y.isZero = true
  · rw [hy.eq_zero zero, hx.add_zero_eq]
    change ofTerms (numberTerms x ++ []) = _
    rw [List.append_nil, ofTerms_numberTerms hx]
  · rw [numberTerms.eq_1 y, if_neg zero]
    exact ofTerms_append hx y

/-- A difference is put together from the opposite of the subtrahend, exact or not. -/
theorem constant_sub (hx : x.IsExact) (hy : y.IsExact) :
    constant x - constant y = ⟨numberTerms (x + -y)⟩ := by
  change ofTerms ((constant x).terms ++ (constant y).terms.map Term.neg) = _
  rw [constant_eq hx, constant_eq hy]
  by_cases zero : y.isZero = true
  · have opposite : -(0 : Number) = 0 := by decide +kernel
    rw [hy.eq_zero zero, opposite, hx.add_zero_eq]
    change ofTerms (numberTerms x ++ []) = _
    rw [List.append_nil, ofTerms_numberTerms hx]
  · rw [numberTerms.eq_1 y, if_neg zero]
    exact ofTerms_append hx (-y)

theorem constant_neg (hx : x.IsExact) : -constant x = constant (-x) := by
  change ofTerms ((constant x).terms.map Term.neg) = _
  rw [constant_eq hx]
  by_cases zero : x.isZero = true
  · rw [hx.eq_zero zero]
    decide +kernel
  · rw [numberTerms, if_neg zero]
    rfl

theorem constant_mul? (hx : x.IsExact) (hy : y.IsExact) :
    (constant x).mul? (constant y) = some (constant (x * y)) := by
  rw [mul?_eq, products?, constant_eq hx, constant_eq hy]
  by_cases left : x.isZero = true
  · rw [hx.eq_zero left, hy.zero_mul_eq]
    rfl
  by_cases right : y.isZero = true
  · rw [hy.eq_zero right, hx.mul_zero_eq]
    simp only [numberTerms, left]
    rfl
  · simp only [numberTerms, left, right]
    rfl

/-- The invariant of repeated squaring. No power on the way is higher than the last one. -/
theorem constant_powFrom? {k j n : Nat} (narrow : Narrow (q ^ (k + j * n))) :
    powFrom? (constant (.ofRat (q ^ k))) (constant (.ofRat (q ^ j))) n =
      some (constant (.ofRat (q ^ (k + j * n)))) := by
  induction n using Nat.strongRecOn generalizing k j with
  | ind n ih =>
    rw [powFrom?_eq]
    by_cases none : n = 0
    · rw [if_pos none, none, Nat.mul_zero, Nat.add_zero]
    have halves : j * (n % 2) + (j + j) * (n / 2) = j * n := by
      conv_rhs => rw [← Nat.mod_add_div n 2]
      ring
    have product {a b : Nat} (le : a + b ≤ k + j * n) :
        (constant (.ofRat (q ^ a))).mul? (constant (.ofRat (q ^ b))) =
          some (constant (.ofRat (q ^ (a + b)))) := by
      have left : Narrow (q ^ a) := narrow.pow_of_le (by omega)
      have right : Narrow (q ^ b) := narrow.pow_of_le (by omega)
      rw [constant_mul? (Number.isExact_ofRat_iff.mpr left) (Number.isExact_ofRat_iff.mpr right),
        Number.mul_eq (Number.toRat?_ofRat_of_narrow left) (Number.toRat?_ofRat_of_narrow right),
        pow_add]
    have next : (if n % 2 = 1 then (constant (.ofRat (q ^ k))).mul? (constant (.ofRat (q ^ j)))
        else some (constant (.ofRat (q ^ k)))) = some (constant (.ofRat (q ^ (k + j * (n % 2))))) := by
      rcases Nat.mod_two_eq_zero_or_one n with even | odd
      · rw [if_neg (by omega), even, Nat.mul_zero, Nat.add_zero]
      · rw [if_pos odd, odd, Nat.mul_one]
        exact product (Nat.add_le_add_left (Nat.le_mul_of_pos_right j (by omega)) k)
    rw [if_neg none, next, Option.bind_some]
    by_cases last : n / 2 = 0
    · rw [last, Nat.mul_zero, Nat.add_zero] at halves
      rw [if_pos last, halves]
    · have square : j + j ≤ k + j * n := by
        have := Nat.mul_le_mul_left j (show 2 ≤ n by omega)
        omega
      have total : k + j * (n % 2) + (j + j) * (n / 2) = k + j * n := by
        rw [Nat.add_assoc, halves]
      rw [if_neg last, product square, Option.bind_some, ih (n / 2) (by omega), total]
      rwa [total]

theorem constant_pow? {n : Nat} (hx : x.toRat? = some q) (hy : y.toRat? = some (q ^ n)) :
    (constant x).pow? n = some (constant y) := by
  have narrow := Number.narrow_of_toRat? hy
  have computed : powFrom? (constant (.ofRat (q ^ 0))) (constant (.ofRat (q ^ 1))) n =
      some (constant (.ofRat (q ^ (0 + 1 * n)))) := constant_powFrom? (by rwa [zero_add, one_mul])
  rwa [pow_zero, pow_one, zero_add, one_mul, Number.ofRat_toRat? hx, Number.ofRat_toRat? hy]
    at computed

theorem eq_of_wholeExponent?_constant {n : Nat} (stored : x.toRat? = some q)
    (whole : (constant x).wholeExponent? = some n) : q = n := by
  have exact : AllExact (sums [.constant x]) := by
    refine List.forall_mem_singleton.mpr ?_
    change (0 + x).IsExact
    rw [(Number.isExact_of_toRat? stored).zero_add_eq]
    exact Number.isExact_of_toRat? stored
  exact MvPolynomial.C_injective String ℚ
    (eq_C_of_wholeExponent? (isNormalFormOf_constant stored exact) whole)

theorem numberTerms_eq_iff :
    numberTerms x = numberTerms y ↔ x = y ∨ x.isZero = true ∧ y.isZero = true := by
  constructor
  · intro same
    unfold numberTerms at same
    split_ifs at same with left right right
    · exact .inr ⟨left, right⟩
    · exact .inl (congrArg Term.coefficient (List.singleton_injective same))
  · rintro (rfl | ⟨left, right⟩)
    · rfl
    · rw [numberTerms, numberTerms, if_pos left, if_pos right]

/-- Differences of numbers survive in polynomials, except where a number other than the minuend has
the lowest numerator of all, so that its opposite does not fit. -/
theorem constant_sub_eq_iff (hx : x.IsExact) (hy : y.toRat? = some q)
    (difference : (x - y).IsExact) :
    constant x - constant y = constant (x - y) ↔ (q.num = -2 ^ 63 → x = y) := by
  obtain ⟨p, hp⟩ := hx.exists
  have opposite := Number.neg_eq hy
  rw [constant_sub hx (Number.isExact_of_toRat? hy), constant_eq difference, mk.injEq]
  by_cases lowest : q.num = -2 ^ 63
  · have wide : ¬Narrow (-q) := fun narrow => (Number.narrow_of_toRat? hy).neg_iff.mp narrow lowest
    rw [opposite, Number.ofRat_of_not_narrow wide, Number.add_double, numberTerms_eq_iff,
      Number.isZero_sub_iff difference]
    constructor
    · rintro (same | ⟨-, same⟩) -
      · rw [← same] at difference
        cases difference
      · exact same
    · intro same
      obtain rfl := same lowest
      exact .inr ⟨Number.toFloat_add_neg hy lowest, rfl⟩
  · have narrow := (Number.narrow_of_toRat? hy).neg_iff.mpr lowest
    have same : x + -y = x - y := by
      rw [Number.sub_eq hp hy, opposite, Number.add_eq hp (Number.toRat?_ofRat_of_narrow narrow),
        sub_eq_add_neg]
    exact iff_of_true (congrArg numberTerms same) fun low => absurd low lowest

end Schoolbook.Polynomial
