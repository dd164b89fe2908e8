import Mathlib
import Schoolbook.Proofs.Polynomial.Degree
import Schoolbook.Proofs.Polynomial.Normalized

/-! Powers by repeated multiplication. As repeated squaring, it gives the normal form of the power, and is
refused exactly where a variable in the power has an exponent of more than 32 bits. -/
namespace Schoolbook.Polynomial
variable {result base p : Polynomial} {R B P : MvPolynomial String ℚ} {n : Nat}

/-- Multiplies by `base` again and again. -/
def timesFrom? (result base : Polynomial) : Nat → Option Polynomial
  | 0 => some result
  | n + 1 => do timesFrom? (← result.mul? base) base n

/-- The sums formed by repeated multiplication. -/
def timesSums (result base : Polynomial) : Nat → List Term
  | 0 => []
  | n + 1 =>
    result.mulSums base ++ match result.mul? base with
      | some next => timesSums next base n
      | none => []

theorem isCheckedFormOf_timesFrom? (hr : result.IsNormalFormOf R) (hb : base.IsNormalFormOf B)
    (exact : AllExact (timesSums result base n)) :
    IsCheckedFormOf (timesFrom? result base n) (R * B ^ n) := by
  induction n generalizing result R with
  | zero =>
    rw [pow_zero, mul_one]
    exact hr.checked
  | succ n ih =>
    obtain ⟨first, exact⟩ := allExact_append.mp exact
    have product := isCheckedFormOf_mul? hr hb first
    rw [pow_succ', ← mul_assoc]
    refine product.bind (fun _ => degreeOf_le_of_dvd (dvd_mul_right _ _) fun zero => ?_)
      fun next computed => ?_
    · exact (mul_eq_zero.mp zero).elim id fun power =>
        by rw [eq_zero_of_pow_eq_zero power, mul_zero]
    · rw [computed] at exact
      exact ih (product.normal next computed) exact

theorem degreeOf_pow (P : MvPolynomial String ℚ) (n : Nat) (name : String) :
    (P ^ n).degreeOf name = n * P.degreeOf name := by
  by_cases zero : P = 0
  · subst zero
    rcases n with _ | n
    · rw [pow_zero, MvPolynomial.degreeOf_one, Nat.zero_mul]
    · rw [zero_pow (Nat.succ_ne_zero n), MvPolynomial.degreeOf_zero, Nat.mul_zero]
  · exact MvPolynomial.degreeOf_pow_eq name P n zero

/-- Repeated squaring and repeated multiplication agree, as long as the sums of both stay exact. They are
refused where a power of a variable in the result does not fit 32 bits. -/
theorem squaring_is_repeated_multiplication (normal : p.IsNormalized) (exact : AllExact p.terms)
    (squares : AllExact (powSums one p n)) (products : AllExact (timesSums one p n)) :
    p.pow? n = timesFrom? one p n ∧
      (p.pow? n = none ↔ ∃ name, UInt32.size ≤ n * p.highestPower name) := by
  have form := normal.isNormalFormOf exact
  have squared := isCheckedFormOf_pow? form squares
  have multiplied := isCheckedFormOf_timesFrom? isNormalFormOf_one form products
  rw [one_mul] at multiplied
  refine ⟨squared.unique multiplied, squared.eq_none_iff.trans (exists_congr fun name => ?_)⟩
  rw [degreeOf_pow, form.highestPower_eq]

/-- The polynomials are `x^2 - 1/2`, with its third power, and `x^4294967295 + y`, which has no square. -/
theorem squaring_is_repeated_multiplication_cube :
    let p : Polynomial := ⟨[⟨1, .ofList [("x", 2)]⟩, ⟨.ofRat (-1 / 2), .one⟩]⟩
    let q : Polynomial := ⟨[⟨1, .ofList [("x", 4294967295)]⟩, ⟨1, .var "y"⟩]⟩
    p.IsNormalized ∧ q.IsNormalized ∧ p.pow? 3 = timesFrom? one p 3 ∧ (p.pow? 3).isSome = true ∧
      q.pow? 2 = timesFrom? one q 2 ∧ q.pow? 2 = none := by
  intro p q
  have normal : p.IsNormalized := ⟨by decide +kernel, by decide +kernel, by decide +kernel⟩
  have normal' : q.IsNormalized := ⟨by decide +kernel, by decide +kernel, by decide +kernel⟩
  have exact : AllExact p.terms ∧ AllExact (powSums one p 3) ∧ AllExact (timesSums one p 3) := by
    decide +kernel
  have exact' : AllExact q.terms ∧ AllExact (powSums one q 2) ∧ AllExact (timesSums one q 2) := by
    decide +kernel
  have cube := squaring_is_repeated_multiplication normal exact.1 exact.2.1 exact.2.2
  have square := squaring_is_repeated_multiplication normal' exact'.1 exact'.2.1 exact'.2.2
  refine ⟨normal, normal', cube.1, by decide +kernel, square.1, square.2.mpr ⟨"x", ?_⟩⟩
  decide +kernel

end Schoolbook.Polynomial
