import Mathlib
import Schoolbook.Polynomial.Expansion
import Schoolbook.Proofs.Diagnosis
import Schoolbook.Proofs.Polynomial.Degree

/-! The polynomial that an expression denotes, and its normal form as the result of reducing the
expression. -/
namespace Schoolbook

namespace Polynomial

theorem eq_C_of_isConstant {p : Polynomial} {P : MvPolynomial String ℚ} {q : ℚ}
    (normal : p.IsNormalFormOf P) (constant : p.isConstant = true)
    (stored : p.constantTerm.toRat? = some q) : P = MvPolynomial.C q := by
  have ones (t : Term) (member : t ∈ p.terms) : t.monomial = .one :=
    Monomial.isOne_iff.mp (List.all_eq_true.mp constant t member)
  rw [← normal.meaningOf_terms]
  unfold constantTerm at stored
  have once := normal.once
  generalize p.terms = ts at *
  match ts with
  | [] =>
    cases stored.symm.trans Number.toRat?_zero
    exact MvPolynomial.C_0.symm
  | [t] =>
    have one := ones t List.mem_cons_self
    simp only [List.getLast?_singleton, Term.isConstant, one] at stored
    rw [meaningOf_cons, Term.meaning, one]
    change _ = some q at stored
    rw [if_pos (Monomial.isOne_iff.mpr rfl)] at stored
    rw [stored]
    exact add_zero _
  | s :: t :: _ =>
    have same : s.monomial = t.monomial := by
      rw [ones s (by simp), ones t (by simp)]
    simp [same] at once

theorem eq_C_of_wholeExponent? {p : Polynomial} {P : MvPolynomial String ℚ} {n : Nat}
    (normal : p.IsNormalFormOf P) (whole : p.wholeExponent? = some n) : P = MvPolynomial.C (n : ℚ) := by
  unfold wholeExponent? at whole
  split at whole
  next constant =>
    split at whole
    next i found =>
      split at whole
      next range =>
        cases whole
        have stored : p.constantTerm.toRat? = some ((i.toInt.toNat : ℕ) : ℚ) := by
          rw [found, Number.toRat?, ← Int.cast_natCast, Int.toNat_of_nonneg range.1]
        exact eq_C_of_isConstant normal constant stored
      next => cases whole
    next => cases whole
  next => cases whole

end Polynomial

namespace Expr
open Schoolbook.Polynomial

/-- The polynomial an expression denotes. A power denotes one where the exponent denotes a whole
number; the power of zero is one for every base. -/
inductive Denotes : Expr → MvPolynomial String ℚ → Prop where
  | constant {x : Number} {q : ℚ} : x.toRat? = some q → Denotes (.constant x) (.C q)
  | var (name : String) : Denotes (.var name) (.X name)
  | group {e : Expr} {P : MvPolynomial String ℚ} : Denotes e P → Denotes (.group e) P
  | pos {e : Expr} {P : MvPolynomial String ℚ} : Denotes e P → Denotes (.unary .pos e) P
  | neg {e : Expr} {P : MvPolynomial String ℚ} : Denotes e P → Denotes (.unary .neg e) (-P)
  | add {a b : Expr} {P Q : MvPolynomial String ℚ} (flag : Bool) : Denotes a P → Denotes b Q →
      Denotes (.binary ⟨.add, flag⟩ a b) (P + Q)
  | sub {a b : Expr} {P Q : MvPolynomial String ℚ} (flag : Bool) : Denotes a P → Denotes b Q →
      Denotes (.binary ⟨.sub, flag⟩ a b) (P - Q)
  | mul {a b : Expr} {P Q : MvPolynomial String ℚ} (flag : Bool) : Denotes a P → Denotes b Q →
      Denotes (.binary ⟨.mul, flag⟩ a b) (P * Q)
  | pow {a b : Expr} {P : MvPolynomial String ℚ} {n : Nat} (flag : Bool) : Denotes a P →
      Denotes b (.C (n : ℚ)) → Denotes (.binary ⟨.pow, flag⟩ a b) (P ^ n)

theorem Denotes.unique {e : Expr} {P Q : MvPolynomial String ℚ} (left : e.Denotes P)
    (right : e.Denotes Q) : P = Q := by
  induction left generalizing Q with
  | constant stored =>
    cases right with
    | constant stored' => rw [Option.some.inj (stored.symm.trans stored')]
  | var => cases right; rfl
  | group _ ih => cases right with | group inner => exact ih inner
  | pos _ ih => cases right with | pos inner => exact ih inner
  | neg _ ih => cases right with | neg inner => rw [ih inner]
  | add _ _ _ ih₁ ih₂ => cases right with | add _ a b => rw [ih₁ a, ih₂ b]
  | sub _ _ _ ih₁ ih₂ => cases right with | sub _ a b => rw [ih₁ a, ih₂ b]
  | mul _ _ _ ih₁ ih₂ => cases right with | mul _ a b => rw [ih₁ a, ih₂ b]
  | pow _ _ _ ih₁ ih₂ =>
    cases right with
    | pow _ a b =>
      have same := Nat.cast_injective (MvPolynomial.C_injective String ℚ (ih₂ b))
      rw [ih₁ a, same]

/-- All sums of like terms that are formed while an expression is reduced, before those that vanish
are dropped. Every product of terms, every partial sum and every negation is added up in one of
these, and a sum with an inexact part is not exact. -/
def reductionSums : Expr → List Term
  | .constant x => sums [.constant x]
  | .var name => sums [.var name]
  | .group inner | .unary .pos inner => inner.reductionSums
  | .unary .neg operand =>
    operand.reductionSums ++ match operand.expand with
      | .ok p => sums (p.terms.map Term.neg)
      | .error _ => []
  | .binary op lhs rhs =>
    lhs.reductionSums ++ rhs.reductionSums ++ match lhs.expand, rhs.expand with
      | .ok p, .ok q => combineSums op.kind p q
      | _, _ => []
  | .unary .unknown _ | .call _ _ | .unset => []
where
  combineSums (kind : BinaryKind) (p q : Polynomial) : List Term :=
    match kind with
    | .add => sums (p.terms ++ q.terms)
    | .sub => sums (p.terms ++ q.terms.map Term.neg)
    | .mul => p.mulSums q
    | .pow => (q.wholeExponent?.map (powSums .one p)).getD []
    | .div | .unknown => []

theorem expand_binary_eq_ok_iff {op : BinaryOp} {lhs rhs : Expr} {r : Polynomial} :
    (binary op lhs rhs).expand = .ok r ↔ op.kind ≠ .unknown ∧ op.kind ≠ .div ∧
      ∃ p q, lhs.expand = .ok p ∧ rhs.expand = .ok q ∧ expand.combine op.kind p q = .ok r := by
  rw [expand]
  split_ifs with unknown division
  · simp [Blame.here, unknown]
  · simp [Blame.here, division]
  · simp only [bind_eq_ok_iff, Blame.within_eq_ok_iff, ne_eq, unknown, division, not_false_eq_true,
      true_and, exists_and_left]

theorem expand_neg_eq_ok_iff {operand : Expr} {r : Polynomial} :
    (unary .neg operand).expand = .ok r ↔ ∃ p, operand.expand = .ok p ∧ -p = r := by
  rw [expand, bind_eq_ok_iff]
  simp only [Blame.within_eq_ok_iff, pure, Except.pure, Except.ok.injEq]

theorem unlessTooHigh_eq_ok_iff {result : Option Polynomial} {r : Polynomial} :
    expand.unlessTooHigh result = .ok r ↔ result = some r := by
  cases result <;> simp [expand.unlessTooHigh, Blame.here]

theorem combine_pow_eq_ok_iff {p q r : Polynomial} :
    expand.combine .pow p q = .ok r ↔ ∃ n, q.wholeExponent? = some n ∧ p.pow? n = some r := by
  rw [expand.combine]
  cases q.wholeExponent? <;> simp [unlessTooHigh_eq_ok_iff, Blame.child]

theorem denotes_combine {op : BinaryOp} {a b : Expr} {p q r : Polynomial}
    {P Q : MvPolynomial String ℚ} (ha : a.Denotes P) (hb : b.Denotes Q) (hp : p.IsNormalFormOf P)
    (hq : q.IsNormalFormOf Q) (computed : expand.combine op.kind p q = .ok r)
    (exact : AllExact (reductionSums.combineSums op.kind p q)) :
    ∃ R, (binary op a b).Denotes R ∧ r.IsNormalFormOf R := by
  obtain ⟨kind, flag⟩ := op
  cases kind with
  | add =>
    cases computed
    exact ⟨P + Q, .add flag ha hb, isNormalFormOf_add hp hq exact⟩
  | sub =>
    cases computed
    exact ⟨P - Q, .sub flag ha hb, isNormalFormOf_sub hp hq exact⟩
  | mul =>
    have multiplied := unlessTooHigh_eq_ok_iff.mp computed
    exact ⟨P * Q, .mul flag ha hb, isNormalFormOf_mul? hp hq multiplied exact⟩
  | pow =>
    obtain ⟨n, whole, raised⟩ := combine_pow_eq_ok_iff.mp computed
    simp only [reductionSums.combineSums, whole, Option.map_some, Option.getD_some] at exact
    have exponent := eq_C_of_wholeExponent? hq whole
    exact ⟨P ^ n, .pow flag ha (exponent ▸ hb), isNormalFormOf_pow? hp raised exact⟩
  | div => cases computed
  | unknown => cases computed

theorem denotes_expand {e : Expr} {p : Polynomial} (expanded : e.expand = .ok p)
    (exact : AllExact e.reductionSums) : ∃ P, e.Denotes P ∧ p.IsNormalFormOf P := by
  induction e generalizing p with
  | constant x =>
    cases expanded
    obtain ⟨q, stored⟩ := (List.forall_mem_singleton.mp (sums_meaning exact).1).exists
    exact ⟨.C q, .constant stored, isNormalFormOf_constant stored exact⟩
  | var name =>
    cases expanded
    exact ⟨.X name, .var name, isNormalFormOf_var name exact⟩
  | unset => cases expanded
  | group inner ih =>
    obtain ⟨P, denoted, normal⟩ := ih (Blame.within_eq_ok_iff.mp expanded) exact
    exact ⟨P, .group denoted, normal⟩
  | call func arg _ => cases func <;> cases expanded
  | unary op operand ih =>
    cases op with
    | unknown => cases expanded
    | pos =>
      obtain ⟨P, denoted, normal⟩ := ih (Blame.within_eq_ok_iff.mp expanded) exact
      exact ⟨P, .pos denoted, normal⟩
    | neg =>
      obtain ⟨q, inner, rfl⟩ := expand_neg_eq_ok_iff.mp expanded
      rw [reductionSums, inner] at exact
      obtain ⟨below, here⟩ := allExact_append.mp exact
      obtain ⟨P, denoted, normal⟩ := ih inner below
      exact ⟨-P, .neg denoted, isNormalFormOf_neg normal here⟩
  | binary op lhs rhs ihl ihr =>
    obtain ⟨-, -, p, q, left, right, combined⟩ := expand_binary_eq_ok_iff.mp expanded
    rw [reductionSums, left, right] at exact
    obtain ⟨below, here⟩ := allExact_append.mp exact
    obtain ⟨below_left, below_right⟩ := allExact_append.mp below
    obtain ⟨P, ha, hp⟩ := ihl left below_left
    obtain ⟨Q, hb, hq⟩ := ihr right below_right
    exact denotes_combine ha hb hp hq combined here

/-- Reduction computes the normal form of the polynomial an expression denotes, as long as its sums
stay exact, those that constants are put into included. So equal results mean equal polynomials. -/
theorem reduce_computes_normal_form :
    (∀ (e : Expr) (p : Polynomial), e.reduce = .ok p → AllExact e.reductionSums →
      ∃ P, (∀ Q, e.Denotes Q ↔ Q = P) ∧ p.IsNormalFormOf P) ∧
    ∀ (a b : Expr) (p q : Polynomial), a.reduce = .ok p → b.reduce = .ok q →
      AllExact a.reductionSums → AllExact b.reductionSums →
        (p = q ↔ ∃ P, a.Denotes P ∧ b.Denotes P) := by
  constructor
  · intro e p reduced exact
    obtain ⟨P, denoted, normal⟩ := denotes_expand (mapError_eq_ok_iff.mp reduced) exact
    exact ⟨P, fun Q => ⟨fun other => other.unique denoted, fun same => same ▸ denoted⟩, normal⟩
  · intro a b p q left right ha hb
    obtain ⟨P, hP, hp⟩ := denotes_expand (mapError_eq_ok_iff.mp left) ha
    obtain ⟨Q, hQ, hq⟩ := denotes_expand (mapError_eq_ok_iff.mp right) hb
    rw [hp.eq_iff hq]
    constructor
    · rintro rfl
      exact ⟨P, hP, hQ⟩
    · rintro ⟨R, first, second⟩
      rw [hP.unique first, second.unique hQ]

/-- The expressions are `(x + 1/2)^2` and `x * (x + 1) + 1/4`. -/
theorem reduce_computes_normal_form_square :
    let x : Expr := .var "x"
    let a : Expr := .binary ⟨.pow, false⟩
      (.group (.binary ⟨.add, false⟩ x (.constant (.ofRat (1 / 2))))) (.constant (.integer 2))
    let b : Expr := .binary ⟨.add, false⟩
      (.binary ⟨.mul, false⟩ x (.group (.binary ⟨.add, false⟩ x (.constant 1))))
      (.constant (.ofRat (1 / 4)))
    ∃ p, a.reduce = .ok p ∧ b.reduce = .ok p ∧
      (∃ P, (∀ Q, a.Denotes Q ↔ Q = P) ∧ p.IsNormalFormOf P) ∧ ∃ P, a.Denotes P ∧ b.Denotes P := by
  intro x a b
  let p : Schoolbook.Polynomial :=
    ⟨[⟨1, .ofList [("x", 2)]⟩, ⟨1, .var "x"⟩, ⟨.ofRat (1 / 4), .one⟩]⟩
  have left : a.reduce = .ok p := by decide +kernel
  have right : b.reduce = .ok p := by decide +kernel
  have ha : AllExact a.reductionSums := by
    unfold AllExact
    decide +kernel
  have hb : AllExact b.reductionSums := by
    unfold AllExact
    decide +kernel
  exact ⟨p, left, right, reduce_computes_normal_form.1 a p left ha,
    (reduce_computes_normal_form.2 a b p p left right ha hb).mp rfl⟩

end Expr
end Schoolbook
