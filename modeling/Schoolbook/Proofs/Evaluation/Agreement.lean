import Mathlib
import Schoolbook.Proofs.Blame
import Schoolbook.Proofs.Evaluation.Exactness
import Schoolbook.Proofs.Polynomial.Constants

/-! Evaluation and reduction of expressions that are made of numbers. An exact value is also what the
expression is reduced to, unless the number with the lowest numerator is subtracted somewhere. -/
namespace Schoolbook.Expr

/-- Whether a node subtracts the lowest whole number, or a fraction with this numerator, from
another number. -/
def SubtractsLowest (n : Expr) : Prop :=
  ∃ flag lhs rhs x y q, n = .binary ⟨.sub, flag⟩ lhs rhs ∧ lhs.evaluate = .ok x ∧
    rhs.evaluate = .ok y ∧ y.toRat? = some q ∧ q.num = -2 ^ 63 ∧ x ≠ y

/-- Operators on constant polynomials do what they do on numbers. -/
theorem combine_constant {kind : BinaryKind} {x y v : Number} {r : Polynomial}
    (applied : kind.apply x y = .ok v) (exact : v.IsExact)
    (apart : kind = .sub → ∀ q, y.toRat? = some q → q.num = -2 ^ 63 → x = y)
    (hx : x.IsExact) (hy : y.IsExact)
    (combined : expand.combine kind (.constant x) (.constant y) = .ok r) : r = .constant v := by
  cases kind with
  | add =>
    cases applied
    cases combined
    exact Polynomial.constant_add hx hy exact
  | sub =>
    cases applied
    cases combined
    obtain ⟨q, hq⟩ := hy.exists
    exact (Polynomial.constant_sub_eq_iff hx hq exact).mpr (apart rfl q hq)
  | mul =>
    cases applied
    rw [expand.combine, Polynomial.constant_mul? hx hy] at combined
    cases combined
    rfl
  | div => cases combined
  | unknown => cases combined
  | pow =>
    obtain ⟨n, whole, raised⟩ := combine_pow_eq_ok_iff.mp combined
    obtain ⟨q, stored⟩ := exact.exists
    obtain ⟨a, ha⟩ := hx.exists
    obtain ⟨b, hb⟩ := hy.exists
    have exponent := Polynomial.eq_of_wholeExponent?_constant hb whole
    have value : q = a ^ n := by
      rcases BinaryKind.yields_of_apply applied stored with ⟨-, rfl, rfl⟩ | ⟨a', b', ha', hb', power⟩
      · rw [Option.some.inj (stored.symm.trans Number.toRat?_one),
          Option.some.inj (ha.symm.trans Number.toRat?_one), one_pow]
      · cases ha.symm.trans ha'
        cases hb.symm.trans hb'
        exact (exponent ▸ power).eq_pow
    rw [value] at stored
    exact Option.some.inj (raised.symm.trans (Polynomial.constant_pow? ha stored))

theorem expand_eq_constant {e : Expr} {v : Number} {p : Polynomial} (evaluated : e.value = .ok v)
    (exact : v.IsExact) (expanded : e.expand = .ok p)
    (apart : e.Everywhere fun n => ¬n.SubtractsLowest) : p = .constant v := by
  induction e generalizing v p with
  | constant x =>
    obtain ⟨rfl, -⟩ := Number.finite_eq_ok_iff.mp evaluated
    cases expanded
    rfl
  | var name => cases evaluated
  | unset => cases evaluated
  | group inner ih =>
    exact ih (Blame.within_eq_ok_iff.mp evaluated) exact (Blame.within_eq_ok_iff.mp expanded)
      (everywhere_group.mp apart).2
  | call func arg _ => cases func <;> cases expanded
  | unary op operand ih =>
    have below_apart := (everywhere_unary.mp apart).2
    cases op with
    | unknown => cases evaluated
    | pos =>
      exact ih (Blame.within_eq_ok_iff.mp evaluated) exact (Blame.within_eq_ok_iff.mp expanded)
        below_apart
    | neg =>
      obtain ⟨x, below, rfl, -⟩ := value_neg_eq_ok_iff.mp evaluated
      obtain ⟨q, inner, rfl⟩ := expand_neg_eq_ok_iff.mp expanded
      obtain ⟨r, stored⟩ := exact.exists
      obtain ⟨s, hs, -⟩ := Number.toRat?_neg stored
      have hx := Number.isExact_of_toRat? hs
      rw [ih below hx inner below_apart]
      exact Polynomial.constant_neg hx
  | binary op lhs rhs ihl ihr =>
    obtain ⟨here, left, right⟩ := everywhere_binary.mp apart
    obtain ⟨-, x, y, hx, hy, applied, -⟩ := value_binary_eq_ok_iff.mp evaluated
    obtain ⟨-, -, p₁, p₂, hp₁, hp₂, combined⟩ := expand_binary_eq_ok_iff.mp expanded
    rcases exact_operands applied exact with ⟨ex, ey⟩ | ⟨power, rfl, rfl⟩
    · rw [ihl hx ex hp₁ left, ihr hy ey hp₂ right] at combined
      refine combine_constant applied exact ?_ ex ey combined
      intro sub q stored lowest
      by_contra other
      obtain ⟨kind, flag⟩ := op
      cases sub
      exact here ⟨flag, lhs, rhs, x, y, q, rfl, evaluate_eq_ok hx, evaluate_eq_ok hy, stored, lowest,
        other⟩
    · -- One is the base here, so the exponent may be anything that can be reduced.
      obtain ⟨kind, flag⟩ := op
      cases power
      rw [ihl hx exact hp₁ left] at combined
      obtain ⟨n, -, raised⟩ := combine_pow_eq_ok_iff.mp combined
      have one : (1 : Number).toRat? = some (1 ^ n) := by rw [one_pow, Number.toRat?_one]
      exact Option.some.inj (raised.symm.trans (Polynomial.constant_pow? Number.toRat?_one one))

theorem expand_ne_constant {e : Expr} {v : Number} {p : Polynomial} (evaluated : e.value = .ok v)
    (exact : v.IsExact) (expanded : e.expand = .ok p) (lowest : e.SubtractsLowest)
    (apart : ∀ c ∈ e.children, c.Everywhere fun n => ¬n.SubtractsLowest) : p ≠ .constant v := by
  obtain ⟨flag, lhs, rhs, x, y, q, rfl, hx, hy, stored, lowest, other⟩ := lowest
  obtain ⟨left, apart⟩ := List.forall_mem_cons.mp apart
  have right := List.forall_mem_singleton.mp apart
  obtain ⟨-, x', y', hx', hy', applied, -⟩ := value_binary_eq_ok_iff.mp evaluated
  cases (mapError_eq_ok_iff.mp hx).symm.trans hx'
  cases (mapError_eq_ok_iff.mp hy).symm.trans hy'
  obtain ⟨-, -, p₁, p₂, hp₁, hp₂, combined⟩ := expand_binary_eq_ok_iff.mp expanded
  rcases exact_operands applied exact with ⟨ex, ey⟩ | ⟨power, -⟩
  · rw [expand_eq_constant hx' ex hp₁ left, expand_eq_constant hy' ey hp₂ right] at combined
    cases applied
    cases combined
    intro kept
    exact other ((Polynomial.constant_sub_eq_iff ex stored exact).mp kept lowest)
  · cases power

/-- An exact value is the constant that the expression is reduced to, if nowhere the number with the
lowest numerator is subtracted from another one. The innermost such differences are not reduced to
their values. -/
theorem reduce_agrees_with_evaluate {e : Expr} {v : Number} {p : Polynomial}
    (evaluated : e.evaluate = .ok v) (exact : v.IsExact) (reduced : e.reduce = .ok p) :
    ((e.Everywhere fun n => ¬n.SubtractsLowest) → p = .constant v) ∧
      (e.SubtractsLowest → (∀ c ∈ e.children, c.Everywhere fun n => ¬n.SubtractsLowest) →
        p ≠ .constant v) := by
  have evaluated := mapError_eq_ok_iff.mp evaluated
  have reduced := mapError_eq_ok_iff.mp reduced
  constructor
  · intro apart
    exact expand_eq_constant evaluated exact reduced apart
  · intro lowest apart
    exact expand_ne_constant evaluated exact reduced lowest apart

theorem not_subtractsLowest_sub {flag : Bool} {lhs rhs : Expr} {y : Number} {q : ℚ}
    (evaluated : rhs.evaluate = .ok y) (stored : y.toRat? = some q) (higher : q.num ≠ -2 ^ 63) :
    ¬(binary ⟨.sub, flag⟩ lhs rhs).SubtractsLowest := by
  rintro ⟨_, _, _, _, y', q', same, -, evaluated', stored', lowest, -⟩
  cases same
  cases evaluated.symm.trans evaluated'
  cases stored.symm.trans stored'
  exact higher lowest

/-- The expressions are `(1-3)^63-(-7)`, where the power is the lowest whole number, and a
difference with this number. -/
theorem reduce_agrees_with_evaluate_lowest :
    let number (n : Int) : Expr := .constant (.integer (.ofInt n))
    let power : Expr :=
      .binary ⟨.pow, false⟩ (.binary ⟨.sub, false⟩ (number 1) (number 3)) (number 63)
    let e : Expr := .binary ⟨.sub, false⟩ power (number (-7))
    let p : Polynomial := ⟨[⟨.integer (-9223372036854775801), .one⟩]⟩
    let f : Expr := .binary ⟨.sub, false⟩ (number (-9223372036854775807)) power
    e.evaluate = .ok (.integer (-9223372036854775801)) ∧ e.reduce = .ok p ∧
      p = .constant (.integer (-9223372036854775801)) ∧
      f.evaluate = .ok 1 ∧ f.reduce = .ok .zero ∧ Polynomial.zero ≠ .constant 1 := by
  intro number power e p f
  have value : e.evaluate = .ok (.integer (-9223372036854775801)) := by decide +kernel
  have reduced : e.reduce = .ok p := by decide +kernel
  have value' : f.evaluate = .ok 1 := by decide +kernel
  have reduced' : f.reduce = .ok .zero := by decide +kernel
  have lowest : power.evaluate = .ok (.integer (-9223372036854775808)) := by decide +kernel
  have leaf (n : Int) : (number n).Everywhere fun n => ¬n.SubtractsLowest :=
    everywhere_constant.mpr (by rintro ⟨_, _, _, _, _, _, same, -⟩; cases same)
  have below : power.Everywhere fun n => ¬n.SubtractsLowest := by
    refine everywhere_binary.mpr ⟨?_, everywhere_binary.mpr ⟨?_, leaf 1, leaf 3⟩, leaf 63⟩
    · rintro ⟨_, _, _, _, _, _, same, -⟩
      cases same
    · exact not_subtractsLowest_sub (y := .integer 3) (q := 3) rfl (by decide +kernel) (by decide)
  have apart : e.Everywhere fun n => ¬n.SubtractsLowest := by
    refine everywhere_binary.mpr ⟨?_, below, leaf (-7)⟩
    exact not_subtractsLowest_sub (y := .integer (-7)) (q := -7) rfl (by decide +kernel) (by decide)
  have subtracts : f.SubtractsLowest :=
    ⟨false, _, power, _, _, -9223372036854775808, rfl, rfl, lowest, by decide +kernel,
      by decide +kernel, by decide +kernel⟩
  refine ⟨value, reduced, (reduce_agrees_with_evaluate value rfl reduced).1 apart, value', reduced',
    (reduce_agrees_with_evaluate value' rfl reduced').2 subtracts ?_⟩
  exact List.forall_mem_cons.mpr ⟨leaf _, List.forall_mem_singleton.mpr below⟩

/-- All parts are whole numbers, the difference of the two lowest ones is one, and the polynomial is
zero. -/
theorem reduce_disagrees_with_evaluate :
    ∃ (e : Expr) (v : Number) (p : Polynomial), (e.Everywhere fun n => ∀ name, n ≠ .var name) ∧
      e.ExactConstants ∧ e.evaluate = .ok v ∧ v.IsExact ∧ e.reduce = .ok p ∧ p ≠ .constant v := by
  let a : Expr := .constant (.integer (-9223372036854775807))
  let b : Expr := .constant (.integer (-9223372036854775808))
  have exact (n : Int64) : (constant (.integer n)).ExactConstants := by
    refine everywhere_constant.mpr ?_
    intro x same
    cases same
    rfl
  have node (lhs rhs : Expr) (x : Number) :
      binary ⟨.sub, false⟩ lhs rhs = constant x → x.IsExact := nofun
  refine ⟨.binary ⟨.sub, false⟩ a b, 1, .zero, ?_, ?_, ?_, rfl, ?_, ?_⟩
  · simp [a, b]
  · exact everywhere_binary.mpr ⟨node a b, exact _, exact _⟩
  · decide +kernel
  · decide +kernel
  · decide +kernel

end Schoolbook.Expr
