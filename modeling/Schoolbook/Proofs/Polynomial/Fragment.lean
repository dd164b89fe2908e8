import Mathlib
import Schoolbook.Proofs.Expr.Nodes
import Schoolbook.Proofs.Polynomial.Power

/-! The expressions that can be reduced. What is refused is refused because of one node, and whether a
node is refused can be seen from the polynomials that it and its operands denote. -/
namespace Schoolbook

/-- A value that is whole is stored as a whole number. -/
theorem Number.exists_integer {x : Number} {i : ℤ} (stored : x.toRat? = some (i : ℚ)) :
    ∃ n, x = .integer n ∧ n.toInt = i := by
  cases x with
  | integer n => exact ⟨n, rfl, Int.cast_injective (Option.some.inj stored)⟩
  | fraction f =>
    have value : f.value = i := Option.some.inj stored
    have split := f.one_lt_den
    rw [value, Rat.den_intCast] at split
    omega
  | double y => cases stored

namespace Polynomial
variable {p : Polynomial} {P : MvPolynomial String ℚ} {c : ℚ} {n : Nat}

theorem eq_one_of_exponents {m : Monomial} (positive : m.IsPositive) (none : m.exponents = 0) :
    m = .one :=
  Monomial.exponents_inj positive Monomial.isPositive_one none

theorem IsNormalFormOf.toRat?_constantTerm (normal : p.IsNormalFormOf P) :
    p.constantTerm.toRat? = some (P.coeff 0) := by
  by_cases absent : ∀ t ∈ p.terms, t.monomial ≠ .one
  · have zero : P.coeff 0 = 0 := by
      by_contra nonzero
      obtain ⟨t, member, none⟩ := (normal.complete 0).mp nonzero
      exact absent t member (eq_one_of_exponents (normal.positive t member) none)
    rw [IsNormalized.constantTerm_of_absent absent, zero, Number.toRat?_zero]
  · push Not at absent
    obtain ⟨t, member, one⟩ := absent
    rw [normal.isNormalized.constantTerm_of_mem member one, normal.coefficient t member, one]
    rfl

theorem IsNormalFormOf.isConstant (normal : p.IsNormalFormOf (.C c)) : p.isConstant = true := by
  refine List.all_eq_true.mpr fun t member => Monomial.isOne_iff.mpr ?_
  have nonzero := (normal.complete _).mpr ⟨t, member, rfl⟩
  rw [MvPolynomial.coeff_C] at nonzero
  have none : 0 = t.monomial.exponents := by
    by_contra other
    exact nonzero (if_neg other)
  exact eq_one_of_exponents (normal.positive t member) none.symm

theorem wholeExponent?_eq_some_iff (normal : p.IsNormalFormOf P) :
    p.wholeExponent? = some n ↔ n < UInt32.size ∧ P = .C (n : ℚ) := by
  constructor
  · intro whole
    refine ⟨?_, eq_C_of_wholeExponent? normal whole⟩
    unfold wholeExponent? at whole
    split at whole
    next =>
      split at whole
      next =>
        split at whole
        next range =>
          cases whole
          omega
        next => cases whole
      next => cases whole
    next => cases whole
  · rintro ⟨small, rfl⟩
    have stored := normal.toRat?_constantTerm
    rw [MvPolynomial.coeff_zero_C] at stored
    obtain ⟨i, term, value⟩ := Number.exists_integer (i := n) stored
    rw [wholeExponent?, if_pos normal.isConstant, term]
    dsimp only
    rw [if_pos (by omega), value, Int.toNat_natCast]

end Polynomial

namespace Expr
open Schoolbook.Polynomial

/-- The sums of like terms that are formed before the reduction of an expression ends, with a result or
at a node that is refused. -/
def formedSums : Expr → List Term
  | .constant x => sums [.constant x]
  | .var name => sums [.var name]
  | .group inner | .unary .pos inner => inner.formedSums
  | .unary .neg operand =>
    operand.formedSums ++ match operand.expand with
      | .ok p => sums (p.terms.map Term.neg)
      | .error _ => []
  | .binary op lhs rhs =>
    if op.kind = .unknown ∨ op.kind = .div then []
    else
      lhs.formedSums ++ match lhs.expand with
        | .ok p =>
          rhs.formedSums ++ match rhs.expand with
            | .ok q => reductionSums.combineSums op.kind p q
            | .error _ => []
        | .error _ => []
  | .unary .unknown _ | .call _ _ | .unset => []

/-- A reduction that succeeds forms all sums that there are. -/
theorem formedSums_eq {e : Expr} {p : Polynomial} (expanded : e.expand = .ok p) :
    e.formedSums = e.reductionSums := by
  induction e generalizing p with
  | constant x => rfl
  | var name => rfl
  | unset => rfl
  | group inner ih => exact ih (Blame.within_eq_ok_iff.mp expanded)
  | call func arg _ => rfl
  | unary op operand ih =>
    cases op with
    | unknown => rfl
    | pos => exact ih (Blame.within_eq_ok_iff.mp expanded)
    | neg =>
      obtain ⟨q, inner, -⟩ := expand_neg_eq_ok_iff.mp expanded
      rw [formedSums, reductionSums, ih inner, inner]
  | binary op lhs rhs ihl ihr =>
    obtain ⟨known, undivided, q, r, left, right, -⟩ := expand_binary_eq_ok_iff.mp expanded
    rw [formedSums, reductionSums, if_neg (not_or.mpr ⟨known, undivided⟩), left, right, ihl left,
      ihr right, List.append_assoc]

/-- What a node needs so that it is not refused, provided that its operands are not. -/
structure IsPolynomialNode (n : Expr) : Prop where
  formed : n.isMalformedNode = false
  undivided : ∀ flag a b, n ≠ binary ⟨.div, flag⟩ a b
  unrooted : ∀ a, n ≠ call .sqrt a
  exponent : ∀ flag a b, n = binary ⟨.pow, flag⟩ a b →
    ∃ k : Nat, k < UInt32.size ∧ b.Denotes (.C (k : ℚ))
  powers : ∀ kind flag a b, kind = .mul ∨ kind = .pow → n = binary ⟨kind, flag⟩ a b →
    ∃ P, n.Denotes P ∧ ∀ name, P.degreeOf name < UInt32.size

section
variable {op : BinaryOp} {a b : Expr} {p q : Polynomial} {P Q : MvPolynomial String ℚ}

namespace IsPolynomialNode

/-- Only binary nodes have requirements of their own. -/
theorem of_formed {n : Expr} (formed : n.isMalformedNode = false) (unrooted : ∀ a, n ≠ call .sqrt a)
    (other : ∀ kind flag a b, n = binary ⟨kind, flag⟩ a b → kind = .add ∨ kind = .sub) :
    n.IsPolynomialNode where
  formed := formed
  undivided flag a b same := by cases other _ _ _ _ same <;> contradiction
  unrooted := unrooted
  exponent flag a b same := by cases other _ _ _ _ same <;> contradiction
  powers kind flag a b high same := by
    rcases other _ _ _ _ same with rfl | rfl <;> simp at high

theorem mul_iff {flag : Bool} (ha : a.Denotes P) (hb : b.Denotes Q) :
    (binary ⟨.mul, flag⟩ a b).IsPolynomialNode ↔ ∀ name, (P * Q).degreeOf name < UInt32.size := by
  have denoted := Denotes.mul flag ha hb
  constructor
  · intro node
    obtain ⟨R, other, low⟩ := node.powers _ _ _ _ (.inl rfl) rfl
    rwa [denoted.unique other]
  · intro low
    refine ⟨rfl, nofun, nofun, nofun, ?_⟩
    intro kind flag' a' b' _ same
    exact ⟨P * Q, denoted, low⟩

theorem pow_iff {flag : Bool} (ha : a.Denotes P) (hb : b.Denotes Q) :
    (binary ⟨.pow, flag⟩ a b).IsPolynomialNode ↔
      ∃ k : Nat, k < UInt32.size ∧ Q = .C (k : ℚ) ∧ ∀ name, (P ^ k).degreeOf name < UInt32.size := by
  constructor
  · intro node
    obtain ⟨k, small, exponent⟩ := node.exponent _ _ _ rfl
    obtain ⟨R, other, low⟩ := node.powers _ _ _ _ (.inr rfl) rfl
    rw [other.unique (Denotes.pow flag ha exponent)] at low
    exact ⟨k, small, hb.unique exponent, low⟩
  · rintro ⟨k, small, rfl, low⟩
    refine ⟨rfl, nofun, nofun, ?_, ?_⟩
    · intro flag' a' b' same
      cases same
      exact ⟨k, small, hb⟩
    · intro kind flag' a' b' _ _
      exact ⟨P ^ k, .pow flag ha hb, low⟩

end IsPolynomialNode

theorem exists_unlessTooHigh_iff {result : Option Polynomial} :
    (∃ r, expand.unlessTooHigh result = .ok r) ↔ result.isSome = true := by
  simp only [unlessTooHigh_eq_ok_iff, Option.isSome_iff_exists]

theorem exists_combine_iff (ha : a.Denotes P) (hb : b.Denotes Q) (hp : p.IsNormalFormOf P)
    (hq : q.IsNormalFormOf Q) (exact : AllExact (reductionSums.combineSums op.kind p q)) :
    (∃ r, expand.combine op.kind p q = .ok r) ↔ (binary op a b).IsPolynomialNode := by
  obtain ⟨kind, flag⟩ := op
  cases kind with
  | add | sub =>
    refine iff_of_true ⟨_, rfl⟩ (.of_formed rfl (fun c same => ?_) fun kind flag' a' b' same => ?_)
    · cases same
    · cases same
      simp
  | mul =>
    rw [IsPolynomialNode.mul_iff ha hb, ← isSome_mul?_iff hp hq]
    exact exists_unlessTooHigh_iff
  | pow =>
    rw [IsPolynomialNode.pow_iff ha hb]
    simp only [combine_pow_eq_ok_iff]
    have checked {k : Nat} (whole : q.wholeExponent? = some k) :
        IsCheckedFormOf (p.pow? k) (P ^ k) := by
      simp only [reductionSums.combineSums, whole, Option.map_some, Option.getD_some] at exact
      exact isCheckedFormOf_pow? hp exact
    constructor
    · rintro ⟨r, k, whole, raised⟩
      obtain ⟨small, constant⟩ := (wholeExponent?_eq_some_iff hq).mp whole
      exact ⟨k, small, constant, (checked whole).isSome_iff.mp (by rw [raised]; rfl)⟩
    · rintro ⟨k, small, constant, low⟩
      have whole := (wholeExponent?_eq_some_iff hq).mpr ⟨small, constant⟩
      obtain ⟨r, raised⟩ := Option.isSome_iff_exists.mp ((checked whole).isSome_iff.mpr low)
      exact ⟨r, k, whole, raised⟩
  | div =>
    refine iff_of_false ?_ fun node => node.undivided flag a b rfl
    rintro ⟨r, combined⟩
    cases combined
  | unknown =>
    refine iff_of_false ?_ fun node => ?_
    · rintro ⟨r, combined⟩
      cases combined
    · cases node.formed

end

theorem denotes_of_formedSums {e : Expr} {p : Polynomial} (expanded : e.expand = .ok p)
    (exact : AllExact e.formedSums) : ∃ P, e.Denotes P ∧ p.IsNormalFormOf P :=
  denotes_expand expanded (formedSums_eq expanded ▸ exact)

theorem exists_expand_iff {e : Expr} (exact : AllExact e.formedSums) :
    (∃ p, e.expand = .ok p) ↔ e.Everywhere IsPolynomialNode := by
  induction e with
  | constant x => exact iff_of_true ⟨_, rfl⟩ (everywhere_constant.mpr (.of_formed rfl nofun nofun))
  | var name => exact iff_of_true ⟨_, rfl⟩ (everywhere_var.mpr (.of_formed rfl nofun nofun))
  | unset => exact iff_of_false nofun fun all => nomatch (everywhere_unset.mp all).formed
  | group inner ih =>
    have node : (group inner).IsPolynomialNode := .of_formed rfl nofun nofun
    rw [everywhere_group, and_iff_right node, ← ih exact]
    exact exists_congr fun _ => Blame.within_eq_ok_iff
  | call func arg _ =>
    cases func with
    | sqrt => exact iff_of_false nofun fun all => (everywhere_call.mp all).1.unrooted arg rfl
    | unknown => exact iff_of_false nofun fun all => nomatch (everywhere_call.mp all).1.formed
  | unary op operand ih =>
    cases op with
    | unknown => exact iff_of_false nofun fun all => nomatch (everywhere_unary.mp all).1.formed
    | pos =>
      have node : (unary .pos operand).IsPolynomialNode := .of_formed rfl nofun nofun
      rw [everywhere_unary, and_iff_right node, ← ih exact]
      exact exists_congr fun _ => Blame.within_eq_ok_iff
    | neg =>
      have node : (unary .neg operand).IsPolynomialNode := .of_formed rfl nofun nofun
      rw [everywhere_unary, and_iff_right node, ← ih (allExact_append.mp exact).1]
      simp only [expand_neg_eq_ok_iff]
      exact ⟨fun ⟨_, p, inner, _⟩ => ⟨p, inner⟩, fun ⟨p, inner⟩ => ⟨-p, p, inner, rfl⟩⟩
  | binary op lhs rhs ihl ihr =>
    simp only [expand_binary_eq_ok_iff]
    by_cases refused : op.kind = .unknown ∨ op.kind = .div
    · refine iff_of_false (fun ⟨_, known, undivided, _⟩ => ?_) fun all => ?_
      · exact refused.elim known undivided
      · obtain ⟨kind, flag⟩ := op
        have node := (everywhere_binary.mp all).1
        rcases refused with rfl | rfl
        · cases node.formed
        · exact node.undivided flag lhs rhs rfl
    rw [formedSums, if_neg refused] at exact
    obtain ⟨known, undivided⟩ := not_or.mp refused
    obtain ⟨left, exact⟩ := allExact_append.mp exact
    -- The sums of the right operand are formed only if the left one is not refused.
    have node {p q : Polynomial} (hp : lhs.expand = .ok p) (hq : rhs.expand = .ok q) :
        (∃ r, expand.combine op.kind p q = .ok r) ↔ (binary op lhs rhs).IsPolynomialNode := by
      rw [hp] at exact
      obtain ⟨right, exact⟩ := allExact_append.mp exact
      rw [hq] at exact
      obtain ⟨P, ha, first⟩ := denotes_of_formedSums hp left
      obtain ⟨Q, hb, second⟩ := denotes_of_formedSums hq right
      exact exists_combine_iff ha hb first second exact
    have right {p : Polynomial} (hp : lhs.expand = .ok p) : AllExact rhs.formedSums := by
      rw [hp] at exact
      exact (allExact_append.mp exact).1
    rw [everywhere_binary]
    constructor
    · rintro ⟨r, -, -, p, q, hp, hq, combined⟩
      exact ⟨(node hp hq).mp ⟨r, combined⟩, (ihl left).mp ⟨p, hp⟩, (ihr (right hp)).mp ⟨q, hq⟩⟩
    · rintro ⟨here, all_left, all_right⟩
      obtain ⟨p, hp⟩ := (ihl left).mpr all_left
      obtain ⟨q, hq⟩ := (ihr (right hp)).mpr all_right
      obtain ⟨r, combined⟩ := (node hp hq).mpr here
      exact ⟨r, known, undivided, p, q, hp, hq, combined⟩

/-- As long as the sums that are formed stay exact, those that constants are put into included, reduction
succeeds exactly on the expressions without malformed nodes, divisions and roots whose exponents denote
whole numbers of 32 bits, and whose products and powers denote polynomials with powers of 32 bits. -/
theorem reduce_accepts_polynomials {e : Expr} (exact : AllExact e.formedSums) :
    (∃ p, e.reduce = .ok p) ↔ e.Everywhere IsPolynomialNode := by
  rw [← exists_expand_iff exact]
  exact exists_congr fun p => mapError_eq_ok_iff

/-- The expressions are `(x+1)^(3-1)` and `x^4294967295*x`. -/
theorem reduce_accepts_polynomials_power :
    let x : Expr := .var "x"
    let number (n : Int64) : Expr := .constant (.integer n)
    let e : Expr := .binary ⟨.pow, false⟩ (.group (.binary ⟨.add, false⟩ x (number 1)))
      (.group (.binary ⟨.sub, false⟩ (number 3) (number 1)))
    let f : Expr := .binary ⟨.mul, false⟩ (.binary ⟨.pow, false⟩ x (number 4294967295)) x
    (∃ p, e.reduce = .ok p) ∧ e.Everywhere IsPolynomialNode ∧
      (∀ p, f.reduce ≠ .ok p) ∧ ¬f.Everywhere IsPolynomialNode := by
  intro x number e f
  have reduced : e.reduce =
      .ok ⟨[⟨1, .ofList [("x", 2)]⟩, ⟨.integer 2, .var "x"⟩, ⟨1, .one⟩]⟩ := by
    decide +kernel
  have refused : f.reduce = .error ⟨.degreeOverflow, [⟨0, 14⟩]⟩ := by decide +kernel
  have exact : AllExact e.formedSums := by decide +kernel
  have exact' : AllExact f.formedSums := by decide +kernel
  have fails (p : Polynomial) : f.reduce ≠ .ok p := by rw [refused]; nofun
  refine ⟨⟨_, reduced⟩, (reduce_accepts_polynomials exact).mp ⟨_, reduced⟩, fails, fun all => ?_⟩
  obtain ⟨p, accepted⟩ := (reduce_accepts_polynomials exact').mpr all
  exact fails p accepted

end Expr
end Schoolbook
