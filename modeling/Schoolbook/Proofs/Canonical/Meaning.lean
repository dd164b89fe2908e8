import Mathlib
import Schoolbook.Proofs.Canonical.Rearrangement
import Schoolbook.Proofs.Evaluation.Exactness
import Schoolbook.Proofs.Malformed
import Schoolbook.Proofs.Polynomial.Reduction

/-! What expressions mean is not changed by rearranging them. So expressions whose canonical trees
agree have one value and denote one polynomial, however they are evaluated and reduced. -/
namespace Schoolbook

/-- A meaning of expressions that is put together from the meanings of their parts and in which sums
and products are those of a ring. -/
structure Compositional {α : Type} [CommSemiring α] (Means : Expr → α → Prop) : Prop where
  add {flag : Bool} {a b : Expr} {x : α} :
    Means (.binary ⟨.add, flag⟩ a b) x ↔ ∃ y z, Means a y ∧ Means b z ∧ y + z = x
  mul {flag : Bool} {a b : Expr} {x : α} :
    Means (.binary ⟨.mul, flag⟩ a b) x ↔ ∃ y z, Means a y ∧ Means b z ∧ y * z = x
  group {e : Expr} {x : α} : Means (.group e) x ↔ Means e x
  binary {a b c d : Expr} {x : α} (kind : BinaryKind) (i j : Bool) : (∀ y, Means a y → Means b y) →
    (∀ y, Means c y → Means d y) → Means (.binary ⟨kind, i⟩ a c) x → Means (.binary ⟨kind, j⟩ b d) x
  unary {a b : Expr} {x : α} (op : UnaryKind) : (∀ y, Means a y → Means b y) →
    Means (.unary op a) x → Means (.unary op b) x
  call {a b : Expr} {x : α} (func : FunctionKind) : (∀ y, Means a y → Means b y) →
    Means (.call func a) x → Means (.call func b) x

namespace Compositional
variable {α : Type} [CommSemiring α] {Means : Expr → α → Prop} {op : BinaryOp} {a b c : Expr}

theorem commute (compositional : Compositional Means) (commutes : op.kind.isCommutative = true)
    {x : α} (meant : Means (.binary op a b) x) : Means (.binary op b a) x := by
  obtain ⟨kind, flag⟩ := op
  cases kind with
  | add =>
    obtain ⟨y, z, left, right, rfl⟩ := compositional.add.mp meant
    exact compositional.add.mpr ⟨z, y, right, left, add_comm z y⟩
  | mul =>
    obtain ⟨y, z, left, right, rfl⟩ := compositional.mul.mp meant
    exact compositional.mul.mpr ⟨z, y, right, left, mul_comm z y⟩
  | sub | div | pow | unknown => cases commutes

theorem associate (compositional : Compositional Means) (commutes : op.kind.isCommutative = true)
    (x : α) : Means (.binary op (.binary op a b) c) x ↔ Means (.binary op a (.binary op b c)) x := by
  obtain ⟨kind, flag⟩ := op
  cases kind with
  | add =>
    simp only [compositional.add]
    constructor
    · rintro ⟨_, z, ⟨u, v, first, second, rfl⟩, third, rfl⟩
      exact ⟨u, v + z, first, ⟨v, z, second, third, rfl⟩, (add_assoc u v z).symm⟩
    · rintro ⟨u, _, first, ⟨v, z, second, third, rfl⟩, rfl⟩
      exact ⟨u + v, z, ⟨u, v, first, second, rfl⟩, third, add_assoc u v z⟩
  | mul =>
    simp only [compositional.mul]
    constructor
    · rintro ⟨_, z, ⟨u, v, first, second, rfl⟩, third, rfl⟩
      exact ⟨u, v * z, first, ⟨v, z, second, third, rfl⟩, (mul_assoc u v z).symm⟩
    · rintro ⟨u, _, first, ⟨v, z, second, third, rfl⟩, rfl⟩
      exact ⟨u * v, z, ⟨u, v, first, second, rfl⟩, third, mul_assoc u v z⟩
  | sub | div | pow | unknown => cases commutes

theorem iff_of_rearrangement (compositional : Compositional Means) (related : Rearrangement a b)
    (x : α) : Means a x ↔ Means b x := by
  induction related generalizing x with
  | refl => rfl
  | symm _ ih => exact (ih x).symm
  | trans _ _ ih₁ ih₂ => exact (ih₁ x).trans (ih₂ x)
  | commute a b commutes => exact ⟨compositional.commute commutes, compositional.commute commutes⟩
  | associate a b c commutes => exact compositional.associate commutes x
  | ungroup => exact compositional.group
  | flag kind i j a b =>
    constructor
    · apply compositional.binary kind i j <;> simp
    · apply compositional.binary kind j i <;> simp
  | binary op _ _ ih₁ ih₂ =>
    constructor
    · apply compositional.binary op.kind <;> simp [ih₁, ih₂]
    · apply compositional.binary op.kind <;> simp [ih₁, ih₂]
  | unary op _ ih =>
    constructor
    · apply compositional.unary op
      simp [ih]
    · apply compositional.unary op
      simp [ih]
  | call func _ ih =>
    constructor
    · apply compositional.call func
      simp [ih]
    · apply compositional.call func
      simp [ih]
  | group _ ih => rw [compositional.group, compositional.group, ih]

end Compositional

namespace Expr

theorem compositional_hasValue : Compositional HasValue where
  add {flag a b x} := by
    constructor
    · intro value
      cases value with
      | add _ left right => exact ⟨_, _, left, right, rfl⟩
    · rintro ⟨y, z, left, right, rfl⟩
      exact .add flag left right
  mul {flag a b x} := by
    constructor
    · intro value
      cases value with
      | mul _ left right => exact ⟨_, _, left, right, rfl⟩
    · rintro ⟨y, z, left, right, rfl⟩
      exact .mul flag left right
  group {e x} := by
    constructor
    · intro value
      cases value with
      | group inner => exact inner
    · exact .group
  binary {a b c d x} kind i j left right value := by
    cases value with
    | add _ ha hc => exact .add j (left _ ha) (right _ hc)
    | sub _ ha hc => exact .sub j (left _ ha) (right _ hc)
    | mul _ ha hc => exact .mul j (left _ ha) (right _ hc)
    | div _ ha hc nonzero => exact .div j (left _ ha) (right _ hc) nonzero
    | pow _ ha hc power => exact .pow j (left _ ha) (right _ hc) power
    | powOne _ _ ha => exact .powOne d j (left _ ha)
  unary {a b x} op below value := by
    cases value with
    | pos inner => exact .pos (below _ inner)
    | neg inner => exact .neg (below _ inner)
  call {a b x} func below value := by
    cases value with
    | sqrt inner positive square => exact .sqrt (below _ inner) positive square

theorem compositional_denotes : Compositional Denotes where
  add {flag a b P} := by
    constructor
    · intro denoted
      cases denoted with
      | add _ left right => exact ⟨_, _, left, right, rfl⟩
    · rintro ⟨Q, R, left, right, rfl⟩
      exact .add flag left right
  mul {flag a b P} := by
    constructor
    · intro denoted
      cases denoted with
      | mul _ left right => exact ⟨_, _, left, right, rfl⟩
    · rintro ⟨Q, R, left, right, rfl⟩
      exact .mul flag left right
  group {e P} := by
    constructor
    · intro denoted
      cases denoted with
      | group inner => exact inner
    · exact .group
  binary {a b c d P} kind i j left right denoted := by
    cases denoted with
    | add _ ha hc => exact .add j (left _ ha) (right _ hc)
    | sub _ ha hc => exact .sub j (left _ ha) (right _ hc)
    | mul _ ha hc => exact .mul j (left _ ha) (right _ hc)
    | pow _ ha hc => exact .pow j (left _ ha) (right _ hc)
  unary {a b P} op below denoted := by
    cases denoted with
    | pos inner => exact .pos (below _ inner)
    | neg inner => exact .neg (below _ inner)
  call {a b P} func below denoted := by cases denoted

open Canonical

/-- Trees with a malformed node agree with nothing, so both expressions are well-formed. -/
theorem rearrangement_of_agrees {a b : Expr} (agree : a.canonicalize.agrees b.canonicalize = true) :
    Rearrangement a b := by
  obtain ⟨same, valid⟩ := (agrees_iff _ _).mp agree
  have formed {e : Expr} (valid : e.canonicalize.isInvalid = false) : e.WellFormed := by
    by_contra malformed
    rw [isInvalid_canonicalize_iff.mpr malformed] at valid
    cases valid
  have left : Rearrangement a a.canonicalize.toExpr := (describes_canonicalParts (formed valid)).tree
  have right : Rearrangement b b.canonicalize.toExpr :=
    (describes_canonicalParts (formed (same ▸ valid))).tree
  rw [same] at left
  exact left.trans right.symm

theorem eq_of_rearrangement {a b : Expr} {u v : Number} (related : Rearrangement a b)
    (left : a.evaluate = .ok u) (right : b.evaluate = .ok v) (hu : u.IsExact) (hv : v.IsExact) :
    u = v := by
  obtain ⟨p, stored⟩ := hu.exists
  obtain ⟨q, stored'⟩ := hv.exists
  have value : a.HasValue p := hasValue_value (mapError_eq_ok_iff.mp left) stored
  have value' : b.HasValue q := hasValue_value (mapError_eq_ok_iff.mp right) stored'
  rw [compositional_hasValue.iff_of_rearrangement related] at value
  have same : p = q := Rat.cast_injective (value.unique value')
  rw [same] at stored
  exact Number.toRat?_inj stored stored'

theorem reduce_eq_of_rearrangement {a b : Expr} {p q : Polynomial} (related : Rearrangement a b)
    (left : a.reduce = .ok p) (right : b.reduce = .ok q)
    (ha : Polynomial.AllExact a.reductionSums) (hb : Polynomial.AllExact b.reductionSums) :
    p = q := by
  obtain ⟨P, denoted, normal⟩ := denotes_expand (mapError_eq_ok_iff.mp left) ha
  obtain ⟨Q, denoted', normal'⟩ := denotes_expand (mapError_eq_ok_iff.mp right) hb
  rw [compositional_denotes.iff_of_rearrangement related] at denoted
  exact (normal.eq_iff normal').mpr (denoted.unique denoted')

/-- Expressions that agree for grading have the same exact value and the same expansion, however
their operands are ordered, nested and grouped. -/
theorem agreeing_expressions_mean_the_same {a b : Expr}
    (agree : a.canonicalize.agrees b.canonicalize = true) :
    (∀ u v, a.evaluate = .ok u → b.evaluate = .ok v → u.IsExact → v.IsExact → u = v) ∧
      ∀ p q, a.reduce = .ok p → b.reduce = .ok q → Polynomial.AllExact a.reductionSums →
        Polynomial.AllExact b.reductionSums → p = q := by
  have related := rearrangement_of_agrees agree
  constructor
  · intro u v left right hu hv
    exact eq_of_rearrangement related left right hu hv
  · intro p q left right ha hb
    exact reduce_eq_of_rearrangement related left right ha hb

/-- The expressions are `(x+1/2)*2^3*(y+(x+1/3))` and `((1/3+x)+y)*(2^3*(1/2+x))`, and the same with
the numbers `1/4` and `-5` for `x` and `y`. -/
theorem agreeing_expressions_mean_the_same_product :
    let a (x y : Expr) : Expr := .binary ⟨.mul, false⟩
      (.binary ⟨.mul, false⟩ (.group (.binary ⟨.add, false⟩ x (.constant (.ofRat (1 / 2)))))
        (.binary ⟨.pow, false⟩ (.constant (.integer 2)) (.constant (.integer 3))))
      (.group (.binary ⟨.add, false⟩ y (.group (.binary ⟨.add, false⟩ x (.constant (.ofRat (1 / 3)))))))
    let b (x y : Expr) : Expr := .binary ⟨.mul, false⟩
      (.group (.binary ⟨.add, false⟩ (.binary ⟨.add, false⟩ (.constant (.ofRat (1 / 3))) x) y))
      (.group (.binary ⟨.mul, false⟩
        (.binary ⟨.pow, false⟩ (.constant (.integer 2)) (.constant (.integer 3)))
        (.group (.binary ⟨.add, false⟩ (.constant (.ofRat (1 / 2))) x))))
    let quarter : Expr := .constant (.ofRat (1 / 4))
    let minusFive : Expr := .constant (.integer (-5))
    (∃ u v, (a quarter minusFive).evaluate = .ok u ∧ (b quarter minusFive).evaluate = .ok v ∧
      u = v) ∧
    ∃ p q, (a (.var "x") (.var "y")).reduce = .ok p ∧ (b (.var "x") (.var "y")).reduce = .ok q ∧
      p = q := by
  intro a b quarter minusFive
  have agree : (a quarter minusFive).canonicalize.agrees (b quarter minusFive).canonicalize = true := by
    decide +kernel
  have agree' : (a (.var "x") (.var "y")).canonicalize.agrees
      (b (.var "x") (.var "y")).canonicalize = true := by
    decide +kernel
  have left : (a quarter minusFive).evaluate = .ok (.ofRat (-53 / 2)) := by decide +kernel
  have right : (b quarter minusFive).evaluate = .ok (.ofRat (-53 / 2)) := by decide +kernel
  have exact : (Number.ofRat (-53 / 2)).IsExact := by decide +kernel
  let p : Polynomial := ⟨[⟨.integer 8, .ofList [("x", 2)]⟩, ⟨.integer 8, .ofList [("x", 1), ("y", 1)]⟩,
    ⟨.ofRat (20 / 3), .var "x"⟩, ⟨.integer 4, .var "y"⟩, ⟨.ofRat (4 / 3), .one⟩]⟩
  have hp : (a (.var "x") (.var "y")).reduce = .ok p := by decide +kernel
  have hq : (b (.var "x") (.var "y")).reduce = .ok p := by decide +kernel
  have ha : Polynomial.AllExact (a (.var "x") (.var "y")).reductionSums := by
    unfold Polynomial.AllExact
    decide +kernel
  have hb : Polynomial.AllExact (b (.var "x") (.var "y")).reductionSums := by
    unfold Polynomial.AllExact
    decide +kernel
  exact ⟨⟨_, _, left, right,
    (agreeing_expressions_mean_the_same agree).1 _ _ left right exact exact⟩,
    ⟨p, p, hp, hq, (agreeing_expressions_mean_the_same agree').2 p p hp hq ha hb⟩⟩

end Expr
end Schoolbook
