import Mathlib
import Schoolbook.Proofs.Evaluation.Exactness
import Schoolbook.Proofs.Number.Root

/-! Expressions whose nodes all have rational values with parts that fit the word. They are
evaluated to these values, and nothing is rounded on the way. -/
namespace Schoolbook

namespace Number
variable {a : Number}

/-- The root of a square is exact if it is narrow. -/
theorem sqrt_eq {p z : ℚ} (stored : a.toRat? = some p) (positive : 0 ≤ z) (square : z * z = p)
    (narrow : Narrow z) : a.sqrt = .ok (ofRat z) := by
  have real : ¬a.isNegative = true := by
    rw [isNegative_iff stored, not_lt, ← square]
    exact mul_self_nonneg z
  have raised : a.sqrt = a.powFraction (mkRat 1 2) := by
    unfold sqrt
    rw [if_neg real]
    cases a with
    | integer n => rfl
    | fraction f => rfl
    | double x => cases stored
  have power : IsPower p (mkRat 1 2) z := by
    refine ⟨.inr (by decide +kernel), z, ?_, fun _ => Rat.cast_nonneg.mpr positive, ?_⟩
    · rw [half_parts.2, pow_two, ← square, Rat.cast_mul]
    · rw [half_parts.1, zpow_one]
  have searched : (mkRat 1 2).den < UInt32.size := by
    rw [half_parts.2]
    decide
  rw [raised]
  exact powFraction_eq stored power narrow searched

end Number

namespace BinaryKind

/-- The result of an operator on exact numbers is exact if it is narrow. -/
theorem apply_eq {kind : BinaryKind} {a b : Number} {x y q : ℚ} (ha : a.toRat? = some x)
    (hb : b.toRat? = some y) (yields : kind.Yields x y q) (narrow : Narrow q)
    (searched : kind = .pow → y.den < UInt32.size) : kind.apply a b = .ok (.ofRat q) := by
  cases kind with
  | add =>
    cases yields
    exact congrArg _ (Number.add_eq ha hb)
  | sub =>
    cases yields
    exact congrArg _ (Number.sub_eq ha hb)
  | mul =>
    cases yields
    exact congrArg _ (Number.mul_eq ha hb)
  | div =>
    obtain ⟨nonzero, rfl⟩ := yields
    exact mapError_eq_ok_iff.mpr (Number.div_eq ha hb nonzero)
  | pow => exact mapError_eq_ok_iff.mpr (Number.pow_eq ha hb yields narrow (.inl (searched rfl)))
  | unknown => exact yields.elim

end BinaryKind

namespace Expr

/-- Whether the value of a node is rational, with parts that fit the word. -/
def HasNarrowValue (n : Expr) : Prop := ∃ q : ℚ, n.HasValue q ∧ Narrow q

/-- Whether the exponent of a power is no root of a degree beyond the search for roots. -/
def HasSearchedRoot (n : Expr) : Prop :=
  ∀ flag lhs rhs (y : ℚ), n = .binary ⟨.pow, flag⟩ lhs rhs → rhs.HasValue y → y.den < UInt32.size

theorem yields_of_hasValue {op : BinaryOp} {lhs rhs : Expr} {x y q : ℚ} (left : lhs.HasValue x)
    (right : rhs.HasValue y) (value : (binary op lhs rhs).HasValue q) : op.kind.Yields x y q := by
  generalize result : (q : ℝ) = z at value
  cases value with
  | add _ a b =>
    rw [a.unique left, b.unique right] at result
    exact_mod_cast result
  | sub _ a b =>
    rw [a.unique left, b.unique right] at result
    exact_mod_cast result
  | mul _ a b =>
    rw [a.unique left, b.unique right] at result
    exact_mod_cast result
  | div _ a b nonzero =>
    rw [a.unique left, b.unique right] at result
    rw [b.unique right] at nonzero
    exact ⟨Rat.cast_ne_zero.mp nonzero, by exact_mod_cast result⟩
  | pow _ a b power =>
    rw [a.unique left, Rat.cast_injective (b.unique right), ← result] at power
    exact power
  | powOne _ _ a =>
    change IsPower x y q
    rw [result, ← a.unique left]
    exact .one y

theorem value_binary_eq {op : BinaryOp} {lhs rhs : Expr} {x y q : ℚ} (hx : Narrow x)
    (hy : Narrow y) (hq : Narrow q) (yields : op.kind.Yields x y q)
    (searched : op.kind = .pow → y.den < UInt32.size) (left : lhs.value = .ok (.ofRat x))
    (right : rhs.value = .ok (.ofRat y)) : (binary op lhs rhs).value = .ok (.ofRat q) := by
  have known : op.kind ≠ .unknown := by
    intro unknown
    rw [unknown] at yields
    exact yields
  have applied := BinaryKind.apply_eq (Number.toRat?_ofRat_of_narrow hx)
    (Number.toRat?_ofRat_of_narrow hy) yields hq searched
  exact value_binary_eq_ok_iff.mpr
    ⟨known, _, _, left, right, applied, Number.isFinite_ofRat hq⟩

/-- No operation on the way rounds, because its true result is narrow. -/
theorem value_eq {e : Expr} {q : ℚ} (narrow : e.Everywhere HasNarrowValue)
    (searched : e.Everywhere HasSearchedRoot) (value : e.HasValue q) (here : Narrow q) :
    e.value = .ok (.ofRat q) := by
  induction e generalizing q with
  | constant x =>
    generalize same : (q : ℝ) = z at value
    cases value with
    | constant stored =>
      cases Rat.cast_injective same
      exact Number.finite_eq_ok_iff.mpr
        ⟨(Number.ofRat_toRat? stored).symm, (Number.isExact_of_toRat? stored).isFinite⟩
  | var name => cases value
  | unset => cases value
  | group inner ih =>
    cases value with
    | group below =>
      exact Blame.within_eq_ok_iff.mpr
        (ih (everywhere_group.mp narrow).2 (everywhere_group.mp searched).2 below here)
  | unary op operand ih =>
    obtain ⟨-, narrow⟩ := everywhere_unary.mp narrow
    obtain ⟨-, searched⟩ := everywhere_unary.mp searched
    obtain ⟨x, below, hx⟩ := narrow [] operand rfl
    have inner := ih narrow searched below hx
    cases op with
    | unknown => cases value
    | pos =>
      rw [Rat.cast_injective (value.unique (.pos below))]
      exact Blame.within_eq_ok_iff.mpr inner
    | neg =>
      have opposite : q = -x := by exact_mod_cast value.unique (.neg below)
      have negated := Number.neg_eq (Number.toRat?_ofRat_of_narrow hx)
      rw [← opposite] at negated
      exact value_neg_eq_ok_iff.mpr ⟨_, inner, negated, Number.isFinite_ofRat here⟩
  | call func arg ih =>
    obtain ⟨-, narrow⟩ := everywhere_call.mp narrow
    obtain ⟨-, searched⟩ := everywhere_call.mp searched
    obtain ⟨x, below, hx⟩ := narrow [] arg rfl
    have inner := ih narrow searched below hx
    generalize same : (q : ℝ) = z at value
    cases value with
    | sqrt radicand positive square =>
      rw [← same] at positive square
      rw [radicand.unique below] at square
      refine value_sqrt_eq_ok_iff.mpr ⟨_, inner, ?_⟩
      exact Number.sqrt_eq (Number.toRat?_ofRat_of_narrow hx) (Rat.cast_nonneg.mp positive)
        (by exact_mod_cast square) here
  | binary op lhs rhs ihl ihr =>
    obtain ⟨-, narrow_left, narrow_right⟩ := everywhere_binary.mp narrow
    obtain ⟨root, searched_left, searched_right⟩ := everywhere_binary.mp searched
    obtain ⟨x, left, hx⟩ := narrow_left [] lhs rfl
    obtain ⟨y, right, hy⟩ := narrow_right [] rhs rfl
    refine value_binary_eq hx hy here (yields_of_hasValue left right value) ?_
      (ihl narrow_left searched_left left hx) (ihr narrow_right searched_right right hy)
    intro power
    obtain ⟨kind, flag⟩ := op
    cases power
    exact root flag lhs rhs y rfl right

theorem hasSearchedRoot_of_whole {n : Expr}
    (whole : ∀ flag lhs rhs, n = .binary ⟨.pow, flag⟩ lhs rhs →
      ∃ k, rhs.evaluate = .ok (.integer k)) : n.HasSearchedRoot := by
  intro flag lhs rhs y same value
  obtain ⟨k, evaluated⟩ := whole flag lhs rhs same
  have exponent : rhs.HasValue ((k.toInt : ℚ) : ℝ) :=
    hasValue_value (mapError_eq_ok_iff.mp evaluated) rfl
  rw [Rat.cast_injective (value.unique exponent), Rat.den_intCast]
  decide

/-- Where all nodes of an expression have rational values with parts that fit the word, and the
exponents in it are whole numbers, its own value is returned, in an exact form. -/
theorem evaluation_stays_exact {e : Expr} (narrow : e.Everywhere HasNarrowValue)
    (whole : e.Everywhere fun n => ∀ flag lhs rhs, n = .binary ⟨.pow, flag⟩ lhs rhs →
      ∃ k, rhs.evaluate = .ok (.integer k)) :
    ∃ (q : ℚ) (v : Number), e.HasValue q ∧ e.evaluate = .ok v ∧ v.toRat? = some q := by
  obtain ⟨q, value, here⟩ := narrow [] e rfl
  have searched : e.Everywhere HasSearchedRoot :=
    fun path n found => hasSearchedRoot_of_whole (whole path n found)
  exact ⟨q, _, value, mapError_eq_ok_iff.mpr (value_eq narrow searched value here),
    Number.toRat?_ofRat_of_narrow here⟩

/-- The expression is `(-2)^63 / 3`, where the power is the lowest whole number. -/
theorem evaluation_stays_exact_lowest :
    let lowest : Expr := .binary ⟨.pow, false⟩ (.constant (.integer (-2))) (.constant (.integer 63))
    let e : Expr := .binary ⟨.div, false⟩ lowest (.constant (.integer 3))
    ∃ v, e.evaluate = .ok v ∧ v.toRat? = some (-9223372036854775808 / 3) := by
  intro lowest e
  have two : (Number.integer (-2)).toRat? = some (-2) := by decide +kernel
  have three : (Number.integer 3).toRat? = some 3 := by decide +kernel
  have high : (Number.integer 63).toRat? = some (63 : ℤ) := by decide +kernel
  have power : lowest.HasValue ((-9223372036854775808 : ℚ) : ℝ) := by
    have raised := HasValue.pow false (.constant two) (.constant high)
      (.whole (n := 63) (.inl (by norm_num)))
    convert raised using 1
    norm_num
  have quotient : e.HasValue ((-9223372036854775808 / 3 : ℚ) : ℝ) := by
    have divided := HasValue.div false power (.constant three) (by norm_num)
    convert divided using 1
    norm_num
  have leaf {n : Int64} {q : ℚ} (stored : (Number.integer n).toRat? = some q) :
      (constant (.integer n)).Everywhere HasNarrowValue :=
    everywhere_constant.mpr ⟨q, .constant stored, Number.narrow_of_toRat? stored⟩
  have narrow : e.Everywhere HasNarrowValue := by
    have base : lowest.Everywhere HasNarrowValue := everywhere_binary.mpr
      ⟨⟨_, power, by decide +kernel, by decide +kernel⟩, leaf two, leaf high⟩
    exact everywhere_binary.mpr
      ⟨⟨_, quotient, by decide +kernel, by decide +kernel⟩, base, leaf three⟩
  have whole : e.Everywhere fun n => ∀ flag lhs rhs, n = .binary ⟨.pow, flag⟩ lhs rhs →
      ∃ k, rhs.evaluate = .ok (.integer k) := by
    have no_power {x : Number} (flag : Bool) (lhs rhs : Expr)
        (same : constant x = .binary ⟨.pow, flag⟩ lhs rhs) :
        ∃ k, rhs.evaluate = .ok (.integer k) := by
      cases same
    simp only [e, lowest, everywhere_binary, everywhere_constant]
    refine ⟨fun _ _ _ same => ?_, ⟨fun _ _ _ same => ?_, no_power, no_power⟩, no_power⟩
    · cases same
    cases same
    exact ⟨63, by decide +kernel⟩
  obtain ⟨q, v, value, evaluated, stored⟩ := evaluation_stays_exact narrow whole
  rw [Rat.cast_injective (value.unique quotient)] at stored
  exact ⟨v, evaluated, stored⟩

end Expr
end Schoolbook
