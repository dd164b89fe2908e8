import Mathlib
import Schoolbook.Proofs.Number.Wide

/-! The results of the operations on exact numbers: the true rational is computed without leaving
the wide word, and only then brought into the form that it is stored in. -/
namespace Schoolbook.Number

/-- The form of a rational number. Where both parts fit a word it is a whole number or a fraction in
lowest terms, and where one of them does not, the quotient of the two rounded parts. -/
inductive Form (q : ℚ) : Number → Prop where
  | integer {n : Int64} : q.den = 1 → q.num = n.toInt → Form q (.integer n)
  | fraction {f : Fraction} : 1 < q.den → q.num = f.value.num → q.den = f.value.den →
      Form q (.fraction f)
  | double : ¬(FitsWord 64 q.num ∧ FitsWord 64 q.den) →
      Form q (.double (Float.ofInt q.num / Float.ofNat q.den))

variable {q : ℚ} {x y : Number}

theorem form_ofRat (q : ℚ) : Form q (ofRat q) := by
  unfold ofRat
  split_ifs with fits whole
  · refine .integer whole ?_
    have stored := toRat?_ofRat_of_fits fits.1 fits.2
    rw [ofRat, dif_pos fits, dif_pos whole] at stored
    have value := congrArg Rat.num (Option.some.inj stored)
    rwa [Rat.num_intCast, eq_comm] at value
  · have := q.den_pos
    exact .fraction (by omega) rfl rfl
  · exact .double fits

/-- A number has one form. -/
theorem form_iff : Form q x ↔ x = ofRat q := by
  constructor
  · intro form
    cases form with
    | integer whole value =>
      refine (ofRat_toRat? ?_).symm
      rw [toRat?, ← value, Rat.coe_int_num_of_den_eq_one whole]
    | @fraction f _ num den =>
      have stored : (Number.fraction f).toRat? = some q :=
        congrArg some (Rat.ext num.symm den.symm)
      exact (ofRat_toRat? stored).symm
    | double wide => exact (ofRat_of_not_narrow fun narrow => wide ⟨narrow.num, narrow.den⟩).symm
  · rintro rfl
    exact form_ofRat q

/-- A computation on wide ratios that succeeds with a rational, and a result in the form of it. -/
structure Narrows (wide : Option ℚ) (q : ℚ) (result : Except ArithmeticFault Number) : Prop where
  computed : wide = some q
  stored : ∃ x, result = .ok x ∧ Form q x

theorem narrows_iff {wide : Option ℚ} {result : Except ArithmeticFault Number} :
    Narrows wide q result ↔ wide = some q ∧ result = .ok (ofRat q) := by
  constructor
  · rintro ⟨computed, x, rfl, form⟩
    exact ⟨computed, congrArg _ (form_iff.mp form)⟩
  · rintro ⟨computed, rfl⟩
    exact ⟨computed, _, rfl, form_ofRat q⟩

theorem ofRatio_eq {n d : Int} (nonzero : d ≠ 0) : ofRatio n d = .ok (ofRat (n / d)) := by
  rw [ofRatio, if_neg nonzero, Rat.divInt_eq_div]

/-- The operations on exact numbers never leave the wide word, and what they give is the true result
in the form of a rational number. -/
theorem operations_narrow_true_results {a b : ℚ} (hx : x.toRat? = some a) (hy : y.toRat? = some b) :
    Narrows (WideRatio.add? a b) (a + b) (.ok (x + y)) ∧
    Narrows (WideRatio.sub? a b) (a - b) (.ok (x - y)) ∧
    Narrows (WideRatio.mul? a b) (a * b) (.ok (x * y)) ∧
    Narrows (WideRatio.sub? 0 a) (-a) (.ok (-x)) ∧
    (b ≠ 0 → Narrows (WideRatio.div? a b) (a / b) (x.div y)) ∧
    (b ≠ 0 → Narrows (WideRatio.div? 1 b) (1 / b) y.reciprocal) ∧
    ∀ n d : Int64, d ≠ 0 → ∃ z, ofRatio n.toInt d.toInt = .ok z ∧ Form (n.toInt / d.toInt) z := by
  have ha := narrow_of_toRat? hx
  have hb := narrow_of_toRat? hy
  have zero := narrow_of_toRat? toRat?_zero
  have one := narrow_of_toRat? toRat?_one
  refine ⟨?_, ?_, ?_, ?_, fun nonzero => ?_, fun nonzero => ?_, fun n d nonzero => ?_⟩
  · exact narrows_iff.mpr ⟨WideRatio.add?_eq ha hb, congrArg _ (add_eq hx hy)⟩
  · exact narrows_iff.mpr ⟨WideRatio.sub?_eq ha hb, congrArg _ (sub_eq hx hy)⟩
  · exact narrows_iff.mpr ⟨WideRatio.mul?_eq ha hb, congrArg _ (mul_eq hx hy)⟩
  · refine narrows_iff.mpr ⟨?_, congrArg _ (neg_eq hx)⟩
    rw [WideRatio.sub?_eq zero ha, zero_sub]
  · exact narrows_iff.mpr ⟨WideRatio.div?_eq ha hb nonzero, div_eq hx hy nonzero⟩
  · exact narrows_iff.mpr ⟨WideRatio.div?_eq one hb nonzero, div_eq toRat?_one hy nonzero⟩
  · refine ⟨_, ofRatio_eq ?_, form_ofRat _⟩
    exact fun zero => nonzero (Int64.toInt_inj.mp zero)

/-- The lowest whole number is divided by a third of itself, and added to it. -/
theorem operations_narrow_true_results_lowest :
    let x : Number := .integer Int64.minValue
    let y : Number := ofRat (-9223372036854775808 / 3)
    x.toRat? = some (-9223372036854775808) ∧ y.toRat? = some (-9223372036854775808 / 3) ∧
      x.div y = .ok (.integer 3) ∧
      Narrows (WideRatio.add? (-9223372036854775808) (-9223372036854775808 / 3))
        (-36893488147419103232 / 3) (.ok (x + y)) := by
  intro x y
  have hx : x.toRat? = some (-9223372036854775808) := by decide +kernel
  have hy : y.toRat? = some (-9223372036854775808 / 3) := by decide +kernel
  obtain ⟨sum, -, -, -, quotient, -, -⟩ := operations_narrow_true_results hx hy
  refine ⟨hx, hy, ?_, ?_⟩
  · rw [(narrows_iff.mp (quotient (by norm_num))).2]
    decide +kernel
  · convert sum using 1
    norm_num

end Schoolbook.Number
