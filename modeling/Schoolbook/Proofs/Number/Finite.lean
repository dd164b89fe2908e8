import Mathlib
import Schoolbook.Proofs.Number.Wide

/-! Finite numbers and their opposites. -/
namespace Schoolbook.Number
variable {x : Number}

instance : (x : Number) → Decidable x.IsFinite
  | .double _ => decidable_of_iff _ isFinite_double.symm
  | .integer _ | .fraction _ => isTrue nofun

theorem zero_add_double (y : Float) : 0 + double y = double (if y == 0 then 0 else y) := by
  rw [add_double, ← Double.zero_add_eq]
  rfl

theorem zero_add_of_nonzero (nonzero : x.isZero = false) : 0 + x = x := by
  cases x with
  | integer n => exact IsExact.zero_add_eq (x := integer n) rfl
  | fraction f => exact IsExact.zero_add_eq (x := fraction f) rfl
  | double y =>
    have other : (y == 0) = false := nonzero
    rw [zero_add_double, other]
    rfl

theorem isFinite_zero_add (finite : x.IsFinite) : (0 + x).IsFinite := by
  cases x with
  | integer n => rwa [IsExact.zero_add_eq (x := integer n) rfl]
  | fraction f => rwa [IsExact.zero_add_eq (x := fraction f) rfl]
  | double y =>
    rw [zero_add_double]
    split_ifs
    · exact isFinite_double.mpr rfl
    · exact finite

/-- The opposite of an exact number is exact or, for the lowest numerator, a double that is far from
the end of the range. -/
theorem isFinite_neg (finite : x.IsFinite) : (-x).IsFinite := by
  cases stored : x.toRat? with
  | none =>
    cases x with
    | integer n => cases stored
    | fraction f => cases stored
    | double y => exact isFinite_double.mpr ((Double.isFinite_neg y).trans (isFinite_double.mp finite))
  | some q =>
    have narrow := narrow_of_toRat? stored
    rw [neg_eq stored]
    by_cases lowest : q.num = -2 ^ 63
    · have wide : ¬Narrow (-q) := fun fits => narrow.neg_iff.mp fits lowest
      have den := narrow.den_le
      have top := (Double.isNearest_ofNat (n := 2 ^ 63) (by norm_num) (by norm_num)).isNormal
      have bottom := (Double.isNearest_ofNat q.den_nz (by omega)).isNormal
      have quotient : (Float.ofNat (2 ^ 63) / Float.ofNat q.den).isFinite = true :=
        (top.div bottom (by norm_num) (by norm_num)).isFinite
      rw [ofRat_of_not_narrow wide, roundedRatio, Rat.num_neg_eq_neg_num, lowest, Rat.den_neg_eq_den]
      exact isFinite_double.mpr quotient
    · exact (isExact_ofRat_iff.mpr (narrow.neg_iff.mpr lowest)).isFinite

/-- A number and its opposite add up to zero exactly if the number is finite. -/
theorem isZero_add_neg_iff : (x + -x).isZero = true ↔ x.IsFinite := by
  cases stored : x.toRat? with
  | none =>
    cases x with
    | integer n => cases stored
    | fraction f => cases stored
    | double y =>
      have sum : double y + -double y = double (y + -y) := add_double _ _
      rw [sum, isFinite_double, ← Double.add_neg_beq_zero]
      rfl
  | some q =>
    have narrow := narrow_of_toRat? stored
    refine iff_of_true ?_ (isExact_of_toRat? stored).isFinite
    rw [neg_eq stored]
    by_cases lowest : q.num = -2 ^ 63
    · rw [ofRat_of_not_narrow fun fits => narrow.neg_iff.mp fits lowest, add_double]
      exact toFloat_add_neg stored lowest
    · rw [add_eq stored (toRat?_ofRat_of_narrow (narrow.neg_iff.mpr lowest)), add_neg_cancel]
      rfl

end Schoolbook.Number
