import Mathlib
import Schoolbook.Number.Text
import Schoolbook.Proofs.Double.Order
import Schoolbook.Proofs.Number.Double
import Schoolbook.Proofs.Number.Wide

/-! Signs in the written form of numbers. Only a number below zero is written with a sign in front, and
the negative zero, which is not below zero. The magnitude of a whole number is written with digits alone,
and no two of them alike. -/
namespace Schoolbook

theorem isDigit_of_mem_toDigits {c : Char} {n : Nat} (member : c ∈ Nat.toDigits 10 n) :
    c.isDigit = true :=
  Nat.isDigit_of_mem_toDigits (by decide) (by decide) member

/-- A character of a class without the signs. -/
theorem Decimal.isSign_eq_false {p : Char → Bool} (signs : p '-' = false ∧ p '+' = false) {c : Char}
    (member : p c = true) : isSign c = false := by
  rw [isSign, Bool.or_eq_false_iff, decide_eq_false_iff_not, decide_eq_false_iff_not]
  constructor
  · rintro rfl
    cases signs.1.symm.trans member
  · rintro rfl
    cases signs.2.symm.trans member

/-- No sign stands at the front of the text. -/
def Unsigned (text : String) : Prop := text.toList.head?.any Decimal.isSign = false

instance (text : String) : Decidable (Unsigned text) :=
  inferInstanceAs (Decidable (text.toList.head?.any Decimal.isSign = false))

namespace Unsigned
variable {text : String}

theorem append (unsigned : Unsigned text) (some_text : text ≠ "") (more : String) :
    Unsigned (text ++ more) := by
  obtain ⟨c, cs, split⟩ := List.exists_cons_of_ne_nil (mt String.toList_eq_nil_iff.mp some_text)
  rw [Unsigned, split] at unsigned
  rw [Unsigned, String.toList_append, split]
  exact unsigned

theorem enclosed (unsigned : Unsigned text) (some_text : text ≠ "") (more closing : String) :
    Unsigned (text ++ more ++ closing) := by
  rw [String.append_assoc]
  exact unsigned.append some_text _

theorem of_append {more : String} (unsigned : Unsigned (text ++ more)) : Unsigned text := by
  rw [Unsigned, String.toList_append] at unsigned
  rw [Unsigned]
  cases split : text.toList with
  | nil => rfl
  | cons c cs => rwa [split] at unsigned

theorem of_digits {cs : List Char} (digits : ∀ c ∈ cs, c.isDigit = true) (some_digit : cs ≠ [])
    (rest : List Char) : Unsigned (String.ofList (cs ++ rest)) := by
  obtain ⟨c, cs, rfl⟩ := List.exists_cons_of_ne_nil some_digit
  rw [Unsigned, String.toList_ofList]
  exact Decimal.isSign_eq_false ⟨rfl, rfl⟩ (digits c List.mem_cons_self)

theorem repr (n : Nat) : Unsigned n.repr := by
  rw [Nat.repr_eq_ofList_toDigits, ← List.append_nil (Nat.toDigits 10 n)]
  exact of_digits (fun _ => isDigit_of_mem_toDigits) Nat.toDigits_ne_nil []

end Unsigned

/-- There is always a digit in front of the decimal point. -/
theorem Decimal.unsigned_positional (d : Decimal) : Unsigned d.positional := by
  have digits : ∀ c ∈ Nat.toDigits 10 d.digits, c.isDigit = true := fun _ => isDigit_of_mem_toDigits
  have some_digit : Nat.toDigits 10 d.digits ≠ [] := Nat.toDigits_ne_nil
  rw [positional]
  generalize Nat.toDigits 10 d.digits = text at digits some_digit
  dsimp only
  split_ifs
  · exact .of_digits digits some_digit _
  · generalize (-d.place).toNat = places
    have padded : ∀ c ∈ List.replicate (places + 1 - text.length) '0' ++ text, c.isDigit = true := by
      intro c member
      rcases List.mem_append.mp member with zero | digit
      · rw [List.eq_of_mem_replicate zero]
        rfl
      · exact digits c digit
    refine .of_digits (fun c member => padded c (List.mem_of_mem_take member)) ?_ _
    rw [ne_eq, List.take_eq_nil_iff, List.length_append, List.length_replicate, not_or]
    exact ⟨by omega, List.append_ne_nil_of_right_ne_nil _ some_digit⟩

theorem Double.unsigned_text {x : Float} (not_negative : ¬x < 0) (other : x ≠ -0.0) :
    Unsigned (text x) := by
  by_cases nan : x.isNaN = true
  · rw [text, if_pos nan]
    decide +kernel
  have clear := signBit_eq_false (Bool.eq_false_iff.mpr nan) not_negative other
  rw [text, if_neg nan, clear]
  dsimp only
  rw [if_neg Bool.false_ne_true, String.empty_append]
  split_ifs
  · decide +kernel
  · exact (Decimal.shortest x).unsigned_positional
  · decide +kernel

namespace Number

theorem isNegative_integer {n : Int64} : (integer n).isNegative = true ↔ n.toInt < 0 := by
  rw [isNegative, decide_eq_true_iff, Int64.lt_iff_toInt_lt]
  rfl

theorem plain_integer {n : Int64} (above : 0 ≤ n.toInt) :
    (integer n).plain = n.toInt.toNat.repr := by
  change toString n.toInt = _
  rw [Int.toString_eq_repr, Int.repr_eq_if, if_pos above]

/-- A number that is not below zero has no sign, and neither has any double that stands for one. -/
theorem unsigned_plain {x : Number} (not_negative : ¬x.isNegative = true)
    (other : x ≠ .double (-0.0)) : Unsigned x.plain := by
  cases x with
  | integer n =>
    rw [isNegative_integer, not_lt] at not_negative
    rw [plain_integer not_negative]
    exact .repr _
  | fraction q =>
    refine Double.unsigned_text (toFloat_not_negative not_negative) fun zero => ?_
    have vanishes := toFloat_eq_zero (.fraction q)
    rw [zero] at vanishes
    cases vanishes
  | double y => exact Double.unsigned_text (toFloat_not_negative not_negative) (mt (congrArg _) other)

private theorem toInt_neg {n : Int64} (other : n.toInt ≠ -2 ^ 63) : (-n).toInt = -n.toInt := by
  have lower := n.le_toInt
  have upper := n.toInt_lt
  rw [Int64.toInt_neg]
  exact Int.bmod_eq_of_le (by omega) (by omega)

theorem neg_integer {n : Int64} (other : n.toInt ≠ -2 ^ 63) : -integer n = integer (-n) := by
  have stored : (integer n).toRat? = some (n.toInt : ℚ) := rfl
  have narrow : Narrow (-(n.toInt : ℚ)) := by
    rw [(narrow_of_toRat? stored).neg_iff, Rat.num_intCast]
    exact other
  refine toRat?_inj (q := -(n.toInt : ℚ)) ?_ ?_
  · rw [neg_eq stored, toRat?_ofRat_of_narrow narrow]
  · rw [← Int.cast_neg, ← toInt_neg other]
    rfl

/-- The number that is read in the magnitude of a whole number. The magnitude of the lowest is a double,
of which only the shortest digits are written. -/
def shownMagnitude (n : Int64) : Nat :=
  if n.toInt = -2 ^ 63 then 9223372036854776000 else n.toInt.natAbs

theorem plain_abs (n : Int64) : (integer n).abs.plain = (shownMagnitude n).repr := by
  rw [abs, shownMagnitude]
  split_ifs with negative lowest lowest
  · obtain rfl : n = Int64.minValue := Int64.toInt_inj.mp lowest
    decide +kernel
  · rw [isNegative_integer] at negative
    have opposite : (-n).toInt = -n.toInt := toInt_neg lowest
    rw [neg_integer lowest, plain_integer (by omega), opposite]
    congr 1
    omega
  · rw [isNegative_integer, lowest] at negative
    exact absurd (by decide) negative
  · rw [isNegative_integer, not_lt] at negative
    rw [plain_integer negative]
    congr 1
    omega

/-- No other magnitude is written like that of the lowest whole number. -/
theorem eq_of_shownMagnitude {m n : Int64} (sign : (integer m).isNegative = (integer n).isNegative)
    (same : shownMagnitude m = shownMagnitude n) : m = n := by
  have sign : m.toInt < 0 ↔ n.toInt < 0 := by
    rw [← isNegative_integer, sign, isNegative_integer]
  have := m.le_toInt
  have := n.le_toInt
  have := m.toInt_lt
  have := n.toInt_lt
  rw [shownMagnitude, shownMagnitude] at same
  apply Int64.toInt_inj.mp
  split_ifs at same <;> omega

theorem abs_eq_one_iff {n : Int64} : (integer n).abs = 1 ↔ shownMagnitude n = 1 := by
  constructor
  · intro one
    have text := plain_abs n
    rw [one] at text
    exact (Nat.repr_inj.mp text).symm
  · intro one
    have unit : n.toInt = (1 : Int64).toInt ∨ n.toInt = (-1 : Int64).toInt := by
      change n.toInt = 1 ∨ n.toInt = -1
      rw [shownMagnitude] at one
      split_ifs at one <;> omega
    rcases unit with same | same <;> rw [Int64.toInt_inj.mp same] <;> decide +kernel

end Number
end Schoolbook
