import Mathlib
import Schoolbook.Json.Reader
import Schoolbook.Json.Writer
import Schoolbook.Proofs.Number.Shortest
import Schoolbook.Proofs.Number.Text

/-! Numbers in the text of a document. A whole number is read back from its digits, and a finite double
from the shortest digits that round to it. -/
namespace Schoolbook.Json
open Double

/-- Digits in front of a point. A zero is not followed by other digits. -/
structure IsWholePart (digits : List Char) : Prop where
  each : ∀ c ∈ digits, c.isDigit = true
  some_digit : digits ≠ []
  unpadded : ¬(digits.head? = some '0' ∧ 1 < digits.length)

/-- Digits on both sides of a point, and the number that they stand for. -/
inductive Pointed : List Char → ℚ → Prop
  | point {whole fraction : List Char} (begins : IsWholePart whole)
    (each : ∀ c ∈ fraction, c.isDigit = true) (some_place : fraction ≠ []) :
    Pointed (whole ++ '.' :: fraction) (digitsValue (whole ++ fraction) / 10 ^ fraction.length)

theorem head?_toDigits_ne_zero {n : Nat} (positive : 0 < n) : (Nat.toDigits 10 n).head? ≠ some '0' := by
  induction n using Nat.strongRecOn with
  | ind n ih =>
    rcases Nat.lt_or_ge n 10 with small | large
    · rw [Nat.toDigits_of_lt_base small]
      interval_cases n <;> decide
    · have lower := ih (n / 10) (by omega) (by omega)
      obtain ⟨c, cs, split⟩ := List.exists_cons_of_ne_nil (Nat.toDigits_ne_nil (n := n / 10) (b := 10))
      rw [Nat.toDigits_of_base_le (by decide) large, split]
      rwa [split] at lower

theorem isWholePart_toDigits (n : Nat) : IsWholePart (Nat.toDigits 10 n) := by
  refine ⟨fun _ => isDigit_of_mem_toDigits, Nat.toDigits_ne_nil, ?_⟩
  rintro ⟨zero, long⟩
  rcases Nat.eq_zero_or_pos n with rfl | positive
  · exact absurd long (by decide)
  · exact head?_toDigits_ne_zero positive zero

/-- A class of characters is read up to the first character outside it. -/
theorem while_append {p : Char → Bool} {front rest : List Char} (each : ∀ c ∈ front, p c = true)
    (ends : ∀ c ∈ rest.head?, p c = false) :
    (front ++ rest).takeWhile p = front ∧ (front ++ rest).dropWhile p = rest := by
  rw [List.takeWhile_append_of_pos each, List.dropWhile_append_of_pos each]
  cases rest with
  | nil => exact ⟨List.append_nil front, rfl⟩
  | cons c cs =>
    have other : ¬p c = true := Bool.eq_false_iff.mp (ends c rfl)
    rw [List.takeWhile_cons_of_neg other, List.dropWhile_cons_of_neg other]
    exact ⟨List.append_nil front, rfl⟩

theorem splitDigits_append {digits rest : List Char} (each : ∀ c ∈ digits, c.isDigit = true)
    (ends : ∀ c ∈ rest.head?, c.isDigit = false) :
    splitDigits (digits ++ rest) = (digits, rest) := by
  obtain ⟨taken, dropped⟩ := while_append each ends
  rw [splitDigits, taken, dropped]

namespace IsWholePart
variable {digits fraction : List Char} {negative : Bool}

theorem not_empty (begins : IsWholePart digits) : digits.isEmpty = false :=
  List.isEmpty_eq_false_iff.mpr begins.some_digit

/-- A text that begins with a digit has no sign. -/
theorem number?_append (begins : IsWholePart digits) (rest : List Char) (negative : Bool) :
    number? ((if negative then ['-'] else []) ++ (digits ++ rest)) =
      unsigned? negative (digits ++ rest) := by
  cases negative with
  | true => rfl
  | false =>
    refine number?.eq_2 _ fun more same => ?_
    obtain ⟨c, cs, rfl⟩ := List.exists_cons_of_ne_nil begins.some_digit
    have digit := begins.each c List.mem_cons_self
    cases same
    cases digit

theorem unsigned? (begins : IsWholePart digits) (signed : negative = true → digitsValue digits ≠ 0) :
    unsigned? negative digits =
      some (.integer (if negative then -digitsValue digits else digitsValue digits)) := by
  have split := @splitDigits_append digits [] begins.each (by simp)
  rw [List.append_nil] at split
  rw [Json.unsigned?, split]
  simp only [begins.not_empty, begins.unpadded, Bool.false_eq_true, or_self, if_false, fractionPart?,
    exponentPart?]
  cases negative with
  | false => simp
  | true => simp [signed rfl]

theorem unsigned?_point (begins : IsWholePart digits) (each : ∀ c ∈ fraction, c.isDigit = true)
    (some_place : fraction ≠ []) :
    Json.unsigned? negative (digits ++ '.' :: fraction) =
      decimal? negative (digitsValue (digits ++ fraction)) (-fraction.length) := by
  have split := @splitDigits_append digits ('.' :: fraction) begins.each (by simp)
  have split' := @splitDigits_append fraction [] each (by simp)
  rw [List.append_nil] at split'
  rw [Json.unsigned?, split]
  simp only [begins.not_empty, begins.unpadded, Bool.false_eq_true, or_self, if_false, fractionPart?,
    split', List.isEmpty_eq_false_iff.mpr some_place, exponentPart?]
  simp

end IsWholePart

theorem toList_toString (n : Int) :
    (toString n).toList =
      (if decide (n < 0) then ['-'] else []) ++ Nat.toDigits 10 n.natAbs := by
  rw [Int.toString_eq_repr, Int.repr_eq_if]
  by_cases above : 0 ≤ n
  · rw [if_pos above, if_neg (by simpa using above), Nat.toList_repr, List.nil_append,
      show n.toNat = n.natAbs by omega]
  · rw [if_neg above, if_pos (by simpa using above), String.toList_append, Nat.toList_repr,
      show (-n).toNat = n.natAbs by omega]
    rfl

theorem number?_toString (n : Int) : number? (toString n).toList = some (.integer n) := by
  have begins := isWholePart_toDigits n.natAbs
  have digits : digitsValue (Nat.toDigits 10 n.natAbs) = n.natAbs := Nat.ofDigitChars_ten_toDigits
  have read := begins.number?_append [] (decide (n < 0))
  rw [List.append_nil] at read
  rw [toList_toString, read, begins.unsigned?, digits]
  · simp only [decide_eq_true_eq, Option.some.injEq, integer.injEq]
    split_ifs <;> omega
  · rw [decide_eq_true_iff, digits]
    omega

theorem isNumberChar_of_isDigit {c : Char} (digit : c.isDigit = true) : isNumberChar c = true := by
  simp [isNumberChar, digit]

theorem isNumberChar_of_mem_sign {negative : Bool} {c : Char}
    (member : c ∈ if negative then ['-'] else []) : isNumberChar c = true := by
  cases negative with
  | false => cases member
  | true =>
    rw [List.mem_singleton.mp member]
    rfl

theorem isNumberChar_of_mem_toString {n : Int} {c : Char} (member : c ∈ (toString n).toList) :
    isNumberChar c = true := by
  rw [toList_toString] at member
  rcases List.mem_append.mp member with sign | digit
  · exact isNumberChar_of_mem_sign sign
  · exact isNumberChar_of_isDigit (isDigit_of_mem_toDigits digit)

theorem Pointed.isNumberChar {text : List Char} {v : ℚ} (pointed : Pointed text v) :
    ∀ c ∈ text, isNumberChar c = true := by
  obtain ⟨begins, each, -⟩ := pointed
  intro c member
  rcases List.mem_append.mp member with digit | after
  · exact isNumberChar_of_isDigit (begins.each c digit)
  · rcases List.mem_cons.mp after with rfl | digit
    · rfl
    · exact isNumberChar_of_isDigit (each c digit)

section positional

/-- Zeros behind a positive number fill the places up to the point. -/
theorem isWholePart_append_zeros {n : Nat} (positive : 0 < n) (count : Nat) :
    IsWholePart (Nat.toDigits 10 n ++ List.replicate count '0') := by
  obtain ⟨c, cs, split⟩ := List.exists_cons_of_ne_nil (Nat.toDigits_ne_nil (n := n) (b := 10))
  have first := head?_toDigits_ne_zero positive
  refine ⟨fun c member => ?_, List.append_ne_nil_of_left_ne_nil Nat.toDigits_ne_nil _, fun padded => ?_⟩
  · rcases List.mem_append.mp member with digit | zero
    · exact isDigit_of_mem_toDigits digit
    · rw [List.eq_of_mem_replicate zero]
      rfl
  · rw [split] at first padded
    exact first padded.1

/-- Without places after the point, one is added. -/
theorem pointed_of_nonneg {d : Decimal} (positive : 0 < d.digits) (above : 0 ≤ d.place) :
    Pointed (d.positional ++ ".0").toList d.value := by
  let digits := Nat.toDigits 10 d.digits ++ List.replicate d.place.toNat '0'
  have text : (d.positional ++ ".0").toList = digits ++ '.' :: ['0'] := by
    rw [Decimal.positional]
    dsimp only
    rw [if_pos above, String.toList_append, String.toList_ofList]
    rfl
  have value : (digitsValue (digits ++ ['0']) : ℚ) / 10 ^ ['0'].length = d.value := by
    have whole : digitsValue (digits ++ ['0']) = 10 * (10 ^ d.place.toNat * d.digits) := by
      change Nat.ofDigitChars 10 _ 0 = _
      rw [Nat.ofDigitChars_append, Nat.ofDigitChars_append, Nat.ofDigitChars_ten_toDigits,
        Nat.ofDigitChars_replicate_zero]
      exact Nat.add_zero _
    have power : (10 : ℚ) ^ d.place = 10 ^ d.place.toNat := by
      rw [← zpow_natCast, Int.toNat_of_nonneg above]
    rw [whole, Decimal.value, power, List.length_singleton, pow_one]
    push_cast
    ring
  rw [text, ← value]
  exact .point (isWholePart_append_zeros positive _) (by simp) (by simp)

/-- The digits of a number, with so many zeros in front that at least one digit is left of the places. -/
def padded (n places : Nat) : List Char :=
  List.replicate (places + 1 - (Nat.toDigits 10 n).length) '0' ++ Nat.toDigits 10 n

variable {n : Nat} (places : Nat)

theorem isDigit_of_mem_padded {c : Char} (member : c ∈ padded n places) : c.isDigit = true := by
  rcases List.mem_append.mp member with zero | digit
  · rw [List.eq_of_mem_replicate zero]
    rfl
  · exact isDigit_of_mem_toDigits digit

theorem lt_length_padded : places < (padded n places).length := by
  rw [padded, List.length_append, List.length_replicate]
  omega

theorem digitsValue_padded : digitsValue (padded n places) = n := by
  change Nat.ofDigitChars 10 _ 0 = _
  rw [padded, Nat.ofDigitChars_append, Nat.ofDigitChars_replicate_zero, mul_zero,
    Nat.ofDigitChars_ten_toDigits]

/-- Where two digits are left before the places, there are no zeros in front. -/
theorem isWholePart_take_padded (positive : 0 < n) :
    IsWholePart ((padded n places).take ((padded n places).length - places)) := by
  have long := lt_length_padded (n := n) places
  refine ⟨fun c member => isDigit_of_mem_padded places (List.mem_of_mem_take member), ?_, ?_⟩
  · rw [ne_eq, List.take_eq_nil_iff, not_or]
    exact ⟨by omega, List.ne_nil_of_length_pos (by omega)⟩
  · rintro ⟨zero, more⟩
    rw [List.length_take] at more
    have none : places + 1 - (Nat.toDigits 10 n).length = 0 := by
      by_contra some_zero
      rw [padded, List.length_append, List.length_replicate] at more
      omega
    rw [List.head?_take, if_neg (by omega), padded, none, List.replicate_zero,
      List.nil_append] at zero
    exact head?_toDigits_ne_zero positive zero

theorem pointed_of_neg {d : Decimal} (positive : 0 < d.digits) (below : d.place < 0) :
    Pointed d.positional.toList d.value := by
  obtain ⟨places, same⟩ : ∃ places : Nat, d.place = -places := ⟨d.place.natAbs, by omega⟩
  let digits := padded d.digits places
  have text : d.positional.toList =
      digits.take (digits.length - places) ++ '.' :: digits.drop (digits.length - places) := by
    rw [Decimal.positional]
    dsimp only
    rw [if_neg (by omega), String.toList_ofList, same, neg_neg, Int.toNat_natCast]
    rfl
  have long : places < digits.length := lt_length_padded places
  have length : (digits.drop (digits.length - places)).length = places := by
    rw [List.length_drop]
    omega
  have value : (digitsValue (digits.take (digits.length - places) ++
      digits.drop (digits.length - places)) : ℚ) /
        10 ^ (digits.drop (digits.length - places)).length = d.value := by
    rw [List.take_append_drop, length, digitsValue_padded, Decimal.value, same, zpow_neg, zpow_natCast,
      div_eq_mul_inv]
  rw [text, ← value]
  refine .point (isWholePart_take_padded places positive)
    (fun c member => isDigit_of_mem_padded places (List.mem_of_mem_drop member)) ?_
  exact List.ne_nil_of_length_pos (by omega)

end positional

section nearest
variable {m n k : Nat} {e : Int} {u : ℚ}

/-- No value that rounds to a double lies beyond the powers of ten up to which a number is looked at. -/
theorem places_bounds (legal : Legal m e) (inside : Surrounds m e u)
    (value : (n : ℚ) / 10 ^ k = u * 2 ^ e) :
    -330 ≤ ((Nat.toDigits 10 n).length : Int) - k ∧ ((Nat.toDigits 10 n).length : Int) - k ≤ 310 := by
  have power : (0 : ℚ) < 10 ^ k := by positivity
  have length (bound : Nat) := Nat.length_toDigits_le_iff (n := n) (k := bound + 1) (by decide : 1 < 10)
    (by omega)
  obtain ⟨least, most⟩ := inside.range legal
  rw [← value] at least most
  constructor
  · by_contra low
    have small := (length (k - 331)).mp (by omega)
    rw [show k - 331 + 1 = k - 330 by omega] at small
    have small : (n : ℚ) < 10 ^ (k - 330) := by exact_mod_cast small
    have ten : (2 : ℚ) ^ 1075 ≤ 10 ^ 330 := by exact_mod_cast (by decide +kernel : 2 ^ 1075 ≤ 10 ^ 330)
    refine absurd least (not_le.mpr ?_)
    rw [div_lt_div_iff₀ power (by positivity), one_mul]
    calc (n : ℚ) * 2 ^ 1075 ≤ n * 10 ^ 330 := mul_le_mul_of_nonneg_left ten n.cast_nonneg
      _ < 10 ^ (k - 330) * 10 ^ 330 := by gcongr
      _ = 10 ^ k := by rw [← pow_add, Nat.sub_add_cancel (by omega)]
  · by_contra high
    have large := mt (length (k + 309)).mpr (by omega)
    have large : (10 : ℚ) ^ (k + 310) ≤ n := by exact_mod_cast not_lt.mp large
    have ten : (2 : ℚ) ^ 1024 ≤ 10 ^ 310 := by exact_mod_cast (by decide +kernel : 2 ^ 1024 ≤ 10 ^ 310)
    rw [pow_add, mul_comm, ← le_div_iff₀ power] at large
    exact absurd most (ten.trans large).not_gt

/-- A number in the interval of a double is read as the double. -/
theorem decimal?_of_surrounds (legal : Legal m e) (inside : Surrounds m e u) (some_place : 0 < k)
    (value : (n : ℚ) / 10 ^ k = u * 2 ^ e) (negative : Bool) :
    let magnitude := Float.ofModel (.pack (.finite .positive m e legal.positive))
    decimal? negative n (-k) = some (.decimal (if negative then -magnitude else magnitude)) := by
  intro magnitude
  have bounds := places_bounds legal inside value
  have positive : 0 < n := by
    have above : (0 : ℚ) < n / 10 ^ k := value ▸ mul_pos (inside.pos legal) (by positivity)
    exact Nat.pos_of_ne_zero fun zero => by simp [zero] at above
  have length : (Nat.toDigits 10 n).length ≤ n.log2 + 1 :=
    (Nat.length_toDigits_le_iff (by decide) (by omega)).mpr
      (Nat.lt_log2_self.trans_le (Nat.pow_le_pow_left (by decide) _))
  have read := ofScientific_of_surrounds positive some_place (by omega) legal inside value
  have finite : magnitude.isFinite = true := isFinite_pack_finite _ legal.below
  rw [decimal?]
  simp only [Int.natAbs_neg, Int.natAbs_natCast]
  rw [if_neg (by omega), if_neg (by omega), decide_eq_true (show -(k : Int) < 0 by omega), read,
    if_pos finite]
  rfl

end nearest

theorem not_isNaN {x : Float} (finite : x.isFinite = true) : x.isNaN = false := by
  rw [isFinite_eq] at finite
  change x.toModel.unpack.isNaN = false
  cases unpacked : x.toModel.unpack with
  | notANumber =>
    rw [unpacked] at finite
    cases finite
  | _ => rfl

theorem text_of_isFinite {x : Float} (finite : x.isFinite = true) :
    Double.text x = (if signBit x then "-" else "") ++
      if magnitudeBits x = 0 then "0" else (Decimal.shortest x).positional := by
  have number : ¬x.isNaN = true := Bool.eq_false_iff.mp (not_isNaN finite)
  rw [Double.text, if_neg number]
  simp only [finite, not_true_eq_false, if_false]

/-- The text of a finite double has a sign and digits on both sides of a point, which stand for its
shortest decimal. -/
theorem decimalText_eq {x : Float} (finite : x.isFinite = true) :
    ∃ text, (decimalText x).toList = (if signBit x then ['-'] else []) ++ text ∧
      Pointed text (if magnitudeBits x = 0 then 0 else (Decimal.shortest x).value) := by
  have signed (text : String) : ((if signBit x then "-" else "") ++ text).toList =
      (if signBit x then ['-'] else []) ++ text.toList := by
    rw [String.toList_append]
    cases signBit x <;> rfl
  rw [decimalText, if_neg (not_not.mpr finite), text_of_isFinite finite]
  by_cases zero : magnitudeBits x = 0
  · have none : significand x = 0 := by
      rw [significand, biasedExponent, fractionBits, zero]
      rfl
    have whole : isWhole x = true := by
      rw [Decimal.isWhole_iff finite, none, Nat.zero_mod]
    have pointed := @Pointed.point _ ['0'] (isWholePart_toDigits 0) (by simp) (by simp)
    have value : (digitsValue (Nat.toDigits 10 0 ++ ['0']) : ℚ) / 10 ^ ['0'].length = 0 := zero_div _
    rw [value] at pointed
    rw [if_pos zero, if_pos zero, if_pos whole, String.append_assoc, signed]
    exact ⟨_, rfl, pointed⟩
  · have legal := legal_of_isFinite finite zero
    have above := (Decimal.surrounds_shortest legal).pos legal
    have positive : 0 < (Decimal.shortest x).digits := by
      refine Nat.pos_of_ne_zero fun none => ?_
      rw [Decimal.value, none, Nat.cast_zero, zero_mul, zero_div] at above
      exact absurd above (lt_irrefl 0)
    have place := Decimal.place_nonneg_iff finite legal
    rw [if_neg zero, if_neg zero]
    by_cases whole : isWhole x = true
    · rw [if_pos whole, String.append_assoc, signed]
      exact ⟨_, rfl, pointed_of_nonneg positive (place.mpr whole)⟩
    · rw [if_neg whole, signed]
      exact ⟨_, rfl, pointed_of_neg positive (not_le.mp (mt place.mp whole))⟩

theorem Pointed.number? {text : List Char} {v : ℚ} (pointed : Pointed text v) (negative : Bool) :
    ∃ n k : Nat, 0 < k ∧ (n : ℚ) / 10 ^ k = v ∧
      Json.number? ((if negative then ['-'] else []) ++ text) = decimal? negative n (-k) := by
  obtain ⟨begins, each, some_place⟩ := pointed
  exact ⟨_, _, List.length_pos_iff.mpr some_place, rfl,
    (begins.number?_append _ negative).trans (begins.unsigned?_point each some_place)⟩

/-- A finite double is read back from its own text. -/
theorem number?_decimalText {x : Float} (finite : x.isFinite = true) :
    number? (decimalText x).toList = some (.decimal x) := by
  obtain ⟨text, split, pointed⟩ := decimalText_eq finite
  obtain ⟨n, k, some_place, value, read⟩ := pointed.number? (signBit x)
  rw [split, read]
  by_cases zero : magnitudeBits x = 0
  · rw [if_pos zero] at value
    have none : n = 0 := by
      rw [div_eq_zero_iff, or_iff_left (by positivity)] at value
      exact_mod_cast value
    rw [none, decimal?, if_pos (.inl rfl)]
    exact congrArg (some ∘ decimal) (eq_of_zero zero).symm
  · rw [if_neg zero] at value
    have legal := legal_of_isFinite finite zero
    obtain ⟨positive, unpacked⟩ := unpack_eq finite zero
    have same : (n : ℚ) / 10 ^ k =
        (Decimal.shortest x).value / 2 ^ exponent x * 2 ^ exponent x := by
      rw [value, div_mul_cancel₀ _ (by positivity)]
    rw [decimal?_of_surrounds legal (Decimal.surrounds_shortest legal) some_place same]
    exact congrArg (some ∘ decimal) (eq_of_magnitude unpacked).symm

theorem isNumberChar_of_mem_decimalText {x : Float} (finite : x.isFinite = true) {c : Char}
    (member : c ∈ (decimalText x).toList) : isNumberChar c = true := by
  obtain ⟨text, split, pointed⟩ := decimalText_eq finite
  rw [split] at member
  rcases List.mem_append.mp member with sign | digit
  · exact isNumberChar_of_mem_sign sign
  · exact pointed.isNumberChar c digit

end Schoolbook.Json
