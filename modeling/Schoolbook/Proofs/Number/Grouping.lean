import Mathlib
import Schoolbook.Proofs.Number.Text

/-! The digits of a written number in groups of three. The digits are read from the first one on, and a
comma depends on how many are still to come; to write the commas into the text from the decimal point
backwards gives the same. Only commas come in, so a number is read back by deleting them. -/
namespace Schoolbook
namespace Decimal

/-- Groups of three, of which only the first may have one or two instead. -/
structure Groups where
  first : List Char
  rest : List (List Char)
  some_digit : first ≠ []
  at_most_three : first.length ≤ 3
  exactly_three : ∀ group ∈ rest, group.length = 3

namespace Groups

def digits (groups : Groups) : List Char := groups.first ++ groups.rest.flatten

/-- A comma stands in front of every group but the first. -/
def text (groups : Groups) : List Char := groups.first ++ groups.rest.flatMap (',' :: ·)

def single (c : Char) : Groups where
  first := [c]
  rest := []
  some_digit := List.cons_ne_nil c []
  at_most_three := Nat.le_add_left 1 2
  exactly_three := nofun

/-- One more digit in front goes into the first group, or opens a group if that one is full. -/
def cons (c : Char) (groups : Groups) : Groups :=
  if full : groups.first.length = 3 then
    { single c with
      rest := groups.first :: groups.rest
      exactly_three := List.forall_mem_cons.mpr ⟨full, groups.exactly_three⟩ }
  else
    { groups with
      first := c :: groups.first
      some_digit := List.cons_ne_nil c groups.first
      at_most_three := Nat.lt_of_le_of_ne groups.at_most_three full }

theorem digits_cons (c : Char) (groups : Groups) : (groups.cons c).digits = c :: groups.digits := by
  rw [cons]
  split_ifs <;> rfl

theorem length_digits (groups : Groups) :
    groups.digits.length = groups.first.length + groups.rest.length * 3 := by
  have lengths := List.map_eq_replicate_iff.mpr groups.exactly_three
  rw [digits, List.length_append, List.length_flatten, lengths, List.sum_replicate_nat]

/-- Whether the first group is full can be told from the number of digits. -/
theorem first_full_iff (groups : Groups) :
    groups.first.length = 3 ↔ groups.digits.length % 3 = 0 := by
  have some_digit : 0 < groups.first.length := List.length_pos_iff.mpr groups.some_digit
  have at_most_three := groups.at_most_three
  rw [length_digits]
  omega

theorem text_cons (c : Char) (groups : Groups) :
    (groups.cons c).text =
      if groups.digits.length % 3 = 0 then c :: ',' :: groups.text else c :: groups.text := by
  rw [cons]
  split_ifs with full multiple multiple
  · rfl
  · exact absurd (groups.first_full_iff.mp full) multiple
  · exact absurd (groups.first_full_iff.mpr multiple) full
  · rfl

theorem filter_text (groups : Groups) :
    groups.text.filter (· ≠ ',') = groups.digits.filter (· ≠ ',') := by
  rw [text, digits, List.filter_append, List.filter_append, List.filter_flatMap,
    List.filter_flatten, List.flatMap_def]
  rfl

end Groups

theorem utf8Length_of_isDigit {cs : List Char} (digits : ∀ c ∈ cs, c.isDigit = true) :
    utf8Length cs = cs.length := by
  induction cs with
  | nil => rfl
  | cons c cs ih =>
    obtain ⟨digit, digits⟩ := List.forall_mem_cons.mp digits
    have nine : '9'.toNat ≤ 127 := by decide
    have ascii : c.toNat ≤ 127 := (Char.isDigit_iff_toNat.mp digit).2.trans nine
    have one_byte : c.utf8Size = 1 :=
      Char.utf8Size_eq_one_iff.mpr (UInt32.le_iff_toNat_le.mpr ascii)
    rw [List.length_cons, ← ih digits, utf8Length, List.map_cons, List.foldr_cons, one_byte,
      Nat.add_comm]
    rfl

/-- A whole number is written in groups, whatever its length. -/
theorem exists_groups {cs : List Char} (some_digit : cs ≠ [])
    (digits : ∀ c ∈ cs, c.isDigit = true) :
    ∃ groups : Groups, groups.digits = cs ∧ groupWhole cs = groups.text := by
  induction cs with
  | nil => exact absurd rfl some_digit
  | cons c cs ih =>
    obtain ⟨-, digits⟩ := List.forall_mem_cons.mp digits
    by_cases last : cs = []
    · subst last
      exact ⟨.single c, rfl, rfl⟩
    · -- `c` is followed by a comma where it finds the first group of the others full.
      obtain ⟨groups, joined, written⟩ := ih last digits
      refine ⟨groups.cons c, by rw [groups.digits_cons, joined], ?_⟩
      rw [groupWhole, groups.text_cons, utf8Length_of_isDigit digits, ← written, joined]
      exact if_congr (and_iff_right last) rfl rfl

/-- Commas written into a text one after the other, three places apart: the first one three places in
front of the place `i`, the last one behind the place `start`. -/
def writeCommas (start : Nat) : Nat → List Char → List Char
  | i + 3, text => if start < i then writeCommas start i (text.insertIdx i ',') else text
  | _, text => text

theorem writeCommas_of_le {start i : Nat} (done : i ≤ start + 3) (text : List Char) :
    writeCommas start i text = text := by
  match i with
  | 0 | 1 | 2 => rfl
  | i + 3 => rw [writeCommas, if_neg (by omega)]

theorem insertIdx_length_append (before after : List Char) (c : Char) :
    (before ++ after).insertIdx before.length c = before ++ c :: after :=
  List.modifyTailIdx_add (List.cons c) 0 before after

theorem writeCommas_append {start : Nat} {before group : List Char} (inside : start < before.length)
    (three : group.length = 3) (after : List Char) :
    writeCommas start (before ++ group).length (before ++ group ++ after) =
      writeCommas start before.length (before ++ ',' :: (group ++ after)) := by
  rw [List.length_append, three, writeCommas, if_pos inside, List.append_assoc,
    insertIdx_length_append]

theorem writeCommas_groups (groups : Groups) (sign after : List Char) :
    writeCommas sign.length (sign ++ groups.digits).length (sign ++ groups.digits ++ after) =
      sign ++ groups.text ++ after := by
  obtain ⟨first, rest, some_digit, at_most_three, exactly_three⟩ := groups
  rw [Groups.digits, Groups.text]
  dsimp only
  have some_digit : 0 < first.length := List.length_pos_iff.mpr some_digit
  -- The loop takes the groups from the last one on, and what it has done is behind the place it is at.
  induction rest using List.reverseRecOn generalizing after with
  | nil =>
    rw [List.flatten_nil, List.flatMap_nil, List.append_nil]
    exact writeCommas_of_le (by rw [List.length_append]; omega) _
  | append_singleton rest group ih =>
    obtain ⟨full, three⟩ := List.forall_mem_append.mp exactly_three
    have three := three group List.mem_cons_self
    have inside : sign.length < (sign ++ (first ++ rest.flatten)).length := by
      rw [List.length_append, List.length_append]
      omega
    rw [List.flatten_concat, ← List.append_assoc first, ← List.append_assoc sign,
      writeCommas_append inside three, ih _ full, List.flatMap_append]
    simp only [List.flatMap_singleton, List.append_assoc, List.cons_append]

/-- A text that falls into a sign or none, digits, and a fraction from the decimal point on or none. -/
structure IsNumeral (s : String) (sign digits fraction : List Char) : Prop where
  parts : s.toList = sign ++ digits ++ fraction
  signed : sign = [] ∨ sign = ['-'] ∨ sign = ['+']
  some_digit : digits ≠ []
  isDigit : ∀ c ∈ digits, c.isDigit = true
  point : ∀ c ∈ fraction.head?, c = '.'
  no_comma : ',' ∉ fraction

namespace IsNumeral
variable {s : String} {sign digits fraction : List Char}

theorem leading_sign (numeral : IsNumeral s sign digits fraction) :
    (s.toList.take 1).filter isSign = sign := by
  rw [numeral.parts]
  rcases numeral.signed with rfl | rfl | rfl
  · obtain ⟨c, cs, rfl⟩ := List.exists_cons_of_ne_nil numeral.some_digit
    have unsigned : isSign c = false :=
      isSign_eq_false ⟨rfl, rfl⟩ (numeral.isDigit c List.mem_cons_self)
    exact List.filter_eq_nil_iff.mpr (List.forall_mem_singleton.mpr (Bool.eq_false_iff.mp unsigned))
  · rfl
  · rfl

theorem whole_part (numeral : IsNumeral s sign digits fraction) :
    (digits ++ fraction).takeWhile (· ≠ '.') = digits ∧
      (digits ++ fraction).dropWhile (· ≠ '.') = fraction := by
  have digits_only : ∀ c ∈ digits, decide (c ≠ '.') = true := by
    intro c member
    refine decide_eq_true ?_
    rintro rfl
    cases numeral.isDigit _ member
  rw [List.takeWhile_append_of_pos digits_only, List.dropWhile_append_of_pos digits_only]
  cases fraction with
  | nil => exact ⟨List.append_nil digits, rfl⟩
  | cons c cs =>
    obtain rfl := numeral.point c rfl
    exact ⟨List.append_nil digits, rfl⟩

theorem toList_insertSeparators (numeral : IsNumeral s sign digits fraction) :
    (insertSeparators s).toList = sign ++ groupWhole digits ++ fraction := by
  rw [insertSeparators, String.toList_ofList, numeral.leading_sign, numeral.parts,
    List.append_assoc sign digits, List.drop_left, numeral.whole_part.1, numeral.whole_part.2]

theorem comma_not_mem (numeral : IsNumeral s sign digits fraction) : ',' ∉ s.toList := by
  rw [numeral.parts, List.mem_append, List.mem_append]
  rintro ((in_sign | in_digits) | in_fraction)
  · rcases numeral.signed with rfl | rfl | rfl
    · cases in_sign
    · exact absurd in_sign (by decide)
    · exact absurd in_sign (by decide)
  · cases numeral.isDigit _ in_digits
  · exact numeral.no_comma in_fraction

/-- The commas of the grouped text all come from grouping. -/
theorem filter_insertSeparators (numeral : IsNumeral s sign digits fraction) :
    (insertSeparators s).toList.filter (· ≠ ',') = s.toList := by
  obtain ⟨groups, joined, written⟩ := exists_groups numeral.some_digit numeral.isDigit
  have kept : s.toList.filter (· ≠ ',') = s.toList :=
    List.filter_eq_self.mpr fun c member =>
      decide_eq_true (ne_of_mem_of_not_mem member numeral.comma_not_mem)
  rw [numeral.toList_insertSeparators, written, List.filter_append, List.filter_append,
    groups.filter_text, joined, ← List.filter_append, ← List.filter_append, ← numeral.parts, kept]

/-- The commas can be written in place, from the decimal point backwards to the sign: a place in front of
the point is the same counted in characters and in bytes. -/
theorem insertSeparators_eq_writeCommas (numeral : IsNumeral s sign digits fraction) :
    (insertSeparators s).toList = writeCommas sign.length (sign ++ digits).length s.toList := by
  obtain ⟨groups, rfl, written⟩ := exists_groups numeral.some_digit numeral.isDigit
  rw [numeral.toList_insertSeparators, numeral.parts, written, writeCommas_groups]

end IsNumeral

/-- Grouping the digits of a number, which may be of any length, writes commas and nothing else: the sign
and the fraction stay, the digits between them fall into groups of three with a shorter one in front at
most, a comma stands between two groups, and to delete the commas gives the number back. -/
theorem separators_group_by_threes {s : String} {sign digits fraction : List Char}
    (numeral : IsNumeral s sign digits fraction) :
    (insertSeparators s).toList.filter (· ≠ ',') = s.toList ∧
      ∃ groups : Groups, groups.digits = digits ∧
        (insertSeparators s).toList = sign ++ groups.text ++ fraction := by
  obtain ⟨groups, joined, written⟩ := exists_groups numeral.some_digit numeral.isDigit
  refine ⟨numeral.filter_insertSeparators, groups, joined, ?_⟩
  rw [numeral.toList_insertSeparators, written]

/-- Of seven digits the first makes a group of its own, behind the sign. -/
theorem separators_group_by_threes_seven :
    let digits := ['1', '2', '3', '4', '5', '6', '7']
    let fraction := ['.', '8', '9', '0', '1']
    IsNumeral "-1234567.8901" ['-'] digits fraction ∧
      insertSeparators "-1234567.8901" = "-1,234,567.8901" ∧
      "-1,234,567.8901".toList.filter (· ≠ ',') = "-1234567.8901".toList ∧
      ∃ groups : Groups, groups.digits = digits ∧
        "-1,234,567.8901".toList = ['-'] ++ groups.text ++ fraction := by
  intro digits fraction
  have numeral : IsNumeral "-1234567.8901" ['-'] digits fraction :=
    { parts := by decide +kernel
      signed := .inr (.inl rfl)
      some_digit := List.cons_ne_nil _ _
      isDigit := List.all_eq_true.mp rfl
      point := fun _ dot => (Option.some.inj dot).symm
      no_comma := by decide }
  have text : insertSeparators "-1234567.8901" = "-1,234,567.8901" := by decide +kernel
  have grouped := separators_group_by_threes numeral
  rw [text] at grouped
  exact ⟨numeral, text, grouped⟩

end Decimal

namespace Number
open Decimal

/-- The text of a whole number is one whose digits can be grouped. -/
theorem isNumeral_plain (n : Int64) :
    ∃ sign, IsNumeral (integer n).plain sign (Nat.toDigits 10 n.toInt.natAbs) [] := by
  have digits : ∀ c ∈ Nat.toDigits 10 n.toInt.natAbs, c.isDigit = true :=
    fun _ => isDigit_of_mem_toDigits
  have text : (integer n).plain = n.toInt.repr := rfl
  rw [text, Int.repr_eq_if]
  split_ifs with above
  · have magnitude : n.toInt.toNat = n.toInt.natAbs := by omega
    rw [magnitude]
    refine ⟨[], ?_, .inl rfl, Nat.toDigits_ne_nil, digits, nofun, List.not_mem_nil⟩
    rw [Nat.toList_repr, List.nil_append, List.append_nil]
  · have magnitude : (-n.toInt).toNat = n.toInt.natAbs := by omega
    rw [magnitude]
    refine ⟨['-'], ?_, .inr (.inl rfl), Nat.toDigits_ne_nil, digits, nofun, List.not_mem_nil⟩
    rw [String.toList_append, Nat.toList_repr, List.append_nil]
    rfl

/-- The plain text of a whole number is the grouped one without its commas. -/
theorem filter_grouped (n : Int64) :
    (integer n).grouped.toList.filter (· ≠ ',') = (integer n).plain.toList := by
  obtain ⟨sign, numeral⟩ := isNumeral_plain n
  exact numeral.filter_insertSeparators

end Number
end Schoolbook
