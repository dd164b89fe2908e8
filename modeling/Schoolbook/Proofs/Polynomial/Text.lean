import Mathlib
import Schoolbook.Polynomial.Text
import Schoolbook.Proofs.Number.Text
import Schoolbook.Proofs.Polynomial.Normalized
import Schoolbook.Proofs.Reading.Plain

/-! The text of a polynomial with whole coefficients and letters for variables determines it. A term has
no blank in it and every sign has one on both sides, so the text falls into its terms; a term falls into
its coefficient and its powers at the letters. -/
namespace Schoolbook

section
variable {α : Type} {xs ys r s : List Char}

/-- Two texts with one whole fall apart at the same place if that is where a class of characters ends. -/
theorem append_unique {p : Char → Bool} (hx : ∀ c ∈ xs, p c = true) (hy : ∀ c ∈ ys, p c = true)
    (hr : ∀ c ∈ r.head?, p c = false) (hs : ∀ c ∈ s.head?, p c = false)
    (same : xs ++ r = ys ++ s) : xs = ys ∧ r = s := by
  have ends {r : List Char} (h : ∀ c ∈ r.head?, p c = false) : r.takeWhile p = [] := by
    cases r with
    | nil => rfl
    | cons c r => rw [List.takeWhile_cons, h c rfl, if_neg Bool.false_ne_true]
  have first := congrArg (List.takeWhile p) same
  rw [List.takeWhile_append_of_pos hx, List.takeWhile_append_of_pos hy, ends hr, ends hs,
    List.append_nil, List.append_nil] at first
  subst first
  exact ⟨rfl, List.append_cancel_left same⟩

variable {f : α → List Char} {ok : α → Prop} {opens : Char → Prop}

theorem opens_flatMap (starts : ∀ a, ok a → ∃ c cs, f a = c :: cs ∧ opens c) {as : List α}
    (ha : ∀ a ∈ as, ok a) : ∀ c ∈ (as.flatMap f).head?, opens c := by
  cases as with
  | nil => nofun
  | cons a as =>
    obtain ⟨c, cs, split, opening⟩ := starts a (ha a List.mem_cons_self)
    rw [List.flatMap_cons, split]
    rintro _ ⟨⟩
    exact opening

theorem nil_of_flatMap (starts : ∀ a, ok a → ∃ c cs, f a = c :: cs ∧ opens c) {as : List α}
    (ha : ∀ a ∈ as, ok a) (empty : as.flatMap f = []) : as = [] := by
  refine List.eq_nil_iff_forall_not_mem.mpr fun a member => ?_
  obtain ⟨c, cs, split, -⟩ := starts a (ha a member)
  cases split.symm.trans (List.flatMap_eq_nil_iff.mp empty a member)

/-- Items are read off the text of all of them if the first one can be, whatever items follow. -/
theorem flatMap_unique (starts : ∀ a, ok a → ∃ c cs, f a = c :: cs ∧ opens c)
    (unique : ∀ a b r s, ok a → ok b → (∀ c ∈ r.head?, opens c) → (∀ c ∈ s.head?, opens c) →
      f a ++ r = f b ++ s → a = b ∧ r = s) {as bs : List α} (ha : ∀ a ∈ as, ok a)
    (hb : ∀ b ∈ bs, ok b) (same : as.flatMap f = bs.flatMap f) : as = bs := by
  induction as generalizing bs with
  | nil => exact (nil_of_flatMap starts hb same.symm).symm
  | cons a as ih =>
    cases bs with
    | nil => exact nil_of_flatMap starts ha same
    | cons b bs =>
      obtain ⟨here, ha⟩ := List.forall_mem_cons.mp ha
      obtain ⟨there, rest⟩ := List.forall_mem_cons.mp hb
      obtain ⟨rfl, after⟩ := unique a b _ _ here there (opens_flatMap starts ha)
        (opens_flatMap starts rest) same
      exact congrArg (a :: ·) (ih ha rest after)

end

theorem toDigits_inj {m n : Nat} (same : Nat.toDigits 10 m = Nat.toDigits 10 n) : m = n := by
  rw [← Nat.toList_repr, ← Nat.toList_repr] at same
  exact Nat.repr_inj.mp (String.toList_inj.mp same)

theorem of_isDigit {c : Char} (digit : c.isDigit = true) :
    c.isAlpha = false ∧ c ≠ ' ' ∧ c ≠ '-' := by
  refine ⟨?_, ?_, ?_⟩
  · exact Bool.eq_false_iff.mpr fun letter => absurd digit (by rw [isDigit_of_isAlpha letter]; nofun)
  · rintro rfl
    cases digit
  · rintro rfl
    cases digit

namespace Monomial

/-- What follows the name of a variable. -/
def exponentText (power : UInt32) : List Char :=
  if power = 1 then [] else '^' :: Nat.toDigits 10 power.toNat

theorem toList_plain (m : Monomial) :
    m.plain.toList = m.powers.flatMap fun x => x.1.toList ++ exponentText x.2 := by
  rw [plain, String.toList_join, List.flatMap_map]
  refine List.flatMap_congr fun x _ => ?_
  obtain ⟨name, power⟩ := x
  dsimp only
  rw [exponentText]
  split_ifs
  · rw [List.append_nil]
  · rw [String.append_assoc, String.toList_append, String.toList_append]
    exact congrArg (name.toList ++ '^' :: ·) Nat.toList_repr

theorem exponentText_inj {p q : UInt32} (same : exponentText p = exponentText q) : p = q := by
  rw [exponentText, exponentText] at same
  split_ifs at same with one one' one'
  · rw [one, one']
  · exact UInt32.toNat_inj.mp (toDigits_inj (List.cons.inj same).2)

theorem of_mem_exponentText {c : Char} {power : UInt32} (member : c ∈ exponentText power) :
    c.isAlpha = false ∧ c ≠ ' ' ∧ c ≠ '-' := by
  rw [exponentText] at member
  split_ifs at member
  · cases member
  · rcases List.mem_cons.mp member with rfl | digit
    · decide
    · exact of_isDigit (isDigit_of_mem_toDigits digit)

/-- A name of one letter. -/
def IsLetter (name : String) : Prop := ∃ c : Char, c.isAlpha = true ∧ name = c.toString

def IsLettered (m : Monomial) : Prop := ∀ x ∈ m.powers, IsLetter x.1

theorem starts_factor (x : String × UInt32) (letter : IsLetter x.1) :
    ∃ c cs, x.1.toList ++ exponentText x.2 = c :: cs ∧ c.isAlpha = true := by
  obtain ⟨c, letter, named⟩ := letter
  refine ⟨c, exponentText x.2, ?_, letter⟩
  rw [named, Char.toString_eq_singleton, String.toList_singleton]
  rfl

/-- A power ends before the next letter. -/
theorem factor_unique (x y : String × UInt32) (r s : List Char)
    (hx : IsLetter x.1) (hy : IsLetter y.1)
    (hr : ∀ c ∈ r.head?, c.isAlpha = true) (hs : ∀ c ∈ s.head?, c.isAlpha = true)
    (same : x.1.toList ++ exponentText x.2 ++ r = y.1.toList ++ exponentText y.2 ++ s) :
    x = y ∧ r = s := by
  obtain ⟨_, p⟩ := x
  obtain ⟨_, q⟩ := y
  obtain ⟨c, -, rfl⟩ := hx
  obtain ⟨d, -, rfl⟩ := hy
  simp only [Char.toString_eq_singleton, String.toList_singleton, List.cons_append,
    List.cons.injEq] at same ⊢
  obtain ⟨rfl, same⟩ := same
  obtain ⟨powers, rest⟩ := append_unique (p := fun c => !c.isAlpha)
    (fun c member => by rw [(of_mem_exponentText member).1]; rfl)
    (fun c member => by rw [(of_mem_exponentText member).1]; rfl)
    (fun c member => by rw [hr c member]; rfl) (fun c member => by rw [hs c member]; rfl) same
  exact ⟨by rw [exponentText_inj powers], rest⟩

theorem plain_unique {m k : Monomial} (hm : m.IsLettered) (hk : k.IsLettered)
    (same : m.plain.toList = k.plain.toList) : m = k := by
  rw [toList_plain, toList_plain] at same
  obtain ⟨powers, sorted⟩ := m
  obtain ⟨powers', sorted'⟩ := k
  obtain rfl : powers = powers' := flatMap_unique starts_factor factor_unique hm hk same
  rfl

theorem of_mem_plain {m : Monomial} (lettered : m.IsLettered) {c : Char}
    (member : c ∈ m.plain.toList) : c ≠ ' ' ∧ c ≠ '-' := by
  rw [toList_plain] at member
  obtain ⟨x, inside, member⟩ := List.mem_flatMap.mp member
  obtain ⟨d, letter, named⟩ := lettered x inside
  rw [named, Char.toString_eq_singleton, String.toList_singleton] at member
  rcases List.mem_append.mp member with name | power
  · obtain rfl := List.mem_singleton.mp name
    constructor <;> rintro rfl <;> cases letter
  · exact (of_mem_exponentText power).2

theorem head_plain {m : Monomial} (lettered : m.IsLettered) :
    ∀ c ∈ m.plain.toList.head?, c.isDigit = false := by
  intro c first
  rw [toList_plain] at first
  exact isDigit_of_isAlpha (opens_flatMap starts_factor lettered c first)

end Monomial

namespace Term

/-- A whole coefficient, and letters for variables. -/
structure IsElementary (t : Term) : Prop where
  whole : ∃ n, t.coefficient = .integer n
  lettered : t.monomial.IsLettered

/-- The digits in front of the variables. -/
def coefficientText (n : Int64) (m : Monomial) : List Char :=
  if m.isOne = true ∨ Number.shownMagnitude n ≠ 1 then Nat.toDigits 10 (Number.shownMagnitude n)
  else []

theorem isDigit_of_mem_coefficientText {n : Int64} {m : Monomial} {c : Char}
    (member : c ∈ coefficientText n m) : c.isDigit = true := by
  rw [coefficientText] at member
  split_ifs at member
  · exact isDigit_of_mem_toDigits member
  · cases member

/-- Only a magnitude of one can be left out. -/
theorem coefficientText_inj {n k : Int64} {m : Monomial}
    (same : coefficientText n m = coefficientText k m) :
    Number.shownMagnitude n = Number.shownMagnitude k := by
  rw [coefficientText, coefficientText] at same
  split_ifs at same with written written' written'
  · exact toDigits_inj same
  · exact absurd same Nat.toDigits_ne_nil
  · exact absurd same.symm Nat.toDigits_ne_nil
  · rw [not_or, not_not] at written written'
    rw [written.2, written'.2]

theorem toList_plainMagnitude (n : Int64) (m : Monomial) :
    (mk (.integer n) m).plainMagnitude.toList = coefficientText n m ++ m.plain.toList := by
  have elided : (m.isOne || (Number.integer n).abs ≠ 1) = true ↔
      m.isOne = true ∨ Number.shownMagnitude n ≠ 1 := by
    rw [Bool.or_eq_true, decide_eq_true_iff, ne_eq, Number.abs_eq_one_iff]
  rw [plainMagnitude, String.toList_append, isConstant, coefficientText]
  dsimp only
  simp only [elided]
  split_ifs
  · rw [Number.plain_abs, Nat.toList_repr]
  · rfl

section
variable {s t : Term}

theorem of_mem_plainMagnitude (elementary : t.IsElementary) {c : Char}
    (member : c ∈ t.plainMagnitude.toList) : c ≠ ' ' ∧ c ≠ '-' := by
  obtain ⟨_, m⟩ := t
  obtain ⟨n, rfl⟩ := elementary.whole
  rw [toList_plainMagnitude] at member
  rcases List.mem_append.mp member with digit | factor
  · exact (of_isDigit (isDigit_of_mem_coefficientText digit)).2
  · exact Monomial.of_mem_plain elementary.lettered factor

/-- The magnitude of a term is written in one way, and its sign stands elsewhere. -/
theorem plainMagnitude_unique (hs : s.IsElementary) (ht : t.IsElementary)
    (sign : s.coefficient.isNegative = t.coefficient.isNegative)
    (same : s.plainMagnitude.toList = t.plainMagnitude.toList) : s = t := by
  obtain ⟨_, m⟩ := s
  obtain ⟨_, k⟩ := t
  obtain ⟨a, rfl⟩ := hs.whole
  obtain ⟨b, rfl⟩ := ht.whole
  rw [toList_plainMagnitude, toList_plainMagnitude] at same
  obtain ⟨digits, powers⟩ := append_unique (fun c => isDigit_of_mem_coefficientText)
    (fun c => isDigit_of_mem_coefficientText) (Monomial.head_plain hs.lettered)
    (Monomial.head_plain ht.lettered) same
  obtain rfl := Monomial.plain_unique hs.lettered ht.lettered powers
  rw [Number.eq_of_shownMagnitude sign (coefficientText_inj digits)]

end
end Term

namespace Polynomial
variable {s t : Term}

/-- The sign between two terms, with its blanks. -/
def separator (negative : Bool) : List Char := [' ', if negative then '-' else '+', ' ']

/-- The sign in front of the first term. -/
def leadingSign (negative : Bool) : List Char := if negative then ['-'] else []

theorem separator_inj : ∀ {a b : Bool}, separator a = separator b → a = b := by decide

theorem leadingSign_inj : ∀ {a b : Bool}, leadingSign a = leadingSign b → a = b := by decide

theorem eq_of_mem_leadingSign {a : Bool} {c : Char} (member : c ∈ leadingSign a) : c = '-' := by
  rw [leadingSign] at member
  split_ifs at member
  · exact List.mem_singleton.mp member
  · cases member

theorem toList_plainRest (t : Term) :
    (plainRest t).toList = separator t.coefficient.isNegative ++ t.plainMagnitude.toList := by
  rw [plainRest, String.toList_append, separator]
  split_ifs <;> rfl

theorem toList_plain (t : Term) (rest : List Term) :
    (plain ⟨t :: rest⟩).toList = leadingSign t.coefficient.isNegative ++
      (t.plainMagnitude.toList ++ rest.flatMap fun t => (plainRest t).toList) := by
  rw [plain]
  dsimp only
  rw [String.toList_append, String.toList_append, String.toList_join, List.flatMap_map,
    List.append_assoc, leadingSign]
  split_ifs <;> rfl

/-- A term ends before the next blank. -/
theorem magnitude_unique (hs : s.IsElementary) (ht : t.IsElementary)
    (sign : s.coefficient.isNegative = t.coefficient.isNegative) {r r' : List Char}
    (hr : ∀ c ∈ r.head?, c = ' ') (hr' : ∀ c ∈ r'.head?, c = ' ')
    (same : s.plainMagnitude.toList ++ r = t.plainMagnitude.toList ++ r') : s = t ∧ r = r' := by
  obtain ⟨magnitude, rest⟩ := append_unique (p := (· ≠ ' '))
    (fun c member => decide_eq_true (Term.of_mem_plainMagnitude hs member).1)
    (fun c member => decide_eq_true (Term.of_mem_plainMagnitude ht member).1)
    (fun c first => decide_eq_false (not_not.mpr (hr c first)))
    (fun c first => decide_eq_false (not_not.mpr (hr' c first))) same
  exact ⟨Term.plainMagnitude_unique hs ht sign magnitude, rest⟩

theorem starts_plainRest (t : Term) (_ : t.IsElementary) :
    ∃ c cs, (plainRest t).toList = c :: cs ∧ c = ' ' :=
  ⟨' ', _, toList_plainRest t, rfl⟩

theorem plainRest_unique (s t : Term) (r r' : List Char) (hs : s.IsElementary) (ht : t.IsElementary)
    (hr : ∀ c ∈ r.head?, c = ' ') (hr' : ∀ c ∈ r'.head?, c = ' ')
    (same : (plainRest s).toList ++ r = (plainRest t).toList ++ r') : s = t ∧ r = r' := by
  rw [toList_plainRest, toList_plainRest, List.append_assoc, List.append_assoc] at same
  obtain ⟨signs, after⟩ := List.append_inj same rfl
  exact magnitude_unique hs ht (separator_inj signs) hr hr' after

theorem head_magnitude (elementary : t.IsElementary) {r : List Char}
    (hr : ∀ c ∈ r.head?, c = ' ') : ∀ c ∈ (t.plainMagnitude.toList ++ r).head?, c ≠ '-' := by
  intro c first
  cases text : t.plainMagnitude.toList with
  | nil =>
    rw [text] at first
    rw [hr c first]
    decide
  | cons d ds =>
    rw [text] at first
    obtain rfl := Option.some.inj first
    exact (Term.of_mem_plainMagnitude elementary (text ▸ List.mem_cons_self)).2

theorem terms_unique {ss ts : List Term} (hs : ∀ x ∈ s :: ss, x.IsElementary)
    (ht : ∀ x ∈ t :: ts, x.IsElementary) (same : plain ⟨s :: ss⟩ = plain ⟨t :: ts⟩) :
    s :: ss = t :: ts := by
  obtain ⟨hs, hss⟩ := List.forall_mem_cons.mp hs
  obtain ⟨ht, hts⟩ := List.forall_mem_cons.mp ht
  have same := congrArg String.toList same
  rw [toList_plain, toList_plain] at same
  have blank := opens_flatMap starts_plainRest hss
  have blank' := opens_flatMap starts_plainRest hts
  obtain ⟨signs, same⟩ := append_unique (p := (· = '-'))
    (fun c member => decide_eq_true (eq_of_mem_leadingSign member))
    (fun c member => decide_eq_true (eq_of_mem_leadingSign member))
    (fun c first => decide_eq_false (head_magnitude hs blank c first))
    (fun c first => decide_eq_false (head_magnitude ht blank' c first)) same
  obtain ⟨rfl, rest⟩ := magnitude_unique hs ht (leadingSign_inj signs) blank blank' same
  rw [flatMap_unique starts_plainRest plainRest_unique hss hts rest]

theorem plain_ne_zero {ts : List Term} (ht : ∀ x ∈ t :: ts, x.IsElementary)
    (nonzero : t.coefficient.isZero = false) : plain ⟨t :: ts⟩ ≠ plain zero := by
  intro same
  -- The polynomial without terms is written like a term of coefficient zero, and no other term is.
  have constant : ∀ x ∈ [Term.constant 0], x.IsElementary :=
    List.forall_mem_singleton.mpr ⟨⟨0, rfl⟩, nofun⟩
  obtain ⟨rfl, -⟩ := List.cons.inj (terms_unique ht constant (same.trans (by decide +kernel)))
  cases nonzero

/-- A polynomial whose coefficients are whole numbers and whose variables are letters can be read back
from its text: no two are written alike. Magnitudes of one, powers of one and the text of the lowest
whole number, which is rounded, do not stand in the way. -/
theorem plain_determines_polynomial {p q : Polynomial} (hp : p.IsNormalized) (hq : q.IsNormalized)
    (elementary : ∀ t ∈ p.terms, t.IsElementary) (elementary' : ∀ t ∈ q.terms, t.IsElementary)
    (same : p.plain = q.plain) : p = q := by
  obtain ⟨ss⟩ := p
  obtain ⟨ts⟩ := q
  cases ss with
  | nil =>
    cases ts with
    | nil => rfl
    | cons t ts =>
      exact absurd same.symm (plain_ne_zero elementary' (hq.nonzero t List.mem_cons_self))
  | cons s ss =>
    cases ts with
    | nil => exact absurd same (plain_ne_zero elementary (hp.nonzero s List.mem_cons_self))
    | cons t ts => rw [terms_unique elementary elementary' same]

/-- The terms `xy`, `-2x^3` and the lowest whole number, added up in two orders. -/
theorem plain_determines_polynomial_orders :
    let ts : List Term := [⟨1, ⟨[("x", 1), ("y", 1)], by decide⟩⟩,
      ⟨.integer (-2), ⟨[("x", 3)], by decide⟩⟩, ⟨.integer Int64.minValue, .one⟩]
    (ofTerms ts).plain = "-2x^3 + xy - 9223372036854776000" ∧ ofTerms ts = ofTerms ts.reverse := by
  intro ts
  have positive : ∀ t ∈ ts, ∀ x ∈ t.monomial.powers, x.2 ≠ 0 := by decide
  have sorted : (ofTerms ts).terms = [⟨.integer (-2), ⟨[("x", 3)], by decide⟩⟩,
      ⟨1, ⟨[("x", 1), ("y", 1)], by decide⟩⟩, ⟨.integer Int64.minValue, .one⟩] := by decide +kernel
  have elementary : ∀ t ∈ (ofTerms ts).terms, t.IsElementary := by
    rw [sorted]
    have x : Monomial.IsLetter "x" := ⟨'x', rfl, rfl⟩
    have y : Monomial.IsLetter "y" := ⟨'y', rfl, rfl⟩
    refine List.forall_mem_cons.mpr ⟨⟨⟨_, rfl⟩, List.forall_mem_singleton.mpr x⟩, ?_⟩
    refine List.forall_mem_cons.mpr ⟨⟨⟨1, rfl⟩, ?_⟩, ?_⟩
    · exact List.forall_mem_cons.mpr ⟨x, List.forall_mem_singleton.mpr y⟩
    · exact List.forall_mem_singleton.mpr ⟨⟨_, rfl⟩, nofun⟩
  have reversed : (ofTerms ts.reverse).terms = (ofTerms ts).terms := by decide +kernel
  exact ⟨by decide +kernel, plain_determines_polynomial (isNormalized_ofTerms positive)
    (isNormalized_ofTerms fun t member => positive t (List.mem_reverse.mp member)) elementary
    (by rwa [reversed]) (by decide +kernel)⟩

end Polynomial
end Schoolbook
