import Mathlib
import Schoolbook.Proofs.Reading.Spelling

/-! The plain text of an expression determines its shape. -/
namespace Schoolbook

theorem isDigit_of_isAlpha {c : Char} (letter : c.isAlpha = true) : c.isDigit = false := by
  simp only [Char.isAlpha, Char.isUpper, Char.isLower, Char.isDigit] at *
  grind

namespace Token

/-- What a character means by itself. -/
def ofChar (c : Char) : Token :=
  if c.isDigit then .digit (c.toNat - '0'.toNat)
  else
    match c with
    | '+' => .operator .add
    | '-' => .operator .sub
    | '*' => .operator .mul
    | '/' => .operator .div
    | '^' => .operator .pow
    | '(' => .openParens
    | ')' => .close
    | _ => .letter c

theorem ofChar_digit {c : Char} (digit : c.isDigit = true) : ofChar c = .digit (c.toNat - '0'.toNat) :=
  if_pos digit

theorem ofChar_letter {c : Char} (letter : c.isAlpha = true) : ofChar c = .letter c := by
  have symbol : c ∉ ['+', '-', '*', '/', '^', '(', ')'] := fun member => by
    fin_cases member <;> cases letter
  simp only [List.mem_cons, List.not_mem_nil, or_false, not_or] at symbol
  simp [ofChar, isDigit_of_isAlpha letter, symbol]

end Token

namespace Plain

def tokens : List Char → List Token
  | 's' :: 'q' :: 'r' :: 't' :: '(' :: rest => .openRoot :: tokens rest
  | c :: rest => .ofChar c :: tokens rest
  | [] => []

theorem tokens_cons {c : Char} (other : c ≠ 's') (rest : List Char) :
    tokens (c :: rest) = .ofChar c :: tokens rest := by
  simp [tokens, other]

theorem tokens_root (rest : List Char) :
    tokens ('s' :: 'q' :: 'r' :: 't' :: '(' :: rest) = .openRoot :: tokens rest := by
  rw [tokens]

def spelling : Spelling where
  lex := tokens
  fits := fun c => BinaryOp.symbol.juxtaposes [c]
  lex_nil := rfl
  lex_digit c rest digit := by
    rw [tokens_cons, Token.ofChar_digit digit]
    rintro rfl
    cases digit
  lex_minus := tokens_cons (by decide)
  lex_plus := tokens_cons (by decide)
  fits_digit c digit := by
    have basic : c.toNat < 0x80 :=
      Nat.lt_of_le_of_lt (Char.isDigit_iff_toNat.mp digit).2 (by decide)
    rw [BinaryOp.symbol.juxtaposes, Text.isAlphabetic, if_pos basic, Bool.or_eq_true, not_or]
    constructor
    · intro letter
      exact absurd (digit.symm.trans (isDigit_of_isAlpha letter)) nofun
    · rw [decide_eq_true_iff]
      rintro rfl
      cases digit
  fits_minus := by decide
  fits_plus := by decide

theorem spells_char {c : Char} (other : c ≠ 's') :
    spelling.Spells (String.singleton c) [.ofChar c] := by
  intro rest
  rw [String.toList_singleton]
  exact tokens_cons other rest

theorem starts_parens : spelling.Starts "(" [.openParens] := ⟨'(', rfl, _, rfl, fun _ => rfl⟩

theorem starts_root : spelling.Starts "sqrt(" [.openRoot] := ⟨'s', rfl, _, rfl, fun _ => rfl⟩

theorem joins_symbol (op : BinaryOp) (known : op.kind ≠ .unknown) (rhs : String) :
    spelling.Joins op.kind (op.symbol rhs) rhs := by
  obtain ⟨kind, implicit⟩ := op
  cases kind with
  | unknown => exact absurd rfl known
  | add => exact .written (spells_char (c := '+') (by decide)) rhs
  | sub => exact .written (spells_char (c := '-') (by decide)) rhs
  | div => exact .written (spells_char (c := '/') (by decide)) rhs
  | pow => exact .written (spells_char (c := '^') (by decide)) rhs
  | mul =>
    exact .omitted BinaryOp.symbol.juxtaposes (fun _ _ => rfl) (spells_char (c := '*') (by decide))
      implicit rhs

theorem writes_plain {e : Expr} (elementary : e.IsElementary fun c => c.isAlpha = true ∧ c ≠ 's') :
    spelling.Writes e.plain e.precedence e.shape := by
  have opens : spelling.Spells "(" [.openParens] := spells_char (c := '(') (by decide)
  have closes : spelling.Spells ")" [.close] := spells_char (c := ')') (by decide)
  induction e with
  | constant x =>
    obtain ⟨n, rfl⟩ := elementary.constant
    exact .integer n
  | var name =>
    obtain ⟨c, ⟨letter, other⟩, rfl⟩ := elementary.var
    refine .letter fun rest => ?_
    rw [← Token.ofChar_letter letter]
    exact tokens_cons other rest
  | unset => cases elementary.known
  | group inner ih =>
    have below := ih (elementary.child (.head _))
    exact (below.mono (Nat.zero_le _)).enclosed opens starts_parens closes
  | call func arg ih =>
    cases func with
    | unknown => cases elementary.known
    | sqrt =>
      have below := ih (elementary.child (.head _))
      exact (below.mono (Nat.zero_le _)).root tokens_root starts_root closes
  | unary op operand ih =>
    have known : op ≠ .unknown := of_decide_eq_false elementary.known
    have below := ih (elementary.child (.head _))
    have operand := (below.wrapped (UnaryKind.parenthesizes operand) opens starts_parens closes).mono
      (UnaryKind.sign_le operand)
    rw [Expr.precedence, UnaryKind.precedence_of_known known]
    exact .sign known operand
  | binary op lhs rhs ihl ihr =>
    have known : op.kind ≠ .unknown := of_decide_eq_false elementary.known
    have left := (ihl (elementary.child (.head _))).wrapped (op.parenthesizesLeft lhs) opens
      starts_parens closes
    have right := (ihr (elementary.child (.tail _ (.head _)))).wrapped (op.parenthesizesRight rhs) opens
      starts_parens closes
    exact .operation (op.admits_left lhs) (op.admits_right rhs) left right (joins_symbol op known _)

/-- Expressions of whole numbers and letters with one text have one shape. The letter that begins the
name of the root is left out. -/
theorem plain_determines_shape {a b : Expr} (ha : a.IsElementary fun c => c.isAlpha = true ∧ c ≠ 's')
    (hb : b.IsElementary fun c => c.isAlpha = true ∧ c ≠ 's') (same : a.plain = b.plain) :
    a.shape = b.shape := by
  have writes := writes_plain ha
  rw [same] at writes
  exact writes.unique (writes_plain hb)

/-- `2*3-(-3+y)` may hold a number below zero in a group, or the sign of a number and no group. -/
theorem plain_determines_shape_sign :
    let number (n : Int64) : Expr := .constant (.integer n)
    let a : Expr := .binary ⟨.sub, false⟩ (.binary ⟨.mul, true⟩ (number 2) (number 3))
      (.group (.binary ⟨.add, false⟩ (number (-3)) (.var "y")))
    let b : Expr := .binary ⟨.sub, false⟩ (.binary ⟨.mul, false⟩ (number 2) (number 3))
      (.binary ⟨.add, false⟩ (.unary .neg (number 3)) (.var "y"))
    a.plain = "2*3-(-3+y)" ∧ b.plain = "2*3-(-3+y)" ∧ a ≠ b ∧ a.shape = b.shape := by
  intro number a b
  have ha : a.IsElementary fun c => c.isAlpha = true ∧ c ≠ 's' := by
    refine ⟨?_, ?_, ?_⟩
    · simp [a, number, Expr.WellFormed, Expr.isMalformedNode]
    · simp [a, number, Number.integer?]
    · simpa [a, number] using ⟨'y', by decide⟩
  have hb : b.IsElementary fun c => c.isAlpha = true ∧ c ≠ 's' := by
    refine ⟨?_, ?_, ?_⟩
    · simp [b, number, Expr.WellFormed, Expr.isMalformedNode]
    · simp [b, number, Number.integer?]
    · simpa [b, number] using ⟨'y', by decide⟩
  have text : a.plain = "2*3-(-3+y)" := by decide +kernel
  have text' : b.plain = "2*3-(-3+y)" := by decide +kernel
  exact ⟨text, text', by decide, plain_determines_shape ha hb (text.trans text'.symm)⟩

end Plain
end Schoolbook
