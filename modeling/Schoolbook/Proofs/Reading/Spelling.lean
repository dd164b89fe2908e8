import Mathlib
import Schoolbook.Expr.Plain
import Schoolbook.Proofs.Expr.Nodes
import Schoolbook.Proofs.Number.Text
import Schoolbook.Proofs.Reading.Reader

/-! Ways to spell tokens, and texts that write down a shape in one of them: from each of these the
shape is read again. The texts of expressions are put together by the few steps that stand here. -/
namespace Schoolbook

/-- How a text falls into tokens. No number and no sign begins with a character that fits behind an
operand. -/
structure Spelling where
  lex : List Char → List Token
  fits : Char → Bool
  lex_nil : lex [] = []
  lex_digit : ∀ c rest, c.isDigit = true → lex (c :: rest) = .digit (c.toNat - '0'.toNat) :: lex rest
  lex_minus : ∀ rest, lex ('-' :: rest) = .operator .sub :: lex rest
  lex_plus : ∀ rest, lex ('+' :: rest) = .operator .add :: lex rest
  fits_digit : ∀ c, c.isDigit = true → ¬fits c = true
  fits_minus : ¬fits '-' = true
  fits_plus : ¬fits '+' = true

namespace Spelling
variable (sp : Spelling)

/-- The text stands for the tokens, whatever follows. -/
def Spells (text : String) (ts : List Token) : Prop :=
  ∀ rest, sp.lex (text.toList ++ rest) = ts ++ sp.lex rest

/-- If the first character fits behind an operand, so does the first token. -/
def Starts (text : String) (ts : List Token) : Prop :=
  ∃ c ∈ text.toList.head?, ∃ t ∈ ts.head?, sp.fits c = true → t.juxtaposes = true

/-- The text writes down the shape and binds at least like `p`. -/
def Writes (text : String) (p : Precedence) (shape : Shape) : Prop :=
  ∃ s : Script, s.Legible ∧ s.shape = shape ∧ p ≤ s.level ∧ sp.Spells text s.tokens ∧
    sp.Starts text s.tokens

/-- The text between two operands stands for the operator, or for nothing if the operands may be
written side by side. -/
def Joins (kind : BinaryKind) (symbol rhs : String) : Prop :=
  ∃ written : Bool, sp.Spells symbol (if written then [.operator kind] else []) ∧
    (written = false → kind = .mul ∧ ∀ c ∈ rhs.toList.head?, sp.fits c = true)

variable {sp} {text more opening closing : String} {ts us : List Token} {p q : Precedence}
  {shape shape' : Shape}

theorem Spells.append (first : sp.Spells text ts) (second : sp.Spells more us) :
    sp.Spells (text ++ more) (ts ++ us) := by
  intro rest
  rw [String.toList_append, List.append_assoc, first, second, List.append_assoc]

theorem spells_empty : sp.Spells "" [] := fun _ => rfl

theorem Starts.append (starts : sp.Starts text ts) (more : String) (us : List Token) :
    sp.Starts (text ++ more) (ts ++ us) := by
  obtain ⟨c, first, t, top, fitting⟩ := starts
  refine ⟨c, ?_, t, ?_, fitting⟩
  · rw [String.toList_append, List.head?_append, Option.mem_def.mp first]
    rfl
  · rw [List.head?_append, Option.mem_def.mp top]
    rfl

theorem spells_digits {cs : List Char} (digits : ∀ c ∈ cs, c.isDigit = true) :
    sp.Spells (String.ofList cs) (cs.map fun c => .digit (c.toNat - '0'.toNat)) := by
  intro rest
  rw [String.toList_ofList]
  induction cs with
  | nil => rfl
  | cons c cs ih =>
    obtain ⟨here, digits⟩ := List.forall_mem_cons.mp digits
    rw [List.cons_append, sp.lex_digit c _ here, ih digits, List.map_cons, List.cons_append]

theorem Joins.written {kind : BinaryKind} {symbol : String}
    (spelled : sp.Spells symbol [.operator kind]) (rhs : String) : sp.Joins kind symbol rhs := ⟨true, spelled, nofun⟩

/-- A product whose operator is left out if what follows begins with a character that fits. -/
theorem Joins.omitted (begins : List Char → Bool) (fitting : ∀ c cs, begins (c :: cs) = sp.fits c)
    {symbol : String} (spelled : sp.Spells symbol [.operator .mul]) (implicit : Bool) (rhs : String) :
    sp.Joins .mul (if implicit && begins rhs.toList then "" else symbol) rhs := by
  split_ifs with bare
  · refine ⟨false, spells_empty, fun _ => ⟨rfl, ?_⟩⟩
    intro c first
    obtain ⟨cs, text⟩ := List.head?_eq_some_iff.mp first
    rw [text, fitting, Bool.and_eq_true] at bare
    exact bare.2
  · exact .written spelled rhs

theorem spells_sign {op : UnaryKind} (known : op ≠ .unknown) :
    sp.Spells op.symbol [op.token] ∧ sp.Starts op.symbol [op.token] := by
  cases op with
  | neg => exact ⟨sp.lex_minus, '-', rfl, _, rfl, fun fitting => absurd fitting sp.fits_minus⟩
  | pos => exact ⟨sp.lex_plus, '+', rfl, _, rfl, fun fitting => absurd fitting sp.fits_plus⟩
  | unknown => exact absurd rfl known

namespace Writes

/-- The shape is read from the text. -/
theorem read (writes : sp.Writes text p shape) : Shape.read? (sp.lex text.toList) = some shape := by
  obtain ⟨s, legible, same, -, spells, -⟩ := writes
  have lexed := spells []
  rw [List.append_nil, sp.lex_nil, List.append_nil] at lexed
  rw [lexed, Script.read?_tokens legible, same]

/-- A text writes down one shape only. -/
theorem unique (writes : sp.Writes text p shape) (writes' : sp.Writes text q shape') :
    shape = shape' :=
  Option.some.inj (writes.read.symm.trans writes'.read)

theorem mono (writes : sp.Writes text p shape) (looser : q ≤ p) : sp.Writes text q shape := by
  obtain ⟨s, legible, same, tight, spells⟩ := writes
  exact ⟨s, legible, same, Nat.le_trans looser tight, spells⟩

theorem number (n : Nat) : sp.Writes n.repr .atom (.number n) := by
  have digits : ∀ c ∈ Nat.toDigits 10 n, c.isDigit = true := fun _ => isDigit_of_mem_toDigits
  obtain ⟨c, cs, split⟩ := List.exists_cons_of_ne_nil (Nat.toDigits_ne_nil (n := n) (b := 10))
  rw [Nat.repr_eq_ofList_toDigits]
  refine ⟨.number n, trivial, rfl, Nat.le_refl _, spells_digits digits, c, ?_,
    .digit (c.toNat - '0'.toNat), ?_, fun fitting => ?_⟩
  · rw [String.toList_ofList, split]
    rfl
  · rw [Script.tokens, Script.digits, split]
    rfl
  · exact absurd fitting (sp.fits_digit c (digits c (split ▸ List.mem_cons_self)))

theorem letter {c : Char} (lexed : ∀ rest, sp.lex (c :: rest) = .letter c :: sp.lex rest) :
    sp.Writes c.toString .atom (.var c.toString) := by
  have text : c.toString.toList = [c] := by
    rw [Char.toString_eq_singleton, String.toList_singleton]
  refine ⟨.letter c, trivial, rfl, Nat.le_refl _, fun rest => ?_, c, ?_, _, rfl, fun _ => rfl⟩
  · rw [text]
    exact lexed rest
  · rw [text]
    rfl

theorem sign {op : UnaryKind} (known : op ≠ .unknown) (writes : sp.Writes text .sign shape) :
    sp.Writes (op.symbol ++ text) .sign (.unary op shape) := by
  obtain ⟨s, legible, same, tight, spells, -⟩ := writes
  obtain ⟨sign, starts⟩ : sp.Spells op.symbol [op.token] ∧ sp.Starts op.symbol [op.token] :=
    spells_sign known
  refine ⟨.sign op s, ⟨known, tight, legible⟩, ?_, Nat.le_refl _, sign.append spells,
    starts.append text s.tokens⟩
  rw [Script.shape, same]

/-- A negative whole number has its sign in front. -/
theorem integer (n : Int64) :
    sp.Writes (Number.integer n).plain (Expr.constant (.integer n)).precedence
      (Expr.constant (.integer n)).shape := by
  have text : (Number.integer n).plain =
      if 0 ≤ n.toInt then n.toInt.toNat.repr else "-" ++ (-n.toInt).toNat.repr := by
    rw [← Int.repr_eq_if, ← Int.toString_eq_repr]
    rfl
  simp only [text, Expr.precedence, Expr.shape, Number.isNegative_integer]
  split_ifs with above below below
  · omega
  · rw [show n.toInt.natAbs = n.toInt.toNat by omega]
    exact number _
  · have known : UnaryKind.neg ≠ .unknown := by decide
    rw [show n.toInt.natAbs = (-n.toInt).toNat by omega]
    exact sign known ((number _).mono (by decide))
  · omega

/-- Parentheses around a text, whatever they look like. -/
theorem enclosed (writes : sp.Writes text .any shape) (opens : sp.Spells opening [.openParens])
    (starts : sp.Starts opening [.openParens]) (closes : sp.Spells closing [.close]) :
    sp.Writes (opening ++ text ++ closing) .atom shape := by
  obtain ⟨s, legible, same, -, spells, -⟩ := writes
  refine ⟨.parens s, legible, same, Nat.le_refl _, ?_, (starts.append text s.tokens).append _ [.close]⟩
  exact (opens.append spells).append closes

/-- An operand with parentheses where they are needed. -/
theorem wrapped (needed : Bool) (writes : sp.Writes text p shape)
    (opens : sp.Spells opening [.openParens]) (starts : sp.Starts opening [.openParens])
    (closes : sp.Spells closing [.close]) :
    sp.Writes (if needed then opening ++ text ++ closing else text) (if needed then .atom else p)
      shape := by
  cases needed with
  | true => exact (writes.mono (Nat.zero_le _)).enclosed opens starts closes
  | false => exact writes

theorem root (writes : sp.Writes text .any shape) (opens : sp.Spells opening [.openRoot])
    (starts : sp.Starts opening [.openRoot]) (closes : sp.Spells closing [.close]) :
    sp.Writes (opening ++ text ++ closing) .atom (.call .sqrt shape) := by
  obtain ⟨s, legible, same, -, spells, -⟩ := writes
  refine ⟨.root s, legible, ?_, Nat.le_refl _, ?_, (starts.append text s.tokens).append _ [.close]⟩
  · rw [Script.shape, same]
  · exact (opens.append spells).append closes

/-- The right operand stands in delimiters of its own. -/
theorem argument {kind : BinaryKind} (left : sp.Writes text .atom shape)
    (right : sp.Writes more .any shape') (opens : sp.Spells opening [.openArgument kind])
    (closes : sp.Spells closing [.close]) :
    sp.Writes (text ++ (opening ++ more ++ closing)) .atom (.binary kind shape shape') := by
  obtain ⟨l, legible, same, tight, spells, starts⟩ := left
  obtain ⟨r, legible', same', -, spells', -⟩ := right
  have atom : l.level = .atom := by
    cases level : l.level <;> rw [level] at tight <;> first | rfl | exact absurd tight (by decide)
  refine ⟨.argument kind l r, ⟨atom, legible, legible'⟩, ?_, Nat.le_refl _,
    spells.append ((opens.append spells').append closes), starts.append _ _⟩
  rw [Script.shape, same, same']

theorem operation {kind : BinaryKind} {symbol : String} (admits : kind.Admits .left p)
    (admits' : kind.Admits .right q) (left : sp.Writes text p shape) (right : sp.Writes more q shape')
    (joins : sp.Joins kind symbol more) :
    sp.Writes (text ++ symbol ++ more) kind.precedence (.binary kind shape shape') := by
  obtain ⟨l, legible, same, tight, spells, starts⟩ := left
  obtain ⟨r, legible', same', tight', spells', c, first, t, top, fitting⟩ := right
  obtain ⟨written, spelled, apart⟩ := joins
  have juxtaposed : written = false → kind = .mul ∧ ∃ t ∈ r.tokens.head?, t.juxtaposes = true :=
    fun bare => ⟨(apart bare).1, t, top, fitting ((apart bare).2 c first)⟩
  rw [String.append_assoc]
  refine ⟨.operation kind written l r, ⟨admits.mono tight, admits'.mono tight', juxtaposed, legible,
    legible'⟩, ?_, Nat.le_refl _, spells.append (spelled.append spells'), starts.append _ _⟩
  rw [Script.shape, same, same']

end Writes
end Spelling

/-- What holds of an operand in parentheses, and of one that is neither looser than the operator nor
equally tight on the wrong side. -/
theorem BinaryKind.admits_operand {kind : BinaryKind} {side wrong : Associativity} {needed : Bool}
    {p : Precedence} (opposite : kind.associativity ≠ side → kind.associativity = wrong)
    (chosen : needed = (p < kind.precedence || p = kind.precedence && kind.associativity = wrong)) :
    kind.Admits side (if needed then .atom else p) := by
  split_ifs with parenthesized
  · exact kind.admits_atom side
  · rw [chosen, Bool.or_eq_true, Bool.and_eq_true] at parenthesized
    simp only [decide_eq_true_iff, not_or, not_and] at parenthesized
    obtain ⟨tight, apart⟩ := parenthesized
    rcases Nat.eq_or_lt_of_le (Nat.not_lt.mp tight) with level | above
    · have same : kind.precedence = p := Precedence.level_inj.mpr level
      exact .inr ⟨same, not_not.mp fun other => apart same.symm (opposite other)⟩
    · exact .inl above

namespace BinaryOp

theorem admits_left (op : BinaryOp) (lhs : Expr) :
    op.kind.Admits .left (if op.parenthesizesLeft lhs then .atom else lhs.precedence) :=
  BinaryKind.admits_operand (by cases op.kind.associativity <;> simp) rfl

theorem admits_right (op : BinaryOp) (rhs : Expr) :
    op.kind.Admits .right (if op.parenthesizesRight rhs then .atom else rhs.precedence) :=
  BinaryKind.admits_operand (by cases op.kind.associativity <;> simp) rfl

end BinaryOp

theorem UnaryKind.sign_le (operand : Expr) :
    .sign ≤ if UnaryKind.parenthesizes operand then Precedence.atom else operand.precedence := by
  split_ifs with needed
  · decide
  · rw [UnaryKind.parenthesizes, decide_eq_true_iff] at needed
    exact Nat.not_lt.mp needed

theorem UnaryKind.precedence_of_known {op : UnaryKind} (known : op ≠ .unknown) :
    op.precedence = .sign := by
  cases op with
  | neg | pos => rfl
  | unknown => exact absurd rfl known

namespace Expr

/-- A well-formed expression of whole numbers and of variables that are named by the given letters. -/
structure IsElementary (letters : Char → Prop) (e : Expr) : Prop where
  formed : e.WellFormed
  whole : e.Everywhere fun n => ∀ x, n = constant x → x.integer?.isSome = true
  named : e.Everywhere fun n => ∀ name, n = var name → ∃ c, letters c ∧ name = c.toString

namespace IsElementary
variable {letters : Char → Prop}

theorem constant {x : Number} (elementary : (constant x).IsElementary letters) :
    ∃ n, x = .integer n := by
  have whole := elementary.whole [] _ rfl x rfl
  cases x with
  | integer n => exact ⟨n, rfl⟩
  | fraction q => cases whole
  | double y => cases whole

theorem var {name : String} (elementary : (var name).IsElementary letters) :
    ∃ c, letters c ∧ name = c.toString :=
  elementary.named [] _ rfl name rfl

theorem child {e c : Expr} (elementary : e.IsElementary letters) (member : c ∈ e.children) :
    c.IsElementary letters where
  formed := (everywhere_iff.mp elementary.formed).2 c member
  whole := (everywhere_iff.mp elementary.whole).2 c member
  named := (everywhere_iff.mp elementary.named).2 c member

theorem known {e : Expr} (elementary : e.IsElementary letters) : e.isMalformedNode = false :=
  elementary.formed [] e rfl

end IsElementary
end Expr
end Schoolbook
