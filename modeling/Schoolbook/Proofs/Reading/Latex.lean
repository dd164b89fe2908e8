import Mathlib
import Schoolbook.Expr.Latex
import Schoolbook.Proofs.Reading.Plain

/-! The LaTeX form of an expression determines its shape, however divisions are drawn. -/
namespace Schoolbook.Latex

/-- A fraction is read as a numerator in parentheses, with a denominator in braces behind it. -/
def tokens : List Char → List Token
  | '\\' :: 'l' :: 'e' :: 'f' :: 't' :: '(' :: rest => .openParens :: tokens rest
  | '\\' :: 'r' :: 'i' :: 'g' :: 'h' :: 't' :: ')' :: rest => .close :: tokens rest
  | '\\' :: 'f' :: 'r' :: 'a' :: 'c' :: '\x7b' :: rest => .openParens :: tokens rest
  | '\\' :: 's' :: 'q' :: 'r' :: 't' :: '\x7b' :: rest => .openRoot :: tokens rest
  | '\\' :: 't' :: 'i' :: 'm' :: 'e' :: 's' :: rest => .operator .mul :: tokens rest
  | '\\' :: 'd' :: 'i' :: 'v' :: rest => .operator .div :: tokens rest
  | '^' :: '\x7b' :: rest => .openArgument .pow :: tokens rest
  | '\x7b' :: rest => .openArgument .div :: tokens rest
  | '\x7d' :: rest => .close :: tokens rest
  | ' ' :: rest => tokens rest
  | c :: rest => .ofChar c :: tokens rest
  | [] => []

theorem tokens_cons {c : Char} (plain : c ∉ ['\\', '^', '\x7b', '\x7d', ' ']) (rest : List Char) :
    tokens (c :: rest) = .ofChar c :: tokens rest := by
  simp only [List.mem_cons, List.not_mem_nil, or_false, not_or] at plain
  simp [tokens, plain]

def spelling : Spelling where
  lex := tokens
  fits := fun c => !BinaryOp.latexSymbol.startsLikeNumber [c]
  lex_nil := rfl
  lex_digit c rest digit := by
    have plain : c ∉ ['\\', '^', '\x7b', '\x7d', ' '] := fun member => by
      fin_cases member <;> cases digit
    rw [tokens_cons plain, Token.ofChar_digit digit]
  lex_minus := tokens_cons (by decide)
  lex_plus := tokens_cons (by decide)
  fits_digit c digit := by
    rw [BinaryOp.latexSymbol.startsLikeNumber, digit]
    nofun
  fits_minus := by decide
  fits_plus := by decide

theorem spells_spaced (text : String) {ts : List Token} (spelled : spelling.Spells text ts) :
    spelling.Spells (" " ++ text ++ " ") ts := by
  have space : spelling.Spells " " [] := fun rest => by
    change tokens (' ' :: rest) = tokens rest
    simp [tokens]
  have spaced := (space.append spelled).append space
  rwa [List.nil_append, List.append_nil] at spaced

theorem joins_latexSymbol (op : BinaryOp) (known : op.kind ≠ .unknown) (inline : op.kind ≠ .pow)
    (rhs : String) : spelling.Joins op.kind (op.latexSymbol rhs) rhs := by
  obtain ⟨kind, implicit⟩ := op
  cases kind with
  | unknown => exact absurd rfl known
  | pow => exact absurd rfl inline
  | add => exact .written (spells_spaced "+" spelling.lex_plus) rhs
  | sub => exact .written (spells_spaced "-" spelling.lex_minus) rhs
  | div => exact .written (spells_spaced "\\div" fun _ => rfl) rhs
  | mul =>
    exact .omitted (fun cs => !BinaryOp.latexSymbol.startsLikeNumber cs) (fun _ _ => rfl)
      (spells_spaced "\\times" fun _ => rfl) implicit rhs

section
variable {text more : String} {p : Precedence} {shape shape' : Shape}

theorem writes_stretched (needed : Bool) (writes : spelling.Writes text p shape) :
    spelling.Writes (Expr.stretched needed text) (if needed then .atom else p) shape :=
  writes.wrapped needed (fun _ => rfl) ⟨'\\', rfl, _, rfl, fun _ => rfl⟩ fun _ => rfl

/-- A command is written directly before the braces of its argument. -/
theorem command_braced (command text : String) :
    command ++ Expr.braced text = command ++ "\x7b" ++ text ++ "\x7d" := by
  rw [Expr.braced, String.append_assoc, String.append_assoc, String.append_assoc]

theorem writes_root (writes : spelling.Writes text .any shape) :
    spelling.Writes ("\\sqrt" ++ Expr.braced text) .atom (.call .sqrt shape) := by
  rw [command_braced]
  exact writes.root (fun _ => rfl) ⟨'\\', rfl, _, rfl, fun _ => rfl⟩ fun _ => rfl

theorem writes_fraction (left : spelling.Writes text .any shape)
    (right : spelling.Writes more .any shape') :
    spelling.Writes ("\\frac" ++ Expr.braced text ++ Expr.braced more) .atom
      (.binary .div shape shape') := by
  have numerator : spelling.Writes ("\\frac" ++ Expr.braced text) .atom shape := by
    rw [command_braced]
    exact left.enclosed (fun _ => rfl) ⟨'\\', rfl, _, rfl, fun _ => rfl⟩ fun _ => rfl
  exact numerator.argument right (fun _ => rfl) fun _ => rfl

/-- The base of a power is an atom, because looser expressions are parenthesized. -/
theorem writes_power (left : spelling.Writes text p shape) (right : spelling.Writes more .any shape') :
    spelling.Writes (Expr.stretched (p ≤ .power) text ++ "^" ++ Expr.braced more) .atom
      (.binary .pow shape shape') := by
  have tight : Precedence.atom ≤ if decide (p ≤ .power) then .atom else p := by
    split_ifs with loose
    · exact Nat.le_refl _
    · exact Nat.not_le.mp fun below => loose (decide_eq_true below)
  have base := (writes_stretched (p ≤ .power) left).mono tight
  rw [String.append_assoc, command_braced]
  exact base.argument right (fun _ => rfl) fun _ => rfl

end

/-- Without the groups around it, an expression may bind more loosely. -/
theorem writes_latexFrom (style : LatexStyle) (bare : Bool) {e : Expr}
    (elementary : e.IsElementary fun c => c.isAlpha = true) :
    spelling.Writes (e.latexFrom style bare) (if bare then .any else e.precedence) e.shape := by
  have looser (bare : Bool) (p : Precedence) : (if bare then .any else p) ≤ p := by
    cases bare
    · exact Nat.le_refl _
    · exact Nat.zero_le _
  induction e generalizing bare with
  | constant x =>
    obtain ⟨n, rfl⟩ := elementary.constant
    exact (Spelling.Writes.integer n).mono (looser bare _)
  | var name =>
    obtain ⟨c, letter, rfl⟩ := elementary.var
    have plain : c ∉ ['\\', '^', '\x7b', '\x7d', ' '] := fun member => by
      fin_cases member <;> cases letter
    refine Spelling.Writes.mono (.letter fun rest => ?_) (looser bare _)
    rw [← Token.ofChar_letter letter]
    exact tokens_cons plain rest
  | unset => cases elementary.known
  | group inner ih =>
    have below (bare : Bool) := ih bare (elementary.child (.head _))
    -- Inside braces a group leaves no trace, so the operand may be looser than the group.
    cases bare with
    | true => exact below true
    | false => exact writes_stretched true (below false)
  | call func arg ih =>
    cases func with
    | unknown => cases elementary.known
    | sqrt =>
      have below := ih true (elementary.child (.head _))
      exact (writes_root below).mono (looser bare _)
  | unary op operand ih =>
    have known : op ≠ .unknown := of_decide_eq_false elementary.known
    have below := writes_stretched (UnaryKind.parenthesizes operand)
      (ih false (elementary.child (.head _)))
    rw [Expr.latexFrom, Expr.precedence, UnaryKind.precedence_of_known known]
    exact (Spelling.Writes.sign known (below.mono (UnaryKind.sign_le operand))).mono (looser bare _)
  | binary op lhs rhs ihl ihr =>
    have known : op.kind ≠ .unknown := of_decide_eq_false elementary.known
    have left (bare : Bool) := ihl bare (elementary.child (.head _))
    have right (bare : Bool) := ihr bare (elementary.child (.tail _ (.head _)))
    have atom : op.kind.precedence ≤ .atom := (op.kind.admits_atom .left).le
    refine Spelling.Writes.mono ?_ (looser bare op.kind.precedence)
    rw [Expr.latexFrom, Expr.shape]
    split_ifs with power fraction
    · rw [power]
      exact (writes_power (left false) (right true)).mono (power ▸ atom)
    · rw [fraction.1]
      exact (writes_fraction (left true) (right true)).mono (fraction.1 ▸ atom)
    · have left := writes_stretched (op.parenthesizesLeft lhs) (left false)
      have right := writes_stretched (op.parenthesizesRight rhs) (right false)
      exact left.operation (op.admits_left lhs) (op.admits_right rhs) right
        (joins_latexSymbol op known power _)

/-- Expressions of whole numbers and letters with one LaTeX form have one shape. -/
theorem latex_determines_shape {style : LatexStyle} {a b : Expr}
    (ha : a.IsElementary fun c => c.isAlpha = true) (hb : b.IsElementary fun c => c.isAlpha = true)
    (same : a.latex style = b.latex style) : a.shape = b.shape := by
  have writes := writes_latexFrom style false ha
  have writes' := writes_latexFrom style false hb
  rw [Expr.latex, Expr.latex] at same
  rw [same] at writes
  exact writes.unique writes'

/-- In `\frac{x + 1}{2}\sqrt{s}^{-3}` no group shows, because braces stand in its place. -/
theorem latex_determines_shape_fraction :
    let style : LatexStyle := ⟨true⟩
    let number (n : Int64) : Expr := .constant (.integer n)
    let sum : Expr := .binary ⟨.add, false⟩ (.var "x") (number 1)
    let a : Expr := .binary ⟨.mul, true⟩ (.binary ⟨.div, false⟩ (.group sum) (number 2))
      (.binary ⟨.pow, false⟩ (.call .sqrt (.var "s")) (.group (.group (number (-3)))))
    let b : Expr := .binary ⟨.mul, true⟩ (.binary ⟨.div, true⟩ sum (.group (number 2)))
      (.binary ⟨.pow, true⟩ (.call .sqrt (.group (.var "s"))) (.unary .neg (number 3)))
    a.latex style = "\\frac\x7bx + 1\x7d\x7b2\x7d\\sqrt\x7bs\x7d^\x7b-3\x7d" ∧
      b.latex style = a.latex style ∧ a ≠ b ∧ a.shape = b.shape := by
  intro style number sum a b
  have ha : a.IsElementary fun c => c.isAlpha = true := by
    refine ⟨?_, ?_, ?_⟩
    · simp [a, sum, number, Expr.WellFormed, Expr.isMalformedNode]
    · simp [a, sum, number, Number.integer?]
    · simpa [a, sum, number] using ⟨⟨'x', by decide⟩, ⟨'s', by decide⟩⟩
  have hb : b.IsElementary fun c => c.isAlpha = true := by
    refine ⟨?_, ?_, ?_⟩
    · simp [b, sum, number, Expr.WellFormed, Expr.isMalformedNode]
    · simp [b, sum, number, Number.integer?]
    · simpa [b, sum, number] using ⟨⟨'x', by decide⟩, ⟨'s', by decide⟩⟩
  have same : b.latex style = a.latex style := by decide +kernel
  exact ⟨by decide +kernel, same, by decide, latex_determines_shape ha hb same.symm⟩

end Schoolbook.Latex
