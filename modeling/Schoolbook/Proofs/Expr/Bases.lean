import Mathlib
import Schoolbook.Proofs.Expr.Malformed
import Schoolbook.Proofs.Expr.Spans
import Schoolbook.Proofs.Number.Text

/-! The base of a power in plain text and in LaTeX. It stands in parentheses or begins without a sign, so
a sign in front of a power is never that of its base. Only the negative zero is written otherwise. -/
namespace Schoolbook

/-- A text that stands somewhere in another one. -/
def Occurs (part text : String) : Prop := ∃ start, StandsAt start part text

namespace Occurs
variable {part middle text : String}

theorem refl (text : String) : Occurs text text := ⟨0, .refl text⟩

theorem prepend (before : String) (occurs : Occurs part text) : Occurs part (before ++ text) := by
  obtain ⟨start, stands⟩ := occurs
  exact ⟨_, stands.prepend before⟩

theorem append (after : String) (occurs : Occurs part text) : Occurs part (text ++ after) := by
  obtain ⟨start, stands⟩ := occurs
  exact ⟨_, stands.append after⟩

theorem trans (inner : Occurs part middle) (outer : Occurs middle text) : Occurs part text := by
  obtain ⟨start, stands⟩ := inner
  obtain ⟨offset, around⟩ := outer
  exact ⟨_, stands.trans around⟩

theorem braced (text : String) : Occurs text (Expr.braced text) :=
  ((refl text).prepend "\x7b").append "\x7d"

theorem stretched (needed : Bool) (text : String) : Occurs text (Expr.stretched needed text) := by
  cases needed with
  | false => exact .refl text
  | true => exact ((refl text).prepend "\\left(").append "\\right)"

end Occurs

namespace Expr

theorem occurs_plain {e n : Expr} {path : List Nat} (found : e.node? path = some n) :
    Occurs n.plain e.plain := by
  have spanned := e.isSome_span? path
  rw [found, Option.isSome_some] at spanned
  obtain ⟨span, spanned⟩ := Option.isSome_iff_exists.mp spanned
  obtain ⟨m, same, marks⟩ := span?_eq_some spanned
  cases found.symm.trans same
  exact ⟨_, marks.stands⟩

section
variable (style : LatexStyle)

/-- Every child is rendered, with or without the groups around it. -/
theorem occurs_latexFrom_child {e c : Expr} {index : Nat} (step : e.child? index = some c)
    (bare : Bool) : ∃ inner, Occurs (c.latexFrom style inner) (e.latexFrom style bare) := by
  cases e with
  | constant x => cases step
  | var name => cases step
  | unset => cases step
  | group inner =>
    obtain ⟨rfl, rfl⟩ := child?_group_eq_some.mp step
    cases bare with
    | false => exact ⟨false, .stretched true _⟩
    | true => exact ⟨true, .refl _⟩
  | call func arg =>
    obtain ⟨rfl, rfl⟩ := child?_call_eq_some.mp step
    cases func with
    | sqrt => exact ⟨true, (Occurs.braced _).prepend "\\sqrt"⟩
    | unknown => exact ⟨false, (Occurs.stretched true _).prepend "?"⟩
  | unary op operand =>
    obtain ⟨rfl, rfl⟩ := child?_unary_eq_some.mp step
    exact ⟨false, (Occurs.stretched _ _).prepend op.symbol⟩
  | binary op lhs rhs =>
    rw [latexFrom]
    rcases child?_binary_eq_some.mp step with ⟨rfl, rfl⟩ | ⟨rfl, rfl⟩
    · split_ifs
      · exact ⟨false, ((Occurs.stretched _ _).append "^").append _⟩
      · exact ⟨true, ((Occurs.braced _).prepend "\\frac").append _⟩
      · exact ⟨false, ((Occurs.stretched _ _).append _).append _⟩
    · split_ifs
      · exact ⟨true, (Occurs.braced _).prepend _⟩
      · exact ⟨true, (Occurs.braced _).prepend _⟩
      · exact ⟨false, (Occurs.stretched _ _).prepend _⟩

theorem occurs_latexFrom {e n : Expr} {path : List Nat} (found : e.node? path = some n)
    (bare : Bool) : ∃ inner, Occurs (n.latexFrom style inner) (e.latexFrom style bare) := by
  induction path generalizing e bare with
  | nil =>
    cases found
    exact ⟨bare, .refl _⟩
  | cons index path ih =>
    obtain ⟨c, step, found⟩ := node?_cons_eq_some.mp found
    obtain ⟨outer, here⟩ := occurs_latexFrom_child style step bare
    obtain ⟨inner, below⟩ := ih found outer
    exact ⟨inner, below.trans here⟩

end

end Expr

theorem UnaryKind.precedence_le_power (op : UnaryKind) : op.precedence ≤ .power := by
  cases op <;> decide

theorem BinaryKind.precedence_le_power (kind : BinaryKind) : kind.precedence ≤ .power := by
  cases kind <;> decide

/-- The base of a power is parenthesized unless it binds tighter. -/
theorem BinaryOp.parenthesizesLeft_pow {op : BinaryOp} (power : op.kind = .pow) (base : Expr) :
    op.parenthesizesLeft base = decide (base.precedence ≤ .power) := by
  rw [parenthesizesLeft, power]
  cases base.precedence <;> rfl

namespace Expr

/-- Every variable has a name that begins with a letter. -/
def NamedByLetters (e : Expr) : Prop := e.Everywhere fun n => ∀ name, n = var name →
  ∃ c rest, name.toList = c :: rest ∧ Text.isAlphabetic c = true

theorem unsigned_name {name : String} {c : Char} {rest : List Char} (split : name.toList = c :: rest)
    (letter : Text.isAlphabetic c = true) : Unsigned name := by
  rw [Unsigned, split]
  exact Decimal.isSign_eq_false ⟨rfl, rfl⟩ letter

/-- What binds tighter than a power begins without a sign. -/
theorem unsigned_of_tight {e : Expr} (named : e.NamedByLetters) (tight : ¬e.precedence ≤ .power)
    (other : e ≠ constant (.double (-0.0))) :
    Unsigned e.plain ∧ ∀ style, Unsigned (e.latex style) := by
  cases e with
  | constant x =>
    have above : ¬x.isNegative = true := fun below => by
      rw [precedence, if_pos below] at tight
      exact tight (by decide)
    have unsigned := Number.unsigned_plain above (mt (congrArg _) other)
    exact ⟨unsigned, fun _ => unsigned⟩
  | var name =>
    obtain ⟨c, rest, split, letter⟩ := named [] _ rfl name rfl
    have unsigned := unsigned_name split letter
    exact ⟨unsigned, fun _ => unsigned⟩
  | unset =>
    have unsigned : Unsigned "?" := by decide +kernel
    exact ⟨unsigned, fun _ => unsigned⟩
  | group inner =>
    have plain : Unsigned "(" := by decide +kernel
    have latex : Unsigned "\\left(" := by decide +kernel
    exact ⟨plain.enclosed nofun _ _, fun _ => latex.enclosed nofun _ _⟩
  | call func arg =>
    cases func with
    | sqrt =>
      have plain : Unsigned "sqrt(" := by decide +kernel
      have latex : Unsigned "\\sqrt" := by decide +kernel
      exact ⟨plain.enclosed nofun _ _, fun _ => latex.append nofun _⟩
    | unknown =>
      have plain : Unsigned "?(" := by decide +kernel
      have latex : Unsigned "?" := by decide +kernel
      exact ⟨plain.enclosed nofun _ _, fun _ => latex.append nofun _⟩
  | unary op operand => exact absurd op.precedence_le_power tight
  | binary op lhs rhs => exact absurd op.kind.precedence_le_power tight

/-- Parentheses are missing in front of one sign only, that of the negative zero. -/
theorem enclosed_or_unsigned_iff {e : Expr} (named : e.NamedByLetters) :
    (e.precedence ≤ .power ∨ Unsigned e.plain ↔ e ≠ constant (.double (-0.0))) ∧
      ∀ style, e.precedence ≤ .power ∨ Unsigned (e.latex style) ↔ e ≠ constant (.double (-0.0)) := by
  have zero : ¬(constant (.double (-0.0))).precedence ≤ .power ∧
      ¬Unsigned (Number.double (-0.0)).plain := by decide +kernel
  have tight (other : e ≠ constant (.double (-0.0))) :
      e.precedence ≤ .power ∨ Unsigned e.plain ∧ ∀ style, Unsigned (e.latex style) :=
    (em _).imp_right fun tight => unsigned_of_tight named tight other
  refine ⟨⟨?_, fun other => (tight other).imp_right And.left⟩, fun style =>
    ⟨?_, fun other => (tight other).imp_right fun unsigned => unsigned.2 style⟩⟩
  · rintro safe rfl
    exact safe.elim zero.1 zero.2
  · rintro safe rfl
    exact safe.elim zero.1 zero.2

end Expr

/-- The text of a power in which the base stands in parentheses or begins without a sign. -/
def HasSafeBase (opening closing base power : String) : Prop :=
  ∃ exponent, power = opening ++ base ++ closing ++ "^" ++ exponent ∨
    power = base ++ "^" ++ exponent ∧ Unsigned base

theorem hasSafeBase_iff {needed : Bool} {opening closing base exponent : String}
    (opens : Unsigned opening) (some_opening : opening ≠ "") :
    HasSafeBase opening closing base
      ((if needed then opening ++ base ++ closing else base) ++ "^" ++ exponent) ↔
        needed = true ∨ Unsigned base := by
  constructor
  · rintro ⟨rest, same | ⟨-, unsigned⟩⟩
    · cases needed with
      | true => exact .inl rfl
      | false =>
        -- The text begins with the parenthesis, so its base begins with no sign.
        have text : base ++ "^" ++ exponent = opening ++ base ++ closing ++ "^" ++ rest := same
        have unsigned : Unsigned (opening ++ (base ++ closing ++ "^" ++ rest)) :=
          opens.append some_opening _
        simp only [← String.append_assoc, ← text] at unsigned
        rw [String.append_assoc] at unsigned
        exact .inr unsigned.of_append
    · exact .inr unsigned
  · intro safe
    cases needed with
    | true => exact ⟨exponent, .inl rfl⟩
    | false => exact ⟨exponent, .inr ⟨rfl, safe.resolve_left nofun⟩⟩

/-- In plain text and in LaTeX the base of every power stands in parentheses or begins without a sign,
unless it is the negative zero. -/
theorem powers_have_safe_bases {e base exponent : Expr} {op : BinaryOp} {path : List Nat}
    (named : e.NamedByLetters) (found : e.node? path = some (.binary op base exponent))
    (power : op.kind = .pow) :
    (Occurs (Expr.binary op base exponent).plain e.plain ∧
      (HasSafeBase "(" ")" base.plain (Expr.binary op base exponent).plain ↔
        base ≠ .constant (.double (-0.0)))) ∧
    ∀ style, Occurs ((Expr.binary op base exponent).latex style) (e.latex style) ∧
      (HasSafeBase "\\left(" "\\right)" (base.latex style)
        ((Expr.binary op base exponent).latex style) ↔ base ≠ .constant (.double (-0.0))) := by
  have named : base.NamedByLetters := (Expr.everywhere_binary.mp (named.below found)).2.1
  obtain ⟨plain, latex⟩ := Expr.enclosed_or_unsigned_iff named
  constructor
  · have opens : Unsigned "(" := by decide +kernel
    have text : (Expr.binary op base exponent).plain =
        (if decide (base.precedence ≤ .power) then "(" ++ base.plain ++ ")" else base.plain) ++ "^" ++
          Expr.parenthesized (op.parenthesizesRight exponent) exponent.plain := by
      rw [Expr.plain, op.parenthesizesLeft_pow power, BinaryOp.symbol, power]
      rfl
    refine ⟨Expr.occurs_plain found, ?_⟩
    rw [text, hasSafeBase_iff opens (by decide), decide_eq_true_iff]
    exact plain
  · intro style
    have opens : Unsigned "\\left(" := by decide +kernel
    have text (bare : Bool) : (Expr.binary op base exponent).latexFrom style bare =
        (if decide (base.precedence ≤ .power) then "\\left(" ++ base.latex style ++ "\\right)"
          else base.latex style) ++ "^" ++ Expr.braced (exponent.latexFrom style true) := by
      rw [Expr.latexFrom, if_pos power]
      rfl
    obtain ⟨bare, occurs⟩ := Expr.occurs_latexFrom style found false
    rw [text, ← text false] at occurs
    refine ⟨occurs, ?_⟩
    rw [show (Expr.binary op base exponent).latex style = _ from text false,
      hasSafeBase_iff opens (by decide), decide_eq_true_iff]
    exact latex style

/-- In `2*(-0.5)^x` the base is a fraction below zero. -/
theorem powers_have_safe_bases_fraction :
    let base : Expr := .constant (.ofRat (-1 / 2))
    let power : Expr := .binary ⟨.pow, false⟩ base (.var "x")
    let e : Expr := .binary ⟨.mul, false⟩ (.constant (.integer 2)) power
    e.plain = "2*(-0.5)^x" ∧ e.node? [1] = some power ∧ HasSafeBase "(" ")" base.plain power.plain ∧
      ∀ style, HasSafeBase "\\left(" "\\right)" (base.latex style) (power.latex style) := by
  intro base power e
  have text : e.plain = "2*(-0.5)^x" := by decide +kernel
  have found : e.node? [1] = some power := rfl
  have other : base ≠ .constant (.double (-0.0)) := by decide +kernel
  have named : e.NamedByLetters := by
    simpa [Expr.NamedByLetters, e, power, base] using show Text.isAlphabetic 'x' = true by decide
  have safe := powers_have_safe_bases named found rfl
  exact ⟨text, found, safe.1.2.mpr other, fun style => (safe.2 style).2.mpr other⟩

/-- The negative zero is written with a sign and without parentheses, so `-0^2` reads as the opposite of
a square. -/
theorem negative_zero_lends_its_sign :
    let base : Expr := .constant (.double (-0.0))
    let power : Expr := .binary ⟨.pow, false⟩ base (.constant (.integer 2))
    power.WellFormed ∧ power.NamedByLetters ∧ power.plain = "-0^2" ∧
      ¬HasSafeBase "(" ")" base.plain power.plain := by
  intro base power
  have formed : power.WellFormed := Expr.malformed?_eq_none_iff.mp rfl
  have named : power.NamedByLetters := by simp [Expr.NamedByLetters, power, base]
  have text : power.plain = "-0^2" := by decide +kernel
  have opens : Unsigned "(" := by decide +kernel
  have signed : ¬Unsigned base.plain := by decide +kernel
  refine ⟨formed, named, text, fun safe => ?_⟩
  have bare : power.plain = (if false then "(" ++ base.plain ++ ")" else base.plain) ++ "^" ++ "2" := by
    decide +kernel
  rw [bare, hasSafeBase_iff opens (by decide)] at safe
  exact signed (safe.resolve_left nofun)

end Schoolbook
