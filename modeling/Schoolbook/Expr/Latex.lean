import Schoolbook.Equation

/-!
The LaTeX form of expressions and equations. A malformed expression has one too, with question
marks for what is unknown.
-/
namespace Schoolbook

/-- Division is drawn as a fraction or written with a division sign. -/
structure LatexStyle where
  divAsFraction : Bool
  deriving DecidableEq, Repr

namespace BinaryOp

/-- The operator between two operands side by side. A multiplication is left out unless the
operands would read as one number or the sign of the right one as an operator. -/
def latexSymbol (op : BinaryOp) (rhs : String) : String :=
  match op.kind with
  | .add => " + "
  | .sub => " - "
  | .mul => if op.implicit && !startsLikeNumber rhs.toList then "" else " \\times "
  | .div => " \\div "
  | .pow | .unknown => " ? "
where
  startsLikeNumber : List Char → Bool
    | c :: _ => c.isDigit || c = '-' || c = '+'
    | [] => false

end BinaryOp

namespace Expr

def stretched (needed : Bool) (text : String) : String :=
  if needed then "\\left(" ++ text ++ "\\right)" else text

def braced (text : String) : String := "\x7b" ++ text ++ "\x7d"

/-- With `bare`, groups around the whole expression are dropped, because braces already enclose
it. -/
def latexFrom (style : LatexStyle) (bare : Bool) : Expr → String
  | .constant x => x.plain
  | .var name => name
  | .binary op lhs rhs =>
    if op.kind = .pow then
      stretched (lhs.precedence ≤ .power) (latexFrom style false lhs) ++ "^" ++
        braced (latexFrom style true rhs)
    else if op.kind = .div ∧ style.divAsFraction then
      "\\frac" ++ braced (latexFrom style true lhs) ++ braced (latexFrom style true rhs)
    else
      let right := stretched (op.parenthesizesRight rhs) (latexFrom style false rhs)
      stretched (op.parenthesizesLeft lhs) (latexFrom style false lhs) ++
        op.latexSymbol right ++ right
  | .unary op operand =>
    op.symbol ++ stretched (UnaryKind.parenthesizes operand) (latexFrom style false operand)
  | .call .sqrt arg => "\\sqrt" ++ braced (latexFrom style true arg)
  | .call .unknown arg => "?" ++ stretched true (latexFrom style false arg)
  | .group inner =>
    if bare then latexFrom style true inner else stretched true (latexFrom style false inner)
  | .unset => "?"

def latex (style : LatexStyle) (e : Expr) : String := latexFrom style false e

end Expr

def Equation.latex (style : LatexStyle) (q : Equation) : String :=
  q.lhs.latex style ++ separator ++ q.rhs.latex style

end Schoolbook
