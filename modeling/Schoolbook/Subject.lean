import Schoolbook.Expr.Latex
import Schoolbook.Expr.Spoken

/-!
What a request is about: an expression or an equation.
-/
namespace Schoolbook

inductive Subject where
  | expr (e : Expr)
  | equation (q : Equation)
  deriving DecidableEq

namespace Subject

def plain : Subject → String
  | .expr e => e.plain
  | .equation q => q.plain

def node? : Subject → List Nat → Option Expr
  | .expr e => e.node?
  | .equation q => q.node?

def span? : Subject → List Nat → Option Span
  | .expr e => e.span?
  | .equation q => q.span?

def malformed? : Subject → Option (List Nat)
  | .expr e => e.malformed?
  | .equation q => q.malformed?

def latex (style : LatexStyle) : Subject → String
  | .expr e => e.latex style
  | .equation q => q.latex style

def spoken (divAsFraction : Bool) : Subject → String
  | .expr e => e.spoken divAsFraction
  | .equation q => q.spoken divAsFraction

end Subject
end Schoolbook
