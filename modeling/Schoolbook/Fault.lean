import Schoolbook.Language
import Schoolbook.Number.Basic

/-!
What can be wrong with an expression or a request about it, and how it is put into words.
-/
namespace Schoolbook

/-- The constructs that no polynomial contains. -/
inductive Construct where
  | division
  | squareRoot
  | fractionalPower
  deriving DecidableEq, Repr

def Construct.title : Construct → String
  | .division => "division"
  | .squareRoot => "a square root"
  | .fractionalPower => "a power that is not a whole number"

inductive Fault where
  | malformedOperator
  | unsupportedLanguage (language : Language)
  | divisionByZero
  | unboundVariable (name : String)
  | zeroToZeroPower
  | nonRealResult
  | nonPolynomial (construct : Construct)
  | degreeOverflow
  deriving DecidableEq, Repr

namespace Fault

def message : Fault → String
  | .malformedOperator => "this expression contains an unrecognized operator"
  | .unsupportedLanguage language => "cannot read expressions aloud in " ++ language.title
  | .divisionByZero => "cannot divide by zero"
  | .unboundVariable name => "`" ++ name ++ "` has no value"
  | .zeroToZeroPower => "zero raised to the power of zero is undefined"
  | .nonRealResult => "the result is not a real number"
  | .nonPolynomial construct => construct.title ++ " cannot appear in a polynomial"
  | .degreeOverflow => "this polynomial has too high a degree to expand"

/-- The words beside the part of the text that a fault points at. -/
def label : Fault → String
  | .malformedOperator => "this part of the expression is incomplete"
  | .divisionByZero => "this expression evaluates to zero"
  | .unboundVariable _ => "this variable"
  | .zeroToZeroPower => "this power"
  | .nonRealResult => "this expression"
  | .nonPolynomial _ | .degreeOverflow => "this part of the expression"
  | .unsupportedLanguage _ => ""

def help? : Fault → Option String
  | .malformedOperator =>
    some "the expression was not built correctly; check the parser that produced it"
  | .unsupportedLanguage _ => some "only English is supported"
  | .unboundVariable _ => some "only expressions made of numbers can be evaluated"
  | .nonRealResult =>
    some "square roots and fractional powers of negative numbers have no real value"
  | .nonPolynomial _ =>
    some "polynomials are built from sums, differences, products and whole-number powers"
  | .degreeOverflow => some "variables can be raised to at most the power of 4294967295"
  | .divisionByZero | .zeroToZeroPower => none

def ofArithmetic : ArithmeticFault → Fault
  | .divisionByZero => .divisionByZero
  | .zeroToZeroPower => .zeroToZeroPower
  | .nonReal => .nonRealResult

end Fault
end Schoolbook
