import Schoolbook.Equation
import Schoolbook.Language

/-!
Expressions and equations read aloud in English.
-/
namespace Schoolbook

namespace English

def cardinals : List String :=
  ["zero", "one", "two", "three", "four", "five", "six", "seven", "eight", "nine", "ten"]

/-- The names of the parts when a whole is divided by the position in the list. -/
def singularParts : List String :=
  ["oneth", "half", "third", "fourth", "fifth", "sixth", "seventh", "eighth", "ninth", "tenth"]

def pluralParts : List String :=
  ["oneths", "halves", "thirds", "fourths", "fifths", "sixths", "sevenths", "eighths", "ninths",
    "tenths"]

/-- A fraction up to one with a denominator up to ten, such as "half" or "two thirds". -/
def ordinalFraction? (numerator denominator : Int) : Option String :=
  if 0 ≤ numerator ∧ numerator ≤ denominator ∧ 1 ≤ denominator ∧ denominator ≤ 10 then
    let place := denominator.toNat - 1
    if numerator = 1 then singularParts[place]?
    else do return (← cardinals[numerator.toNat]?) ++ " " ++ (← pluralParts[place]?)
  else none

/-- The last letter of the alphabet is spelled out. -/
def variableName : String → String
  | "z" => "zed"
  | "Z" => "Zed"
  | name => name

end English

namespace Expr

def integerConstant? : Expr → Option Int
  | .constant x => x.integer?.map Int64.toInt
  | _ => none

/-- Whether a product reads as two adjacent terms, as in "2 x". -/
def readsAdjacent (op : BinaryOp) (lhs rhs : Expr) : Bool :=
  op.implicit &&
    (match lhs with
    | .constant _ => true
    | _ => false) &&
    match rhs with
    | .var _ => true
    | .binary inner _ _ => inner.kind = .pow
    | _ => false

def spoken (divAsFraction : Bool) : Expr → String
  | .constant x => x.grouped
  | .var name => English.variableName name
  | .binary op lhs rhs =>
    let left := lhs.spoken divAsFraction
    let right := rhs.spoken divAsFraction
    match op.kind with
    | .add => left ++ " plus " ++ right
    | .sub => left ++ " minus " ++ right
    | .mul => left ++ (if readsAdjacent op lhs rhs then " " else " times ") ++ right
    | .div =>
      if divAsFraction then
        match lhs.integerConstant?, rhs.integerConstant? with
        | some n, some d => (English.ordinalFraction? n d).getD (left ++ " over " ++ right)
        | _, _ => "the fraction with numerator " ++ left ++ " and denominator " ++ right
      else left ++ " divided by " ++ right
    | .pow => left ++ " raised to the power of " ++ right
    | .unknown => left ++ " ? " ++ right
  | .unary op operand =>
    (match op with
    | .neg => "negative "
    | .pos => "positive "
    | .unknown => "? ") ++ operand.spoken divAsFraction
  | .call func arg =>
    let inner := arg.spoken divAsFraction
    match func with
    | .sqrt =>
      if arg.isSingleTerm then "square root of " ++ inner
      else "start square root " ++ inner ++ " end square root"
    | .unknown => "? of " ++ inner
  | .group inner =>
    let text := inner.spoken divAsFraction
    if inner.isSingleTerm then text else "open parenthesis " ++ text ++ " close parenthesis"
  | .unset => "?"

end Expr

def Equation.spoken (divAsFraction : Bool) (q : Equation) : String :=
  q.lhs.spoken divAsFraction ++ " equals " ++ q.rhs.spoken divAsFraction

end Schoolbook
