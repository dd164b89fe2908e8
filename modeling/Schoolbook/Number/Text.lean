import Schoolbook.Decimal.Grouping
import Schoolbook.Decimal.Shortest
import Schoolbook.Number.Basic

/-!
The written form of numbers.
-/
namespace Schoolbook

inductive Separators where
  | always
  | never
  deriving DecidableEq, Repr

structure NumberFormat where
  separators : Separators
  deriving DecidableEq, Repr

/-- Shortest digits without an exponent; zero keeps its sign. -/
def Double.text (x : Float) : String :=
  if x.isNaN then "NaN"
  else
    let sign := if Double.signBit x then "-" else ""
    let magnitude :=
      if ¬ x.isFinite then "inf"
      else if Double.magnitudeBits x = 0 then "0"
      else (Decimal.shortest x).positional
    sign ++ magnitude

namespace Number

/-- Only whole numbers are ever grouped. A fraction is written as the double next to it. -/
def format (style : NumberFormat) : Number → String
  | .integer n =>
    match style.separators with
    | .always => Decimal.insertSeparators (toString n.toInt)
    | .never => toString n.toInt
  | a => Double.text a.toFloat

def plain : Number → String := format ⟨.never⟩

def grouped : Number → String := format ⟨.always⟩

end Number
end Schoolbook
