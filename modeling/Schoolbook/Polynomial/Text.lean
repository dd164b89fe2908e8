import Schoolbook.Number.Text
import Schoolbook.Polynomial.Basic

/-!
The plain text of polynomials, such as `3x^2 + 2xy - 1`.
-/
namespace Schoolbook

/-- The term without its sign. A coefficient of exactly one is written only where there is no
variable. -/
def Term.plainMagnitude (t : Term) : String :=
  let magnitude := t.coefficient.abs
  (if t.isConstant || magnitude ≠ 1 then magnitude.plain else "") ++ t.monomial.plain

namespace Polynomial

def plainRest (t : Term) : String :=
  (if t.coefficient.isNegative then " - " else " + ") ++ t.plainMagnitude

def plain (p : Polynomial) : String :=
  match p.terms with
  | [] => "0"
  | t :: rest =>
    (if t.coefficient.isNegative then "-" else "") ++ t.plainMagnitude ++
      String.join (rest.map plainRest)

end Polynomial
end Schoolbook
