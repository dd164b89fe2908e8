import Schoolbook.Number.Json
import Schoolbook.Polynomial.Basic

/-!
The JSON form of terms and polynomials. The terms of a polynomial are taken as they are given,
whether they are in normal form or not.
-/
namespace Schoolbook

namespace Monomial

def toJson (m : Monomial) : Json :=
  .object (m.powers.map fun (name, power) => (name, .integer power.toNat))

def power? (j : Json) : Option UInt32 := do
  let n ← j.integer?
  if 0 ≤ n ∧ n < UInt32.size then some (UInt32.ofNat n.toNat) else none

def ofJson? : Json → Option Monomial
  | .object fields => do
    return ofList (← fields.mapM fun (name, power) => do return (name, ← power? power))
  | _ => none

end Monomial

namespace Term

def toJson (t : Term) : Json :=
  .object [("coefficient", t.coefficient.toJson), ("variables", t.monomial.toJson)]

def ofJson? (j : Json) : Option Term := do
  match ← j.fields? ["coefficient", "variables"] with
  | [some coefficient, some powers] =>
    return ⟨← Number.ofJson? coefficient, ← Monomial.ofJson? powers⟩
  | _ => none

end Term

namespace Polynomial

def toJson (p : Polynomial) : Json := .object [("terms", .array (p.terms.map Term.toJson))]

def ofJson? (j : Json) : Option Polynomial := do
  match ← j.fields? ["terms"] with
  | [some (.array terms)] => return ⟨← terms.mapM Term.ofJson?⟩
  | _ => none

end Polynomial
end Schoolbook
