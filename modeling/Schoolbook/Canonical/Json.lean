import Schoolbook.Canonical.OfExpr
import Schoolbook.Number.Json

/-!
The JSON form of canonical trees. Lists are taken as they are given, sorted or not.
-/
namespace Schoolbook

namespace Canonical

mutual

def toJson : Canonical → Json
  | .constant x => .tagged "Constant" x.toJson
  | .var name => .tagged "Variable" (.string name)
  | .sqrt x => .tagged "SquareRoot" x.toJson
  | .neg x => .tagged "Negation" x.toJson
  | .pos x => .tagged "Positive" x.toJson
  | .sum xs => .tagged "Sum" (.array (toJsons xs))
  | .difference x y => .tagged "Difference" (.array [x.toJson, y.toJson])
  | .product xs => .tagged "Product" (.array (toJsons xs))
  | .quotient x y => .tagged "Quotient" (.array [x.toJson, y.toJson])
  | .power x y => .tagged "Power" (.array [x.toJson, y.toJson])
  | .invalid => .string "Invalid"

def toJsons : List Canonical → List Json
  | [] => []
  | x :: xs => x.toJson :: toJsons xs

end

/-- The tree whose operands are written as a list: any number of them in a sum or a product, and
two in the other operations. -/
def ofOperands? (name : String) (operands : List Canonical) : Option Canonical :=
  match name, operands with
  | "Sum", xs => some (.sum xs)
  | "Product", xs => some (.product xs)
  | "Difference", [x, y] => some (.difference x y)
  | "Quotient", [x, y] => some (.quotient x y)
  | "Power", [x, y] => some (.power x y)
  | _, _ => none

mutual

def ofJson? (j : Json) : Option Canonical :=
  match alternative : j.alternative? with
  | some (name, some content) =>
    have := Json.sizeOf_lt_of_alternative? alternative
    if name = "Constant" then (Number.ofJson? content).map .constant
    else if name = "Variable" then content.string?.map .var
    else if name = "SquareRoot" then (ofJson? content).map .sqrt
    else if name = "Negation" then (ofJson? content).map .neg
    else if name = "Positive" then (ofJson? content).map .pos
    else if j.name? = some "Invalid" then some .invalid
    else
      match written : content.array? with
      | some items =>
        have := Json.sizeOf_lt_of_array? written
        (ofJsons? items).bind (ofOperands? name)
      | none => none
  | some (name, none) => if name = "Invalid" then some .invalid else none
  | none => none
termination_by sizeOf j

/-- All trees of a list, or nothing. -/
def ofJsons? (items : List Json) : Option (List Canonical) :=
  match items with
  | [] => some []
  | item :: rest => do return (← ofJson? item) :: (← ofJsons? rest)
termination_by sizeOf items

end

end Canonical

namespace CanonicalEquation

def toJson (q : CanonicalEquation) : Json := .object [("lhs", q.lhs.toJson), ("rhs", q.rhs.toJson)]

def ofJson? (j : Json) : Option CanonicalEquation := do
  match ← j.fields? ["lhs", "rhs"] with
  | [some lhs, some rhs] => return ⟨← Canonical.ofJson? lhs, ← Canonical.ofJson? rhs⟩
  | _ => none

end CanonicalEquation
end Schoolbook
