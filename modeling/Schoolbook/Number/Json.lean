import Schoolbook.Json.Basic
import Schoolbook.Number.Text

/-!
The JSON form of numbers and of their formats.
-/
namespace Schoolbook

/-- An integer in the range of a signed word of 64 bits. -/
def Json.word? (j : Json) : Option Int64 := do
  let n ← j.integer?
  if FitsWord 64 n then some (Int64.ofInt n) else none

namespace Fraction

def toJson (q : Fraction) : Json := .array [.integer q.value.num, .integer q.value.den]

/-- Only a pair in lowest terms with a denominator above one is accepted. -/
def ofJson? (j : Json) : Option Fraction := do
  match ← j.array? with
  | [n, d] => (ofParts (← n.integer?) (← d.integer?)).toOption
  | _ => none

end Fraction

namespace Number

def toJson : Number → Json
  | .integer n => .tagged "Integer" (.integer n.toInt)
  | .fraction q => .tagged "Rational" q.toJson
  | .double x => .tagged "Irrational" (.decimal x)

def ofJson? (j : Json) : Option Number := do
  let (name, content) ← j.alternative?
  match name with
  | "Integer" => return .integer (← (← content).word?)
  | "Rational" => return .fraction (← Fraction.ofJson? (← content))
  | "Irrational" => return .double (← (← content).float?)
  | _ => none

end Number

namespace Separators

def name : Separators → String
  | .always => "Always"
  | .never => "Never"

def ofJson? (j : Json) : Option Separators := do
  match ← j.name? with
  | "Always" => some .always
  | "Never" => some .never
  | _ => none

end Separators

namespace NumberFormat

def toJson (style : NumberFormat) : Json :=
  .object [("separators", .string style.separators.name)]

def ofJson? (j : Json) : Option NumberFormat := do
  match ← j.fields? ["separators"] with
  | [some separators] => return ⟨← Separators.ofJson? separators⟩
  | _ => none

end NumberFormat
end Schoolbook
