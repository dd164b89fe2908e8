import Schoolbook.Json.Basic
import Schoolbook.Number.Text

/-!
The text of JSON values, without blanks.
-/
namespace Schoolbook.Json

def escape (c : Char) : List Char :=
  if c = '"' then ['\\', '"']
  else if c = '\\' then ['\\', '\\']
  else if c < ' ' then
    ['\\', 'u', '0', '0', Nat.digitChar (c.toNat / 16), Nat.digitChar (c.toNat % 16)]
  else [c]

def quoted (s : String) : String := "\"" ++ String.ofList (s.toList.flatMap escape) ++ "\""

/-- A whole double is written with a decimal point, so that it is not read as an integer; one that
is not finite has no number. -/
def decimalText (x : Float) : String :=
  if ¬ x.isFinite then "null"
  else if Double.isWhole x then Double.text x ++ ".0"
  else Double.text x

mutual

def text : Json → String
  | .null => "null"
  | .bool b => if b then "true" else "false"
  | .integer n => toString n
  | .decimal x => decimalText x
  | .string s => quoted s
  | .array items => "[" ++ ",".intercalate (itemTexts items) ++ "]"
  | .object fields => "\x7b" ++ ",".intercalate (fieldTexts fields) ++ "\x7d"

def itemTexts : List Json → List String
  | [] => []
  | item :: items => item.text :: itemTexts items

def fieldTexts : List (String × Json) → List String
  | [] => []
  | (name, value) :: fields => (quoted name ++ ":" ++ value.text) :: fieldTexts fields

end

end Schoolbook.Json
