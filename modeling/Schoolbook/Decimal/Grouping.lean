/-!
Grouping the digits of a written number by threes.
-/
namespace Schoolbook.Decimal

def utf8Length (text : List Char) : Nat := (text.map Char.utf8Size).foldr (· + ·) 0

/-- A comma stands wherever a positive multiple of three bytes is still to come. -/
def groupWhole : List Char → List Char
  | [] => []
  | c :: rest =>
    if rest ≠ [] ∧ utf8Length rest % 3 = 0 then c :: ',' :: groupWhole rest
    else c :: groupWhole rest

def isSign (c : Char) : Bool := c = '-' || c = '+'

/-- Groups what lies between an optional leading sign and the decimal point; the sign and
everything from the point on stay as they are. -/
def insertSeparators (s : String) : String :=
  let text := s.toList
  let sign := (text.take 1).filter isSign
  let unsigned := text.drop sign.length
  String.ofList
    (sign ++ groupWhole (unsigned.takeWhile (· ≠ '.')) ++ unsigned.dropWhile (· ≠ '.'))

end Schoolbook.Decimal
