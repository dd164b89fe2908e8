/-!
Decimal fractions and their positional text.
-/
namespace Schoolbook

/-- The value `digits * 10 ^ place`. -/
structure Decimal where
  digits : Nat
  place : Int
  deriving DecidableEq, Repr

namespace Decimal

/-- All digits without an exponent: zeros fill the places up to the decimal point, and a value
below one starts with a zero. -/
def positional (d : Decimal) : String :=
  let text := Nat.toDigits 10 d.digits
  if 0 ≤ d.place then
    String.ofList (text ++ List.replicate d.place.toNat '0')
  else
    let places := (-d.place).toNat
    let padded := List.replicate (places + 1 - text.length) '0' ++ text
    let whole := padded.length - places
    String.ofList (padded.take whole ++ '.' :: padded.drop whole)

end Decimal
end Schoolbook
