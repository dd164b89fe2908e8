import Schoolbook.Number.Arithmetic

/-!
Powers and roots. Whole powers of exact numbers and roots of perfect powers stay exact.
-/
namespace Schoolbook.Number

-- Powers are those of the core library, whatever else is in scope.
attribute [local instance (high)] instPowNat

/-- The largest number below `2 ^ bits` whose power does not exceed `n`, found bit by bit from the
top; `found` holds the bits above. -/
def floorRootFrom (degree n : Nat) : Nat → Nat → Nat
  | 0, found => found
  | bits + 1, found =>
    let next := found + 2 ^ bits
    floorRootFrom degree n bits (if next ^ degree ≤ n then next else found)

/-- The root of the given degree, if it is a whole number. The root of a number below `2 ^ (k + 1)`
is below `2 ^ (k / degree + 1)`, and it is no whole number above one if the degree is above `k`. -/
def exactRoot? (n degree : Nat) : Option Nat :=
  if n < 2 then some n
  else if n.log2 < degree then none
  else
    let root := floorRootFrom degree n (n.log2 / degree + 1) 0
    if root ^ degree = n then some root else none

/-- A whole power. A negative exponent takes the reciprocal of the base first. -/
def powWhole (base : Number) (exponent : Int) : Except ArithmeticFault Number :=
  if base.isZero then
    if 0 < exponent then .ok base
    else if exponent = 0 then .error .zeroToZeroPower
    else .error .divisionByZero
  else do
    let base ← if exponent < 0 then base.reciprocal else .ok base
    let exact := base.toRat?.bind fun q => WideRatio.pow? q exponent.natAbs
    return (exact.map ofRat).getD (.double (base.toFloat.pow (Float.ofNat exponent.natAbs)))

/-- The exact root of a ratio, taken of its parts and given the sign of the ratio. -/
def exactRatioRoot? (q : Rat) (degree : Nat) : Option Rat := do
  let numerator ← exactRoot? q.num.natAbs degree
  let denominator ← exactRoot? q.den degree
  return mkRat (if q.num < 0 then -(numerator : Int) else numerator) denominator

/-- The magnitude of a fractional power as a double. The square root has an operation of its own,
which is correctly rounded. -/
def roundedPower (magnitude : Float) (exponent : Rat) : Float :=
  if exponent.num = 1 ∧ exponent.den = 2 then magnitude.sqrt
  else magnitude.pow (roundedRatio exponent)

/-- A power with a fractional exponent `p/q` is the `p`-th power of the `q`-th root. An exact root
is looked for only where `q` fits 32 bits. A root of a negative number is real only for odd `q`. -/
def powFraction (base : Number) (exponent : Rat) : Except ArithmeticFault Number :=
  if base.isZero then
    if 0 < exponent.num then .ok base else .error .divisionByZero
  else if base.isNegative ∧ exponent.den % 2 = 0 then .error .nonReal
  else
    let root := if exponent.den < UInt32.size then
        base.toRat?.bind fun q => exactRatioRoot? q exponent.den
      else none
    match root with
    | some root => powWhole (ofRat root) exponent.num
    | none =>
      let magnitude := roundedPower base.abs.toFloat exponent
      .ok (.double (if base.isNegative ∧ exponent.num % 2 ≠ 0 then -magnitude else magnitude))

/-- A power whose exponent is a double. -/
def powDouble (base exponent : Float) : Except ArithmeticFault Number :=
  if base == 0 then
    if 0 < exponent then .ok (.double 0)
    else if exponent == 0 then .error .zeroToZeroPower
    else .error .divisionByZero
  else if base < 0 ∧ ¬ Double.isWhole exponent then .error .nonReal
  else .ok (.double (base.pow exponent))

/-- One to any power is one, even to a power that is no number. A result that is not finite counts
as no real number. -/
def pow (base exponent : Number) : Except ArithmeticFault Number :=
  if base = 1 then .ok 1
  else do
    let result ← match exponent with
      | .integer n => powWhole base n.toInt
      | .fraction q => powFraction base q.value
      | .double x => powDouble base.toFloat x
    match result with
    | .double x => if x.isFinite then return result else throw .nonReal
    | _ => return result

/-- The root that is not negative. -/
def sqrt (a : Number) : Except ArithmeticFault Number :=
  if a.isNegative then .error .nonReal
  else match a with
    | .double x => .ok (.double x.sqrt)
    | _ => powFraction a (mkRat 1 2)

end Schoolbook.Number
