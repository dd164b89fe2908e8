import Schoolbook.Number.Basic

/-!
Arithmetic on ratios whose parts are kept in 128-bit words. An operation succeeds with the exact
result, or fails because one of its intermediate integers leaves the word.
-/
namespace Schoolbook.WideRatio

def Fits (i : Int) : Prop := FitsWord 128 i

instance (i : Int) : Decidable (Fits i) := inferInstanceAs (Decidable (FitsWord 128 i))

/-- Brings two ratios to the least common denominator and combines their numerators. -/
def combine? (op : Int → Int → Int) (a b : Rat) : Option Rat :=
  let common := a.den / a.den.gcd b.den * b.den
  let left := (common / a.den : Nat) * a.num
  let right := (common / b.den : Nat) * b.num
  if Fits common ∧ Fits left ∧ Fits right ∧ Fits (op left right) then
    some (mkRat (op left right) common)
  else none

def add? : Rat → Rat → Option Rat := combine? (· + ·)

def sub? : Rat → Rat → Option Rat := combine? (· - ·)

/-- Cancels the common factors crosswise before it multiplies. -/
def mul? (a b : Rat) : Option Rat :=
  let down := a.num.natAbs.gcd b.den
  let up := a.den.gcd b.num.natAbs
  let numerator := a.num / down * (b.num / up)
  let denominator := a.den / up * (b.den / down)
  if Fits numerator ∧ Fits denominator then some (mkRat numerator denominator) else none

/-- The parts of a quotient before the reduction. Equal denominators or numerators cancel at
once, other common factors crosswise. -/
def quotientParts (a b : Rat) : Int × Int :=
  if a.den = b.den then (a.num, b.num)
  else if a.num = b.num then (b.den, a.den)
  else
    let top := a.num.natAbs.gcd b.num.natAbs
    let bottom := a.den.gcd b.den
    (a.num / top * (b.den / bottom : Nat), (a.den / bottom : Nat) * (b.num / top))

/-- A negative denominator hands its sign to the numerator. -/
def div? (a b : Rat) : Option Rat :=
  let (numerator, denominator) := quotientParts a b
  let common : Int := numerator.natAbs.gcd denominator.natAbs
  if b = 0 ∨ denominator = 0 then none
  else if Fits numerator ∧ Fits denominator ∧
      (denominator < 0 → Fits (-(numerator / common)) ∧ Fits (-(denominator / common))) then
    some (Rat.divInt numerator denominator)
  else none

/-- The product of `product` and the powers of `base` that the bits of `n` above the lowest one
select; each bit squares the base once. -/
def accumulate? (product base : Rat) (n : Nat) : Option Rat :=
  if n ≤ 1 then some product
  else do
    let square ← mul? base base
    let next ← if n / 2 % 2 = 1 then mul? product square else some product
    accumulate? next square (n / 2)
termination_by n

/-- Power by repeated squaring. No square is formed beyond the highest bit of the exponent. -/
def pow? (base : Rat) (n : Nat) : Option Rat :=
  if n = 0 then some 1
  else if n % 2 = 0 then do pow? (← mul? base base) (n / 2)
  else accumulate? base base n
termination_by n

end Schoolbook.WideRatio
