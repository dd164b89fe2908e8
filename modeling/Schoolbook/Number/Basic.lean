import Schoolbook.Double

/-!
Numbers that stay exact while their parts fit 64-bit words: whole numbers, fractions in lowest
terms, and doubles for everything else.
-/
namespace Schoolbook

-- Powers are those of the core library, whatever else is in scope.
attribute [local instance (high)] instPowNat

/-- The range of a signed word with the given number of bits. -/
def FitsWord (bits : Nat) (i : Int) : Prop := -2 ^ (bits - 1) ≤ i ∧ i < 2 ^ (bits - 1)

instance (bits : Nat) (i : Int) : Decidable (FitsWord bits i) := inferInstanceAs (Decidable (_ ∧ _))

/-- A fraction in lowest terms that is not whole and whose parts fit a word. -/
structure Fraction where
  value : Rat
  num_fits : FitsWord 64 value.num
  den_fits : FitsWord 64 value.den
  one_lt_den : 1 < value.den
  deriving DecidableEq

/-- Parts that are no fraction in lowest terms with a denominator above one. -/
structure InvalidFraction where
  numerator : Int
  denominator : Int
  deriving DecidableEq, Repr

def InvalidFraction.message (e : InvalidFraction) : String :=
  s!"{e.numerator}/{e.denominator} is not a fraction in lowest terms " ++
    "with a denominator greater than 1"

/-- Accepts parts only as they would be stored, and never reduces them. -/
def Fraction.ofParts (numerator denominator : Int) : Except InvalidFraction Fraction :=
  if h : FitsWord 64 numerator ∧ FitsWord 64 denominator ∧ 1 < denominator ∧
      numerator.natAbs.Coprime denominator.natAbs then
    .ok {
      value := ⟨numerator, denominator.natAbs, by omega, h.2.2.2⟩
      num_fits := h.1
      den_fits := by
        have e : (denominator.natAbs : Int) = denominator := by omega
        exact e.symm ▸ h.2.1
      one_lt_den := by
        show 1 < denominator.natAbs
        omega }
  else .error ⟨numerator, denominator⟩

inductive Number where
  | integer (n : Int64)
  | fraction (q : Fraction)
  | double (x : Float)
  deriving DecidableEq

/-- Why an operation has no value among the real numbers. -/
inductive ArithmeticFault where
  | divisionByZero
  | zeroToZeroPower
  | nonReal
  deriving DecidableEq, Repr

def ArithmeticFault.message : ArithmeticFault → String
  | .divisionByZero => "division by zero"
  | .zeroToZeroPower => "zero raised to the power of zero"
  | .nonReal => "the result is not a real number"

namespace Number

instance : OfNat Number 0 := ⟨.integer 0⟩
instance : OfNat Number 1 := ⟨.integer 1⟩
instance : Inhabited Number := ⟨0⟩

/-- The quotient of the two rounded parts of a rational number. -/
def roundedRatio (q : Rat) : Float := Float.ofInt q.num / Float.ofNat q.den

/-- Stores an exact value in the narrowest form. A part that does not fit a word turns it into a
double. -/
def ofRat (q : Rat) : Number :=
  if h : FitsWord 64 q.num ∧ FitsWord 64 q.den then
    if hd : q.den = 1 then .integer (Int64.ofInt q.num)
    else .fraction ⟨q, h.1, h.2, by have := q.den_nz; omega⟩
  else .double (roundedRatio q)

def ofRatio (numerator denominator : Int) : Except ArithmeticFault Number :=
  if denominator = 0 then .error .divisionByZero
  else .ok (ofRat (Rat.divInt numerator denominator))

/-- The value, where it is stored exactly. -/
def toRat? : Number → Option Rat
  | .integer n => some n.toInt
  | .fraction q => some q.value
  | .double _ => none

def toFloat : Number → Float
  | .integer n => Float.ofInt n.toInt
  | .fraction q => roundedRatio q.value
  | .double x => x

def integer? : Number → Option Int64
  | .integer n => some n
  | _ => none

/-- Both zeros of the doubles count. -/
def isZero : Number → Bool
  | .integer n => n == 0
  | .fraction _ => false
  | .double x => x == 0

/-- Strictly below zero, so neither a negative zero nor NaN counts. -/
def isNegative : Number → Bool
  | .integer n => n < 0
  | .fraction q => q.value.num < 0
  | .double x => x < 0

end Number
end Schoolbook
