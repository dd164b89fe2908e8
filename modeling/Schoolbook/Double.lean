/-!
Double precision values read through their 64-bit patterns: sign, significand, exponent and the
total order of the patterns. Every function here is exact. The highest bit of a pattern is the
sign, the lowest fifty-two are the fraction, and the eleven between them the exponent.
-/
namespace Schoolbook.Double

-- Powers are those of the core library, whatever else is in scope.
attribute [local instance (high)] instPowNat

/-- The sign bit, which is also set for a negative zero. -/
def signBit (x : Float) : Bool := 0x8000000000000000 ≤ x.toBits.toNat

/-- The pattern without its sign bit. Values of one sign are ordered like it. -/
def magnitudeBits (x : Float) : Nat := x.toBits.toNat % 0x8000000000000000

def biasedExponent (x : Float) : Nat := magnitudeBits x / 0x10000000000000

def fractionBits (x : Float) : Nat := magnitudeBits x % 0x10000000000000

/-- A finite value has the magnitude `significand x * 2 ^ exponent x`. -/
def significand (x : Float) : Nat :=
  if biasedExponent x = 0 then fractionBits x else 0x10000000000000 + fractionBits x

/-- Subnormal values share the exponent of the smallest normal ones. -/
def exponent (x : Float) : Int := (max (biasedExponent x) 1 : Nat) - 1075

/-- Whether the value is finite and has no fractional part. -/
def isWhole (x : Float) : Bool :=
  x.isFinite && significand x % 2 ^ (-exponent x).toNat == 0

/-- The place of a value in the total order: negative zero stands just below zero, and each
infinity and NaN has a place of its own. -/
def orderKey (x : Float) : Int :=
  if signBit x then -(magnitudeBits x : Int) - 1 else magnitudeBits x

def totalCmp (x y : Float) : Ordering := compare (orderKey x) (orderKey y)

end Schoolbook.Double
