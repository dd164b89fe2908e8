import Schoolbook.Decimal
import Schoolbook.Double

/-!
The decimal with the fewest digits that reads back as a given double. The reals that round to a
double form an interval around it; the coarsest power of ten with a multiple in that interval
fixes the number of digits, and of two such multiples the nearer one is taken.
-/
namespace Schoolbook.Decimal
open Double

-- Powers are those of the core library, whatever else is in scope.
attribute [local instance (high)] instPowNat

/-- The multiple of `10 ^ place` that stands for `x`: one of the two neighbours of `|x|`, if it
rounds to `x`. Of two equally near ones the larger is taken. -/
def neighbour? (x : Float) (place : Int) : Option Nat :=
  let m := significand x
  let e := exponent x
  let scale := 2 ^ (e - 2).toNat * 10 ^ (-place).toNat
  let unit := 2 ^ (2 - e).toNat * 10 ^ place.toNat
  let value := 4 * m * scale
  -- the gap below a power of two is half the gap above it
  let low := (4 * m - if fractionBits x = 0 ∧ 1 < biasedExponent x then 1 else 2) * scale
  let high := (4 * m + 2) * scale
  let below := value / unit
  let above := below + 1
  -- an end of the interval rounds to the even significand
  let even := m % 2 = 0
  let fromBelow := low < below * unit ∨ even ∧ low = below * unit
  let fromAbove := above * unit < high ∨ even ∧ above * unit = high
  if fromBelow ∧ (¬ fromAbove ∨ 2 * (value - below * unit) < unit) then some below
  else if fromAbove then some above
  else none

/-- A power of ten above the magnitude of `x`; the factor is just above the logarithm of two. -/
def topPlace (x : Float) : Int :=
  ((significand x).log2 + 1 + exponent x) * 30103 / 100000 + 1

/-- The magnitude of `x` with all its digits. -/
def exactly (x : Float) : Decimal :=
  ⟨significand x * 2 ^ (exponent x).toNat * 5 ^ (-exponent x).toNat, min (exponent x) 0⟩

/-- The shortest decimal for the magnitude of a finite value other than zero. Seventeen digits
are enough to tell two doubles apart. -/
def shortest (x : Float) : Decimal :=
  let places := (List.range 19).map fun i : Nat => topPlace x - (i : Int)
  (places.findSome? fun place => (neighbour? x place).map fun digits => ⟨digits, place⟩).getD
    (exactly x)

end Schoolbook.Decimal
