import Schoolbook.WideRatio

/-!
The four operations. Two exact operands give an exact result where its parts fit; in all other
cases the operation is done on doubles.
-/
namespace Schoolbook.Number

def combine (exact : Rat → Rat → Option Rat) (rounded : Float → Float → Float) (a b : Number) :
    Number :=
  match a.toRat?, b.toRat? with
  | some p, some q => ((exact p q).map ofRat).getD (.double (rounded a.toFloat b.toFloat))
  | _, _ => .double (rounded a.toFloat b.toFloat)

def add : Number → Number → Number := combine WideRatio.add? (· + ·)

def sub : Number → Number → Number := combine WideRatio.sub? (· - ·)

def mul : Number → Number → Number := combine WideRatio.mul? (· * ·)

/-- An exact value is taken from zero; a double has its sign changed. -/
def neg (a : Number) : Number := combine WideRatio.sub? (fun _ x => -x) 0 a

instance : Add Number := ⟨add⟩
instance : Sub Number := ⟨sub⟩
instance : Mul Number := ⟨mul⟩
instance : Neg Number := ⟨neg⟩

def div (a b : Number) : Except ArithmeticFault Number :=
  if b.isZero then .error .divisionByZero else .ok (combine WideRatio.div? (· / ·) a b)

def reciprocal (a : Number) : Except ArithmeticFault Number := div 1 a

def abs (a : Number) : Number := if a.isNegative then -a else a

end Schoolbook.Number
