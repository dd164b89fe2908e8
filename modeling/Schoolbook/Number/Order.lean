import Schoolbook.Number.Arithmetic

/-!
Comparison of numbers by value and then by form, and the test whether an answer is close enough.
-/
namespace Schoolbook.Number

/-- Two exact values are compared exactly, all others as doubles. -/
def cmpValue (a b : Number) : Ordering :=
  match a.toRat?, b.toRat? with
  | some p, some q => compareOfLessAndEq p q
  | _, _ => Double.totalCmp a.toFloat b.toFloat

def rank : Number → Nat
  | .integer _ => 0
  | .fraction _ => 1
  | .double _ => 2

/-- Numbers of equal value in different forms are kept apart, the exact ones first. -/
def cmp (a b : Number) : Ordering :=
  (cmpValue a b).then <| (compare a.rank b.rank).then <|
    match a, b with
    | .double x, .double y => Double.totalCmp x y
    | _, _ => .eq

/-- The distance of two numbers. -/
def distance (a b : Number) : Number :=
  match a.toRat?, b.toRat? with
  | some p, some q =>
    ((WideRatio.sub? p q).map fun d => ofRat (if d < 0 then -d else d)).getD
      (.double (a.toFloat - b.toFloat).abs)
  | _, _ => .double (a.toFloat - b.toFloat).abs

/-- The bounds belong to the accepted range. Nothing lies within a negative tolerance. -/
def isWithin (a target tolerance : Number) : Bool :=
  !tolerance.isNegative && cmpValue (distance a target) tolerance != .gt

end Schoolbook.Number
