import Schoolbook.Expr.Plain

/-!
Equations. A path into an equation starts with the side, zero for the left one.
-/
namespace Schoolbook

structure Equation where
  lhs : Expr
  rhs : Expr
  deriving DecidableEq, Inhabited

namespace Equation

def side? (q : Equation) : Nat → Option Expr
  | 0 => some q.lhs
  | 1 => some q.rhs
  | _ => none

def malformed? (q : Equation) : Option (List Nat) :=
  (q.lhs.malformed?.map (0 :: ·)).or (q.rhs.malformed?.map (1 :: ·))

/-- What stands between the two sides. -/
def separator : String := " = "

def plain (q : Equation) : String := q.lhs.plain ++ separator ++ q.rhs.plain

def sideOffset (q : Equation) (side : Nat) : Nat :=
  if side = 0 then 0 else q.lhs.plain.utf8ByteSize + separator.utf8ByteSize

/-- The empty path has no span: it names neither side. -/
def span? (q : Equation) : List Nat → Option Span
  | [] => none
  | side :: path => do return (← (← q.side? side).span? path).shift (q.sideOffset side)

def node? (q : Equation) : List Nat → Option Expr
  | [] => none
  | side :: path => do (← q.side? side).node? path

end Equation
end Schoolbook
