import Schoolbook.Expr.Basic
import Schoolbook.Number.Text
import Schoolbook.Text.Alphabetic

/-!
The plain text of expressions, and where in it each node stands. Positions count UTF-8 bytes.
-/
namespace Schoolbook

/-- The bytes from `start` up to `stop`, which is not included. -/
structure Span where
  start : Nat
  stop : Nat
  deriving DecidableEq, Repr

def Span.shift (offset : Nat) (s : Span) : Span := ⟨offset + s.start, offset + s.stop⟩

namespace BinaryOp

/-- Operands that bind less tightly are parenthesized, and so is an equally tight one on the side
where the operator would otherwise be read differently. -/
def parenthesizesLeft (op : BinaryOp) (lhs : Expr) : Bool :=
  lhs.precedence < op.kind.precedence ||
    lhs.precedence = op.kind.precedence && op.kind.associativity = .right

def parenthesizesRight (op : BinaryOp) (rhs : Expr) : Bool :=
  rhs.precedence < op.kind.precedence ||
    rhs.precedence = op.kind.precedence && op.kind.associativity = .left

/-- The written operator. A multiplication is left out only before a letter or an opening
parenthesis. -/
def symbol (op : BinaryOp) (rhs : String) : String :=
  match op.kind with
  | .add => "+"
  | .sub => "-"
  | .mul => if op.implicit && juxtaposes rhs.toList then "" else "*"
  | .div => "/"
  | .pow => "^"
  | .unknown => "?"
where
  juxtaposes : List Char → Bool
    | c :: _ => Text.isAlphabetic c || c = '('
    | [] => false

end BinaryOp

/-- A sign is put directly before a sign, a power or an atom. -/
def UnaryKind.parenthesizes (operand : Expr) : Bool := operand.precedence < .sign

namespace Expr

def parenthesized (needed : Bool) (text : String) : String :=
  if needed then "(" ++ text ++ ")" else text

def plain : Expr → String
  | .constant x => x.plain
  | .var name => name
  | .binary op lhs rhs =>
    let right := parenthesized (op.parenthesizesRight rhs) rhs.plain
    parenthesized (op.parenthesizesLeft lhs) lhs.plain ++ op.symbol right ++ right
  | .unary op operand =>
    op.symbol ++ parenthesized (UnaryKind.parenthesizes operand) operand.plain
  | .call func arg => func.symbol ++ "(" ++ arg.plain ++ ")"
  | .group inner => "(" ++ inner.plain ++ ")"
  | .unset => "?"

/-- Where the text of a child starts within the text of its parent. -/
def childOffset? : Expr → Nat → Option Nat
  | .binary op lhs _, 0 => some (op.parenthesizesLeft lhs).toNat
  | .binary op lhs rhs, 1 =>
    let right := parenthesized (op.parenthesizesRight rhs) rhs.plain
    some ((parenthesized (op.parenthesizesLeft lhs) lhs.plain).utf8ByteSize +
      (op.symbol right).utf8ByteSize + (op.parenthesizesRight rhs).toNat)
  | .unary op operand, 0 =>
    some (op.symbol.utf8ByteSize + (UnaryKind.parenthesizes operand).toNat)
  | .call func _, 0 => some (func.symbol.utf8ByteSize + 1)
  | .group _, 0 => some 1
  | _, _ => none

/-- Where the node at a path stands in the text of the whole expression. -/
def span? : Expr → List Nat → Option Span
  | e, [] => some ⟨0, e.plain.utf8ByteSize⟩
  | e, index :: path => do
    let offset ← e.childOffset? index
    let child ← e.child? index
    return (← child.span? path).shift offset

end Expr
end Schoolbook
