import Mathlib
import Schoolbook.Expr.Basic

/-! What can be read off a text: the shape of an expression, and the tokens in which it is written
down. A script is a shape together with the parentheses and the places where a product is written
side by side; it is legible if the parentheses are enough to find its shape again. -/
namespace Schoolbook

/-- An expression without its groups and flags. The sign of a negative whole number is an operator on
the number without it. -/
inductive Shape where
  | number (n : Nat)
  | notWhole (x : Number)
  | var (name : String)
  | unary (op : UnaryKind) (operand : Shape)
  | binary (kind : BinaryKind) (lhs rhs : Shape)
  | call (func : FunctionKind) (arg : Shape)
  | unset
  deriving DecidableEq

def Expr.shape : Expr → Shape
  | .constant (.integer n) =>
    if n.toInt < 0 then .unary .neg (.number n.toInt.natAbs) else .number n.toInt.natAbs
  | .constant x => .notWhole x
  | .var name => .var name
  | .binary op lhs rhs => .binary op.kind lhs.shape rhs.shape
  | .unary op operand => .unary op operand.shape
  | .call func arg => .call func arg.shape
  | .group inner => inner.shape
  | .unset => .unset

inductive Token where
  | digit (value : Nat)
  | letter (name : Char)
  | operator (kind : BinaryKind)
  | openParens
  | openRoot
  /-- Opens the right operand of an operator whose left operand stands in front. -/
  | openArgument (kind : BinaryKind)
  | close
  deriving DecidableEq

/-- Whether a token behind an operand begins the right factor of a product. -/
def Token.juxtaposes : Token → Bool
  | .letter _ | .openParens | .openRoot => true
  | .digit _ | .operator _ | .openArgument _ | .close => false

/-- Signs are read from the tokens of operators. -/
def UnaryKind.token : UnaryKind → Token
  | .neg => .operator .sub
  | .pos => .operator .add
  | .unknown => .operator .unknown

namespace BinaryKind

/-- Whether an operand on the given side that binds like `p` is read whole without parentheses. -/
def Admits (kind : BinaryKind) (side : Associativity) (p : Precedence) : Prop :=
  kind.precedence < p ∨ kind.precedence = p ∧ kind.associativity = side

instance (kind : BinaryKind) (side : Associativity) (p : Precedence) :
    Decidable (kind.Admits side p) := inferInstanceAs (Decidable (_ ∨ _))

end BinaryKind

inductive Script where
  | number (n : Nat)
  | letter (name : Char)
  | sign (op : UnaryKind) (operand : Script)
  /-- An operator between its operands, unless these are written side by side. -/
  | operation (kind : BinaryKind) (written : Bool) (lhs rhs : Script)
  | parens (inner : Script)
  | root (arg : Script)
  /-- The right operand stands in delimiters of its own, as exponents and denominators can. -/
  | argument (kind : BinaryKind) (lhs rhs : Script)

namespace Script

/-- The value of a digit is what its character is above the digit zero. -/
def digits (n : Nat) : List Token := (Nat.toDigits 10 n).map fun c => .digit (c.toNat - '0'.toNat)

def tokens : Script → List Token
  | .number n => digits n
  | .letter name => [.letter name]
  | .sign op operand => op.token :: operand.tokens
  | .operation kind written lhs rhs =>
    lhs.tokens ++ ((if written then [.operator kind] else []) ++ rhs.tokens)
  | .parens inner => .openParens :: (inner.tokens ++ [.close])
  | .root arg => .openRoot :: (arg.tokens ++ [.close])
  | .argument kind lhs rhs => lhs.tokens ++ .openArgument kind :: (rhs.tokens ++ [.close])

def shape : Script → Shape
  | .number n => .number n
  | .letter name => .var name.toString
  | .sign op operand => .unary op operand.shape
  | .operation kind _ lhs rhs => .binary kind lhs.shape rhs.shape
  | .parens inner => inner.shape
  | .root arg => .call .sqrt arg.shape
  | .argument kind lhs rhs => .binary kind lhs.shape rhs.shape

def level : Script → Precedence
  | .sign _ _ => .sign
  | .operation kind _ _ _ => kind.precedence
  | .number _ | .letter _ | .parens _ | .root _ | .argument _ _ _ => .atom

def Legible : Script → Prop
  | .number _ | .letter _ => True
  | .sign op operand => op ≠ .unknown ∧ .sign ≤ operand.level ∧ operand.Legible
  | .operation kind written lhs rhs =>
    kind.Admits .left lhs.level ∧ kind.Admits .right rhs.level ∧
      (written = false → kind = .mul ∧ ∃ t ∈ rhs.tokens.head?, t.juxtaposes = true) ∧
      lhs.Legible ∧ rhs.Legible
  | .parens inner => inner.Legible
  | .root arg => arg.Legible
  | .argument _ lhs rhs => lhs.level = .atom ∧ lhs.Legible ∧ rhs.Legible

end Script
end Schoolbook
