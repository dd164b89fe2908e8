/-!
The operators and functions of expressions, and how tightly they bind.
-/
namespace Schoolbook

/-- How tightly an expression binds, loosest first. -/
inductive Precedence where
  | any
  | term
  | factor
  | sign
  | power
  | atom
  deriving DecidableEq, Repr

namespace Precedence

def level : Precedence → Nat
  | .any => 0
  | .term => 1
  | .factor => 2
  | .sign => 3
  | .power => 4
  | .atom => 5

instance : LT Precedence := ⟨fun a b => a.level < b.level⟩
instance : LE Precedence := ⟨fun a b => a.level ≤ b.level⟩
instance (a b : Precedence) : Decidable (a < b) := inferInstanceAs (Decidable (a.level < b.level))
instance (a b : Precedence) : Decidable (a ≤ b) := inferInstanceAs (Decidable (a.level ≤ b.level))

def name : Precedence → String
  | .any => "Any"
  | .term => "Term"
  | .factor => "Factor"
  | .sign => "Neg"
  | .power => "Exp"
  | .atom => "Atom"

end Precedence

inductive Associativity where
  | left
  | right
  deriving DecidableEq, Repr

def Associativity.name : Associativity → String
  | .left => "Left"
  | .right => "Right"

/-- The last kind stands for an operator that was never set or not recognized. -/
inductive BinaryKind where
  | add
  | sub
  | mul
  | div
  | pow
  | unknown
  deriving DecidableEq, Repr

namespace BinaryKind

def all : List BinaryKind := [.add, .sub, .mul, .div, .pow, .unknown]

def name : BinaryKind → String
  | .add => "Add"
  | .sub => "Sub"
  | .mul => "Mul"
  | .div => "Div"
  | .pow => "Exp"
  | .unknown => "Unspecified"

def precedence : BinaryKind → Precedence
  | .add | .sub => .term
  | .mul | .div => .factor
  | .pow => .power
  | .unknown => .any

def associativity : BinaryKind → Associativity
  | .pow => .right
  | _ => .left

def isCommutative : BinaryKind → Bool
  | .add | .mul => true
  | _ => false

end BinaryKind

structure BinaryOp where
  kind : BinaryKind
  /-- Whether the operator was left out, as in `2x`. -/
  implicit : Bool := false
  deriving DecidableEq, Repr

inductive UnaryKind where
  | neg
  | pos
  | unknown
  deriving DecidableEq, Repr

namespace UnaryKind

def all : List UnaryKind := [.neg, .pos, .unknown]

def name : UnaryKind → String
  | .neg => "Neg"
  | .pos => "Pos"
  | .unknown => "Unspecified"

def precedence : UnaryKind → Precedence
  | .neg | .pos => .sign
  | .unknown => .any

def symbol : UnaryKind → String
  | .neg => "-"
  | .pos => "+"
  | .unknown => "?"

end UnaryKind

inductive FunctionKind where
  | sqrt
  | unknown
  deriving DecidableEq, Repr

namespace FunctionKind

def all : List FunctionKind := [.sqrt, .unknown]

def name : FunctionKind → String
  | .sqrt => "SquareRoot"
  | .unknown => "Unspecified"

def symbol : FunctionKind → String
  | .sqrt => "sqrt"
  | .unknown => "?"

end FunctionKind
end Schoolbook
