import Schoolbook.Equation
import Schoolbook.Number.Json

/-!
The JSON form of expressions and equations. A name of an operator or a function that is not known
makes it an unknown one, so that the fault is found when the expression is used.
-/
namespace Schoolbook

namespace BinaryKind

def ofName (name : String) : BinaryKind := (all.find? fun kind => kind.name == name).getD .unknown

def toJson (kind : BinaryKind) : Json := .string kind.name

def ofJson? (j : Json) : Option BinaryKind := j.name?.map ofName

end BinaryKind

namespace BinaryOp

def toJson (op : BinaryOp) : Json :=
  .object [("kind", op.kind.toJson), ("implicit", .bool op.implicit)]

/-- The flag may be missing. -/
def ofJson? (j : Json) : Option BinaryOp := do
  match ← j.fields? ["kind", "implicit"] with
  | [some kind, some implicit] => return ⟨← BinaryKind.ofJson? kind, ← implicit.bool?⟩
  | [some kind, none] => return ⟨← BinaryKind.ofJson? kind, false⟩
  | _ => none

end BinaryOp

namespace UnaryKind

def ofName (name : String) : UnaryKind := (all.find? fun kind => kind.name == name).getD .unknown

def toJson (kind : UnaryKind) : Json := .string kind.name

def ofJson? (j : Json) : Option UnaryKind := j.name?.map ofName

end UnaryKind

namespace FunctionKind

def ofName (name : String) : FunctionKind :=
  (all.find? fun kind => kind.name == name).getD .unknown

def toJson (kind : FunctionKind) : Json := .string kind.name

def ofJson? (j : Json) : Option FunctionKind := j.name?.map ofName

end FunctionKind

namespace Expr

def toJson : Expr → Json
  | .constant x => .tagged "Constant" x.toJson
  | .var name => .tagged "Variable" (.string name)
  | .binary op lhs rhs =>
    .tagged "Binary" (.object [("lhs", lhs.toJson), ("op", op.toJson), ("rhs", rhs.toJson)])
  | .unary op operand => .tagged "Unary" (.object [("op", op.toJson), ("operand", operand.toJson)])
  | .call func arg => .tagged "Call" (.object [("func", func.toJson), ("arg", arg.toJson)])
  | .group inner => .tagged "Group" (.object [("expr", inner.toJson)])
  | .unset => .string "Unset"

def ofJson? (j : Json) : Option Expr :=
  match alternative : j.alternative? with
  | some (name, some content) =>
    have smaller := Json.sizeOf_lt_of_alternative? alternative
    if name = "Constant" then (Number.ofJson? content).map .constant
    else if name = "Variable" then content.string?.map .var
    else if name = "Binary" then
      match fields : content.fields? ["lhs", "op", "rhs"] with
      | some [some lhs, some op, some rhs] =>
        have : sizeOf lhs < sizeOf content := Json.sizeOf_lt_of_fields? fields (by simp)
        have : sizeOf rhs < sizeOf content := Json.sizeOf_lt_of_fields? fields (by simp)
        do return .binary (← BinaryOp.ofJson? op) (← ofJson? lhs) (← ofJson? rhs)
      | _ => none
    else if name = "Unary" then
      match fields : content.fields? ["op", "operand"] with
      | some [some op, some operand] =>
        have : sizeOf operand < sizeOf content := Json.sizeOf_lt_of_fields? fields (by simp)
        do return .unary (← UnaryKind.ofJson? op) (← ofJson? operand)
      | _ => none
    else if name = "Call" then
      match fields : content.fields? ["func", "arg"] with
      | some [some func, some arg] =>
        have : sizeOf arg < sizeOf content := Json.sizeOf_lt_of_fields? fields (by simp)
        do return .call (← FunctionKind.ofJson? func) (← ofJson? arg)
      | _ => none
    else if name = "Group" then
      match fields : content.fields? ["expr"] with
      | some [some inner] =>
        have : sizeOf inner < sizeOf content := Json.sizeOf_lt_of_fields? fields (by simp)
        (ofJson? inner).map .group
      | _ => none
    else if j.name? = some "Unset" then some .unset
    else none
  | some (name, none) => if name = "Unset" then some .unset else none
  | none => none
termination_by j

end Expr

namespace Equation

def toJson (q : Equation) : Json := .object [("lhs", q.lhs.toJson), ("rhs", q.rhs.toJson)]

def ofJson? (j : Json) : Option Equation := do
  match ← j.fields? ["lhs", "rhs"] with
  | [some lhs, some rhs] => return ⟨← Expr.ofJson? lhs, ← Expr.ofJson? rhs⟩
  | _ => none

end Equation
end Schoolbook
