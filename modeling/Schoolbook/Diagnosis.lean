import Schoolbook.Fault
import Schoolbook.Subject

/-!
Faults tied to the node that has them, and the same faults tied to the part of the plain text to
underline.
-/
namespace Schoolbook

/-- A fault and the path of the node that has it. -/
structure Blame where
  path : List Nat
  fault : Fault
  deriving DecidableEq, Repr

namespace Blame

/-- The blame seen from the parent, of which the blamed part is in the given child. -/
def under (index : Nat) (b : Blame) : Blame := { b with path := index :: b.path }

/-- Blames the node at hand. -/
def here {α : Type} (fault : Fault) : Except Blame α := .error ⟨[], fault⟩

/-- Blames a child of the node at hand. -/
def child {α : Type} (index : Nat) (fault : Fault) : Except Blame α := .error ⟨[index], fault⟩

/-- Carries a result of a child over to its parent. -/
def within {α : Type} (index : Nat) (result : Except Blame α) : Except Blame α :=
  result.mapError (under index)

end Blame

/-- A fault and the spans to underline, of which there is at most one. -/
structure Diagnosis where
  fault : Fault
  spans : List Span
  deriving DecidableEq, Repr

def Subject.diagnose (s : Subject) (b : Blame) : Diagnosis := ⟨b.fault, (s.span? b.path).toList⟩

/-- A position in an expression or an equation. -/
structure Cursor where
  subject : Subject
  path : List Nat
  deriving DecidableEq

namespace Cursor

def root (e : Expr) : Cursor := ⟨.expr e, []⟩

def side (q : Equation) (index : Nat) : Cursor := ⟨.equation q, [index]⟩

def child (c : Cursor) (index : Nat) : Cursor := { c with path := c.path ++ [index] }

def spans (c : Cursor) : List Span := (c.subject.span? c.path).toList

def diagnose (c : Cursor) (fault : Fault) : Diagnosis := ⟨fault, c.spans⟩

end Cursor
end Schoolbook
