import Mathlib
import Schoolbook.Proofs.Blame

/-! An equation is reduced like the difference of its sides. The two are written differently, so the
spans of one node are not the same in both texts, but the text in them is. -/
namespace Schoolbook

namespace Subject
variable {s : Subject} {b : Blame} {n : Expr}

/-- The parts of the text that a diagnosis underlines. -/
def highlight (s : Subject) (d : Diagnosis) : List ByteArray :=
  d.spans.map fun span => s.plain.toUTF8.extract span.start span.stop

/-- A diagnosis that underlines one node and nothing else. The node stands at the path. -/
def Underlines (s : Subject) (path : List Nat) (n : Expr) (d : Diagnosis) : Prop :=
  s.node? path = some n ∧ ∃ span, s.span? path = some span ∧ d.spans = [span]

theorem span?_eq_some {path : List Nat} {span : Span} (found : s.span? path = some span) :
    ∃ n, s.node? path = some n ∧ span.Marks n.plain s.plain := by
  cases s with
  | expr e => exact Expr.span?_eq_some found
  | equation q => exact Equation.span?_eq_some found

theorem underlines_diagnose (found : s.node? b.path = some n) :
    s.Underlines b.path n (s.diagnose b) := by
  obtain ⟨span, spanned, diagnosed⟩ := s.exists_diagnose b found
  exact ⟨found, span, spanned, by rw [diagnosed]⟩

/-- The underlined text is the text of the node. -/
theorem Underlines.highlight_eq {path : List Nat} {d : Diagnosis} (underlines : s.Underlines path n d) :
    s.highlight d = [n.plain.toUTF8] := by
  obtain ⟨found, span, spanned, underlined⟩ := underlines
  obtain ⟨m, same, marks⟩ := span?_eq_some spanned
  cases found.symm.trans same
  rw [highlight, underlined, List.map_singleton, marks.delimits.bytes]

end Subject

namespace Equation

/-- The left side minus the right side, as an expression. -/
def difference (q : Equation) (implicit : Bool) : Expr := .binary ⟨.sub, implicit⟩ q.lhs q.rhs

theorem expand_difference (q : Equation) (implicit : Bool) :
    (q.difference implicit).expand = q.expand := by
  rw [difference, Expr.expand, if_neg (by simp), if_neg (by simp)]
  rfl

/-- A path that starts with a side leads to the same node in both. -/
theorem node?_difference (q : Equation) (implicit : Bool) (side : Nat) (path : List Nat) :
    (q.difference implicit).node? (side :: path) = q.node? (side :: path) := by
  rcases side with _ | _ | side <;> rfl

/-- Equation and difference are reduced to one polynomial, or both fail with one fault at one node;
then the underlined text is the same. -/
theorem reduces_like_difference (q : Equation) (implicit : Bool) :
    (∃ p, q.reduce = .ok p ∧ (q.difference implicit).reduce = .ok p) ∨
      ∃ side path n d f, q.reduce = .error d ∧ (q.difference implicit).reduce = .error f ∧
        d.fault = f.fault ∧ (Subject.equation q).Underlines (side :: path) n d ∧
        (Subject.expr (q.difference implicit)).Underlines (side :: path) n f ∧
        (Subject.equation q).highlight d = (Subject.expr (q.difference implicit)).highlight f := by
  cases expanded : q.expand with
  | ok p =>
    have reduced : q.reduce = .ok p := mapError_eq_ok_iff.mpr expanded
    refine .inl ⟨p, reduced, Expr.reduce_eq_ok ?_⟩
    rw [expand_difference, expanded]
  | error b =>
    obtain ⟨side, path, -, split, there⟩ := isAt_expand expanded
    obtain ⟨n, found⟩ := there.node
    have found' : (q.difference implicit).node? b.path = some n := by
      rw [split, node?_difference, ← split, found]
    have reduced : q.reduce = .error ((Subject.equation q).diagnose b) :=
      mapError_eq_error_iff.mpr ⟨b, expanded, rfl⟩
    have reduced' : (q.difference implicit).reduce =
        .error ((Subject.expr (q.difference implicit)).diagnose b) :=
      mapError_eq_error_iff.mpr ⟨b, (q.expand_difference implicit).trans expanded, rfl⟩
    have left := Subject.underlines_diagnose (s := .equation q) found
    have right := Subject.underlines_diagnose (s := .expr (q.difference implicit)) found'
    have same := left.highlight_eq.trans right.highlight_eq.symm
    rw [split] at left right
    exact .inr ⟨side, path, n, _, _, reduced, reduced', rfl, left, right, same⟩

end Equation
end Schoolbook
