import Mathlib
import Schoolbook.Diagnosis
import Schoolbook.Proofs.Expr.Nodes

/-! The nodes of an expression or an equation and the parts of its text that stand for them. Spans are
counted beside the text, and what they delimit in it is exactly the text of their nodes. -/
namespace Schoolbook

theorem Expr.isSome_childOffset? (e : Expr) (index : Nat) :
    (e.childOffset? index).isSome = (e.child? index).isSome := by
  cases e <;> rcases index with _ | _ | index <;> rfl

theorem Expr.span?_cons (e : Expr) (index : Nat) (path : List Nat) :
    e.span? (index :: path) = (e.childOffset? index).bind fun offset =>
      (e.child? index).bind fun c => (c.span? path).map (Span.shift offset) := by
  simp [span?, Option.map_eq_bind]

theorem Equation.span?_cons (q : Equation) (side : Nat) (path : List Nat) :
    q.span? (side :: path) =
      (q.side? side).bind fun e => (e.span? path).map (Span.shift (q.sideOffset side)) := by
  simp [span?, Option.map_eq_bind]

/-- A path has a span where it leads to a node. -/
theorem Expr.isSome_span? (e : Expr) (path : List Nat) :
    (e.span? path).isSome = (e.node? path).isSome := by
  induction path generalizing e with
  | nil => rfl
  | cons index path ih =>
    have offset := e.isSome_childOffset? index
    cases step : e.child? index with
    | none =>
      rw [step, Option.isSome_none, Option.isSome_eq_false_iff, Option.isNone_iff_eq_none] at offset
      simp [span?_cons, node?, offset, step]
    | some c =>
      rw [step, Option.isSome_some] at offset
      obtain ⟨start, found⟩ := Option.isSome_iff_exists.mp offset
      simp [span?_cons, node?, found, step, ih c]

theorem Equation.isSome_span? (q : Equation) (path : List Nat) :
    (q.span? path).isSome = (q.node? path).isSome := by
  cases path with
  | nil => rfl
  | cons side path =>
    cases found : q.side? side with
    | none => simp [span?_cons, node?, found]
    | some e => simp [span?_cons, node?, found, e.isSome_span? path]

theorem Subject.isSome_span? (s : Subject) (path : List Nat) :
    (s.span? path).isSome = (s.node? path).isSome := by
  cases s with
  | expr e => exact e.isSome_span? path
  | equation q => exact q.isSome_span? path

/-- A blame that leads to a node underlines the span of that node and nothing else. -/
theorem Subject.exists_diagnose (s : Subject) (b : Blame) {n : Expr}
    (found : s.node? b.path = some n) :
    ∃ span, s.span? b.path = some span ∧ s.diagnose b = ⟨b.fault, [span]⟩ := by
  have spanned := s.isSome_span? b.path
  rw [found, Option.isSome_some] at spanned
  obtain ⟨span, spanned⟩ := Option.isSome_iff_exists.mp spanned
  refine ⟨span, spanned, ?_⟩
  rw [diagnose, spanned, Option.toList_some]

/-- Whether the bytes of a span are inside a text and are those of a part of it. -/
structure Span.Delimits (s : Span) (part text : String) : Prop where
  ordered : s.start ≤ s.stop
  inside : s.stop ≤ text.utf8ByteSize
  bytes : text.toUTF8.extract s.start s.stop = part.toUTF8

/-- A part stands in a text after the given number of bytes. -/
def StandsAt (start : Nat) (part text : String) : Prop :=
  ∃ before after, text = before ++ part ++ after ∧ before.utf8ByteSize = start

namespace StandsAt
variable {start : Nat} {part text : String}

theorem refl (text : String) : StandsAt 0 text text := ⟨"", "", by simp, rfl⟩

theorem prepend (before : String) (stands : StandsAt start part text) :
    StandsAt (before.utf8ByteSize + start) part (before ++ text) := by
  obtain ⟨inner, after, rfl, rfl⟩ := stands
  exact ⟨before ++ inner, after, by simp only [String.append_assoc], String.utf8ByteSize_append⟩

theorem append (after : String) (stands : StandsAt start part text) :
    StandsAt start part (text ++ after) := by
  obtain ⟨before, inner, rfl, same⟩ := stands
  exact ⟨before, inner ++ after, by simp only [String.append_assoc], same⟩

theorem trans {offset : Nat} {middle : String} (inner : StandsAt start part middle)
    (outer : StandsAt offset middle text) : StandsAt (offset + start) part text := by
  obtain ⟨before, after, rfl, rfl⟩ := outer
  exact (inner.prepend before).append after

theorem parenthesized (needed : Bool) (text : String) :
    StandsAt needed.toNat text (Expr.parenthesized needed text) := by
  cases needed with
  | false => exact .refl text
  | true => exact ⟨"(", ")", rfl, rfl⟩

end StandsAt

namespace Span
variable {s : Span} {part text : String}

/-- Whether a span starts where a part stands in a text, and is as long as that part. -/
structure Marks (s : Span) (part text : String) : Prop where
  stands : StandsAt s.start part text
  stop : s.stop = s.start + part.utf8ByteSize

theorem Marks.shift {offset : Nat} {middle : String} (marks : s.Marks part middle)
    (outer : StandsAt offset middle text) : (s.shift offset).Marks part text := by
  refine ⟨marks.stands.trans outer, ?_⟩
  rw [Span.shift, marks.stop, Nat.add_assoc]

theorem Marks.delimits (marks : s.Marks part text) : s.Delimits part text := by
  obtain ⟨start, stop⟩ := s
  obtain ⟨⟨before, after, rfl, starts⟩, stops⟩ := marks
  dsimp only at starts stops
  subst starts stops
  refine ⟨Nat.le_add_right _ _, ?_, ?_⟩
  · simp only [String.utf8ByteSize_append]
    exact Nat.le_add_right _ _
  · calc (before ++ part ++ after).toUTF8.extract before.utf8ByteSize
          (before.utf8ByteSize + part.utf8ByteSize)
        = (before.toByteArray ++ (part.toByteArray ++ after.toByteArray)).extract
            (before.toByteArray.size + 0) (before.toByteArray.size + part.toByteArray.size) := by
          simp only [String.toUTF8, String.toByteArray_append, ByteArray.append_assoc,
            String.size_toByteArray, Nat.add_zero]
      _ = (part.toByteArray ++ after.toByteArray).extract 0 part.toByteArray.size :=
          ByteArray.extract_append_size_add
      _ = part.toByteArray := ByteArray.extract_append_eq_left rfl

end Span

theorem Expr.standsAt_child {e c : Expr} {index offset : Nat} (step : e.child? index = some c)
    (starts : e.childOffset? index = some offset) : StandsAt offset c.plain e.plain := by
  cases e with
  | constant x => cases starts
  | var name => cases starts
  | unset => cases starts
  | group inner =>
    obtain ⟨rfl, rfl⟩ := child?_group_eq_some.mp step
    cases starts
    exact ⟨"(", ")", rfl, rfl⟩
  | call func arg =>
    obtain ⟨rfl, rfl⟩ := child?_call_eq_some.mp step
    cases starts
    exact ⟨func.symbol ++ "(", ")", rfl, String.utf8ByteSize_append⟩
  | unary op operand =>
    obtain ⟨rfl, rfl⟩ := child?_unary_eq_some.mp step
    cases starts
    exact (StandsAt.parenthesized _ operand.plain).prepend op.symbol
  | binary op lhs rhs =>
    rcases child?_binary_eq_some.mp step with ⟨rfl, rfl⟩ | ⟨rfl, rfl⟩
    · cases starts
      exact ((StandsAt.parenthesized _ lhs.plain).append _).append _
    · cases starts
      rw [plain, ← String.utf8ByteSize_append]
      exact (StandsAt.parenthesized _ rhs.plain).prepend _

theorem Expr.span?_eq_some {e : Expr} {path : List Nat} {span : Span}
    (found : e.span? path = some span) :
    ∃ n, e.node? path = some n ∧ span.Marks n.plain e.plain := by
  induction path generalizing e span with
  | nil =>
    cases found
    exact ⟨e, rfl, .refl e.plain, (Nat.zero_add _).symm⟩
  | cons index path ih =>
    rw [span?_cons] at found
    obtain ⟨offset, starts, found⟩ := Option.bind_eq_some_iff.mp found
    obtain ⟨c, step, found⟩ := Option.bind_eq_some_iff.mp found
    obtain ⟨inner, below, rfl⟩ := Option.map_eq_some_iff.mp found
    obtain ⟨n, leads, marks⟩ := ih below
    exact ⟨n, node?_cons_eq_some.mpr ⟨c, step, leads⟩, marks.shift (standsAt_child step starts)⟩

theorem Equation.standsAt_side {q : Equation} {side : Nat} {e : Expr} (on : q.side? side = some e) :
    StandsAt (q.sideOffset side) e.plain q.plain := by
  rcases side with _ | _ | side
  · cases on
    exact ((StandsAt.refl q.lhs.plain).append separator).append q.rhs.plain
  · cases on
    exact ⟨q.lhs.plain ++ separator, "", by rw [plain, String.append_empty],
      String.utf8ByteSize_append⟩
  · cases on

theorem Equation.span?_eq_some {q : Equation} {path : List Nat} {span : Span}
    (found : q.span? path = some span) :
    ∃ n, q.node? path = some n ∧ span.Marks n.plain q.plain := by
  cases path with
  | nil => cases found
  | cons side path =>
    rw [span?_cons] at found
    obtain ⟨e, on, found⟩ := Option.bind_eq_some_iff.mp found
    obtain ⟨inner, below, rfl⟩ := Option.map_eq_some_iff.mp found
    obtain ⟨n, leads, marks⟩ := Expr.span?_eq_some below
    exact ⟨n, by simp [node?, on, leads], marks.shift (standsAt_side on)⟩

/-- A path has a span if and only if it leads to a node, and the bytes in the span are exactly the
text of that node. -/
theorem Subject.spans_delimit_nodes (s : Subject) (path : List Nat) :
    ((s.span? path).isSome = true ↔ (s.node? path).isSome = true) ∧
      ∀ span n, s.span? path = some span → s.node? path = some n → span.Delimits n.plain s.plain := by
  refine ⟨by rw [s.isSome_span? path], ?_⟩
  intro span n found leads
  have marked : ∃ m, s.node? path = some m ∧ span.Marks m.plain s.plain := by
    cases s with
    | expr e => exact Expr.span?_eq_some found
    | equation q => exact Equation.span?_eq_some found
  obtain ⟨m, same, marks⟩ := marked
  cases leads.symm.trans same
  exact marks.delimits

/-- The equation is `λ = (λ+1)^(-(é(λ-0.5)))`; the path leads to `λ-0.5`. -/
theorem Subject.spans_delimit_nodes_multibyte :
    let x : Expr := .var "λ"
    let n : Expr := .binary ⟨.sub, false⟩ x (.constant (.ofRat (1 / 2)))
    let q : Equation := ⟨x, .binary ⟨.pow, false⟩ (.binary ⟨.add, false⟩ x (.constant 1))
      (.unary .neg (.binary ⟨.mul, true⟩ (.var "é") (.group n)))⟩
    (Subject.equation q).node? [1, 1, 0, 1, 0] = some n ∧
      ∃ span, (Subject.equation q).span? [1, 1, 0, 1, 0] = some span ∧
        span.Delimits n.plain q.plain := by
  intro x n q
  have leads : (Subject.equation q).node? [1, 1, 0, 1, 0] = some n := by decide +kernel
  have found : (Subject.equation q).span? [1, 1, 0, 1, 0] = some ⟨18, 24⟩ := by decide +kernel
  have delimited := ((Subject.equation q).spans_delimit_nodes [1, 1, 0, 1, 0]).2 _ n found leads
  exact ⟨leads, _, found, delimited⟩

end Schoolbook
