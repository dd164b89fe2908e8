import Mathlib
import Schoolbook.Canonical.OfExpr
import Schoolbook.Proofs.Blame

/-! Groups and the flags of operators have no meaning. An expression without its groups, with any
flags, has the same canonical tree, the same results and the same faults, at the same nodes. -/
namespace Schoolbook

namespace Expr

/-- The same expression up to the flags of its binary operators. -/
inductive Reflagged : Expr → Expr → Prop where
  | constant (x : Number) : Reflagged (constant x) (constant x)
  | var (name : String) : Reflagged (var name) (var name)
  | unset : Reflagged unset unset
  | binary (kind : BinaryKind) (flag flag' : Bool) {lhs lhs' rhs rhs' : Expr}
      (left : Reflagged lhs lhs') (right : Reflagged rhs rhs') :
      Reflagged (binary ⟨kind, flag⟩ lhs rhs) (binary ⟨kind, flag'⟩ lhs' rhs')
  | unary (op : UnaryKind) {operand operand' : Expr} (below : Reflagged operand operand') :
      Reflagged (unary op operand) (unary op operand')
  | call (func : FunctionKind) {arg arg' : Expr} (below : Reflagged arg arg') :
      Reflagged (call func arg) (call func arg')
  | group {inner inner' : Expr} (below : Reflagged inner inner') :
      Reflagged (group inner) (group inner')

/-- Where a node stands once all groups are removed: the steps from a group to its inside vanish. -/
def strippedPath : Expr → List Nat → List Nat
  | _, [] => []
  | .group inner, _ :: path => inner.strippedPath path
  | e, index :: path => index :: ((e.child? index).elim path fun c => c.strippedPath path)

end Expr

/-- The same blame in the expression without its groups. -/
def Blame.strip (e : Expr) (b : Blame) : Blame := { b with path := e.strippedPath b.path }

section
variable {α : Type}

theorem Blame.within_mapError (outer : Expr) {inner : Expr} {index : Nat} (result : Except Blame α)
    (kept : ∀ path, outer.strippedPath (index :: path) = index :: inner.strippedPath path) :
    within index (result.mapError (strip inner)) = (within index result).mapError (strip outer) := by
  cases result with
  | ok a => rfl
  | error b => simp [within, Except.mapError, under, strip, kept]

theorem Blame.mapError_strip_group {inner : Expr} {index : Nat} (result : Except Blame α) :
    result.mapError (strip inner) = (within index result).mapError (strip (.group inner)) := by
  cases result <;> rfl

end

namespace Expr

/-- A result that only blames nodes which stay where they are. -/
theorem mapError_strip {α : Type} {e : Expr} {result : Except Blame α}
    (fixed : ∀ b, result = .error b → e.strippedPath b.path = b.path) :
    result.mapError (Blame.strip e) = result := by
  cases result with
  | ok a => rfl
  | error b => simp [Except.mapError, Blame.strip, fixed b rfl]

theorem mapError_strip_finite (e : Expr) (x : Number) :
    x.finite.mapError (Blame.strip e) = x.finite := by
  apply mapError_strip
  intro b failed
  obtain ⟨-, rfl⟩ := Number.finite_eq_error_iff.mp failed
  rfl

theorem mapError_strip_apply (kind : BinaryKind) (flag : Bool) (lhs rhs : Expr) (x y : Number) :
    (kind.apply x y).mapError (Blame.strip (binary ⟨kind, flag⟩ lhs rhs)) = kind.apply x y := by
  apply mapError_strip
  intro b failed
  cases kind with
  | add | sub | mul => cases failed
  | unknown =>
    cases failed
    rfl
  | div =>
    obtain ⟨fault, -, rfl⟩ := mapError_eq_error_iff.mp failed
    cases fault <;> rfl
  | pow =>
    obtain ⟨fault, -, rfl⟩ := mapError_eq_error_iff.mp failed
    rfl

theorem mapError_strip_combine (kind : BinaryKind) (flag : Bool) (lhs rhs : Expr)
    (p q : Polynomial) :
    (expand.combine kind p q).mapError (Blame.strip (binary ⟨kind, flag⟩ lhs rhs)) =
      expand.combine kind p q := by
  have tooHigh (result : Option Polynomial) :
      (expand.unlessTooHigh result).mapError (Blame.strip (binary ⟨kind, flag⟩ lhs rhs)) =
        expand.unlessTooHigh result := by
    cases result <;> rfl
  cases kind with
  | add | sub | div | unknown => rfl
  | mul => exact tooHigh _
  | pow =>
    rw [expand.combine]
    split
    · exact tooHigh _
    · rfl

theorem reflagged_value {e e' : Expr} (changed : e.stripGroups.Reflagged e') :
    e'.value = e.value.mapError (Blame.strip e) := by
  -- A group only lengthens the path of a blame, and stripping takes that step away again.
  induction e generalizing e' with
  | constant x =>
    cases changed
    exact (mapError_strip_finite _ x).symm
  | var name =>
    cases changed
    rfl
  | unset =>
    cases changed
    rfl
  | group inner ih =>
    rw [ih changed, value]
    exact Blame.mapError_strip_group inner.value
  | unary op operand ih =>
    cases changed with
    | unary _ below =>
      cases op with
      | unknown => rfl
      | pos =>
        rw [value, value, ih below]
        exact Blame.within_mapError _ operand.value fun _ => rfl
      | neg =>
        rw [value, value, ih below, mapError_bind,
          Blame.within_mapError (unary .neg operand) operand.value fun _ => rfl]
        simp only [mapError_strip_finite]
  | call func arg ih =>
    cases changed with
    | call _ below =>
      cases func with
      | unknown => rfl
      | sqrt =>
        rw [value, value, ih below, mapError_bind,
          Blame.within_mapError (call .sqrt arg) arg.value fun _ => rfl]
        congr
        funext x
        cases x.sqrt <;> rfl
  | binary op lhs rhs ihl ihr =>
    cases changed with
    | binary kind flag flag' left right =>
      rw [value, value, ihl left, ihr right]
      split_ifs with unknown
      · rfl
      · rw [mapError_bind, Blame.within_mapError (binary ⟨kind, flag⟩ lhs rhs) lhs.value fun _ => rfl,
          Blame.within_mapError (binary ⟨kind, flag⟩ lhs rhs) rhs.value fun _ => rfl]
        simp only [mapError_bind, mapError_strip_apply, mapError_strip_finite]

theorem reflagged_expand {e e' : Expr} (changed : e.stripGroups.Reflagged e') :
    e'.expand = e.expand.mapError (Blame.strip e) := by
  induction e generalizing e' with
  | constant x =>
    cases changed
    rfl
  | var name =>
    cases changed
    rfl
  | unset =>
    cases changed
    rfl
  | group inner ih =>
    rw [ih changed, expand]
    exact Blame.mapError_strip_group inner.expand
  | unary op operand ih =>
    cases changed with
    | unary _ below =>
      cases op with
      | unknown => rfl
      | pos =>
        rw [expand, expand, ih below]
        exact Blame.within_mapError _ operand.expand fun _ => rfl
      | neg =>
        rw [expand, expand, ih below, mapError_bind,
          Blame.within_mapError (unary .neg operand) operand.expand fun _ => rfl]
        rfl
  | call func arg _ =>
    cases changed
    cases func <;> rfl
  | binary op lhs rhs ihl ihr =>
    cases changed with
    | binary kind flag flag' left right =>
      rw [expand, expand, ihl left, ihr right]
      split_ifs with unknown division
      · rfl
      · rfl
      · rw [mapError_bind, Blame.within_mapError (binary ⟨kind, flag⟩ lhs rhs) lhs.expand fun _ => rfl,
          Blame.within_mapError (binary ⟨kind, flag⟩ lhs rhs) rhs.expand fun _ => rfl]
        simp only [mapError_bind, mapError_strip_combine]

theorem reflagged_canonicalParts {e e' : Expr} (changed : e.stripGroups.Reflagged e') :
    e'.canonicalParts = e.canonicalParts := by
  induction e generalizing e' with
  | constant x =>
    cases changed
    rfl
  | var name =>
    cases changed
    rfl
  | unset =>
    cases changed
    rfl
  | group inner ih => exact ih changed
  | unary op operand ih =>
    cases changed with
    | unary _ below => cases op <;> simp only [canonicalParts, ih below]
  | call func arg ih =>
    cases changed with
    | call _ below => cases func <;> simp only [canonicalParts, ih below]
  | binary op lhs rhs ihl ihr =>
    cases changed with
    | binary kind _ _ left right => cases kind <;> simp only [canonicalParts, ihl left, ihr right]

/-- Stripping leads from a node to the same node without its groups. -/
theorem node?_strippedPath {e e' n : Expr} {path : List Nat} (changed : e.stripGroups.Reflagged e')
    (found : e.node? path = some n) :
    ∃ n', e'.node? (e.strippedPath path) = some n' ∧ n.stripGroups.Reflagged n' := by
  induction path generalizing e e' with
  | nil =>
    cases found
    exact ⟨e', rfl, changed⟩
  | cons index path ih =>
    obtain ⟨c, step, found⟩ := node?_cons_eq_some.mp found
    have descend {c' : Expr} (same : c.stripGroups.Reflagged c') (step' : e'.child? index = some c')
        (kept : e.strippedPath (index :: path) = index :: c.strippedPath path) :
        ∃ n', e'.node? (e.strippedPath (index :: path)) = some n' ∧ n.stripGroups.Reflagged n' := by
      obtain ⟨n', found', rest⟩ := ih same found
      refine ⟨n', ?_, rest⟩
      rw [kept]
      exact node?_cons_eq_some.mpr ⟨c', step', found'⟩
    cases e with
    | constant x => cases step
    | var name => cases step
    | unset => cases step
    | group inner =>
      obtain ⟨rfl, rfl⟩ := child?_group_eq_some.mp step
      exact ih changed found
    | call func arg =>
      obtain ⟨rfl, rfl⟩ := child?_call_eq_some.mp step
      cases changed with
      | call _ below => exact descend below rfl rfl
    | unary op operand =>
      obtain ⟨rfl, rfl⟩ := child?_unary_eq_some.mp step
      cases changed with
      | unary _ below => exact descend below rfl rfl
    | binary op lhs rhs =>
      cases changed with
      | binary _ _ _ left right =>
        rcases child?_binary_eq_some.mp step with ⟨rfl, rfl⟩ | ⟨rfl, rfl⟩
        · exact descend left rfl rfl
        · exact descend right rfl rfl

/-- Two expressions have one result, or they fail by the same fault of corresponding nodes, which
are underlined in both texts. -/
structure SameOutcome {α : Type} (e e' : Expr) (find : Expr → Except Blame α)
    (report : Expr → Except Diagnosis α) : Prop where
  ok_iff : ∀ a, report e = .ok a ↔ report e' = .ok a
  error : ∀ d, report e = .error d → ∃ path n n' span span',
    find e = .error ⟨path, d.fault⟩ ∧ find e' = .error ⟨e.strippedPath path, d.fault⟩ ∧
      e.node? path = some n ∧ e'.node? (e.strippedPath path) = some n' ∧
        n.stripGroups.Reflagged n' ∧ e.span? path = some span ∧
          e'.span? (e.strippedPath path) = some span' ∧ d.spans = [span] ∧
            report e' = .error ⟨d.fault, [span']⟩

theorem sameOutcome {α : Type} {e e' : Expr} {find : Expr → Except Blame α}
    (changed : e.stripGroups.Reflagged e') (same : find e' = (find e).mapError (Blame.strip e))
    (blamed : ∀ b, find e = .error b → e.Justifies b) :
    e.SameOutcome e' find fun e => (find e).mapError (Subject.expr e).diagnose := by
  constructor
  · intro a
    simp only [same, mapError_eq_ok_iff]
  · intro d failed
    obtain ⟨b, faulty, rfl⟩ := mapError_eq_error_iff.mp failed
    obtain ⟨n, found⟩ := (blamed b faulty).node
    obtain ⟨n', found', rest⟩ := node?_strippedPath changed found
    have faulty' : find e' = .error (b.strip e) := by
      rw [same, faulty]
      rfl
    obtain ⟨span, marked, underlined⟩ := (Subject.expr e).exists_diagnose b found
    obtain ⟨span', marked', underlined'⟩ := (Subject.expr e').exists_diagnose (b.strip e) found'
    refine ⟨b.path, n, n', span, span', faulty, faulty', found, found', rest, marked, marked', ?_, ?_⟩
    · rw [underlined]
    · exact mapError_eq_error_iff.mpr ⟨b.strip e, faulty', underlined'⟩

/-- Groups and flags carry no meaning: without the groups, and with any flags, an expression has the
same canonical tree, and it evaluates and reduces to the same, or fails at the same node. -/
theorem groups_and_flags_carry_no_meaning {e e' : Expr} (changed : e.stripGroups.Reflagged e') :
    e'.canonicalize = e.canonicalize ∧ e.SameOutcome e' value evaluate ∧
      e.SameOutcome e' expand reduce := by
  refine ⟨congrArg CanonicalParts.tree (reflagged_canonicalParts changed), ?_, ?_⟩
  · exact sameOutcome changed (reflagged_value changed) fun _ => justifies_value
  · exact sameOutcome changed (reflagged_expand changed) fun _ => justifies_expand

/-- In `2((1/((2-2))))` the divisor is zero, and the product has no sign of its own. -/
theorem groups_and_flags_carry_no_meaning_division :
    let one : Expr := .constant 1
    let two : Expr := .constant (.integer 2)
    let zero : Expr := .binary ⟨.sub, false⟩ two two
    let e : Expr := .binary ⟨.mul, true⟩ two
      (.group (.group (.binary ⟨.div, false⟩ one (.group (.group zero)))))
    let e' : Expr := .binary ⟨.mul, false⟩ two (.binary ⟨.div, true⟩ one zero)
    e.stripGroups.Reflagged e' ∧ e.evaluate = .error ⟨.divisionByZero, [⟨5, 12⟩]⟩ ∧
      e'.evaluate = .error ⟨.divisionByZero, [⟨6, 9⟩]⟩ ∧ e'.canonicalize = e.canonicalize ∧
        e.SameOutcome e' value evaluate ∧ e.SameOutcome e' expand reduce := by
  intro one two zero e e'
  have changed : e.stripGroups.Reflagged e' :=
    .binary .mul true false (.constant _) (.binary .div false true (.constant _)
      (.binary .sub false false (.constant _) (.constant _)))
  have failed : e.evaluate = .error ⟨.divisionByZero, [⟨5, 12⟩]⟩ := by decide +kernel
  have failed' : e'.evaluate = .error ⟨.divisionByZero, [⟨6, 9⟩]⟩ := by decide +kernel
  exact ⟨changed, failed, failed', groups_and_flags_carry_no_meaning changed⟩

end Expr
end Schoolbook
