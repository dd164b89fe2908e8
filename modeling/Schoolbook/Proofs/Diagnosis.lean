import Mathlib
import Schoolbook.Diagnosis

/-! How results and faults of children are passed on to their parents. Passing a blame up, from child to
parent, comes to the same as going down to the blamed node and reporting its fault from there. -/
namespace Schoolbook

theorem bind_eq_ok_iff {ε α β : Type} {x : Except ε α} {f : α → Except ε β} {b : β} :
    x >>= f = .ok b ↔ ∃ a, x = .ok a ∧ f a = .ok b := by
  cases x <;> simp [bind, Except.bind]

theorem bind_eq_error_iff {ε α β : Type} {x : Except ε α} {f : α → Except ε β} {e : ε} :
    x >>= f = .error e ↔ x = .error e ∨ ∃ a, x = .ok a ∧ f a = .error e := by
  cases x <;> simp [bind, Except.bind]

theorem mapError_eq_ok_iff {ε δ α : Type} {x : Except ε α} {f : ε → δ} {a : α} :
    x.mapError f = .ok a ↔ x = .ok a := by
  cases x <;> simp [Except.mapError]

theorem mapError_eq_error_iff {ε δ α : Type} {x : Except ε α} {f : ε → δ} {d : δ} :
    x.mapError f = .error d ↔ ∃ e, x = .error e ∧ f e = d := by
  cases x <;> simp [Except.mapError]

theorem mapError_bind {ε δ α β : Type} (x : Except ε α) (f : α → Except ε β) (g : ε → δ) :
    (x >>= f).mapError g = x.mapError g >>= fun a => (f a).mapError g := by
  cases x <;> rfl

namespace Blame

theorem within_eq_ok_iff {α : Type} {index : Nat} {result : Except Blame α} {a : α} :
    within index result = .ok a ↔ result = .ok a :=
  mapError_eq_ok_iff

theorem within_eq_error_iff {α : Type} {index : Nat} {result : Except Blame α} {b : Blame} :
    within index result = .error b ↔ ∃ c, result = .error c ∧ c.under index = b :=
  mapError_eq_error_iff

end Blame

namespace Cursor
variable {α : Type}

/-- What a blame says when it is reported from the node that it leads to. -/
def report (c : Cursor) (b : Blame) : Diagnosis := (b.path.foldl child c).diagnose b.fault

theorem foldl_child (c : Cursor) (path : List Nat) :
    path.foldl child c = ⟨c.subject, c.path ++ path⟩ := by
  induction path generalizing c with
  | nil => rw [List.foldl_nil, List.append_nil]
  | cons index path ih =>
    rw [List.foldl_cons, ih]
    simp [child]

theorem report_eq_diagnose (c : Cursor) (b : Blame) :
    c.report b = c.subject.diagnose ⟨c.path ++ b.path, b.fault⟩ := by
  rw [report, foldl_child]
  rfl

/-- A parent that reports for its child reports from the child's position. -/
theorem mapError_within (c : Cursor) (index : Nat) (result : Except Blame α) :
    (Blame.within index result).mapError c.report = result.mapError (c.child index).report := by
  cases result <;> rfl

/-- A chain of parents reports from the position of the node at its end. -/
theorem mapError_foldr_within (c : Cursor) (path : List Nat) (result : Except Blame α) :
    (path.foldr Blame.within result).mapError c.report =
      result.mapError (path.foldl child c).report := by
  induction path generalizing c with
  | nil => rfl
  | cons index path ih => rw [List.foldr_cons, mapError_within, ih, List.foldl_cons]

theorem report_root (e : Expr) : (root e).report = (Subject.expr e).diagnose := by
  funext b
  rw [report_eq_diagnose]
  rfl

theorem report_side (q : Equation) (index : Nat) (b : Blame) :
    (side q index).report b = (Subject.equation q).diagnose (b.under index) := by
  rw [report_eq_diagnose]
  rfl

theorem mapError_side (q : Equation) (index : Nat) (result : Except Blame α) :
    (Blame.within index result).mapError (Subject.equation q).diagnose =
      result.mapError (side q index).report := by
  cases result with
  | error b => exact congrArg Except.error (report_side q index b).symm
  | ok a => rfl

end Cursor
end Schoolbook
