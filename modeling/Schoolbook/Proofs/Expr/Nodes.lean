import Mathlib
import Schoolbook.Expr.Basic
import Schoolbook.Proofs.Number.Exact

/-! Properties of all nodes of an expression. A node is named by the path to it. -/
namespace Schoolbook.Expr

/-- Whether a property holds of every node. -/
def Everywhere (p : Expr → Prop) (e : Expr) : Prop := ∀ path n, e.node? path = some n → p n

theorem node?_cons_eq_some {e n : Expr} {index : Nat} {path : List Nat} :
    e.node? (index :: path) = some n ↔ ∃ c, e.child? index = some c ∧ c.node? path = some n :=
  Option.bind_eq_some_iff

theorem child?_binary_eq_some {op : BinaryOp} {lhs rhs c : Expr} {index : Nat} :
    (binary op lhs rhs).child? index = some c ↔
      index = 0 ∧ lhs = c ∨ index = 1 ∧ rhs = c := by
  rcases index with _ | _ | index <;> simp [child?, children]

theorem child?_unary_eq_some {op : UnaryKind} {operand c : Expr} {index : Nat} :
    (unary op operand).child? index = some c ↔ index = 0 ∧ operand = c := by
  cases index <;> simp [child?, children]

theorem child?_call_eq_some {func : FunctionKind} {arg c : Expr} {index : Nat} :
    (call func arg).child? index = some c ↔ index = 0 ∧ arg = c := by
  cases index <;> simp [child?, children]

theorem child?_group_eq_some {inner c : Expr} {index : Nat} :
    (group inner).child? index = some c ↔ index = 0 ∧ inner = c := by
  cases index <;> simp [child?, children]

theorem everywhere_iff {p : Expr → Prop} {e : Expr} :
    e.Everywhere p ↔ p e ∧ ∀ c ∈ e.children, c.Everywhere p := by
  constructor
  · intro all
    refine ⟨all [] e rfl, ?_⟩
    intro c member path n found
    obtain ⟨index, bound⟩ := List.mem_iff_getElem?.mp member
    exact all (index :: path) n (node?_cons_eq_some.mpr ⟨c, bound, found⟩)
  · rintro ⟨here, below⟩ (_ | ⟨index, path⟩) n found
    · cases found
      exact here
    · obtain ⟨c, step, found⟩ := node?_cons_eq_some.mp found
      exact below c (List.mem_of_getElem? step) path n found

/-- What holds everywhere holds everywhere below a node. -/
theorem Everywhere.below {p : Expr → Prop} {e n : Expr} {path : List Nat} (all : e.Everywhere p)
    (found : e.node? path = some n) : n.Everywhere p := by
  induction path generalizing e with
  | nil =>
    cases found
    exact all
  | cons index path ih =>
    obtain ⟨c, step, found⟩ := node?_cons_eq_some.mp found
    exact ih ((everywhere_iff.mp all).2 c (List.mem_of_getElem? step)) found

section
variable {p : Expr → Prop}

@[simp] theorem everywhere_constant {x : Number} :
    (constant x).Everywhere p ↔ p (constant x) := by
  rw [everywhere_iff]
  simp [children]

@[simp] theorem everywhere_var {name : String} : (var name).Everywhere p ↔ p (var name) := by
  rw [everywhere_iff]
  simp [children]

@[simp] theorem everywhere_unset : unset.Everywhere p ↔ p unset := by
  rw [everywhere_iff]
  simp [children]

@[simp] theorem everywhere_binary {op : BinaryOp} {lhs rhs : Expr} :
    (binary op lhs rhs).Everywhere p ↔
      p (binary op lhs rhs) ∧ lhs.Everywhere p ∧ rhs.Everywhere p := by
  rw [everywhere_iff]
  simp [children]

@[simp] theorem everywhere_unary {op : UnaryKind} {operand : Expr} :
    (unary op operand).Everywhere p ↔ p (unary op operand) ∧ operand.Everywhere p := by
  rw [everywhere_iff]
  simp [children]

@[simp] theorem everywhere_call {func : FunctionKind} {arg : Expr} :
    (call func arg).Everywhere p ↔ p (call func arg) ∧ arg.Everywhere p := by
  rw [everywhere_iff]
  simp [children]

@[simp] theorem everywhere_group {inner : Expr} :
    (group inner).Everywhere p ↔ p (group inner) ∧ inner.Everywhere p := by
  rw [everywhere_iff]
  simp [children]

end

/-- No node is unset or has an unknown operator. -/
def WellFormed (e : Expr) : Prop := e.Everywhere fun n => n.isMalformedNode = false

theorem wellFormed_binary {op : BinaryOp} {lhs rhs : Expr} (known : op.kind ≠ .unknown) :
    (binary op lhs rhs).WellFormed ↔ lhs.WellFormed ∧ rhs.WellFormed := by
  have here : (binary op lhs rhs).isMalformedNode = false := decide_eq_false known
  simp only [WellFormed, everywhere_binary, here, true_and]

/-- Every constant is stored exactly. -/
def ExactConstants (e : Expr) : Prop := e.Everywhere fun n => ∀ x, n = constant x → x.IsExact

end Schoolbook.Expr
