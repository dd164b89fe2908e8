import Mathlib
import Schoolbook.Proofs.Malformed

/-! The form of canonical trees. Sums and products are sorted lists of at least two operands, none of
them a list of the same kind. A tree of this form is the canonical tree of the expression that is
rebuilt from it. -/
namespace Schoolbook

namespace Canonical

def IsSum : Canonical → Prop
  | .sum _ => True
  | _ => False

def IsProduct : Canonical → Prop
  | .product _ => True
  | _ => False

/-- A list of operands that cannot be flattened or sorted any further. -/
structure IsFlat (OfKind : Canonical → Prop) (ts : List Canonical) : Prop where
  atLeastTwo : 2 ≤ ts.length
  other : ∀ t ∈ ts, ¬OfKind t
  ascends : ts.Pairwise fun a b => cmp a b ≠ .gt

mutual

/-- Whether every sum and every product in a tree is flat. -/
def IsNormal : Canonical → Prop
  | .constant _ | .var _ | .invalid => True
  | .sqrt x | .neg x | .pos x => x.IsNormal
  | .sum xs => IsFlat IsSum xs ∧ AllNormal xs
  | .product xs => IsFlat IsProduct xs ∧ AllNormal xs
  | .difference x y | .quotient x y | .power x y => x.IsNormal ∧ y.IsNormal

def AllNormal : List Canonical → Prop
  | [] => True
  | x :: xs => x.IsNormal ∧ AllNormal xs

end

theorem allNormal_iff {xs : List Canonical} : AllNormal xs ↔ ∀ x ∈ xs, x.IsNormal := by
  induction xs with
  | nil => simp [AllNormal]
  | cons x xs ih => simp [AllNormal, ih]

private theorem insertDown_of_ascends {x : Canonical} {sorted rest : List Canonical}
    (ascends : (sorted.reverse ++ x :: rest).Pairwise fun a b => cmp a b ≠ .gt) :
    insertDown x sorted = x :: sorted := by
  cases sorted with
  | nil => rfl
  | cons y sorted =>
    have order : cmp y x ≠ .gt := by
      apply (List.pairwise_append.mp ascends).2.2 <;> simp
    rw [insertDown, if_neg]
    intro below
    rw [← cmp_swap, below] at order
    exact order rfl

private theorem foldl_insertDown_of_ascends {xs sorted : List Canonical}
    (ascends : (sorted.reverse ++ xs).Pairwise fun a b => cmp a b ≠ .gt) :
    xs.foldl (fun sorted x => insertDown x sorted) sorted = xs.reverse ++ sorted := by
  induction xs generalizing sorted with
  | nil => rfl
  | cons x xs ih =>
    rw [List.foldl_cons, insertDown_of_ascends ascends, ih]
    · simp
    · simpa using ascends

/-- Neighbours in order are enough for a list to stay as it is, so its constants need not be exact. -/
theorem sort_of_ascends {xs : List Canonical} (ascends : xs.Pairwise fun a b => cmp a b ≠ .gt) :
    sort xs = xs := by
  have folded : xs.foldl (fun sorted x => insertDown x sorted) [] = xs.reverse ++ [] := by
    apply foldl_insertDown_of_ascends
    simpa using ascends
  rw [sort, folded, List.append_nil, List.reverse_reverse]

/-- The parts of an expression that has the given tree. -/
def parts : Canonical → CanonicalParts
  | .sum xs => ⟨.sum xs, xs, [.sum xs]⟩
  | .product xs => ⟨.product xs, [.product xs], xs⟩
  | t => .single t

@[simp] theorem tree_parts (t : Canonical) : t.parts.tree = t := by
  cases t <;> rfl

theorem terms_parts {t : Canonical} (other : ¬t.IsSum) : t.parts.terms = [t] := by
  cases t with
  | sum xs => exact absurd trivial other
  | _ => rfl

theorem factors_parts {t : Canonical} (other : ¬t.IsProduct) : t.parts.factors = [t] := by
  cases t with
  | product xs => exact absurd trivial other
  | _ => rfl

section
variable {kind : BinaryKind} {empty : Number} (operands : CanonicalParts → List Canonical)
  (whole : List Canonical → CanonicalParts)

theorem canonicalParts_foldl
    (gathers : ∀ a b : Expr, (Expr.binary ⟨kind, false⟩ a b).canonicalParts =
      whole (operands a.canonicalParts ++ operands b.canonicalParts))
    (keeps : ∀ ts, operands (whole ts) = ts) (e f : Expr) (es : List Expr) :
    ((f :: es).foldl (.binary ⟨kind, false⟩) e).canonicalParts =
      whole (operands e.canonicalParts ++
        (f :: es).flatMap fun e => operands e.canonicalParts) := by
  induction es generalizing e f with
  | nil => simp [gathers]
  | cons g es ih =>
    rw [List.foldl_cons, ih]
    simp [gathers, keeps]

theorem canonicalParts_chain
    (gathers : ∀ a b : Expr, (Expr.binary ⟨kind, false⟩ a b).canonicalParts =
      whole (operands a.canonicalParts ++ operands b.canonicalParts))
    (keeps : ∀ ts, operands (whole ts) = ts) {xs : List Canonical} (atLeastTwo : 2 ≤ xs.length)
    (single : ∀ x ∈ xs, operands x.toExpr.canonicalParts = [x]) :
    (chain kind empty (toExprs xs)).canonicalParts = whole xs := by
  match xs with
  | [] => simp at atLeastTwo
  | [x] => simp at atLeastTwo
  | x :: y :: xs =>
    have restored (ys : List Canonical) (each : ∀ y ∈ ys, operands y.toExpr.canonicalParts = [y]) :
        (ys.map toExpr).flatMap (fun e => operands e.canonicalParts) = ys := by
      induction ys with
      | nil => rfl
      | cons y ys ih => simp_all
    have tail : (y.toExpr :: xs.map toExpr).flatMap (fun e => operands e.canonicalParts) = y :: xs := by
      apply restored (y :: xs)
      intro z member
      exact single z (List.mem_cons_of_mem x member)
    rw [toExprs_eq_map, List.map_cons, List.map_cons, chain, canonicalParts_foldl operands whole gathers keeps,
      tail,
      single x List.mem_cons_self, List.singleton_append]

end

mutual

theorem canonicalParts_toExpr (t : Canonical) (normal : t.IsNormal) :
    t.toExpr.canonicalParts = t.parts := by
  cases t with
  | constant x => rfl
  | var name => rfl
  | invalid => rfl
  | sqrt x | neg x | pos x =>
    simp only [IsNormal] at normal
    simp only [toExpr, Expr.canonicalParts, canonicalParts_toExpr x normal, tree_parts]
    rfl
  | difference x y | quotient x y | power x y =>
    simp only [IsNormal] at normal
    simp only [toExpr, Expr.canonicalParts, canonicalParts_toExpr x normal.1,
      canonicalParts_toExpr y normal.2, tree_parts]
    rfl
  | sum xs =>
    simp only [IsNormal] at normal
    obtain ⟨flat, below⟩ := normal
    have single (x : Canonical) (member : x ∈ xs) : x.toExpr.canonicalParts.terms = [x] := by
      rw [canonicalParts_toExprs xs below x member, terms_parts (flat.other x member)]
    rw [toExpr, canonicalParts_chain CanonicalParts.terms CanonicalParts.sum (fun _ _ => rfl)
      (fun _ => rfl) flat.atLeastTwo single, CanonicalParts.sum, sort_of_ascends flat.ascends, parts]
  | product xs =>
    simp only [IsNormal] at normal
    obtain ⟨flat, below⟩ := normal
    have single (x : Canonical) (member : x ∈ xs) : x.toExpr.canonicalParts.factors = [x] := by
      rw [canonicalParts_toExprs xs below x member, factors_parts (flat.other x member)]
    rw [toExpr, canonicalParts_chain CanonicalParts.factors CanonicalParts.product (fun _ _ => rfl)
      (fun _ => rfl) flat.atLeastTwo single, CanonicalParts.product, sort_of_ascends flat.ascends,
      parts]

theorem canonicalParts_toExprs (ts : List Canonical) (normal : AllNormal ts) :
    ∀ t ∈ ts, t.toExpr.canonicalParts = t.parts := by
  cases ts with
  | nil => simp
  | cons t ts =>
    simp only [AllNormal] at normal
    intro u member
    rcases List.mem_cons.mp member with same | inside
    · rw [same]
      exact canonicalParts_toExpr t normal.1
    · exact canonicalParts_toExprs ts normal.2 u inside

end

theorem canonicalize_toExpr {t : Canonical} (normal : t.IsNormal) : t.toExpr.canonicalize = t := by
  rw [Expr.canonicalize, canonicalParts_toExpr t normal, tree_parts]

end Canonical

namespace CanonicalParts
open Canonical

/-- Operands to be sorted into a list of the given kind. -/
structure IsOperands (OfKind : Canonical → Prop) (ts : List Canonical) : Prop where
  some : ts ≠ []
  each : ∀ t ∈ ts, t.IsNormal ∧ ¬OfKind t

structure IsNormal (p : CanonicalParts) : Prop where
  tree : p.tree.IsNormal
  terms : IsOperands IsSum p.terms
  factors : IsOperands IsProduct p.factors

section
variable {OfKind : Canonical → Prop} {xs ys : List Canonical}

theorem isOperands_singleton {t : Canonical} (normal : t.IsNormal) (other : ¬OfKind t) :
    IsOperands OfKind [t] := by
  constructor
  · simp
  · simp [normal, other]

theorem IsOperands.append (left : IsOperands OfKind xs) (right : IsOperands OfKind ys) :
    IsOperands OfKind (xs ++ ys) := by
  constructor
  · simp [left.some]
  · intro t member
    rcases List.mem_append.mp member with first | second
    · exact left.each t first
    · exact right.each t second

/-- One operand comes from either side, so two are there at least. -/
theorem isFlat_sort (left : IsOperands OfKind xs) (right : IsOperands OfKind ys)
    (exact : Canonical.AllExact (xs ++ ys)) :
    IsFlat OfKind (sort (xs ++ ys)) ∧ AllNormal (sort (xs ++ ys)) := by
  have each (t : Canonical) (member : t ∈ sort (xs ++ ys)) : t.IsNormal ∧ ¬OfKind t :=
    (left.append right).each t ((sort_perm _).mem_iff.mp member)
  have long : 2 ≤ (sort (xs ++ ys)).length := by
    have first := List.length_pos_iff.mpr left.some
    have second := List.length_pos_iff.mpr right.some
    rw [(sort_perm _).length_eq, List.length_append]
    omega
  refine ⟨⟨long, fun t member => (each t member).2, sort_ascends (totalOn_of_allExact exact)⟩, ?_⟩
  rw [allNormal_iff]
  intro t member
  exact (each t member).1

end

theorem isNormal_single {t : Canonical} (normal : t.IsNormal) (noSum : ¬t.IsSum)
    (noProduct : ¬t.IsProduct) : (single t).IsNormal :=
  ⟨normal, isOperands_singleton normal noSum, isOperands_singleton normal noProduct⟩

theorem isNormal_sum {p q : CanonicalParts} (hp : p.IsNormal) (hq : q.IsNormal)
    (exact : Canonical.AllExact (p.terms ++ q.terms)) : (sum (p.terms ++ q.terms)).IsNormal := by
  have tree : (Canonical.sum (sort (p.terms ++ q.terms))).IsNormal := by
    simp only [Canonical.IsNormal]
    exact isFlat_sort hp.terms hq.terms exact
  exact ⟨tree, hp.terms.append hq.terms, isOperands_singleton tree id⟩

theorem isNormal_product {p q : CanonicalParts} (hp : p.IsNormal) (hq : q.IsNormal)
    (exact : Canonical.AllExact (p.factors ++ q.factors)) :
    (product (p.factors ++ q.factors)).IsNormal := by
  have tree : (Canonical.product (sort (p.factors ++ q.factors))).IsNormal := by
    simp only [Canonical.IsNormal]
    exact isFlat_sort hp.factors hq.factors exact
  exact ⟨tree, isOperands_singleton tree id, hp.factors.append hq.factors⟩

end CanonicalParts

namespace Expr
open CanonicalParts Canonical

theorem isNormal_canonicalParts {e : Expr} (exact : e.ExactConstants) :
    e.canonicalParts.IsNormal := by
  induction e with
  | constant x => apply isNormal_single <;> simp [Canonical.IsNormal, IsSum, IsProduct]
  | var name => apply isNormal_single <;> simp [Canonical.IsNormal, IsSum, IsProduct]
  | unset => apply isNormal_single <;> simp [Canonical.IsNormal, IsSum, IsProduct]
  | group inner ih =>
    simp only [ExactConstants, everywhere_group] at exact
    exact ih exact.2
  | unary op operand ih =>
    simp only [ExactConstants, everywhere_unary] at exact
    have below := (ih exact.2).tree
    cases op <;> apply isNormal_single <;> simp [Canonical.IsNormal, IsSum, IsProduct, below]
  | call func arg ih =>
    simp only [ExactConstants, everywhere_call] at exact
    have below := (ih exact.2).tree
    cases func <;> apply isNormal_single <;> simp [Canonical.IsNormal, IsSum, IsProduct, below]
  | binary op lhs rhs ihl ihr =>
    simp only [ExactConstants, everywhere_binary] at exact
    have left := ihl exact.2.1
    have right := ihr exact.2.2
    have exact_left := isExact_canonicalParts exact.2.1
    have exact_right := isExact_canonicalParts exact.2.2
    obtain ⟨kind, flag⟩ := op
    cases kind with
    | add =>
      apply isNormal_sum left right
      simp only [allExact_iff, List.forall_mem_append]
      exact ⟨exact_left.terms, exact_right.terms⟩
    | mul =>
      apply isNormal_product left right
      simp only [allExact_iff, List.forall_mem_append]
      exact ⟨exact_left.factors, exact_right.factors⟩
    | sub | div | pow | unknown =>
      apply isNormal_single <;>
        simp [Canonical.IsNormal, IsSum, IsProduct, left.tree, right.tree]

/-- The canonical tree of an expression is in normal form, malformed nodes or not, and rebuilding an
expression from it and canonicalizing again changes nothing. -/
theorem canonicalize_is_normal_form {e : Expr} (exact : e.ExactConstants) :
    e.canonicalize.IsNormal ∧
    e.canonicalize.toExpr.canonicalize = e.canonicalize ∧
    Canonical.cmp e.canonicalize.toExpr.canonicalize e.canonicalize = .eq ∧
    (e.canonicalize.toExpr.canonicalize.agrees e.canonicalize = true ↔ e.WellFormed) := by
  have normal : e.canonicalize.IsNormal := (isNormal_canonicalParts exact).tree
  have fixed := canonicalize_toExpr normal
  refine ⟨normal, fixed, ?_, ?_⟩
  · rw [cmp_eq_eq_iff]
    exact fixed
  · rw [agrees_iff, fixed, ← Bool.not_eq_true, isInvalid_canonicalize_iff, not_not]
    simp

/-- The expression is `(x*(3+?)) + ((-1/2) + x*(y*3))`, where `?` was never filled in. -/
theorem canonicalize_is_normal_form_unset :
    let x : Expr := .var "x"
    let three : Expr := .constant (.integer 3)
    let e : Expr := .binary ⟨.add, false⟩
      (.group (.binary ⟨.mul, false⟩ x (.group (.binary ⟨.add, false⟩ three .unset))))
      (.group (.binary ⟨.add, false⟩ (.constant (.ofRat (-1 / 2)))
        (.binary ⟨.mul, false⟩ x (.group (.binary ⟨.mul, false⟩ (.var "y") three)))))
    e.ExactConstants ∧ e.canonicalize.IsNormal ∧
      e.canonicalize.toExpr.canonicalize = e.canonicalize ∧
      e.canonicalize.toExpr.canonicalize.agrees e.canonicalize = false := by
  intro x three e
  have stored : (Number.ofRat (-1 / 2)).IsExact ∧ (Number.integer 3).IsExact := by decide +kernel
  have exact : e.ExactConstants := by
    simp [e, x, three, ExactConstants, stored]
  have malformed : ¬e.WellFormed := by
    simp [e, x, three, WellFormed, isMalformedNode]
  obtain ⟨normal, fixed, -, graded⟩ := canonicalize_is_normal_form exact
  refine ⟨exact, normal, fixed, ?_⟩
  rw [Bool.eq_false_iff]
  intro agree
  exact malformed (graded.mp agree)

end Expr
end Schoolbook
