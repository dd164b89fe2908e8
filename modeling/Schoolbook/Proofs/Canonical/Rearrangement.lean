import Mathlib
import Schoolbook.Canonical.OfExpr
import Schoolbook.Proofs.Canonical.Order
import Schoolbook.Proofs.Expr.Nodes

/-! Expressions that differ only in the order and the nesting of the operands of sums and products,
in groups and in flags. Their canonical trees agree, and only theirs. -/
namespace Schoolbook

/-- The least congruence under which sums and products are commutative and associative, a group
stands for what is in it, and the flag of an operator does not matter. -/
inductive Rearrangement : Expr → Expr → Prop where
  | refl (e : Expr) : Rearrangement e e
  | symm {a b : Expr} : Rearrangement a b → Rearrangement b a
  | trans {a b c : Expr} : Rearrangement a b → Rearrangement b c → Rearrangement a c
  | commute {op : BinaryOp} (a b : Expr) : op.kind.isCommutative = true →
      Rearrangement (.binary op a b) (.binary op b a)
  | associate {op : BinaryOp} (a b c : Expr) : op.kind.isCommutative = true →
      Rearrangement (.binary op (.binary op a b) c) (.binary op a (.binary op b c))
  | ungroup (e : Expr) : Rearrangement (.group e) e
  | flag (kind : BinaryKind) (i j : Bool) (a b : Expr) :
      Rearrangement (.binary ⟨kind, i⟩ a b) (.binary ⟨kind, j⟩ a b)
  | binary {a b c d : Expr} (op : BinaryOp) : Rearrangement a b → Rearrangement c d →
      Rearrangement (.binary op a c) (.binary op b d)
  | unary {a b : Expr} (op : UnaryKind) : Rearrangement a b →
      Rearrangement (.unary op a) (.unary op b)
  | call {a b : Expr} (func : FunctionKind) : Rearrangement a b →
      Rearrangement (.call func a) (.call func b)
  | group {a b : Expr} : Rearrangement a b → Rearrangement (.group a) (.group b)

theorem Canonical.toExprs_eq_map (ts : List Canonical) : toExprs ts = ts.map toExpr := by
  induction ts with
  | nil => rfl
  | cons t ts ih => rw [toExprs, ih, List.map_cons]

namespace Rearrangement

theorem exactConstants_iff {a b : Expr} (related : Rearrangement a b) :
    a.ExactConstants ↔ b.ExactConstants := by
  induction related with
  | refl => rfl
  | symm _ ih => exact ih.symm
  | trans _ _ ih₁ ih₂ => exact ih₁.trans ih₂
  | commute => simp only [Expr.ExactConstants, Expr.everywhere_binary, reduceCtorEq]; tauto
  | associate => simp only [Expr.ExactConstants, Expr.everywhere_binary, reduceCtorEq]; tauto
  | ungroup => simp [Expr.ExactConstants]
  | flag => simp [Expr.ExactConstants]
  | binary op _ _ ih₁ ih₂ =>
    simp only [Expr.ExactConstants, Expr.everywhere_binary, reduceCtorEq] at *
    rw [ih₁, ih₂]
  | unary op _ ih => simpa [Expr.ExactConstants] using ih
  | call func _ ih => simpa [Expr.ExactConstants] using ih
  | group _ ih => simpa [Expr.ExactConstants] using ih

section
variable {op : BinaryOp}

theorem foldl_binary {a b : Expr} (es : List Expr) (related : Rearrangement a b) :
    Rearrangement (es.foldl (.binary op) a) (es.foldl (.binary op) b) := by
  induction es generalizing a b with
  | nil => exact related
  | cons e es ih => exact ih (.binary op related (.refl e))

/-- A left operand may be drawn into the chain on its right. -/
theorem foldl_assoc (commutes : op.kind.isCommutative = true) (a b : Expr) (es : List Expr) :
    Rearrangement (.binary op a (es.foldl (.binary op) b))
      (es.foldl (.binary op) (.binary op a b)) := by
  induction es generalizing b with
  | nil => exact .refl _
  | cons e es ih =>
    exact .trans (ih (.binary op b e)) (foldl_binary es (.symm (.associate a b e commutes)))

theorem swap_right (commutes : op.kind.isCommutative = true) (a b c : Expr) :
    Rearrangement (.binary op (.binary op a b) c) (.binary op (.binary op a c) b) :=
  .trans (.associate a b c commutes)
    (.trans (.binary op (.refl a) (.commute b c commutes)) (.symm (.associate a c b commutes)))

theorem foldl_perm (commutes : op.kind.isCommutative = true) {es fs : List Expr}
    (perm : es.Perm fs) (a : Expr) :
    Rearrangement (es.foldl (.binary op) a) (fs.foldl (.binary op) a) := by
  induction perm generalizing a with
  | nil => exact .refl a
  | cons e _ ih => exact ih (.binary op a e)
  | swap e f es => exact foldl_binary es (swap_right commutes a f e)
  | trans _ _ ih₁ ih₂ => exact .trans (ih₁ a) (ih₂ a)

end

section
variable {kind : BinaryKind} {empty : Number}
open Canonical

theorem chain_perm (commutes : kind.isCommutative = true) {es fs : List Expr}
    (perm : es.Perm fs) : Rearrangement (chain kind empty es) (chain kind empty fs) := by
  induction perm with
  | nil => exact .refl _
  | cons e perm _ => exact foldl_perm commutes perm e
  | swap e f es => exact foldl_binary es (.commute f e commutes)
  | trans _ _ ih₁ ih₂ => exact .trans ih₁ ih₂

theorem chain_append (commutes : kind.isCommutative = true) {flag : Bool} {es fs : List Expr}
    (left : es ≠ []) (right : fs ≠ []) :
    Rearrangement (.binary ⟨kind, flag⟩ (chain kind empty es) (chain kind empty fs))
      (chain kind empty (es ++ fs)) := by
  obtain ⟨e, es, rfl⟩ := List.exists_cons_of_ne_nil left
  obtain ⟨f, fs, rfl⟩ := List.exists_cons_of_ne_nil right
  rw [List.cons_append, chain, chain, chain, List.foldl_append, List.foldl_cons]
  exact .trans (.flag kind flag false _ _) (foldl_assoc commutes _ f fs)

theorem chain_binary (commutes : kind.isCommutative = true) {flag : Bool} {a b : Expr}
    {xs ys : List Canonical} (someLeft : xs ≠ []) (someRight : ys ≠ [])
    (left : Rearrangement a (chain kind empty (xs.map toExpr)))
    (right : Rearrangement b (chain kind empty (ys.map toExpr))) :
    Rearrangement (.binary ⟨kind, flag⟩ a b) (chain kind empty ((xs ++ ys).map toExpr)) := by
  rw [List.map_append]
  refine .trans (.binary _ left right) (chain_append commutes ?_ ?_)
  · simpa using someLeft
  · simpa using someRight

theorem chain_sort (commutes : kind.isCommutative = true) (ts : List Canonical) :
    Rearrangement (chain kind empty (ts.map toExpr)) (chain kind empty (toExprs (sort ts))) := by
  rw [toExprs_eq_map]
  exact chain_perm commutes ((sort_perm ts).symm.map toExpr)

end
end Rearrangement

namespace CanonicalParts
open Canonical

/-- The parts of an expression that can be put together to it again. -/
structure Describes (parts : CanonicalParts) (e : Expr) : Prop where
  tree : Rearrangement e parts.tree.toExpr
  someTerms : parts.terms ≠ []
  terms : Rearrangement e (chain .add 0 (parts.terms.map toExpr))
  someFactors : parts.factors ≠ []
  factors : Rearrangement e (chain .mul 1 (parts.factors.map toExpr))

theorem describes_single {t : Canonical} {e : Expr} (related : Rearrangement e t.toExpr) :
    (single t).Describes e :=
  ⟨related, List.cons_ne_nil _ _, related, List.cons_ne_nil _ _, related⟩

theorem Describes.of_related {parts : CanonicalParts} {a b : Expr} (described : parts.Describes b)
    (related : Rearrangement a b) : parts.Describes a :=
  ⟨.trans related described.tree, described.someTerms, .trans related described.terms,
    described.someFactors, .trans related described.factors⟩

theorem describes_sum {left right : CanonicalParts} {a b : Expr} (flag : Bool)
    (ha : left.Describes a) (hb : right.Describes b) :
    (sum (left.terms ++ right.terms)).Describes (.binary ⟨.add, flag⟩ a b) := by
  have terms : Rearrangement (.binary ⟨.add, flag⟩ a b)
      (chain .add 0 ((left.terms ++ right.terms).map toExpr)) :=
    .chain_binary rfl ha.someTerms hb.someTerms ha.terms hb.terms
  have tree := terms.trans (.chain_sort rfl _)
  exact ⟨tree, by simp [sum, ha.someTerms], terms, List.cons_ne_nil _ _, tree⟩

theorem describes_product {left right : CanonicalParts} {a b : Expr} (flag : Bool)
    (ha : left.Describes a) (hb : right.Describes b) :
    (product (left.factors ++ right.factors)).Describes (.binary ⟨.mul, flag⟩ a b) := by
  have factors : Rearrangement (.binary ⟨.mul, flag⟩ a b)
      (chain .mul 1 ((left.factors ++ right.factors).map toExpr)) :=
    .chain_binary rfl ha.someFactors hb.someFactors ha.factors hb.factors
  have tree := factors.trans (.chain_sort rfl _)
  exact ⟨tree, List.cons_ne_nil _ _, tree, by simp [product, ha.someFactors], factors⟩

end CanonicalParts

namespace Expr
open CanonicalParts

/-- Flattening and sorting lose, duplicate and merge nothing. -/
theorem describes_canonicalParts {e : Expr} (formed : e.WellFormed) :
    e.canonicalParts.Describes e := by
  induction e with
  | constant x => exact describes_single (.refl _)
  | var name => exact describes_single (.refl _)
  | unset => simp [WellFormed, isMalformedNode] at formed
  | group inner ih =>
    simp only [WellFormed, everywhere_group] at formed
    exact (ih formed.2).of_related (.ungroup inner)
  | unary op operand ih =>
    simp only [WellFormed, everywhere_unary] at formed
    cases op with
    | neg => exact describes_single (.unary .neg (ih formed.2).tree)
    | pos => exact describes_single (.unary .pos (ih formed.2).tree)
    | unknown => simp [isMalformedNode] at formed
  | call func arg ih =>
    simp only [WellFormed, everywhere_call] at formed
    cases func with
    | sqrt => exact describes_single (.call .sqrt (ih formed.2).tree)
    | unknown => simp [isMalformedNode] at formed
  | binary op lhs rhs ihl ihr =>
    simp only [WellFormed, everywhere_binary] at formed
    obtain ⟨known, left, right⟩ := formed
    have left := ihl left
    have right := ihr right
    obtain ⟨kind, flag⟩ := op
    have pair (k : BinaryKind) : Rearrangement (.binary ⟨k, flag⟩ lhs rhs)
        (.binary ⟨k, false⟩ lhs.canonicalParts.tree.toExpr rhs.canonicalParts.tree.toExpr) :=
      .trans (.flag k flag false lhs rhs) (.binary _ left.tree right.tree)
    cases kind with
    | add => exact describes_sum flag left right
    | mul => exact describes_product flag left right
    | sub => exact describes_single (pair .sub)
    | div => exact describes_single (pair .div)
    | pow => exact describes_single (pair .pow)
    | unknown => simp [isMalformedNode] at known

end Expr

/-- A property of trees that every node has whose parts have it. -/
structure Canonical.Inherited (P : Canonical → Prop) : Prop where
  var (name : String) : P (.var name)
  sqrt {t : Canonical} : P t → P (.sqrt t)
  neg {t : Canonical} : P t → P (.neg t)
  pos {t : Canonical} : P t → P (.pos t)
  sum {ts : List Canonical} : (∀ t ∈ ts, P t) → P (.sum ts)
  difference {s t : Canonical} : P s → P t → P (.difference s t)
  product {ts : List Canonical} : (∀ t ∈ ts, P t) → P (.product ts)
  quotient {s t : Canonical} : P s → P t → P (.quotient s t)
  power {s t : Canonical} : P s → P t → P (.power s t)

theorem Canonical.inherited_isExact : Inherited IsExact where
  var _ := trivial
  sqrt exact := exact
  neg exact := exact
  pos exact := exact
  sum exact := allExact_iff.mpr exact
  difference left right := ⟨left, right⟩
  product exact := allExact_iff.mpr exact
  quotient left right := ⟨left, right⟩
  power left right := ⟨left, right⟩

theorem Canonical.inherited_isValid : Inherited fun t => t.isInvalid = false where
  var _ := rfl
  sqrt valid := valid
  neg valid := valid
  pos valid := valid
  sum valid := anyInvalid_eq_false_iff.mpr valid
  difference left right := Bool.or_eq_false_iff.mpr ⟨left, right⟩
  product valid := anyInvalid_eq_false_iff.mpr valid
  quotient left right := Bool.or_eq_false_iff.mpr ⟨left, right⟩
  power left right := Bool.or_eq_false_iff.mpr ⟨left, right⟩

namespace CanonicalParts
open Canonical

structure All (P : Canonical → Prop) (p : CanonicalParts) : Prop where
  tree : P p.tree
  terms : ∀ t ∈ p.terms, P t
  factors : ∀ t ∈ p.factors, P t

section
variable {P : Canonical → Prop}

theorem all_single {t : Canonical} (here : P t) : (single t).All P :=
  ⟨here, List.forall_mem_singleton.mpr here, List.forall_mem_singleton.mpr here⟩

theorem sort_forall {ts : List Canonical} (each : ∀ t ∈ ts, P t) : ∀ t ∈ sort ts, P t := by
  intro t member
  exact each t ((sort_perm ts).mem_iff.mp member)

theorem all_sum (inherited : Inherited P) {ts : List Canonical} (each : ∀ t ∈ ts, P t) :
    (sum ts).All P := by
  have whole := inherited.sum (sort_forall each)
  exact ⟨whole, each, List.forall_mem_singleton.mpr whole⟩

theorem all_product (inherited : Inherited P) {ts : List Canonical} (each : ∀ t ∈ ts, P t) :
    (product ts).All P := by
  have whole := inherited.product (sort_forall each)
  exact ⟨whole, List.forall_mem_singleton.mpr whole, each⟩

end

/-- The same tree, and the same operands up to their order. -/
structure Matches (p q : CanonicalParts) : Prop where
  tree : p.tree = q.tree
  terms : p.terms.Perm q.terms
  factors : p.factors.Perm q.factors

theorem matches_sum {xs ys : List Canonical} (exact : ∀ t ∈ xs, t.IsExact) (perm : xs.Perm ys) :
    (sum xs).Matches (sum ys) := by
  have same := sort_eq_of_perm (allExact_iff.mpr exact) perm
  exact ⟨congrArg Canonical.sum same, perm, by rw [sum, sum, same]⟩

theorem matches_product {xs ys : List Canonical} (exact : ∀ t ∈ xs, t.IsExact)
    (perm : xs.Perm ys) : (product xs).Matches (product ys) := by
  have same := sort_eq_of_perm (allExact_iff.mpr exact) perm
  exact ⟨congrArg Canonical.product same, by rw [product, product, same], perm⟩

theorem Matches.refl (p : CanonicalParts) : p.Matches p := ⟨rfl, .refl _, .refl _⟩

theorem Matches.symm {p q : CanonicalParts} (matched : p.Matches q) : q.Matches p :=
  ⟨matched.tree.symm, matched.terms.symm, matched.factors.symm⟩

theorem Matches.trans {p q r : CanonicalParts} (first : p.Matches q) (second : q.Matches r) :
    p.Matches r :=
  ⟨first.tree.trans second.tree, first.terms.trans second.terms,
    first.factors.trans second.factors⟩

end CanonicalParts

namespace Expr
open CanonicalParts Canonical

/-- What the constants and the malformed nodes of an expression become decides about all parts. -/
theorem all_canonicalParts {P : Canonical → Prop} (inherited : Inherited P) {e : Expr}
    (leaves : e.Everywhere fun n =>
      (∀ x, n = constant x → P (.constant x)) ∧ (n.isMalformedNode = true → P .invalid)) :
    e.canonicalParts.All P := by
  induction e with
  | constant x => exact all_single ((everywhere_constant.mp leaves).1 x rfl)
  | var name => exact all_single (inherited.var name)
  | unset => exact all_single ((everywhere_unset.mp leaves).2 rfl)
  | group inner ih => exact ih (everywhere_group.mp leaves).2
  | unary op operand ih =>
    obtain ⟨here, below⟩ := everywhere_unary.mp leaves
    cases op with
    | neg => exact all_single (inherited.neg (ih below).tree)
    | pos => exact all_single (inherited.pos (ih below).tree)
    | unknown => exact all_single (here.2 rfl)
  | call func arg ih =>
    obtain ⟨here, below⟩ := everywhere_call.mp leaves
    cases func with
    | sqrt => exact all_single (inherited.sqrt (ih below).tree)
    | unknown => exact all_single (here.2 rfl)
  | binary op lhs rhs ihl ihr =>
    obtain ⟨here, left, right⟩ := everywhere_binary.mp leaves
    have left := ihl left
    have right := ihr right
    obtain ⟨kind, flag⟩ := op
    cases kind with
    | add => exact all_sum inherited (List.forall_mem_append.mpr ⟨left.terms, right.terms⟩)
    | mul => exact all_product inherited (List.forall_mem_append.mpr ⟨left.factors, right.factors⟩)
    | sub => exact all_single (inherited.difference left.tree right.tree)
    | div => exact all_single (inherited.quotient left.tree right.tree)
    | pow => exact all_single (inherited.power left.tree right.tree)
    | unknown => exact all_single (here.2 rfl)

theorem isExact_canonicalParts {e : Expr} (exact : e.ExactConstants) :
    e.canonicalParts.All Canonical.IsExact :=
  all_canonicalParts inherited_isExact fun path n found =>
    ⟨fun x same => exact path n found x same, fun _ => trivial⟩

theorem isValid_canonicalParts {e : Expr} (formed : e.WellFormed) :
    e.canonicalParts.All fun t => t.isInvalid = false :=
  all_canonicalParts inherited_isValid fun path n found =>
    ⟨fun _ _ => rfl, fun malformed => absurd ((formed path n found).symm.trans malformed) nofun⟩

/-- Operands contribute to the parts of an operation only up to their order. -/
theorem matches_binary {a b c d : Expr} (op : BinaryOp)
    (ha : a.canonicalParts.All Canonical.IsExact) (hc : c.canonicalParts.All Canonical.IsExact)
    (left : a.canonicalParts.Matches b.canonicalParts)
    (right : c.canonicalParts.Matches d.canonicalParts) :
    (binary op a c).canonicalParts.Matches (binary op b d).canonicalParts := by
  obtain ⟨kind, flag⟩ := op
  cases kind with
  | add =>
    have exact := List.forall_mem_append.mpr ⟨ha.terms, hc.terms⟩
    exact matches_sum exact (left.terms.append right.terms)
  | mul =>
    have exact := List.forall_mem_append.mpr ⟨ha.factors, hc.factors⟩
    exact matches_product exact (left.factors.append right.factors)
  | sub | div | pow | unknown =>
    simp only [canonicalParts, left.tree, right.tree]
    exact .refl _

theorem matches_canonicalParts {a b : Expr} (related : Rearrangement a b)
    (exact : a.ExactConstants) : a.canonicalParts.Matches b.canonicalParts := by
  induction related with
  | refl => exact .refl _
  | symm related ih => exact (ih (related.exactConstants_iff.mpr exact)).symm
  | trans first _ ih₁ ih₂ => exact (ih₁ exact).trans (ih₂ (first.exactConstants_iff.mp exact))
  | ungroup => exact .refl _
  | flag kind i j a b => cases kind <;> exact .refl _
  | @commute op a b commutes =>
    obtain ⟨kind, flag⟩ := op
    simp only [ExactConstants, everywhere_binary] at exact
    have ha := isExact_canonicalParts exact.2.1
    have hb := isExact_canonicalParts exact.2.2
    cases kind with
    | add =>
      have operands := List.forall_mem_append.mpr ⟨ha.terms, hb.terms⟩
      exact matches_sum operands List.perm_append_comm
    | mul =>
      have operands := List.forall_mem_append.mpr ⟨ha.factors, hb.factors⟩
      exact matches_product operands List.perm_append_comm
    | sub | div | pow | unknown => cases commutes
  | @associate op a b c commutes =>
    obtain ⟨kind, flag⟩ := op
    cases kind with
    | add =>
      simp only [canonicalParts, CanonicalParts.sum, List.append_assoc]
      exact .refl _
    | mul =>
      simp only [canonicalParts, CanonicalParts.product, List.append_assoc]
      exact .refl _
    | sub | div | pow | unknown => cases commutes
  | binary op _ _ ih₁ ih₂ =>
    simp only [ExactConstants, everywhere_binary] at exact
    exact matches_binary op (isExact_canonicalParts exact.2.1) (isExact_canonicalParts exact.2.2)
      (ih₁ exact.2.1) (ih₂ exact.2.2)
  | unary op _ ih =>
    simp only [ExactConstants, everywhere_unary] at exact
    cases op <;> simp only [canonicalParts, (ih exact.2).tree] <;> exact .refl _
  | call func _ ih =>
    simp only [ExactConstants, everywhere_call] at exact
    cases func <;> simp only [canonicalParts, (ih exact.2).tree] <;> exact .refl _
  | group _ ih =>
    simp only [ExactConstants, everywhere_group] at exact
    exact ih exact.2

/-- Canonical trees decide whether two expressions are rearrangements of each other. A double may
keep two operands from having one order, but it never makes different expressions agree. -/
theorem canonicalize_decides_rearrangement (a b : Expr) (ha : a.WellFormed) (hb : b.WellFormed) :
    (a.canonicalize.agrees b.canonicalize = true → Rearrangement a b) ∧
      (a.ExactConstants → b.ExactConstants → Rearrangement a b →
        a.canonicalize.agrees b.canonicalize = true) := by
  constructor
  · intro agree
    have same : a.canonicalize = b.canonicalize := ((agrees_iff _ _).mp agree).1
    have left : Rearrangement a a.canonicalize.toExpr := (describes_canonicalParts ha).tree
    have right : Rearrangement b b.canonicalize.toExpr := (describes_canonicalParts hb).tree
    exact left.trans (same ▸ right.symm)
  · intro exact _ related
    refine (agrees_iff _ _).mpr ⟨(matches_canonicalParts related exact).tree, ?_⟩
    exact (isValid_canonicalParts ha).tree

/-- The expressions are `(1/2 + x) * y` and `y * (x + 1/2)`. -/
theorem canonicalize_decides_rearrangement_product :
    let half : Expr := .constant (.ofRat (1 / 2))
    let a : Expr := .binary ⟨.mul, true⟩ (.group (.binary ⟨.add, false⟩ half (.var "x"))) (.var "y")
    let b : Expr := .binary ⟨.mul, false⟩ (.var "y") (.group (.binary ⟨.add, false⟩ (.var "x") half))
    a.canonicalize.agrees b.canonicalize = true := by
  intro half a b
  have formed : a.WellFormed ∧ b.WellFormed := by
    simp [a, b, half, WellFormed, isMalformedNode]
  have stored : (Number.ofRat (1 / 2)).IsExact := by decide +kernel
  have exact : a.ExactConstants ∧ b.ExactConstants := by
    simpa [a, b, half, ExactConstants] using stored
  refine (canonicalize_decides_rearrangement a b formed.1 formed.2).2 exact.1 exact.2 ?_
  exact .trans (.flag .mul true false _ _) (.trans (.commute _ _ rfl)
    (.binary _ (.refl _) (.group (.commute _ _ rfl))))

end Expr
end Schoolbook
