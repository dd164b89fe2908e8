import Mathlib
import Schoolbook.Evaluation
import Schoolbook.Polynomial.Expansion
import Schoolbook.Presentation
import Schoolbook.Proofs.Canonical.Sorting
import Schoolbook.Proofs.Diagnosis
import Schoolbook.Proofs.Expr.Malformed
import Schoolbook.Proofs.Expr.Spans

/-! Malformed nodes as all parts of the library see them. Search, rendering, canonical trees,
evaluation and reduction go through an expression in their own ways, but they notice the same nodes,
and those that blame one blame the first. -/
namespace Schoolbook

/-- A result of working through an expression: it is a success only if no node is malformed, and it
blames a malformed node only if that node is the first. -/
structure Expr.Notices {α : Type} (e : Expr) (result : Except Blame α) : Prop where
  success : ∀ a, result = .ok a → e.WellFormed
  blame : ∀ path, result = .error ⟨path, .malformedOperator⟩ → e.IsFirstMalformed path

/-- A result that does not blame a malformed node. -/
def Silent {α : Type} (result : Except Blame α) : Prop :=
  ∀ path, result ≠ .error ⟨path, .malformedOperator⟩

namespace Expr.Notices
variable {α β γ : Type} {e : Expr}

theorem here (malformed : e.isMalformedNode = true) :
    e.Notices (Blame.here .malformedOperator : Except Blame α) := by
  refine ⟨nofun, ?_⟩
  rintro path ⟨⟩
  exact .here malformed

theorem leaf {result : Except Blame α} (formed : e.WellFormed) (silent : Silent result) :
    e.Notices result :=
  ⟨fun _ _ => formed, fun path failed => absurd failed (silent path)⟩

theorem refusal {fault : Fault} {path : List Nat} (other : fault ≠ .malformedOperator) :
    e.Notices (.error ⟨path, fault⟩ : Except Blame α) := by
  refine ⟨nofun, ?_⟩
  rintro _ ⟨⟩
  exact absurd rfl other

theorem bind {result : Except Blame α} {next : α → Except Blame β} (noticed : e.Notices result)
    (silent : ∀ a, Silent (next a)) : e.Notices (result >>= next) := by
  constructor
  · intro b done
    obtain ⟨a, first, -⟩ := bind_eq_ok_iff.mp done
    exact noticed.success a first
  · intro path failed
    rcases bind_eq_error_iff.mp failed with first | ⟨a, -, later⟩
    · exact noticed.blame path first
    · exact absurd later (silent a path)

theorem within_eq_malformed {index : Nat} {result : Except Blame α} {path : List Nat}
    (failed : Blame.within index result = .error ⟨path, .malformedOperator⟩) :
    ∃ p, result = .error ⟨p, .malformedOperator⟩ ∧ path = index :: p := by
  obtain ⟨⟨p, fault⟩, inside, passed⟩ := Blame.within_eq_error_iff.mp failed
  cases passed
  exact ⟨p, inside, rfl⟩

theorem only {c : Expr} {result : Except Blame α} (formed : e.isMalformedNode = false)
    (child : e.children = [c]) (noticed : c.Notices result) :
    e.Notices (Blame.within 0 result) := by
  constructor
  · intro a done
    refine everywhere_iff.mpr ⟨formed, ?_⟩
    rw [child]
    exact List.forall_mem_singleton.mpr (noticed.success a (Blame.within_eq_ok_iff.mp done))
  · intro path failed
    obtain ⟨p, inside, rfl⟩ := within_eq_malformed failed
    exact .only formed (by rw [child?, child]; rfl) (noticed.blame p inside)

/-- The right operand is looked at only after the left one has been found well-formed. -/
theorem both {op : BinaryOp} {lhs rhs : Expr} {left : Except Blame α} {right : Except Blame β}
    {next : α → β → Except Blame γ} (known : op.kind ≠ .unknown) (hl : lhs.Notices left)
    (hr : rhs.Notices right) (silent : ∀ a b, Silent (next a b)) :
    (binary op lhs rhs).Notices (do
      let a ← Blame.within 0 left
      let b ← Blame.within 1 right
      next a b) := by
  have formed : (binary op lhs rhs).isMalformedNode = false := decide_eq_false known
  constructor
  · intro c done
    obtain ⟨a, first, done⟩ := bind_eq_ok_iff.mp done
    obtain ⟨b, second, -⟩ := bind_eq_ok_iff.mp done
    exact everywhere_binary.mpr ⟨formed, hl.success a (Blame.within_eq_ok_iff.mp first),
      hr.success b (Blame.within_eq_ok_iff.mp second)⟩
  · intro path failed
    rcases bind_eq_error_iff.mp failed with first | ⟨a, first, failed⟩
    · obtain ⟨p, inside, rfl⟩ := within_eq_malformed first
      exact .only formed rfl (hl.blame p inside)
    rcases bind_eq_error_iff.mp failed with second | ⟨b, -, failed⟩
    · obtain ⟨p, inside, rfl⟩ := within_eq_malformed second
      exact .right known (hl.success a (Blame.within_eq_ok_iff.mp first)) (hr.blame p inside)
    · exact absurd failed (silent a b path)

end Expr.Notices

section
variable {α : Type}

theorem silent_ok (a : α) : Silent (.ok a) := nofun

theorem Fault.ofArithmetic_ne_malformed (fault : ArithmeticFault) :
    Fault.ofArithmetic fault ≠ .malformedOperator := by
  cases fault <;> nofun

theorem silent_mapError {result : Except ArithmeticFault α} {blame : ArithmeticFault → Blame}
    (other : ∀ fault, (blame fault).fault ≠ .malformedOperator) :
    Silent (result.mapError blame) := by
  intro path failed
  obtain ⟨fault, -, blamed⟩ := mapError_eq_error_iff.mp failed
  exact other fault (by rw [blamed])

theorem silent_finite (x : Number) : Silent x.finite := by
  intro path failed
  unfold Number.finite at failed
  split at failed
  · split at failed <;> cases failed
  · cases failed

theorem silent_apply {kind : BinaryKind} (known : kind ≠ .unknown) (a b : Number) :
    Silent (kind.apply a b) := by
  cases kind with
  | add | sub | mul => exact silent_ok _
  | unknown => exact absurd rfl known
  | pow => exact silent_mapError Fault.ofArithmetic_ne_malformed
  | div =>
    refine silent_mapError fun fault => ?_
    cases fault <;> nofun

theorem silent_bind {β : Type} {result : Except Blame α} {next : α → Except Blame β}
    (first : Silent result) (rest : ∀ a, Silent (next a)) :
    Silent (result >>= next) := by
  intro path failed
  rcases bind_eq_error_iff.mp failed with failed | ⟨a, -, failed⟩
  · exact first path failed
  · exact rest a path failed

theorem silent_unlessTooHigh (p : Option Polynomial) :
    Silent (Expr.expand.unlessTooHigh p) := by
  cases p with
  | none => nofun
  | some p => exact silent_ok p

theorem silent_combine {kind : BinaryKind} (known : kind ≠ .unknown) (p q : Polynomial) :
    Silent (Expr.expand.combine kind p q) := by
  cases kind with
  | add | sub => exact silent_ok _
  | mul => exact silent_unlessTooHigh _
  | div => nofun
  | unknown => exact absurd rfl known
  | pow =>
    rw [Expr.expand.combine]
    split
    · exact silent_unlessTooHigh _
    · nofun

end

namespace Expr

theorem notices_value (e : Expr) : e.Notices e.value := by
  induction e with
  | constant x => exact .leaf (everywhere_constant.mpr rfl) (silent_finite x)
  | var name => exact .refusal nofun
  | unset => exact .here rfl
  | group inner ih => exact .only rfl rfl ih
  | unary op operand ih =>
    cases op with
    | neg => exact (Notices.only rfl rfl ih).bind fun a => silent_finite (-a)
    | pos => exact .only rfl rfl ih
    | unknown => exact .here rfl
  | call func arg ih =>
    cases func with
    | sqrt =>
      exact (Notices.only rfl rfl ih).bind fun a => silent_mapError Fault.ofArithmetic_ne_malformed
    | unknown => exact .here rfl
  | binary op lhs rhs ihl ihr =>
    rw [value]
    split_ifs with unknown
    · exact .here (decide_eq_true unknown)
    · exact .both unknown ihl ihr fun a b =>
        silent_bind (silent_apply unknown a b) silent_finite

theorem notices_expand (e : Expr) : e.Notices e.expand := by
  induction e with
  | constant x => exact .leaf (everywhere_constant.mpr rfl) (silent_ok _)
  | var name => exact .leaf (everywhere_var.mpr rfl) (silent_ok _)
  | unset => exact .here rfl
  | group inner ih => exact .only rfl rfl ih
  | unary op operand ih =>
    cases op with
    | neg => exact (Notices.only rfl rfl ih).bind fun p => silent_ok (-p)
    | pos => exact .only rfl rfl ih
    | unknown => exact .here rfl
  | call func arg ih =>
    cases func with
    | sqrt => exact .refusal nofun
    | unknown => exact .here rfl
  | binary op lhs rhs ihl ihr =>
    rw [expand]
    split_ifs with unknown division
    · exact .here (decide_eq_true unknown)
    · exact .refusal nofun
    · exact .both unknown ihl ihr fun p q => silent_combine unknown p q

end Expr

theorem Canonical.anyInvalid_of_perm {xs ys : List Canonical} (perm : xs.Perm ys) :
    anyInvalid xs = false ↔ anyInvalid ys = false := by
  simp only [anyInvalid_eq_false_iff, perm.mem_iff]

namespace SortedParts
open Canonical

/-- Parts that tell whether an expression is well-formed, as far as no sort has failed: it is if no
malformed tree is among them, and only then. -/
structure Reveals (parts : SortedParts) (e : Expr) : Prop where
  tree : ∀ t, parts.tree = some t → (t.isInvalid = false ↔ e.WellFormed)
  terms : ∀ ts, parts.terms = some ts → (anyInvalid ts = false ↔ e.WellFormed)
  factors : ∀ ts, parts.factors = some ts → (anyInvalid ts = false ↔ e.WellFormed)

section
variable {e : Expr} {tree : Option Canonical}

theorem reveals_single (reveals : ∀ t, tree = some t → (t.isInvalid = false ↔ e.WellFormed)) :
    (single tree).Reveals e := by
  have only (ts : List Canonical) (one : tree.map (fun t => [t]) = some ts) :
      anyInvalid ts = false ↔ e.WellFormed := by
    obtain ⟨t, found, rfl⟩ := Option.map_eq_some_iff.mp one
    simpa [anyInvalid] using reveals t found
  exact ⟨reveals, only, only⟩

theorem reveals_constant {t : Canonical} (valid : t.isInvalid = false) (formed : e.WellFormed) :
    (single (some t)).Reveals e := by
  refine reveals_single ?_
  rintro _ ⟨⟩
  exact iff_of_true valid formed

theorem reveals_map {c : Expr} {f : Canonical → Canonical}
    (keeps : ∀ t, (f t).isInvalid = t.isInvalid) (same : e.WellFormed ↔ c.WellFormed)
    (below : ∀ t, tree = some t → (t.isInvalid = false ↔ c.WellFormed)) :
    (single (tree.map f)).Reveals e := by
  refine reveals_single fun t mapped => ?_
  obtain ⟨s, found, rfl⟩ := Option.map_eq_some_iff.mp mapped
  rw [keeps, same]
  exact below s found

/-- What is below a malformed node does not matter. -/
theorem reveals_malformed (malformed : e.isMalformedNode = true)
    (invalid : ∀ t, tree = some t → t = .invalid) : (single tree).Reveals e := by
  refine reveals_single fun t found => ?_
  rw [invalid t found]
  refine iff_of_false (by decide) fun formed => ?_
  exact absurd ((Expr.everywhere_iff.mp formed).1.symm.trans malformed) nofun

theorem reveals_invalid (malformed : e.isMalformedNode = true) :
    (single (some .invalid)).Reveals e :=
  reveals_malformed malformed fun _ found => (Option.some.inj found).symm

/-- A list of operands is found to be well-formed before it is sorted and after. -/
theorem reveals_sort (sorting : Sorting) (whole : List Canonical → Canonical)
    {operands : Option (List Canonical)} (collects : ∀ ts, (whole ts).isInvalid = anyInvalid ts)
    (reveals : ∀ ts, operands = some ts → (anyInvalid ts = false ↔ e.WellFormed)) :
    (single ((operands.bind sorting.sort?).map whole)).Reveals e := by
  refine reveals_single fun t found => ?_
  obtain ⟨ys, sorted, rfl⟩ := Option.map_eq_some_iff.mp found
  obtain ⟨xs, given, sorted⟩ := Option.bind_eq_some_iff.mp sorted
  rw [collects, anyInvalid_of_perm (sorting.perm sorted)]
  exact reveals xs given

end

section
variable {lhs rhs : Expr} (op : BinaryOp) (known : op.kind ≠ .unknown)
include known

theorem reveals_append {left right : Option (List Canonical)}
    (hl : ∀ ts, left = some ts → (anyInvalid ts = false ↔ lhs.WellFormed))
    (hr : ∀ ts, right = some ts → (anyInvalid ts = false ↔ rhs.WellFormed)) :
    ∀ ts, (do return (← left) ++ (← right)) = some ts →
      (anyInvalid ts = false ↔ (Expr.binary op lhs rhs).WellFormed) := by
  intro ts appended
  obtain ⟨xs, first, appended⟩ := Option.bind_eq_some_iff.mp appended
  obtain ⟨ys, second, appended⟩ := Option.bind_eq_some_iff.mp appended
  cases appended
  rw [Expr.wellFormed_binary known, ← hl xs first, ← hr ys second]
  simp only [anyInvalid_eq_false_iff, List.forall_mem_append]

theorem reveals_pair (whole : Canonical → Canonical → Canonical) {left right : Option Canonical}
    (joins : ∀ s t, (whole s t).isInvalid = (s.isInvalid || t.isInvalid))
    (hl : ∀ t, left = some t → (t.isInvalid = false ↔ lhs.WellFormed))
    (hr : ∀ t, right = some t → (t.isInvalid = false ↔ rhs.WellFormed)) :
    (single (do return whole (← left) (← right))).Reveals (.binary op lhs rhs) := by
  refine reveals_single fun t joined => ?_
  obtain ⟨s, first, joined⟩ := Option.bind_eq_some_iff.mp joined
  obtain ⟨u, second, joined⟩ := Option.bind_eq_some_iff.mp joined
  cases joined
  rw [joins, Bool.or_eq_false_iff, Expr.wellFormed_binary known, hl s first, hr u second]

end
end SortedParts

namespace Expr
open SortedParts Canonical

theorem reveals_sortedParts (sorting : Sorting) (e : Expr) :
    (e.sortedParts sorting).Reveals e := by
  induction e with
  | constant x => exact reveals_constant rfl (everywhere_constant.mpr rfl)
  | var name => exact reveals_constant rfl (everywhere_var.mpr rfl)
  | unset => exact reveals_invalid rfl
  | group inner ih =>
    have same : inner.WellFormed ↔ (group inner).WellFormed := by
      simp [WellFormed, isMalformedNode]
    exact ⟨fun t found => (ih.tree t found).trans same,
      fun ts found => (ih.terms ts found).trans same,
      fun ts found => (ih.factors ts found).trans same⟩
  | unary op operand ih =>
    cases op with
    | neg | pos =>
      exact reveals_map (fun _ => rfl) (by simp [WellFormed, isMalformedNode]) ih.tree
    | unknown =>
      refine reveals_malformed rfl fun t found => ?_
      obtain ⟨s, -, rfl⟩ := Option.map_eq_some_iff.mp found
      rfl
  | call func arg ih =>
    cases func with
    | sqrt => exact reveals_map (fun _ => rfl) (by simp [WellFormed, isMalformedNode]) ih.tree
    | unknown => exact reveals_invalid rfl
  | binary op lhs rhs ihl ihr =>
    obtain ⟨kind, flag⟩ := op
    cases kind with
    | add =>
      have terms := reveals_append ⟨.add, flag⟩ (by simp) ihl.terms ihr.terms
      have tree := reveals_sort sorting .sum (fun _ => rfl) terms
      exact ⟨tree.tree, terms, tree.factors⟩
    | mul =>
      have factors := reveals_append ⟨.mul, flag⟩ (by simp) ihl.factors ihr.factors
      have tree := reveals_sort sorting .product (fun _ => rfl) factors
      exact ⟨tree.tree, tree.terms, factors⟩
    | sub => exact reveals_pair ⟨.sub, flag⟩ (by simp) .difference (fun _ _ => rfl) ihl.tree ihr.tree
    | div => exact reveals_pair ⟨.div, flag⟩ (by simp) .quotient (fun _ _ => rfl) ihl.tree ihr.tree
    | pow => exact reveals_pair ⟨.pow, flag⟩ (by simp) .power (fun _ _ => rfl) ihl.tree ihr.tree
    | unknown => exact reveals_invalid rfl

theorem isInvalid_of_canonicalize? {e : Expr} {sorting : Sorting} {t : Canonical}
    (found : e.canonicalize? sorting = some t) : t.isInvalid = true ↔ ¬e.WellFormed := by
  rw [← Bool.not_eq_false, not_iff_not]
  exact (reveals_sortedParts sorting e).tree t found

theorem isInvalid_canonicalize_iff {e : Expr} :
    e.canonicalize.isInvalid = true ↔ ¬e.WellFormed :=
  isInvalid_of_canonicalize? (canonicalize?_insertion e)

/-- A tree with a malformed node is equal to none, not even to itself. -/
theorem not_agrees_of_isInvalid {t : Canonical} (invalid : t.isInvalid = true) (u : Canonical) :
    t.agrees u = false ∧ u.agrees t = false := by
  refine ⟨Bool.eq_false_iff.mpr fun agree => ?_, Bool.eq_false_iff.mpr fun agree => ?_⟩
  · obtain ⟨-, valid⟩ := (agrees_iff _ _).mp agree
    exact Bool.false_ne_true (valid.symm.trans invalid)
  · obtain ⟨rfl, valid⟩ := (agrees_iff _ _).mp agree
    exact Bool.false_ne_true (valid.symm.trans invalid)

/-- A diagnosis that underlines the first malformed node and nothing else. -/
def IsMalformedDiagnosis (e : Expr) (d : Diagnosis) : Prop :=
  ∃ path span, e.malformed? = some path ∧ e.span? path = some span ∧
    d = ⟨.malformedOperator, [span]⟩

theorem isMalformedDiagnosis_diagnose {e : Expr} {path : List Nat}
    (first : e.IsFirstMalformed path) :
    e.IsMalformedDiagnosis ((Subject.expr e).diagnose ⟨path, .malformedOperator⟩) := by
  obtain ⟨n, leads, -⟩ := first.malformed
  obtain ⟨span, spanned, underlined⟩ := (Subject.expr e).exists_diagnose ⟨path, _⟩ leads
  exact ⟨path, span, malformed?_eq_some_iff.mpr first, spanned, underlined⟩

/-- A rendering is refused where a node is malformed and only there, and the refusal underlines the
first such node. -/
def RefusesMalformed (e : Expr) (result : Except Diagnosis String) : Prop :=
  ((∃ d, result = .error d) ↔ e.malformed?.isSome = true) ∧
    ∀ d, result = .error d → e.IsMalformedDiagnosis d

theorem refusesMalformed_checked (e : Expr) (text : String) :
    e.RefusesMalformed (do (Subject.expr e).checkWellFormed; return text) := by
  unfold RefusesMalformed Subject.checkWellFormed
  cases search : e.malformed? with
  | none =>
    simp only [Subject.malformed?, search]
    exact ⟨⟨nofun, nofun⟩, nofun⟩
  | some path =>
    simp only [Subject.malformed?, search]
    refine ⟨⟨fun _ => rfl, fun _ => ⟨_, rfl⟩⟩, ?_⟩
    rintro d ⟨⟩
    exact isMalformedDiagnosis_diagnose (malformed?_eq_some_iff.mp search)

theorem isMalformedDiagnosis_of_notices {α : Type} {e : Expr} {result : Except Blame α}
    {d : Diagnosis} (noticed : e.Notices result)
    (failed : result.mapError (Subject.expr e).diagnose = .error d)
    (malformed : d.fault = .malformedOperator) : e.IsMalformedDiagnosis d := by
  obtain ⟨⟨path, fault⟩, blamed, rfl⟩ := mapError_eq_error_iff.mp failed
  cases malformed
  exact isMalformedDiagnosis_diagnose (noticed.blame path blamed)

/-- Search, rendering, canonical trees, evaluation and reduction agree on which expressions are
malformed, and whatever blames a malformed node blames the first one. The canonical tree may be the
work of any sort; it is missing only where the sort fails, and no sort fails on operands whose order
is total. -/
theorem components_agree_on_malformed (e : Expr) :
    (e.malformed?.isSome = true ↔ ∃ path n, e.node? path = some n ∧ n.isMalformedNode = true) ∧
    (∀ path, e.malformed? = some path ↔ e.IsFirstMalformed path) ∧
    (∀ style, e.RefusesMalformed ((Subject.expr e).toLatex style)) ∧
    (∀ divAsFraction, e.RefusesMalformed ((Subject.expr e).toProse ⟨.english, divAsFraction⟩)) ∧
    (∀ (sorting : Canonical.Sorting) (t : Canonical), e.canonicalize? sorting = some t →
      (t.isInvalid = true ↔ e.malformed?.isSome = true) ∧
      (e.malformed?.isSome = true → ∀ u : Canonical, t.agrees u = false ∧ u.agrees t = false)) ∧
    (∀ sorting : Canonical.Sorting,
      e.OrdersOperands → e.canonicalize? sorting = some e.canonicalize) ∧
    ((∃ x, e.evaluate = .ok x) ∨ (∃ p, e.reduce = .ok p) → e.malformed? = none) ∧
    ∀ d, e.evaluate = .error d ∨ e.reduce = .error d → d.fault = .malformedOperator →
      e.IsMalformedDiagnosis d := by
  refine ⟨?_, fun path => malformed?_eq_some_iff, fun style => refusesMalformed_checked e _,
    fun divAsFraction => refusesMalformed_checked e _, ?_, ?_, ?_, ?_⟩
  · rw [isSome_malformed?_iff]
    simp [WellFormed, Everywhere]
  · intro sorting t found
    have shown : t.isInvalid = true ↔ e.malformed?.isSome = true := by
      rw [isSome_malformed?_iff, isInvalid_of_canonicalize? found]
    refine ⟨shown, fun malformed u => ?_⟩
    exact not_agrees_of_isInvalid (shown.mpr malformed) u
  · exact fun sorting total => canonicalize?_of_ordersOperands sorting total
  · rintro (⟨x, evaluated⟩ | ⟨p, reduced⟩)
    · exact malformed?_eq_none_iff.mpr
        ((notices_value e).success x (mapError_eq_ok_iff.mp evaluated))
    · exact malformed?_eq_none_iff.mpr
        ((notices_expand e).success p (mapError_eq_ok_iff.mp reduced))
  · rintro d (failed | failed) malformed
    · exact isMalformedDiagnosis_of_notices (notices_value e) failed malformed
    · exact isMalformedDiagnosis_of_notices (notices_expand e) failed malformed

/-- In `2^3--(???)` an unknown operator stands between two unset operands; `2^3` is well-formed. -/
theorem components_agree_on_malformed_power :
    let power : Expr := .binary ⟨.pow, false⟩ (.constant (.integer 2)) (.constant (.integer 3))
    let e : Expr := .binary ⟨.sub, false⟩ power (.unary .neg (.binary ⟨.unknown, true⟩ .unset .unset))
    let d : Diagnosis := ⟨.malformedOperator, [⟨6, 9⟩]⟩
    e.evaluate = .error d ∧ e.reduce = .error d ∧ e.IsMalformedDiagnosis d ∧ e.OrdersOperands ∧
      (∀ sorting : Canonical.Sorting, e.canonicalize? sorting = some e.canonicalize) ∧
      e.canonicalize.isInvalid = true ∧ e.canonicalize.agrees e.canonicalize = false ∧
      power.malformed? = none := by
  intro power e d
  have evaluated : e.evaluate = .error d := by decide +kernel
  have reduced : e.reduce = .error d := by decide +kernel
  have malformed : e.malformed?.isSome = true := by decide +kernel
  have eight : power.evaluate = .ok (.integer 8) := by decide +kernel
  have whole (n : Int64) : (Number.integer n).IsExact := rfl
  have total : e.OrdersOperands := by
    apply ordersOperands_of_exactConstants
    simp [e, power, ExactConstants, whole]
  obtain ⟨-, -, -, -, shown, returned, -, blamed⟩ := components_agree_on_malformed e
  obtain ⟨-, -, -, -, -, -, formed, -⟩ := components_agree_on_malformed power
  have tree := returned .insertion total
  have unequal := (shown .insertion e.canonicalize tree).2 malformed e.canonicalize
  exact ⟨evaluated, reduced, blamed d (.inl evaluated) rfl, total,
    fun sorting => returned sorting total, (shown .insertion e.canonicalize tree).1.mpr malformed,
    unequal.1, formed (.inl ⟨_, eight⟩)⟩

end Expr
end Schoolbook
