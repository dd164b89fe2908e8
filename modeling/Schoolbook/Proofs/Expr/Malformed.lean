import Mathlib
import Schoolbook.Proofs.Expr.Nodes

/-! The first malformed node of an expression. The search finds it whenever there is one, and there is
only one path that comes first. -/
namespace Schoolbook.Expr

/-- A malformed node stands at the path, and before it none. Paths are compared entry by entry, and
a path comes before those that go on from it. -/
structure IsFirstMalformed (e : Expr) (path : List Nat) : Prop where
  malformed : ∃ n, e.node? path = some n ∧ n.isMalformedNode = true
  first : ∀ other n, e.node? other = some n → n.isMalformedNode = true → other ≠ path →
    List.Lex (· < ·) path other

namespace IsFirstMalformed

theorem unique {e : Expr} {p q : List Nat} (hp : e.IsFirstMalformed p)
    (hq : e.IsFirstMalformed q) : p = q := by
  by_contra differ
  obtain ⟨m, leads, malformed⟩ := hp.malformed
  obtain ⟨n, leads', malformed'⟩ := hq.malformed
  exact asymm (hp.first q n leads' malformed' (Ne.symm differ)) (hq.first p m leads malformed differ)

theorem here {e : Expr} (malformed : e.isMalformedNode = true) : e.IsFirstMalformed [] := by
  refine ⟨⟨e, rfl, malformed⟩, ?_⟩
  intro other _ _ _ differ
  cases other with
  | nil => exact absurd rfl differ
  | cons index path => exact .nil

/-- The first malformed node of a child comes first if the children before it are well-formed. -/
theorem below {e c : Expr} {index : Nat} {path : List Nat} (formed : e.isMalformedNode = false)
    (step : e.child? index = some c) (inside : c.IsFirstMalformed path)
    (before : ∀ i < index, ∀ d, e.child? i = some d → d.WellFormed) :
    e.IsFirstMalformed (index :: path) := by
  obtain ⟨m, leads, malformed⟩ := inside.malformed
  refine ⟨⟨m, node?_cons_eq_some.mpr ⟨c, step, leads⟩, malformed⟩, ?_⟩
  intro other n leads' malformed' differ
  cases other with
  | nil =>
    cases leads'
    exact absurd (formed.symm.trans malformed') nofun
  | cons i other =>
    obtain ⟨d, step', leads'⟩ := node?_cons_eq_some.mp leads'
    rcases lt_trichotomy i index with less | rfl | more
    · have sound := before i less d step' other n leads'
      exact absurd (sound.symm.trans malformed') nofun
    · cases step.symm.trans step'
      exact .cons (inside.first other n leads' malformed' fun same => differ (by rw [same]))
    · exact .rel more

section
variable {e lhs rhs : Expr} {op : BinaryOp} {path : List Nat}

theorem only (formed : e.isMalformedNode = false) {c : Expr} (step : e.child? 0 = some c)
    (inside : c.IsFirstMalformed path) : e.IsFirstMalformed (0 :: path) :=
  below formed step inside fun i less => absurd less (Nat.not_lt_zero i)

theorem right (known : op.kind ≠ .unknown) (left : lhs.WellFormed)
    (inside : rhs.IsFirstMalformed path) : (binary op lhs rhs).IsFirstMalformed (1 :: path) := by
  refine below (decide_eq_false known) rfl inside ?_
  intro i less d step
  obtain rfl := Nat.lt_one_iff.mp less
  cases step
  exact left

end
end IsFirstMalformed

/-- The two outcomes of a search: the first malformed node, or none at all. -/
def Searches (e : Expr) (found : Option (List Nat)) : Prop :=
  (∀ path, found = some path → e.IsFirstMalformed path) ∧ (found = none → e.WellFormed)

theorem searches_here {e : Expr} (malformed : e.isMalformedNode = true) : e.Searches (some []) := by
  refine ⟨?_, nofun⟩
  rintro path ⟨⟩
  exact .here malformed

theorem searches_only {e c : Expr} {found : Option (List Nat)} (formed : e.isMalformedNode = false)
    (child : e.children = [c]) (inside : c.Searches found) :
    e.Searches (found.map (0 :: ·)) := by
  constructor
  · intro path step
    obtain ⟨p, first, rfl⟩ := Option.map_eq_some_iff.mp step
    exact .only formed (by rw [child?, child]; rfl) (inside.1 p first)
  · intro none
    refine everywhere_iff.mpr ⟨formed, ?_⟩
    rw [child]
    exact List.forall_mem_singleton.mpr (inside.2 (Option.map_eq_none_iff.mp none))

theorem searches_malformed? (e : Expr) : e.Searches e.malformed? := by
  induction e with
  | constant x => exact ⟨nofun, fun _ => everywhere_constant.mpr rfl⟩
  | var name => exact ⟨nofun, fun _ => everywhere_var.mpr rfl⟩
  | unset => exact searches_here rfl
  | group inner ih => exact searches_only rfl rfl ih
  | unary op operand ih =>
    rw [malformed?]
    split_ifs with unknown
    · exact searches_here (decide_eq_true unknown)
    · exact searches_only (decide_eq_false unknown) rfl ih
  | call func arg ih =>
    rw [malformed?]
    split_ifs with unknown
    · exact searches_here (decide_eq_true unknown)
    · exact searches_only (decide_eq_false unknown) rfl ih
  | binary op lhs rhs ihl ihr =>
    rw [malformed?]
    split_ifs with unknown
    · exact searches_here (decide_eq_true unknown)
    · have formed := decide_eq_false unknown
      simp only [Searches, Option.or_eq_some_iff, Option.or_eq_none_iff, Option.map_eq_some_iff,
        Option.map_eq_none_iff]
      refine ⟨?_, fun none => everywhere_binary.mpr ⟨formed, ihl.2 none.1, ihr.2 none.2⟩⟩
      rintro path (⟨p, inside, rfl⟩ | ⟨left, p, inside, rfl⟩)
      · exact .only formed rfl (ihl.1 p inside)
      · exact .right unknown (ihl.2 left) (ihr.1 p inside)

theorem malformed?_eq_some_iff {e : Expr} {path : List Nat} :
    e.malformed? = some path ↔ e.IsFirstMalformed path := by
  refine ⟨e.searches_malformed?.1 path, fun first => ?_⟩
  cases search : e.malformed? with
  | some other => rw [(e.searches_malformed?.1 other search).unique first]
  | none =>
    obtain ⟨n, leads, malformed⟩ := first.malformed
    exact absurd ((e.searches_malformed?.2 search path n leads).symm.trans malformed) nofun

theorem malformed?_eq_none_iff {e : Expr} : e.malformed? = none ↔ e.WellFormed := by
  refine ⟨e.searches_malformed?.2, fun formed => ?_⟩
  cases search : e.malformed? with
  | none => rfl
  | some path =>
    obtain ⟨n, leads, malformed⟩ := (malformed?_eq_some_iff.mp search).malformed
    exact absurd ((formed path n leads).symm.trans malformed) nofun

theorem isSome_malformed?_iff {e : Expr} : e.malformed?.isSome = true ↔ ¬e.WellFormed := by
  rw [← malformed?_eq_none_iff, Option.isSome_iff_ne_none]

end Schoolbook.Expr
