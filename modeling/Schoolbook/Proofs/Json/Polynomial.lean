import Mathlib
import Schoolbook.Polynomial.Json
import Schoolbook.Proofs.Json.Number
import Schoolbook.Proofs.Polynomial.Normalized

/-! Which JSON values are read as polynomials. What is written is read again, and every list of
terms can be written, in normal form or not. -/
namespace Schoolbook

namespace Monomial

theorem alterIn_last {name : String} {f : UInt32 → UInt32} {powers : List (String × UInt32)}
    (last : ∀ x ∈ powers, x.1 < name) : alterIn name f powers = powers ++ [(name, f 0)] := by
  induction powers with
  | nil => rfl
  | cons x powers ih =>
    obtain ⟨before, rest⟩ := List.forall_mem_cons.mp last
    rw [alterIn, if_neg before.not_gt, if_neg before.ne', ih rest, List.cons_append]

private theorem powers_foldl (m : Monomial) (rest : List (String × UInt32))
    (sorted : (m.powers ++ rest).Pairwise (·.1 < ·.1)) :
    (rest.foldl (fun m (name, power) => m.alter name fun _ => power) m).powers =
      m.powers ++ rest := by
  induction rest generalizing m with
  | nil => exact (List.append_nil _).symm
  | cons x rest ih =>
    have last : ∀ y ∈ m.powers, y.1 < x.1 := fun y member =>
      (List.pairwise_append.mp sorted).2.2 y member x List.mem_cons_self
    have appended : (m.alter x.1 fun _ => x.2).powers = m.powers ++ [x] := alterIn_last last
    rw [List.append_cons, ← appended] at sorted
    rw [List.foldl_cons, ih _ sorted, appended, ← List.append_cons]

theorem ofList_powers (m : Monomial) : ofList m.powers = m := by
  have same : (ofList m.powers).powers = m.powers := powers_foldl one m.powers m.sorted
  generalize ofList m.powers = r at same
  obtain ⟨left, _⟩ := r
  obtain ⟨right, _⟩ := m
  cases same
  rfl

theorem power?_eq_some {j : Json} {p : UInt32} : power? j = some p ↔ j = .integer p.toNat := by
  constructor
  · intro read
    obtain ⟨n, written, within⟩ := Option.bind_eq_some_iff.mp read
    obtain rfl := Json.integer?_eq_some.mp written
    split at within
    next bounds =>
      cases within
      have small : n.toNat < UInt32.size := by omega
      rw [UInt32.toNat_ofNat_of_lt' small, Int.toNat_of_nonneg bounds.1]
    next => cases within
  · rintro rfl
    have bounds : (0 : Int) ≤ p.toNat ∧ (p.toNat : Int) < UInt32.size :=
      ⟨Int.natCast_nonneg _, Int.ofNat_lt.mpr p.toNat_lt_size⟩
    rw [power?, Json.integer?, Option.bind_eq_bind, Option.bind_some, if_pos bounds,
      Int.toNat_natCast, UInt32.ofNat_toNat]

/-- Powers are written by name. Of several powers for one name the last one counts. -/
inductive WrittenAs : Monomial → Json → Prop
  | object (powers : List (String × UInt32)) :
    WrittenAs (ofList powers) (.object (powers.map fun x => (x.1, .integer x.2.toNat)))

theorem writtenAs_toJson (m : Monomial) : m.WrittenAs m.toJson := by
  have written := WrittenAs.object m.powers
  rwa [ofList_powers] at written

private theorem field_eq_some {field : String × Json} {x : String × UInt32} :
    (do return (field.1, ← power? field.2)) = some x ↔ field = (x.1, .integer x.2.toNat) := by
  constructor
  · intro read
    obtain ⟨power, written, same⟩ := Option.bind_eq_some_iff.mp read
    cases same
    rw [← power?_eq_some.mp written]
  · rintro rfl
    have read : power? (.integer x.2.toNat) = some x.2 := power?_eq_some.mpr rfl
    change (do return (x.1, ← power? (.integer x.2.toNat))) = some x
    rw [read]
    rfl

theorem ofJson?_eq_some {j : Json} {m : Monomial} : ofJson? j = some m ↔ m.WrittenAs j := by
  constructor
  · intro read
    cases j with
    | object fields =>
      obtain ⟨powers, each, same⟩ := Option.bind_eq_some_iff.mp read
      cases same
      have written : fields = powers.map fun x => (x.1, .integer x.2.toNat) := by
        have equal := (Polynomial.mapM_eq_some_iff.mp each).imp fun _ _ => field_eq_some.mp
        exact List.forall₂_eq_eq_eq ▸ List.forall₂_map_right_iff.mpr equal
      rw [written]
      exact .object powers
    | _ => cases read
  · rintro ⟨powers⟩
    have each : List.Forall₂ (fun (field : String × Json) x =>
        (do return (field.1, ← power? field.2)) = some x)
        (powers.map fun x => (x.1, .integer x.2.toNat)) powers :=
      List.forall₂_map_left_iff.mpr (List.forall₂_same.mpr fun _ _ => field_eq_some.mpr rfl)
    rw [ofJson?, Polynomial.mapM_eq_some_iff.mpr each]
    rfl

end Monomial

namespace Term

def WrittenAs (t : Term) (j : Json) : Prop :=
  ∃ coefficient powers,
    j.fields? ["coefficient", "variables"] = some [some coefficient, some powers] ∧
      t.coefficient.WrittenAs coefficient ∧ t.monomial.WrittenAs powers

theorem writtenAs_toJson (t : Term) : t.WrittenAs t.toJson :=
  ⟨_, _, rfl, t.coefficient.writtenAs_toJson, t.monomial.writtenAs_toJson⟩

theorem ofJson?_eq_some {j : Json} {t : Term} : ofJson? j = some t ↔ t.WrittenAs j := by
  constructor
  · intro read
    obtain ⟨fields, found, parts⟩ := Option.bind_eq_some_iff.mp read
    split at parts
    next coefficient powers =>
      obtain ⟨x, number, parts⟩ := Option.bind_eq_some_iff.mp parts
      obtain ⟨m, monomial, same⟩ := Option.bind_eq_some_iff.mp parts
      cases same
      exact ⟨coefficient, powers, found, Number.ofJson?_eq_some.mp number,
        Monomial.ofJson?_eq_some.mp monomial⟩
    next => cases parts
  · rintro ⟨coefficient, powers, found, number, monomial⟩
    rw [ofJson?, found]
    change (do
      let x ← Number.ofJson? coefficient
      let m ← Monomial.ofJson? powers
      return ⟨x, m⟩) = some t
    rw [Number.ofJson?_eq_some.mpr number, Monomial.ofJson?_eq_some.mpr monomial]
    rfl

end Term

namespace Polynomial

/-- The terms are written one after the other, whatever they are. -/
def WrittenAs (p : Polynomial) (j : Json) : Prop :=
  ∃ items, j.fields? ["terms"] = some [some (.array items)] ∧
    List.Forall₂ (fun t item => t.WrittenAs item) p.terms items

theorem writtenAs_toJson (p : Polynomial) : p.WrittenAs p.toJson :=
  ⟨_, rfl, List.forall₂_map_right_iff.mpr (List.forall₂_same.mpr fun t _ => t.writtenAs_toJson)⟩

theorem ofJson?_eq_some {j : Json} {p : Polynomial} : ofJson? j = some p ↔ p.WrittenAs j := by
  constructor
  · intro read
    obtain ⟨fields, found, listed⟩ := Option.bind_eq_some_iff.mp read
    split at listed
    next items =>
      obtain ⟨ts, each, same⟩ := Option.bind_eq_some_iff.mp listed
      cases same
      have written := (mapM_eq_some_iff.mp each).imp fun _ _ => Term.ofJson?_eq_some.mp
      exact ⟨items, found, written.flip⟩
    next => cases listed
  · rintro ⟨items, found, written⟩
    have each := written.flip.imp fun _ _ => Term.ofJson?_eq_some.mpr
    rw [ofJson?, found]
    change (do return (⟨← items.mapM Term.ofJson?⟩ : Polynomial)) = some p
    rw [mapM_eq_some_iff.mpr each]
    rfl

theorem ofJson?_toJson (p : Polynomial) : ofJson? p.toJson = some p :=
  ofJson?_eq_some.mpr p.writtenAs_toJson

/-- A pair is read as a number only if it is a fraction in lowest terms as it is stored, and nothing
else is read as a fraction. The terms of a polynomial are read one by one and kept as they are
given, so every polynomial is read from its own document, in normal form or not. -/
theorem reading_checks_numbers_only (j : Json) :
    (∀ x, Number.ofJson? j = some x ↔ x.WrittenAs j) ∧
    (∀ n d : Int, j = .tagged "Rational" (.array [.integer n, .integer d]) →
      ((Number.ofJson? j).isSome ↔
        FitsWord 64 n ∧ FitsWord 64 d ∧ 1 < d ∧ n.natAbs.Coprime d.natAbs)) ∧
    (∀ p : Polynomial, ofJson? j = some p ↔ p.WrittenAs j) ∧
    ∀ p : Polynomial, ofJson? p.toJson = some p := by
  refine ⟨fun _ => Number.ofJson?_eq_some, ?_, fun _ => ofJson?_eq_some, ofJson?_toJson⟩
  rintro n d rfl
  rw [Number.ofJson?_rational, Option.isSome_map, Option.isSome_iff_exists,
    ← Fraction.ofParts_isOk_iff]
  exact exists_congr fun _ => Fraction.ofJson?_pair_eq_some

/-- A constant before a variable is no normal form, but it is read, and its degree is wrong. -/
theorem reading_takes_unsorted_terms :
    let j : Json := .object [("terms", .array [
      .object [("coefficient", .object [("Integer", .integer 5)]), ("variables", .object [])],
      .object [("coefficient", .object [("Integer", .integer 1)]),
        ("variables", .object [("x", .integer 1)])]])]
    let p : Polynomial := ⟨[.constant (.integer 5), .var "x"]⟩
    ofJson? j = some p ∧ ¬ p.IsNormalized ∧ p.degree = 0 ∧ p.constantTerm = 0 := by
  intro j p
  have read : ofJson? j = some p := ofJson?_toJson p
  have unsorted : ¬ p.IsNormalized := fun normal => by
    have before := List.rel_of_pairwise_cons normal.ascends List.mem_cons_self
    revert before
    decide +kernel
  exact ⟨read, unsorted, rfl, rfl⟩

end Polynomial
end Schoolbook
