import Mathlib
import Schoolbook.Polynomial.Json
import Schoolbook.Proofs.Polynomial.Cancellation

/-! What a layer between documents and their text has to reproduce, and which documents it does. The
forms of numbers, terms and polynomials are among them as long as no double in them is an infinity or
NaN. -/
namespace Schoolbook
namespace Json

/-- Documents that text can carry. -/
inductive Portable : Json → Prop
  | bool (b : Bool) : Portable (.bool b)
  | string (s : String) : Portable (.string s)
  | word {n : Int} (fits : FitsWord 64 n) : Portable (.integer n)
  | decimal {x : Float} (finite : x.isFinite = true) : Portable (.decimal x)
  | array {items : List Json} (each : ∀ item ∈ items, Portable item) : Portable (.array items)
  | object {fields : List (String × Json)} (distinct : (fields.map Prod.fst).Nodup)
    (each : ∀ field ∈ fields, Portable field.2) : Portable (.object fields)

/-- A layer writes a document and reads it back. Strings, words and finite doubles come back as they
were, and so do arrays and objects whose parts do. -/
structure IsLayer (layer : Json → Option Json) : Prop where
  bool (b : Bool) : layer (.bool b) = some (.bool b)
  string (s : String) : layer (.string s) = some (.string s)
  word {n : Int} (fits : FitsWord 64 n) : layer (.integer n) = some (.integer n)
  decimal {x : Float} (finite : x.isFinite = true) : layer (.decimal x) = some (.decimal x)
  array {items : List Json} (each : ∀ item ∈ items, layer item = some item) :
    layer (.array items) = some (.array items)
  object {fields : List (String × Json)} (distinct : (fields.map Prod.fst).Nodup)
    (each : ∀ field ∈ fields, layer field.2 = some field.2) :
    layer (.object fields) = some (.object fields)

theorem IsLayer.reproduces {layer : Json → Option Json} (reliable : IsLayer layer) {j : Json}
    (portable : j.Portable) : layer j = some j := by
  induction portable with
  | bool b => exact reliable.bool b
  | string s => exact reliable.string s
  | word fits => exact reliable.word fits
  | decimal finite => exact reliable.decimal finite
  | array _ ih => exact reliable.array ih
  | object distinct _ ih => exact reliable.object distinct ih

/-- What a document is read as is not changed by writing it in between. -/
theorem IsLayer.bind_eq_some {layer : Json → Option Json} (reliable : IsLayer layer) {α : Type}
    {read : Json → Option α} {j : Json} {x : α} (portable : j.Portable) (stands : read j = some x) :
    (layer j).bind read = some x := by
  rw [reliable.reproduces portable]
  exact stands

theorem Portable.tagged {content : Json} (portable : content.Portable) (name : String) :
    (tagged name content).Portable :=
  .object (List.nodup_singleton name) (List.forall_mem_singleton.mpr portable)

theorem Portable.pair {a b : Json} (ha : a.Portable) (hb : b.Portable) : (Json.array [a, b]).Portable :=
  .array (List.forall_mem_cons.mpr ⟨ha, List.forall_mem_singleton.mpr hb⟩)

theorem Portable.record {a b : Json} (ha : a.Portable) (hb : b.Portable) (first second : String)
    (differ : first ≠ second) : (Json.object [(first, a), (second, b)]).Portable := by
  refine .object ?_ (List.forall_mem_cons.mpr ⟨ha, List.forall_mem_singleton.mpr hb⟩)
  exact List.nodup_cons.mpr ⟨List.mem_singleton.not.mpr differ, List.nodup_singleton _⟩

mutual

/-- Replaces strings at some places. A place is given by the names of the fields that lead to it, and
there is none in an array. -/
def replaceStrings (edit : List String → Option String) : Json → Json
  | .string s => .string ((edit []).getD s)
  | .object fields => .object (replaceInFields edit fields)
  | j => j

def replaceInFields (edit : List String → Option String) :
    List (String × Json) → List (String × Json)
  | [] => []
  | (name, value) :: fields =>
    (name, value.replaceStrings fun place => edit (name :: place)) :: replaceInFields edit fields

end

theorem replaceInFields_eq_map (edit : List String → Option String) (fields : List (String × Json)) :
    replaceInFields edit fields = fields.map fun field =>
      (field.1, field.2.replaceStrings fun place => edit (field.1 :: place)) := by
  induction fields with
  | nil => rfl
  | cons field fields ih => exact congrArg _ ih

theorem Portable.replaceStrings {j : Json} (portable : j.Portable)
    (edit : List String → Option String) : (j.replaceStrings edit).Portable := by
  induction portable generalizing edit with
  | bool b => exact .bool b
  | string s => exact .string _
  | word fits => exact .word fits
  | decimal finite => exact .decimal finite
  | array each _ => exact .array each
  | object distinct _ ih =>
    rw [Json.replaceStrings, replaceInFields_eq_map]
    refine .object ?_ ?_
    · rwa [List.map_map]
    · rintro _ member
      obtain ⟨field, inside, rfl⟩ := List.mem_map.mp member
      exact ih field inside _

mutual

theorem replaceStrings_none (j : Json) : j.replaceStrings (fun _ => none) = j := by
  cases j with
  | object fields => rw [replaceStrings, replaceInFields_none fields]
  | _ => rfl

theorem replaceInFields_none (fields : List (String × Json)) :
    replaceInFields (fun _ => none) fields = fields := by
  cases fields with
  | nil => rfl
  | cons field fields =>
    rw [replaceInFields, replaceStrings_none field.2, replaceInFields_none fields]

end
end Json

theorem Number.portable_toJson {x : Number} (finite : x.IsFinite) : x.toJson.Portable := by
  cases x with
  | integer n => exact .tagged (.word ⟨n.le_toInt, n.toInt_lt⟩) _
  | fraction q => exact .tagged (.pair (.word q.num_fits) (.word q.den_fits)) _
  | double x => exact .tagged (.decimal (isFinite_double.mp finite)) _

/-- The only strings of a number are the names of its fields. -/
theorem Number.replaceStrings_toJson (x : Number) (edit : List String → Option String) :
    x.toJson.replaceStrings edit = x.toJson := by
  cases x <;> rfl

theorem Monomial.portable_toJson (m : Monomial) : m.toJson.Portable := by
  refine .object ?_ ?_
  · rw [List.map_map]
    exact List.pairwise_map.mpr (m.sorted.imp fun before => before.ne)
  · rintro _ member
    obtain ⟨⟨name, power⟩, -, rfl⟩ := List.mem_map.mp member
    have bound := power.toNat_lt
    exact .word ⟨by omega, by omega⟩

theorem Term.portable_toJson {t : Term} (finite : t.coefficient.IsFinite) : t.toJson.Portable :=
  .record (Number.portable_toJson finite) t.monomial.portable_toJson _ _ (by decide)

theorem Polynomial.portable_toJson {p : Polynomial} (finite : p.AllFinite) : p.toJson.Portable := by
  refine .tagged (.array ?_) "terms"
  rintro _ member
  obtain ⟨t, inside, rfl⟩ := List.mem_map.mp member
  exact Term.portable_toJson (finite t inside)

end Schoolbook
