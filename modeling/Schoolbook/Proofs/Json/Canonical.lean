import Mathlib
import Schoolbook.Canonical.Json
import Schoolbook.Proofs.Json.Layer
import Schoolbook.Proofs.Json.Number

/-! Canonical trees are read as they were written, sorted or not. -/
namespace Schoolbook
namespace Canonical

mutual

/-- No constant is an infinity or NaN. -/
def IsFinite : Canonical → Prop
  | .constant x => x.IsFinite
  | .var _ | .invalid => True
  | .sqrt x | .neg x | .pos x => x.IsFinite
  | .sum xs | .product xs => AllFinite xs
  | .difference x y | .quotient x y | .power x y => x.IsFinite ∧ y.IsFinite

def AllFinite : List Canonical → Prop
  | [] => True
  | x :: xs => x.IsFinite ∧ AllFinite xs

end

section
variable (content : Json)

theorem ofJson?_constant : ofJson? (.tagged "Constant" content) =
    (Number.ofJson? content).map .constant := by
  rw [ofJson?]
  rfl

theorem ofJson?_var : ofJson? (.tagged "Variable" content) = content.string?.map .var := by
  rw [ofJson?]
  rfl

theorem ofJson?_sqrt : ofJson? (.tagged "SquareRoot" content) = (ofJson? content).map .sqrt := by
  rw [ofJson?]
  rfl

theorem ofJson?_neg : ofJson? (.tagged "Negation" content) = (ofJson? content).map .neg := by
  rw [ofJson?]
  rfl

theorem ofJson?_pos : ofJson? (.tagged "Positive" content) = (ofJson? content).map .pos := by
  rw [ofJson?]
  rfl

/-- Any other node is read from the list of its operands. -/
theorem ofJson?_operands {name : String} (items : List Json)
    (operation : name ∈ ["Sum", "Difference", "Product", "Quotient", "Power"]) :
    ofJson? (.tagged name (.array items)) = (ofJsons? items).bind (ofOperands? name) := by
  simp only [List.mem_cons, List.not_mem_nil, or_false] at operation
  rcases operation with rfl | rfl | rfl | rfl | rfl
  all_goals
    rw [ofJson?]
    rfl

end

theorem ofJsons?_cons (item : Json) (items : List Json) :
    ofJsons? (item :: items) = do return (← ofJson? item) :: (← ofJsons? items) := by
  rw [ofJsons?]

theorem ofJsons?_pair {a b : Json} {x y : Canonical} (first : ofJson? a = some x)
    (second : ofJson? b = some y) : ofJsons? [a, b] = some [x, y] := by
  rw [ofJsons?_cons, ofJsons?_cons, ofJsons?, first, second]
  rfl

mutual

theorem ofJson?_toJson (x : Canonical) : ofJson? x.toJson = some x := by
  cases x with
  | constant x => rw [toJson, ofJson?_constant, Number.ofJson?_toJson, Option.map_some]
  | var name => exact ofJson?_var _
  | sqrt x => rw [toJson, ofJson?_sqrt, ofJson?_toJson x, Option.map_some]
  | neg x => rw [toJson, ofJson?_neg, ofJson?_toJson x, Option.map_some]
  | pos x => rw [toJson, ofJson?_pos, ofJson?_toJson x, Option.map_some]
  | sum xs | product xs =>
    rw [toJson, ofJson?_operands _ (by decide), ofJsons?_toJsons xs]
    rfl
  | difference x y | quotient x y | power x y =>
    rw [toJson, ofJson?_operands _ (by decide), ofJsons?_pair (ofJson?_toJson x) (ofJson?_toJson y)]
    rfl
  | invalid =>
    rw [toJson, ofJson?]
    rfl

theorem ofJsons?_toJsons (xs : List Canonical) : ofJsons? (toJsons xs) = some xs := by
  cases xs with
  | nil => rw [toJsons, ofJsons?]
  | cons x xs =>
    rw [toJsons, ofJsons?_cons, ofJson?_toJson x, ofJsons?_toJsons xs]
    rfl

end

mutual

theorem portable_toJson (x : Canonical) (finite : x.IsFinite) : x.toJson.Portable := by
  cases x with
  | constant x => exact .tagged (Number.portable_toJson finite) _
  | var name => exact .tagged (.string name) _
  | sqrt x | neg x | pos x => exact .tagged (portable_toJson x finite) _
  | sum xs | product xs => exact .tagged (.array (portable_toJsons xs finite)) _
  | difference x y | quotient x y | power x y =>
    exact .tagged (.pair (portable_toJson x finite.1) (portable_toJson y finite.2)) _
  | invalid => exact .string _

theorem portable_toJsons (xs : List Canonical) (finite : AllFinite xs) :
    ∀ item ∈ toJsons xs, item.Portable := by
  cases xs with
  | nil => nofun
  | cons x xs =>
    exact List.forall_mem_cons.mpr ⟨portable_toJson x finite.1, portable_toJsons xs finite.2⟩

end

end Canonical

namespace CanonicalEquation

theorem ofJson?_toJson (q : CanonicalEquation) : ofJson? q.toJson = some q := by
  change (do return ⟨← Canonical.ofJson? q.lhs.toJson, ← Canonical.ofJson? q.rhs.toJson⟩) = some q
  rw [q.lhs.ofJson?_toJson, q.rhs.ofJson?_toJson]
  rfl

theorem portable_toJson {q : CanonicalEquation} (lhs : q.lhs.IsFinite) (rhs : q.rhs.IsFinite) :
    q.toJson.Portable :=
  .record (q.lhs.portable_toJson lhs) (q.rhs.portable_toJson rhs) _ _ (by decide)

end CanonicalEquation
end Schoolbook
