import Mathlib
import Schoolbook.Number.Json
import Schoolbook.Proofs.Number.Exact

/-! Which JSON values are read as numbers. An exact number is written in one way only, and parts
that are no fraction in lowest terms are refused. -/
namespace Schoolbook

theorem Json.alternative?_eq_some {j content : Json} {name : String} :
    j.alternative? = some (name, some content) ↔ j = .tagged name content := by
  constructor
  · intro named
    unfold alternative? at named
    split at named
    · cases named
    · cases named
      rfl
    · cases named
  · rintro rfl
    rfl

theorem Json.integer?_eq_some {j : Json} {n : Int} : j.integer? = some n ↔ j = .integer n := by
  cases j <;> simp [integer?]

theorem Json.array?_eq_some {j : Json} {items : List Json} :
    j.array? = some items ↔ j = .array items := by
  cases j <;> simp [array?]

theorem Json.word?_eq_some {j : Json} {n : Int64} : j.word? = some n ↔ j = .integer n.toInt := by
  constructor
  · intro read
    obtain ⟨i, written, read⟩ := Option.bind_eq_some_iff.mp read
    split at read
    next fits =>
      cases read
      have bounds : -2 ^ 63 ≤ i ∧ i < 2 ^ 63 := fits
      rw [integer?_eq_some.mp written, Int64.toInt_ofInt_of_le bounds.1 bounds.2]
    next => cases read
  · rintro rfl
    have fits : FitsWord 64 n.toInt := ⟨n.le_toInt, n.toInt_lt⟩
    simp [word?, integer?, fits]

namespace Fraction

/-- Parts are accepted if they are those of a fraction as it is stored. -/
theorem ofParts_eq_ok_iff {n d : Int} {f : Fraction} :
    ofParts n d = .ok f ↔ n = f.value.num ∧ d = f.value.den := by
  constructor
  · intro accepted
    unfold ofParts at accepted
    split at accepted
    next lowest =>
      cases accepted
      exact ⟨rfl, (Int.natAbs_of_nonneg (by omega)).symm⟩
    next => cases accepted
  · rintro ⟨rfl, rfl⟩
    have lowest : FitsWord 64 f.value.num ∧ FitsWord 64 f.value.den ∧ 1 < (f.value.den : Int) ∧
        f.value.num.natAbs.Coprime (f.value.den : Int).natAbs :=
      ⟨f.num_fits, f.den_fits, by exact_mod_cast f.one_lt_den, f.value.reduced⟩
    rw [ofParts, dif_pos lowest]
    rfl

theorem ofParts_isOk_iff {n d : Int} : (∃ f, ofParts n d = .ok f) ↔
    FitsWord 64 n ∧ FitsWord 64 d ∧ 1 < d ∧ n.natAbs.Coprime d.natAbs := by
  unfold ofParts
  split
  next lowest => exact iff_of_true ⟨_, rfl⟩ lowest
  next other =>
    refine iff_of_false ?_ other
    rintro ⟨_, accepted⟩
    cases accepted

theorem ofJson?_pair_eq_some {n d : Int} {f : Fraction} :
    ofJson? (.array [.integer n, .integer d]) = some f ↔ ofParts n d = .ok f := by
  change (ofParts n d).toOption = some f ↔ _
  cases ofParts n d <;> simp [Except.toOption]

theorem ofJson?_eq_some {j : Json} {f : Fraction} : ofJson? j = some f ↔ j = f.toJson := by
  constructor
  · intro read
    obtain ⟨items, written, parts⟩ := Option.bind_eq_some_iff.mp read
    obtain rfl := Json.array?_eq_some.mp written
    split at parts
    next first second =>
      obtain ⟨n, hn, parts⟩ := Option.bind_eq_some_iff.mp parts
      obtain ⟨d, hd, -⟩ := Option.bind_eq_some_iff.mp parts
      obtain rfl := Json.integer?_eq_some.mp hn
      obtain rfl := Json.integer?_eq_some.mp hd
      obtain ⟨rfl, rfl⟩ := ofParts_eq_ok_iff.mp (ofJson?_pair_eq_some.mp read)
      rfl
    next => cases parts
  · rintro rfl
    exact ofJson?_pair_eq_some.mpr (ofParts_eq_ok_iff.mpr ⟨rfl, rfl⟩)

end Fraction

namespace Number

/-- The JSON values of a number. Only a double has more than one. -/
inductive WrittenAs : Number → Json → Prop
  | integer (n : Int64) : WrittenAs (.integer n) (.tagged "Integer" (.integer n.toInt))
  | fraction (q : Fraction) : WrittenAs (.fraction q) (.tagged "Rational" q.toJson)
  | double {x : Float} {content : Json} (read : content.float? = some x) :
    WrittenAs (.double x) (.tagged "Irrational" content)

theorem writtenAs_toJson (x : Number) : x.WrittenAs x.toJson := by
  cases x with
  | integer n => exact .integer n
  | fraction q => exact .fraction q
  | double x => exact .double rfl

theorem ofJson?_integer (content : Json) :
    ofJson? (.tagged "Integer" content) = content.word?.map .integer := by
  simp [ofJson?, Json.alternative?, Json.tagged, Option.map_eq_bind]

theorem ofJson?_rational (content : Json) :
    ofJson? (.tagged "Rational" content) = (Fraction.ofJson? content).map .fraction := by
  simp [ofJson?, Json.alternative?, Json.tagged, Option.map_eq_bind]

theorem ofJson?_irrational (content : Json) :
    ofJson? (.tagged "Irrational" content) = content.float?.map .double := by
  simp [ofJson?, Json.alternative?, Json.tagged, Option.map_eq_bind]

theorem ofJson?_eq_some {j : Json} {x : Number} : ofJson? j = some x ↔ x.WrittenAs j := by
  constructor
  · intro read
    obtain ⟨⟨name, content⟩, named, chosen⟩ := Option.bind_eq_some_iff.mp read
    dsimp only at chosen
    split at chosen
    next =>
      obtain ⟨content, rfl, -⟩ := Option.bind_eq_some_iff.mp chosen
      obtain rfl := Json.alternative?_eq_some.mp named
      rw [ofJson?_integer] at read
      obtain ⟨n, written, rfl⟩ := Option.map_eq_some_iff.mp read
      obtain rfl := Json.word?_eq_some.mp written
      exact .integer n
    next =>
      obtain ⟨content, rfl, -⟩ := Option.bind_eq_some_iff.mp chosen
      obtain rfl := Json.alternative?_eq_some.mp named
      rw [ofJson?_rational] at read
      obtain ⟨q, written, rfl⟩ := Option.map_eq_some_iff.mp read
      obtain rfl := Fraction.ofJson?_eq_some.mp written
      exact .fraction q
    next =>
      obtain ⟨content, rfl, -⟩ := Option.bind_eq_some_iff.mp chosen
      obtain rfl := Json.alternative?_eq_some.mp named
      rw [ofJson?_irrational] at read
      obtain ⟨x, written, rfl⟩ := Option.map_eq_some_iff.mp read
      exact .double written
    next => cases chosen
  · intro written
    cases written with
    | integer n => rw [ofJson?_integer, Json.word?_eq_some.mpr rfl, Option.map_some]
    | fraction q => rw [ofJson?_rational, Fraction.ofJson?_eq_some.mpr rfl, Option.map_some]
    | double read => rw [ofJson?_irrational, read, Option.map_some]

theorem ofJson?_toJson (x : Number) : ofJson? x.toJson = some x :=
  ofJson?_eq_some.mpr x.writtenAs_toJson

end Number
end Schoolbook
