/-!
JSON values. Integers are kept apart from numbers written with a fraction or an exponent, and no
object has two fields of one name.
-/
namespace Schoolbook

inductive Json where
  | null
  | bool (b : Bool)
  | integer (n : Int)
  | decimal (x : Float)
  | string (s : String)
  | array (items : List Json)
  | object (fields : List (String × Json))
  deriving Inhabited

namespace Json

/-- Sets a field; one of the same name is replaced in its place. -/
def setField (name : String) (value : Json) : List (String × Json) → List (String × Json)
  | [] => [(name, value)]
  | (n, v) :: rest => if n = name then (n, value) :: rest else (n, v) :: setField name value rest

def getField? (name : String) : List (String × Json) → Option Json
  | [] => none
  | (n, v) :: rest => if n = name then some v else getField? name rest

/-- A record is written as an object, or as an array of its fields in order. Unknown fields of an
object are ignored; trailing fields of an array may be missing, but there are no more than these
names. -/
def fields? (names : List String) : Json → Option (List (Option Json))
  | .object fields => some (names.map fun name => getField? name fields)
  | .array items =>
    if items.length ≤ names.length then
      some (items.map some ++ List.replicate (names.length - items.length) none)
    else none
  | _ => none

/-- An alternative is written as its name, or as an object whose only field is named like it and
holds its content. -/
def alternative? : Json → Option (String × Option Json)
  | .string name => some (name, none)
  | .object [(name, content)] => some (name, some content)
  | _ => none

/-- The name of an alternative without content, for which `null` may be given. -/
def name? (j : Json) : Option String :=
  match j.alternative? with
  | some (name, none) | some (name, some .null) => some name
  | _ => none

def integer? : Json → Option Int
  | .integer n => some n
  | _ => none

def bool? : Json → Option Bool
  | .bool b => some b
  | _ => none

def string? : Json → Option String
  | .string s => some s
  | _ => none

def array? : Json → Option (List Json)
  | .array items => some items
  | _ => none

/-- Any number, read as a double. -/
def float? : Json → Option Float
  | .integer n => some (Float.ofInt n)
  | .decimal x => some x
  | _ => none

def tagged (name : String) (content : Json) : Json := .object [(name, content)]

theorem sizeOf_lt_of_getField? {name : String} {fields : List (String × Json)} {content : Json}
    (h : getField? name fields = some content) : sizeOf content < sizeOf fields := by
  fun_induction getField? name fields with
  | case1 => cases h
  | case2 v rest =>
    obtain rfl := Option.some.inj h
    simp +arith
  | case3 n v rest _ ih =>
    have := ih h
    simp +arith
    omega

theorem sizeOf_lt_of_fields? {names : List String} {j content : Json} {fields : List (Option Json)}
    (h : j.fields? names = some fields) (mem : some content ∈ fields) :
    sizeOf content < sizeOf j := by
  cases j with
  | object members =>
    obtain rfl := Option.some.inj h
    obtain ⟨name, _, found⟩ := List.mem_map.mp mem
    have := sizeOf_lt_of_getField? found
    simp
    omega
  | array items =>
    simp only [fields?] at h
    split at h
    · obtain rfl := Option.some.inj h
      have found : content ∈ items := by simpa using mem
      have := List.sizeOf_lt_of_mem found
      simp
      omega
    · cases h
  | _ => cases h

theorem sizeOf_lt_of_array? {j : Json} {items : List Json} (h : j.array? = some items) :
    sizeOf items < sizeOf j := by
  unfold array? at h
  split at h <;> simp_all +arith

theorem sizeOf_lt_of_alternative? {j content : Json} {name : String}
    (h : j.alternative? = some (name, some content)) : sizeOf content < sizeOf j := by
  unfold alternative? at h
  split at h <;> simp_all +arith

end Json
end Schoolbook
