/-!
Products of powers of variables, kept in the order of the names.
-/
namespace Schoolbook

/-- A power of zero is kept apart from an absent variable. Products of monomials without such a power
have none. -/
structure Monomial where
  powers : List (String × UInt32)
  sorted : powers.Pairwise (·.1 < ·.1)
  deriving DecidableEq

namespace Monomial

/-- Changes the power of one variable, which is taken to be zero where it is absent. -/
def alterIn (name : String) (f : UInt32 → UInt32) : List (String × UInt32) → List (String × UInt32)
  | [] => [(name, f 0)]
  | (n, p) :: rest =>
    if name < n then (name, f 0) :: (n, p) :: rest
    else if name = n then (n, f p) :: rest
    else (n, p) :: alterIn name f rest

theorem name_of_mem_alterIn {name : String} {f : UInt32 → UInt32} {powers : List (String × UInt32)}
    {x : String × UInt32} (h : x ∈ alterIn name f powers) :
    x.1 = name ∨ ∃ y ∈ powers, y.1 = x.1 := by
  fun_induction alterIn name f powers with
  | case1 => simp_all
  | case2 n p rest _ =>
    rcases List.mem_cons.mp h with rfl | h
    · exact .inl rfl
    · exact .inr ⟨x, h, rfl⟩
  | case3 p rest =>
    rcases List.mem_cons.mp h with rfl | h
    · exact .inl rfl
    · exact .inr ⟨x, List.mem_cons_of_mem _ h, rfl⟩
  | case4 n p rest _ _ ih =>
    rcases List.mem_cons.mp h with rfl | h
    · exact .inr ⟨(n, p), List.mem_cons_self, rfl⟩
    · rcases ih h with h | ⟨y, hy, e⟩
      · exact .inl h
      · exact .inr ⟨y, List.mem_cons_of_mem _ hy, e⟩

theorem sorted_alterIn (name : String) (f : UInt32 → UInt32) {powers : List (String × UInt32)}
    (h : powers.Pairwise (·.1 < ·.1)) : (alterIn name f powers).Pairwise (·.1 < ·.1) := by
  fun_induction alterIn name f powers with
  | case1 => simp
  | case2 n p rest before =>
    refine List.pairwise_cons.mpr ⟨fun x hx => ?_, h⟩
    rcases List.mem_cons.mp hx with rfl | hx
    · exact before
    · exact String.lt_trans before ((List.pairwise_cons.mp h).1 x hx)
  | case3 p rest _ =>
    exact List.pairwise_cons.mpr ⟨fun x hx => (List.pairwise_cons.mp h).1 x hx,
      (List.pairwise_cons.mp h).2⟩
  | case4 n p rest notBefore differ ih =>
    refine List.pairwise_cons.mpr ⟨fun x hx => ?_, ih (List.pairwise_cons.mp h).2⟩
    rcases name_of_mem_alterIn hx with e | ⟨y, hy, e⟩
    · rw [e]
      exact Classical.byContradiction fun after =>
        differ (String.le_antisymm (String.not_lt.mp after) (String.not_lt.mp notBefore))
    · rw [← e]
      exact (List.pairwise_cons.mp h).1 y hy

/-- The product of no variables. -/
def one : Monomial := ⟨[], .nil⟩

instance : Inhabited Monomial := ⟨one⟩

def alter (m : Monomial) (name : String) (f : UInt32 → UInt32) : Monomial :=
  ⟨alterIn name f m.powers, sorted_alterIn name f m.sorted⟩

def var (name : String) : Monomial := one.alter name fun _ => 1

/-- The last power given for a name counts. -/
def ofList (powers : List (String × UInt32)) : Monomial :=
  powers.foldl (fun m (name, power) => m.alter name fun _ => power) one

/-- The power of a variable, zero where it is absent. -/
def power (m : Monomial) (name : String) : UInt32 := (m.powers.lookup name).getD 0

/-- Multiplies by the power of a variable, unless the new power leaves 32 bits. -/
def raise? (m : Monomial) (name : String) (extra : UInt32) : Option Monomial :=
  if (m.power name).toNat + extra.toNat < UInt32.size then some (m.alter name (· + extra)) else none

def mul? (a b : Monomial) : Option Monomial :=
  b.powers.foldlM (fun m (name, power) => m.raise? name power) a

/-- The total degree. Every power is less than `2^32`, so for the sum to leave 64 bits the monomial
needs more than `2^32` different variables. -/
def degree (m : Monomial) : Nat := (m.powers.map fun x => x.2.toNat).foldr (· + ·) 0

def isOne (m : Monomial) : Bool := m.powers.isEmpty

def cmpPowers : List (String × UInt32) → List (String × UInt32) → Ordering
  | [], [] => .eq
  | [], _ :: _ => .lt
  | _ :: _, [] => .gt
  | (n, p) :: rest, (m, q) :: others =>
    (compare n m).then ((compare q p).then (cmpPowers rest others))

/-- Higher degrees come first. Of equal degrees the earlier name comes first, and for one name the
higher power. -/
def cmp (a b : Monomial) : Ordering :=
  (compare b.degree a.degree).then (cmpPowers a.powers b.powers)

/-- The variables side by side; a power of one is not written. -/
def plain (m : Monomial) : String :=
  String.join <| m.powers.map fun (name, power) =>
    if power = 1 then name else name ++ "^" ++ toString power.toNat

end Monomial
end Schoolbook
