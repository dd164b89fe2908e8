import Mathlib
import Schoolbook.Expr.Json
import Schoolbook.Proofs.Expr.Malformed
import Schoolbook.Proofs.Finiteness
import Schoolbook.Proofs.Json.Canonical
import Schoolbook.Proofs.Json.Polynomial
import Schoolbook.Proofs.Json.Text

/-! Expressions are read as they were written. Where the name of an operator or a function was replaced
by one that is not known, the operator is unknown and everything else is as before. -/
namespace Schoolbook

/-- The kind that is found under a name which may have been replaced by one of no known kind. -/
theorem find?_replaced {α : Type} {kinds : List α} {nameOf : α → String} {kind unknown : α}
    {edited : Option String}
    (own : (kinds.find? fun k => nameOf k == nameOf kind).getD unknown = kind)
    (misnamed : ∀ name, edited = some name → ∀ k, nameOf k = name → k = unknown) :
    (kinds.find? fun k => nameOf k == edited.getD (nameOf kind)).getD unknown =
      if edited.isSome then unknown else kind := by
  cases edited with
  | none => exact own
  | some name =>
    cases found : kinds.find? fun k => nameOf k == name with
    | none => simp [found]
    | some k =>
      have named := List.find?_some found
      have same := misnamed name rfl k (eq_of_beq named)
      simp [found, same]

theorem BinaryKind.ofName_replaced (kind : BinaryKind) {edited : Option String}
    (misnamed : ∀ name, edited = some name → ∀ k : BinaryKind, k.name = name → k = .unknown) :
    ofName (edited.getD kind.name) = if edited.isSome then .unknown else kind :=
  find?_replaced (by cases kind <;> rfl) misnamed

theorem UnaryKind.ofName_replaced (op : UnaryKind) {edited : Option String}
    (misnamed : ∀ name, edited = some name → ∀ k : UnaryKind, k.name = name → k = .unknown) :
    ofName (edited.getD op.name) = if edited.isSome then .unknown else op :=
  find?_replaced (by cases op <;> rfl) misnamed

theorem FunctionKind.ofName_replaced (func : FunctionKind) {edited : Option String}
    (misnamed : ∀ name, edited = some name → ∀ k : FunctionKind, k.name = name → k = .unknown) :
    ofName (edited.getD func.name) = if edited.isSome then .unknown else func :=
  find?_replaced (by cases func <;> rfl) misnamed

theorem BinaryOp.ofJson?_named (name : String) (implicit : Bool) :
    ofJson? (.object [("kind", .string name), ("implicit", .bool implicit)]) =
      some ⟨.ofName name, implicit⟩ :=
  rfl

theorem UnaryKind.ofJson?_string (name : String) : ofJson? (.string name) = some (.ofName name) := rfl

theorem FunctionKind.ofJson?_string (name : String) : ofJson? (.string name) = some (.ofName name) :=
  rfl

namespace Expr

section
variable (a b op : Json)

theorem ofJson?_constant : ofJson? (.tagged "Constant" a) = (Number.ofJson? a).map .constant := by
  rw [ofJson?]
  rfl

theorem ofJson?_var : ofJson? (.tagged "Variable" a) = a.string?.map .var := by
  rw [ofJson?]
  rfl

theorem ofJson?_binary :
    ofJson? (.tagged "Binary" (.object [("lhs", a), ("op", op), ("rhs", b)])) =
      do return .binary (← BinaryOp.ofJson? op) (← ofJson? a) (← ofJson? b) := by
  rw [ofJson?]
  rfl

theorem ofJson?_unary :
    ofJson? (.tagged "Unary" (.object [("op", op), ("operand", a)])) =
      do return .unary (← UnaryKind.ofJson? op) (← ofJson? a) := by
  rw [ofJson?]
  rfl

theorem ofJson?_call :
    ofJson? (.tagged "Call" (.object [("func", op), ("arg", a)])) =
      do return .call (← FunctionKind.ofJson? op) (← ofJson? a) := by
  rw [ofJson?]
  rfl

theorem ofJson?_group : ofJson? (.tagged "Group" (.object [("expr", a)])) =
    (ofJson? a).map .group := by
  rw [ofJson?]
  rfl

theorem ofJson?_unset : ofJson? (.string "Unset") = some .unset := by
  rw [ofJson?]
  rfl

end

/-- The fields that lead from the form of a node to the name of its operator or function. -/
def nameFields? : Expr → Option (List String)
  | .binary _ _ _ => some ["Binary", "op", "kind"]
  | .unary _ _ => some ["Unary", "op"]
  | .call _ _ => some ["Call", "func"]
  | .constant _ | .var _ | .group _ | .unset => none

/-- The fields that lead to the form of a child. -/
def childFields? : Expr → Nat → Option (List String)
  | .binary _ _ _, 0 => some ["Binary", "lhs"]
  | .binary _ _ _, 1 => some ["Binary", "rhs"]
  | .unary _ _, 0 => some ["Unary", "operand"]
  | .call _ _, 0 => some ["Call", "arg"]
  | .group _, 0 => some ["Group", "expr"]
  | _, _ => none

/-- The place of the name of a node in the form of the whole expression. -/
def namePlace? (e : Expr) : List Nat → Option (List String)
  | [] => e.nameFields?
  | index :: path => do return (← e.childFields? index) ++ (← (← e.child? index).namePlace? path)

/-- No operator or function that can stand at the node is known by the name. -/
def Misnames (name : String) : Expr → Prop
  | .binary _ _ _ => ∀ kind : BinaryKind, kind.name = name → kind = .unknown
  | .unary _ _ => ∀ op : UnaryKind, op.name = name → op = .unknown
  | .call _ _ => ∀ func : FunctionKind, func.name = name → func = .unknown
  | .constant _ | .var _ | .group _ | .unset => False

/-- Only names of operators and functions are edited, and only to unknown ones. -/
def Renamed (e : Expr) (edit : List String → Option String) : Prop :=
  ∀ place name, edit place = some name →
    ∃ path n, e.namePlace? path = some place ∧ e.node? path = some n ∧ n.Misnames name

/-- Whether the name of a node is edited. -/
def isEdited (e : Expr) (edit : List String → Option String) (path : List Nat) : Bool :=
  ((e.namePlace? path).bind edit).isSome

/-- The same expression with an unknown operator or function at the chosen nodes. -/
def forget (chosen : List Nat → Bool) : Expr → Expr
  | .binary op lhs rhs =>
    .binary { op with kind := if chosen [] then .unknown else op.kind }
      (lhs.forget fun path => chosen (0 :: path)) (rhs.forget fun path => chosen (1 :: path))
  | .unary op operand =>
    .unary (if chosen [] then .unknown else op) (operand.forget fun path => chosen (0 :: path))
  | .call func arg =>
    .call (if chosen [] then .unknown else func) (arg.forget fun path => chosen (0 :: path))
  | .group inner => .group (inner.forget fun path => chosen (0 :: path))
  | e => e

section
variable {e c : Expr} {edit : List String → Option String} {index : Nat} {fields place : List String}

theorem namePlace?_cons_eq_some {path : List Nat} : e.namePlace? (index :: path) = some place ↔
    ∃ fields c rest, e.childFields? index = some fields ∧ e.child? index = some c ∧
      c.namePlace? path = some rest ∧ fields ++ rest = place := by
  simp [namePlace?, Option.bind_eq_some_iff]

/-- The form of a child holds no other child and not the name of the node. -/
theorem childFields?_unique {other : Nat} {more rest : List String}
    (here : e.childFields? index = some fields) (there : e.childFields? other = some more)
    (same : fields ++ place = more ++ rest) : index = other ∧ place = rest := by
  cases e <;> rcases index with _ | _ | index <;> rcases other with _ | _ | other <;>
    cases here <;> cases there <;> simp_all

theorem nameFields?_ne (here : e.childFields? index = some fields) :
    e.nameFields? ≠ some (fields ++ place) := by
  cases e <;> rcases index with _ | _ | index <;> cases here <;> simp [nameFields?]

theorem Renamed.child (renamed : e.Renamed edit) (index : Nat) (step : e.child? index = some c)
    (here : e.childFields? index = some fields) : c.Renamed fun place => edit (fields ++ place) := by
  intro place name edited
  obtain ⟨path, n, found, leads, misnamed⟩ := renamed _ name edited
  cases path with
  | nil => exact absurd found (nameFields?_ne here)
  | cons other path =>
    obtain ⟨more, d, rest, there, step', found, same⟩ := namePlace?_cons_eq_some.mp found
    obtain ⟨rfl, rfl⟩ := childFields?_unique there here same
    obtain ⟨d', step'', leads⟩ := node?_cons_eq_some.mp leads
    cases step.symm.trans step'
    cases step.symm.trans step''
    exact ⟨path, n, found, leads, misnamed⟩

theorem Renamed.name (renamed : e.Renamed edit) (here : e.nameFields? = some place) {name : String}
    (edited : edit place = some name) : e.Misnames name := by
  obtain ⟨path, n, found, leads, misnamed⟩ := renamed _ name edited
  cases path with
  | nil =>
    cases leads
    exact misnamed
  | cons other path =>
    obtain ⟨more, d, rest, there, -, -, rfl⟩ := namePlace?_cons_eq_some.mp found
    exact absurd here (nameFields?_ne there)

theorem isEdited_child (index : Nat) (step : e.child? index = some c)
    (here : e.childFields? index = some fields) :
    (fun path => e.isEdited edit (index :: path)) =
      c.isEdited fun place => edit (fields ++ place) := by
  funext path
  have place : e.namePlace? (index :: path) = (c.namePlace? path).map (fields ++ ·) := by
    rw [namePlace?, here, step, Option.map_eq_bind]
    rfl
  rw [isEdited, place, Option.bind_map]
  rfl

theorem Renamed.eq_none (renamed : e.Renamed edit) (nameless : e.nameFields? = none)
    (leaf : ∀ index, e.childFields? index = none) : edit place = none := by
  cases edited : edit place with
  | none => rfl
  | some name =>
    obtain ⟨path, n, found, -, -⟩ := renamed _ name edited
    cases path with
    | nil => cases nameless.symm.trans found
    | cons index path =>
      obtain ⟨fields, _, _, here, -⟩ := namePlace?_cons_eq_some.mp found
      cases (leaf index).symm.trans here

/-- The form with replaced names is read as the same expression, in which the operators and functions
of these names, and no others, are unknown. -/
theorem ofJson?_replaceStrings (renamed : e.Renamed edit) :
    ofJson? (e.toJson.replaceStrings edit) = some (e.forget (e.isEdited edit)) := by
  -- The edits of a child's form are the edits at the places below that child, so they change at every
  -- step; the `change` in each case computes the edited form as far as the children.
  induction e generalizing edit with
  | constant x =>
    change ofJson? (.tagged "Constant" (x.toJson.replaceStrings _)) = _
    rw [Number.replaceStrings_toJson, ofJson?_constant, Number.ofJson?_toJson]
    rfl
  | var name =>
    have kept : edit ["Variable"] = none := renamed.eq_none rfl fun _ => rfl
    change ofJson? (.tagged "Variable" (.string ((edit ["Variable"]).getD name))) = _
    rw [kept, ofJson?_var]
    rfl
  | unset =>
    have kept : edit [] = none := renamed.eq_none rfl fun _ => rfl
    change ofJson? (.string ((edit []).getD "Unset")) = _
    rw [kept]
    exact ofJson?_unset
  | group inner ih =>
    have read := ih (renamed.child 0 rfl rfl)
    change ofJson? (.tagged "Group" (.object [("expr", inner.toJson.replaceStrings fun place =>
      edit (["Group", "expr"] ++ place))])) = _
    rw [ofJson?_group, read, forget, isEdited_child 0 rfl rfl]
    rfl
  | unary op operand ih =>
    have name := op.ofName_replaced fun _ => renamed.name rfl
    have read := ih (renamed.child 0 rfl rfl)
    change ofJson? (.tagged "Unary" (.object [("op", .string ((edit ["Unary", "op"]).getD op.name)),
      ("operand", operand.toJson.replaceStrings fun place =>
        edit (["Unary", "operand"] ++ place))])) = _
    rw [ofJson?_unary, read, UnaryKind.ofJson?_string, name, forget, isEdited_child 0 rfl rfl]
    rfl
  | call func arg ih =>
    have name := func.ofName_replaced fun _ => renamed.name rfl
    have read := ih (renamed.child 0 rfl rfl)
    change ofJson? (.tagged "Call" (.object [("func", .string ((edit ["Call", "func"]).getD func.name)),
      ("arg", arg.toJson.replaceStrings fun place => edit (["Call", "arg"] ++ place))])) = _
    rw [ofJson?_call, read, FunctionKind.ofJson?_string, name, forget, isEdited_child 0 rfl rfl]
    rfl
  | binary op lhs rhs ihl ihr =>
    have name := op.kind.ofName_replaced fun _ => renamed.name rfl
    have left := ihl (renamed.child 0 rfl rfl)
    have right := ihr (renamed.child 1 rfl rfl)
    change ofJson? (.tagged "Binary" (.object [
      ("lhs", lhs.toJson.replaceStrings fun place => edit (["Binary", "lhs"] ++ place)),
      ("op", .object [("kind", .string ((edit ["Binary", "op", "kind"]).getD op.kind.name)),
        ("implicit", .bool op.implicit)]),
      ("rhs", rhs.toJson.replaceStrings fun place => edit (["Binary", "rhs"] ++ place))])) = _
    rw [ofJson?_binary, left, right, BinaryOp.ofJson?_named, name, forget, isEdited_child 0 rfl rfl,
      isEdited_child 1 rfl rfl]
    rfl

end

theorem isEdited_none (e : Expr) : e.isEdited (fun _ => none) = fun _ => false := by
  funext path
  rw [isEdited, Option.bind_fun_none]
  rfl

theorem forget_none (e : Expr) : e.forget (fun _ => false) = e := by
  induction e <;> simp_all [forget]

theorem ofJson?_toJson (e : Expr) : ofJson? e.toJson = some e := by
  -- The form itself is the one in which nothing was edited.
  have untouched : e.Renamed fun _ => none := nofun
  have read := ofJson?_replaceStrings untouched
  rwa [Json.replaceStrings_none, isEdited_none, forget_none] at read

theorem child?_forget (e : Expr) (chosen : List Nat → Bool) (index : Nat) :
    (e.forget chosen).child? index =
      (e.child? index).map fun c => c.forget fun path => chosen (index :: path) := by
  cases e <;> rcases index with _ | _ | index <;> rfl

theorem node?_forget {e n : Expr} {path : List Nat} (leads : e.node? path = some n)
    (chosen : List Nat → Bool) :
    (e.forget chosen).node? path = some (n.forget fun rest => chosen (path ++ rest)) := by
  induction path generalizing e chosen with
  | nil =>
    cases leads
    rfl
  | cons index path ih =>
    obtain ⟨c, step, leads⟩ := node?_cons_eq_some.mp leads
    refine node?_cons_eq_some.mpr ⟨_, ?_, ih leads fun path => chosen (index :: path)⟩
    rw [child?_forget, step]
    rfl

theorem isMalformedNode_forget {n : Expr} {name : String} (misnamed : n.Misnames name)
    {chosen : List Nat → Bool} (here : chosen [] = true) :
    (n.forget chosen).isMalformedNode = true := by
  cases n with
  | binary _ _ _ | unary _ _ | call _ _ => simp [forget, isMalformedNode, here]
  | constant _ | var _ | group _ | unset => exact misnamed.elim

theorem malformed?_of_edited {e : Expr} {edit : List String → Option String}
    (renamed : e.Renamed edit) {place : List String} {name : String} (edited : edit place = some name) :
    (e.forget (e.isEdited edit)).malformed?.isSome = true := by
  obtain ⟨path, n, found, leads, misnamed⟩ := renamed place name edited
  have chosen : e.isEdited edit (path ++ []) = true := by
    rw [List.append_nil, isEdited, found, Option.bind_some, edited]
    rfl
  have malformed : (n.forget fun rest => e.isEdited edit (path ++ rest)).isMalformedNode = true :=
    isMalformedNode_forget misnamed chosen
  by_contra missed
  have formed := malformed?_eq_none_iff.mp (Option.not_isSome_iff_eq_none.mp missed)
  cases malformed.symm.trans (formed path _ (node?_forget leads _))

theorem portable_toJson {e : Expr} (finite : e.FiniteConstants) : e.toJson.Portable := by
  induction e with
  | constant x => exact .tagged (Number.portable_toJson (everywhere_constant.mp finite x rfl)) _
  | var name => exact .tagged (.string name) _
  | unset => exact .string _
  | group inner ih =>
    exact .tagged (.tagged (ih (everywhere_group.mp finite).2) _) _
  | unary op operand ih =>
    exact .tagged (.record (.string op.name) (ih (everywhere_unary.mp finite).2) _ _ (by decide)) _
  | call func arg ih =>
    exact .tagged (.record (.string func.name) (ih (everywhere_call.mp finite).2) _ _ (by decide)) _
  | binary op lhs rhs ihl ihr =>
    obtain ⟨-, left, right⟩ := everywhere_binary.mp finite
    have operator : op.toJson.Portable :=
      .record (.string op.kind.name) (.bool op.implicit) _ _ (by decide)
    have distinct : ["lhs", "op", "rhs"].Nodup := by decide
    refine .tagged (.object ?_ ?_) _
    · exact distinct
    · exact List.forall_mem_cons.mpr ⟨ihl left, List.forall_mem_cons.mpr ⟨operator,
      List.forall_mem_singleton.mpr (ihr right)⟩⟩

end Expr

namespace Equation

theorem ofJson?_toJson (q : Equation) : ofJson? q.toJson = some q := by
  change (do return ⟨← Expr.ofJson? q.lhs.toJson, ← Expr.ofJson? q.rhs.toJson⟩) = some q
  rw [q.lhs.ofJson?_toJson, q.rhs.ofJson?_toJson]
  rfl

theorem portable_toJson {q : Equation} (lhs : q.lhs.FiniteConstants) (rhs : q.rhs.FiniteConstants) :
    q.toJson.Portable :=
  .record (Expr.portable_toJson lhs) (Expr.portable_toJson rhs) _ _ (by decide)

end Equation

/-- Whatever is written without infinities and NaN is read as it was. The form of an expression in which
names of operators and functions were replaced by unknown ones is still read, as the expression in which
these operators and functions are unknown, and the search for malformed nodes finds one. -/
theorem json_form_loses_nothing {layer : Json → Option Json} (reliable : Json.IsLayer layer) :
    (∀ e : Expr, e.FiniteConstants → (layer e.toJson).bind Expr.ofJson? = some e) ∧
    (∀ q : Equation, q.lhs.FiniteConstants → q.rhs.FiniteConstants →
      (layer q.toJson).bind Equation.ofJson? = some q) ∧
    (∀ x : Canonical, x.IsFinite → (layer x.toJson).bind Canonical.ofJson? = some x) ∧
    (∀ q : CanonicalEquation, q.lhs.IsFinite → q.rhs.IsFinite →
      (layer q.toJson).bind CanonicalEquation.ofJson? = some q) ∧
    (∀ t : Term, t.coefficient.IsFinite → (layer t.toJson).bind Term.ofJson? = some t) ∧
    (∀ p : Polynomial, p.AllFinite → (layer p.toJson).bind Polynomial.ofJson? = some p) ∧
    ∀ (e : Expr) (edit : List String → Option String), e.Renamed edit →
      Expr.ofJson? (e.toJson.replaceStrings edit) = some (e.forget (e.isEdited edit)) ∧
      (e.FiniteConstants → (layer (e.toJson.replaceStrings edit)).bind Expr.ofJson? =
        some (e.forget (e.isEdited edit))) ∧
      ((∃ place name, edit place = some name) →
        (e.forget (e.isEdited edit)).malformed?.isSome = true) := by
  refine ⟨?_, ?_, ?_, ?_, ?_, ?_, ?_⟩
  · exact fun e finite => reliable.bind_eq_some (Expr.portable_toJson finite) e.ofJson?_toJson
  · exact fun q lhs rhs => reliable.bind_eq_some (Equation.portable_toJson lhs rhs) q.ofJson?_toJson
  · exact fun x finite => reliable.bind_eq_some (x.portable_toJson finite) x.ofJson?_toJson
  · exact fun q lhs rhs =>
      reliable.bind_eq_some (CanonicalEquation.portable_toJson lhs rhs) q.ofJson?_toJson
  · exact fun t finite => reliable.bind_eq_some (Term.portable_toJson finite)
      (Term.ofJson?_eq_some.mpr t.writtenAs_toJson)
  · exact fun p finite => reliable.bind_eq_some (Polynomial.portable_toJson finite) p.ofJson?_toJson
  · intro e edit renamed
    have read := Expr.ofJson?_replaceStrings renamed
    refine ⟨read, fun finite => ?_, ?_⟩
    · exact reliable.bind_eq_some ((Expr.portable_toJson finite).replaceStrings edit) read
    · rintro ⟨place, name, edited⟩
      exact Expr.malformed?_of_edited renamed edited

/-- In the text of the sum of `sqrt(0.5)` and `-x` the sum is named `Plus` and the root `Root`. -/
theorem json_form_loses_nothing_names :
    let e : Expr := .binary ⟨.add, false⟩ (.call .sqrt (.constant (.double 0.5)))
      (.unary .neg (.var "x"))
    let edit : List String → Option String := fun place =>
      if place = ["Binary", "op", "kind"] then some "Plus"
      else if place = ["Binary", "lhs", "Call", "func"] then some "Root"
      else none
    let read : Expr := .binary ⟨.unknown, false⟩ (.call .unknown (.constant (.double 0.5)))
      (.unary .neg (.var "x"))
    (Json.parse? e.toJson.text).bind Expr.ofJson? = some e ∧
      (Json.parse? (e.toJson.replaceStrings edit).text).bind Expr.ofJson? = some read ∧
      read.malformed?.isSome = true := by
  intro e edit read
  have half : (Number.double 0.5).IsFinite := by decide +kernel
  have finite : e.FiniteConstants := by simp [Expr.FiniteConstants, e, half]
  have renamed : e.Renamed edit := by
    intro place name edited
    dsimp only [edit] at edited
    split_ifs at edited with sum root
    · obtain rfl := Option.some.inj edited
      exact ⟨[], e, congrArg some sum.symm, rfl, fun kind => by cases kind <;> decide⟩
    · obtain rfl := Option.some.inj edited
      exact ⟨[0], _, congrArg some root.symm, rfl, fun func => by cases func <;> decide⟩
  obtain ⟨whole, -, -, -, -, -, replaced⟩ := json_form_loses_nothing Json.isLayer_parse?_text
  obtain ⟨-, again, malformed⟩ := replaced e edit renamed
  exact ⟨whole e finite, again finite, malformed ⟨["Binary", "op", "kind"], "Plus", rfl⟩⟩

end Schoolbook
