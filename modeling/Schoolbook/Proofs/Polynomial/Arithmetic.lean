import Mathlib
import Schoolbook.Proofs.Polynomial.NormalForm

/-! The operations on normal forms. As long as the sums they form stay exact, they are the operations
of the polynomials that the normal forms stand for. -/
namespace Schoolbook.Polynomial

/-- All products of a term of one polynomial with a term of the other. -/
def products? (p q : Polynomial) : Option (List Term) :=
  (p.terms.mapM fun (a : Term) => q.terms.mapM fun b => a.mul? b).map List.flatten

def mulSums (p q : Polynomial) : List Term := ((p.products? q).map sums).getD []

/-- The sums formed while a power is put together from squares. -/
def powSums (result base : Polynomial) (n : Nat) : List Term :=
  if n = 0 then []
  else
    (if n % 2 = 1 then result.mulSums base else []) ++
      if n / 2 = 0 then []
      else
        base.mulSums base ++
          match if n % 2 = 1 then result.mul? base else some result, base.mul? base with
          | some next, some square => powSums next square (n / 2)
          | _, _ => []
termination_by n

theorem allExact_append {ss ts : List Term} :
    AllExact (ss ++ ts) ↔ AllExact ss ∧ AllExact ts :=
  List.forall_mem_append

theorem mul?_eq (p q : Polynomial) : p.mul? q = (p.products? q).map ofTerms := by
  unfold mul? products?
  cases p.terms.mapM fun a => q.terms.mapM fun b => a.mul? b <;> rfl

section
variable {p q : Polynomial} {P Q : MvPolynomial String ℚ}

theorem meaning_neg {t : Term} (exact : t.neg.coefficient.IsExact) :
    t.neg.meaning = -t.meaning := by
  obtain ⟨r, stored⟩ := exact.exists
  obtain ⟨p, hp, rfl⟩ := Number.toRat?_neg stored
  change MvPolynomial.monomial _ (t.neg.coefficient.toRat?.getD 0) = _
  rw [stored, Term.meaning, hp, Option.getD_some, Option.getD_some, map_neg]
  rfl

theorem meaningOf_map_neg {ts : List Term} (exact : AllExact (ts.map Term.neg)) :
    meaningOf (ts.map Term.neg) = -meaningOf ts := by
  induction ts with
  | nil => exact neg_zero.symm
  | cons t ts ih =>
    obtain ⟨here, rest⟩ := List.forall_mem_cons.mp exact
    rw [List.map_cons, meaningOf_cons, meaningOf_cons, meaning_neg here, ih rest, neg_add]

theorem allPositive_map_neg {ts : List Term} (positive : AllPositive ts) :
    AllPositive (ts.map Term.neg) := by
  intro t member
  obtain ⟨u, inside, rfl⟩ := List.mem_map.mp member
  exact positive u inside

theorem isNormalFormOf_add (hp : p.IsNormalFormOf P) (hq : q.IsNormalFormOf Q)
    (exact : AllExact (sums (p.terms ++ q.terms))) : (p + q).IsNormalFormOf (P + Q) := by
  rw [← hp.meaningOf_terms, ← hq.meaningOf_terms, ← meaningOf_append]
  exact isNormalFormOf_ofTerms (List.forall_mem_append.mpr ⟨hp.positive, hq.positive⟩) exact

theorem isNormalFormOf_neg (hp : p.IsNormalFormOf P)
    (exact : AllExact (sums (p.terms.map Term.neg))) : (-p).IsNormalFormOf (-P) := by
  rw [← hp.meaningOf_terms, ← meaningOf_map_neg (sums_meaning exact).1]
  exact isNormalFormOf_ofTerms (allPositive_map_neg hp.positive) exact

theorem isNormalFormOf_sub (hp : p.IsNormalFormOf P) (hq : q.IsNormalFormOf Q)
    (exact : AllExact (sums (p.terms ++ q.terms.map Term.neg))) :
    (p - q).IsNormalFormOf (P - Q) := by
  have negated := (allExact_append.mp (sums_meaning exact).1).2
  rw [← hp.meaningOf_terms, ← hq.meaningOf_terms, sub_eq_add_neg,
    ← meaningOf_map_neg negated, ← meaningOf_append]
  exact isNormalFormOf_ofTerms
    (List.forall_mem_append.mpr ⟨hp.positive, allPositive_map_neg hq.positive⟩) exact

theorem meaning_mul? {a b t : Term} (computed : a.mul? b = some t)
    (exact : t.coefficient.IsExact) : t.meaning = a.meaning * b.meaning := by
  obtain ⟨m, multiplied, result⟩ := Option.bind_eq_some_iff.mp computed
  cases result
  obtain ⟨r, stored⟩ := exact.exists
  obtain ⟨x, y, hx, hy, rfl⟩ := Number.toRat?_mul stored
  rw [Term.meaning, Term.meaning, Term.meaning, stored, hx, hy,
    MvPolynomial.monomial_mul, Monomial.exponents_mul? multiplied]
  rfl

theorem isPositive_term_mul? {a b t : Term} (computed : a.mul? b = some t)
    (ha : a.monomial.IsPositive) (hb : b.monomial.IsPositive) : t.monomial.IsPositive := by
  obtain ⟨m, multiplied, result⟩ := Option.bind_eq_some_iff.mp computed
  cases result
  exact Monomial.isPositive_mul? multiplied ha hb

theorem forall₂_of_mapM {α β : Type} {f : α → Option β} {xs : List α} {ys : List β}
    (computed : xs.mapM f = some ys) : List.Forall₂ (fun x y => f x = some y) xs ys := by
  induction xs generalizing ys with
  | nil =>
    cases computed
    exact .nil
  | cons x xs ih =>
    rw [List.mapM_cons] at computed
    obtain ⟨y, first, computed⟩ := Option.bind_eq_some_iff.mp computed
    obtain ⟨rest, others, computed⟩ := Option.bind_eq_some_iff.mp computed
    cases computed
    exact .cons first (ih others)

theorem mapM_eq_some_iff {α β : Type} {f : α → Option β} {xs : List α} {ys : List β} :
    xs.mapM f = some ys ↔ List.Forall₂ (fun x y => f x = some y) xs ys := by
  refine ⟨forall₂_of_mapM, fun each => ?_⟩
  induction each with
  | nil => rfl
  | cons first _ ih =>
    rw [List.mapM_cons, first, ih]
    rfl

theorem meaningOf_row {a : Term} {bs ts : List Term}
    (row : List.Forall₂ (fun b t => a.mul? b = some t) bs ts) (exact : AllExact ts) :
    meaningOf ts = a.meaning * meaningOf bs := by
  induction row with
  | nil => exact (mul_zero _).symm
  | cons first _ ih =>
    obtain ⟨here, rest⟩ := List.forall_mem_cons.mp exact
    rw [meaningOf_cons, meaningOf_cons, meaning_mul? first here, ih rest, mul_add]

theorem allPositive_row {a : Term} {bs ts : List Term}
    (row : List.Forall₂ (fun b t => a.mul? b = some t) bs ts) (ha : a.monomial.IsPositive)
    (hb : AllPositive bs) : AllPositive ts := by
  induction row with
  | nil => exact List.forall_mem_nil _
  | cons first _ ih =>
    obtain ⟨here, rest⟩ := List.forall_mem_cons.mp hb
    exact List.forall_mem_cons.mpr ⟨isPositive_term_mul? first ha here, ih rest⟩

private theorem rows_of_products? {ts : List Term} (computed : p.products? q = some ts) :
    ∃ rows, ts = rows.flatten ∧ List.Forall₂
      (fun a row => List.Forall₂ (fun b t => a.mul? b = some t) q.terms row) p.terms rows := by
  obtain ⟨rows, found, rfl⟩ := Option.map_eq_some_iff.mp computed
  exact ⟨rows, rfl, (forall₂_of_mapM found).imp fun _ _ row => forall₂_of_mapM row⟩

theorem meaningOf_products? {ts : List Term} (computed : p.products? q = some ts)
    (exact : AllExact ts) : meaningOf ts = meaningOf p.terms * meaningOf q.terms := by
  obtain ⟨rows, rfl, products⟩ := rows_of_products? computed
  clear computed
  generalize p.terms = ps at *
  induction products with
  | nil => exact (zero_mul _).symm
  | cons row _ ih =>
    obtain ⟨here, rest⟩ := allExact_append.mp exact
    rw [List.flatten_cons, meaningOf_append, meaningOf_row row here, ih rest,
      meaningOf_cons, add_mul]

theorem allPositive_products? {ts : List Term} (computed : p.products? q = some ts)
    (hp : AllPositive p.terms) (hq : AllPositive q.terms) : AllPositive ts := by
  obtain ⟨rows, rfl, products⟩ := rows_of_products? computed
  clear computed
  generalize p.terms = ps at *
  induction products with
  | nil => exact List.forall_mem_nil _
  | cons row _ ih =>
    obtain ⟨here, rest⟩ := List.forall_mem_cons.mp hp
    exact List.forall_mem_append.mpr ⟨allPositive_row row here hq, ih rest⟩

theorem isNormalFormOf_mul? {r : Polynomial} (hp : p.IsNormalFormOf P) (hq : q.IsNormalFormOf Q)
    (computed : p.mul? q = some r) (exact : AllExact (p.mulSums q)) :
    r.IsNormalFormOf (P * Q) := by
  rw [mul?_eq] at computed
  obtain ⟨ts, products, rfl⟩ := Option.map_eq_some_iff.mp computed
  rw [mulSums, products, Option.map_some, Option.getD_some] at exact
  have denoted := meaningOf_products? products (sums_meaning exact).1
  rw [← hp.meaningOf_terms, ← hq.meaningOf_terms, ← denoted]
  exact isNormalFormOf_ofTerms (allPositive_products? products hp.positive hq.positive) exact

end

theorem powFrom?_eq (result base : Polynomial) (n : Nat) :
    powFrom? result base n =
      if n = 0 then some result
      else (if n % 2 = 1 then result.mul? base else some result).bind fun next =>
        if n / 2 = 0 then some next
        else (base.mul? base).bind fun square => powFrom? next square (n / 2) := by
  rw [powFrom?]
  split_ifs <;> rfl

theorem isNormalFormOf_constant {x : Number} {q : ℚ} (stored : x.toRat? = some q)
    (exact : AllExact (sums [.constant x])) :
    (constant x).IsNormalFormOf (MvPolynomial.C q) := by
  have denoted : meaningOf [.constant x] = MvPolynomial.C q := by
    rw [meaningOf_cons, Term.meaning, Term.constant, stored]
    exact add_zero _
  rw [← denoted]
  exact isNormalFormOf_ofTerms (List.forall_mem_singleton.mpr Monomial.isPositive_one) exact

theorem isNormalFormOf_var (name : String) (exact : AllExact (sums [.var name])) :
    (var name).IsNormalFormOf (MvPolynomial.X name) := by
  have denoted : meaningOf [.var name] = MvPolynomial.X name := by
    rw [meaningOf_cons, Term.meaning, Term.var, Monomial.exponents_var, Number.toRat?_one]
    exact add_zero _
  rw [← denoted]
  exact isNormalFormOf_ofTerms (List.forall_mem_singleton.mpr (Monomial.isPositive_var name)) exact

theorem isNormalFormOf_one : one.IsNormalFormOf 1 := by
  have exact : AllExact (sums [.constant 1]) := by
    refine List.forall_mem_singleton.mpr ?_
    change (0 + 1 : Number).IsExact
    decide +kernel
  exact isNormalFormOf_constant Number.toRat?_one exact

end Schoolbook.Polynomial
