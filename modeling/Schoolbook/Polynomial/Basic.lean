import Schoolbook.Number.Arithmetic
import Schoolbook.Polynomial.Monomial

/-!
Polynomials as lists of terms. Every operation puts its result into normal form: like terms are
added up, terms without a value are dropped, and the rest is sorted.
-/
namespace Schoolbook

structure Term where
  coefficient : Number
  monomial : Monomial
  deriving DecidableEq

namespace Term

def constant (x : Number) : Term := ⟨x, .one⟩

def var (name : String) : Term := ⟨1, .var name⟩

def isConstant (t : Term) : Bool := t.monomial.isOne

def degree (t : Term) : Nat := t.monomial.degree

def mul? (a b : Term) : Option Term := do
  return ⟨a.coefficient * b.coefficient, ← a.monomial.mul? b.monomial⟩

def neg (t : Term) : Term := { t with coefficient := -t.coefficient }

/-- Terms are ordered by their variables alone. -/
def cmp (a b : Term) : Ordering := a.monomial.cmp b.monomial

end Term

structure Polynomial where
  terms : List Term
  deriving DecidableEq

namespace Polynomial

/-- Adds a term to a sorted list. The first coefficient of each kind is added to zero. -/
def addTerm (t : Term) : List Term → List Term
  | [] => [⟨0 + t.coefficient, t.monomial⟩]
  | s :: rest =>
    match t.cmp s with
    | .lt => ⟨0 + t.coefficient, t.monomial⟩ :: s :: rest
    | .eq => ⟨s.coefficient + t.coefficient, s.monomial⟩ :: rest
    | .gt => s :: addTerm t rest

/-- The normal form of a sum. Like terms are added in the order in which they are given. -/
def ofTerms (terms : List Term) : Polynomial :=
  ⟨(terms.foldl (fun sum t => addTerm t sum) []).filter fun t => !t.coefficient.isZero⟩

def zero : Polynomial := ⟨[]⟩

def constant (x : Number) : Polynomial := ofTerms [.constant x]

def one : Polynomial := constant 1

def var (name : String) : Polynomial := ofTerms [.var name]

def isZero (p : Polynomial) : Bool := p.terms.isEmpty

def isConstant (p : Polynomial) : Bool := p.terms.all Term.isConstant

/-- Read off the first term, which has the highest degree in a normal form. -/
def degree (p : Polynomial) : Nat := (p.terms.head?.map Term.degree).getD 0

/-- Read off the last term, where a normal form has its constant. -/
def constantTerm (p : Polynomial) : Number :=
  match p.terms.getLast? with
  | some t => if t.isConstant then t.coefficient else 0
  | none => 0

def add (p q : Polynomial) : Polynomial := ofTerms (p.terms ++ q.terms)

def sub (p q : Polynomial) : Polynomial := ofTerms (p.terms ++ q.terms.map Term.neg)

def neg (p : Polynomial) : Polynomial := ofTerms (p.terms.map Term.neg)

instance : Add Polynomial := ⟨add⟩
instance : Sub Polynomial := ⟨sub⟩
instance : Neg Polynomial := ⟨neg⟩

/-- Every term of one polynomial with every term of the other. There is no product if the power of
a variable in one of these leaves 32 bits. -/
def mul? (p q : Polynomial) : Option Polynomial := do
  let products ← p.terms.mapM fun a => q.terms.mapM fun b => a.mul? b
  return ofTerms products.flatten

/-- The product of `result` and the `n`-th power of `base`. -/
def powFrom? (result base : Polynomial) (n : Nat) : Option Polynomial :=
  if n = 0 then some result
  else do
    let result ← if n % 2 = 1 then result.mul? base else some result
    if n / 2 = 0 then return result
    powFrom? result (← base.mul? base) (n / 2)
termination_by n

/-- Power by repeated squaring; no square is formed beyond the highest bit of the exponent. -/
def pow? (p : Polynomial) (n : Nat) : Option Polynomial := powFrom? one p n

end Polynomial
end Schoolbook
