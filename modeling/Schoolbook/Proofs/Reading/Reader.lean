import Mathlib
import Schoolbook.Proofs.Reading.Script

/-! A reader of tokens that keeps a stack of operators and delimiters whose right operand is still to
come. Before an operator it completes those that bind more tightly. It finds the shape of every
legible script. -/
namespace Schoolbook

inductive Frame where
  | sign (op : UnaryKind)
  | operation (kind : BinaryKind) (lhs : Shape)
  | parens
  | root
  | argument (kind : BinaryKind) (lhs : Shape)
  deriving DecidableEq

namespace Frame

/-- What the frame becomes with its right operand. -/
def apply : Frame → Shape → Shape
  | .sign op, e => .unary op e
  | .operation kind lhs, e | .argument kind lhs, e => .binary kind lhs e
  | .parens, e => e
  | .root, e => .call .sqrt e

/-- Whether an operand that binds like `p` may stand behind the frame without parentheses. -/
def Admits : Frame → Precedence → Prop
  | .sign _, p => .sign ≤ p
  | .operation kind _, p => kind.Admits .right p
  | .parens, _ | .root, _ | .argument _ _, _ => True

instance : (f : Frame) → (p : Precedence) → Decidable (f.Admits p)
  | .sign _, p => inferInstanceAs (Decidable (.sign ≤ p))
  | .operation kind _, p => inferInstanceAs (Decidable (kind.Admits .right p))
  | .parens, _ | .root, _ | .argument _ _, _ => isTrue trivial

end Frame

/-- The frames, innermost first, and the operand behind them, once it is complete so far. -/
structure Reader where
  pending : List Frame
  operand? : Option Shape

namespace Reader

/-- Completes the frames for which what follows binds too loosely. -/
def settle (p : Precedence) : List Frame → Shape → List Frame × Shape
  | [], e => ([], e)
  | f :: pending, e => if f.Admits p then (f :: pending, e) else settle p pending (f.apply e)

/-- The frames with an operator behind the operand. -/
def attach (kind : BinaryKind) (pending : List Frame) (e : Shape) : List Frame :=
  let (outer, lhs) := settle kind.precedence pending e
  .operation kind lhs :: outer

/-- What a token does where an operand is expected. -/
def start? (pending : List Frame) : Token → Option Reader
  | .digit d => some ⟨pending, some (.number d)⟩
  | .letter name => some ⟨pending, some (.var name.toString)⟩
  | .operator .add => some ⟨.sign .pos :: pending, none⟩
  | .operator .sub => some ⟨.sign .neg :: pending, none⟩
  | .openParens => some ⟨.parens :: pending, none⟩
  | .openRoot => some ⟨.root :: pending, none⟩
  | _ => none

def close? (pending : List Frame) (e : Shape) : Option Reader :=
  match settle .any pending e with
  | (f :: outer, inner) => some ⟨outer, some (f.apply inner)⟩
  | ([], _) => none

/-- What a token does behind an operand. A digit continues a number. -/
def continue? (pending : List Frame) (e : Shape) : Token → Option Reader
  | .digit d =>
    match e with
    | .number n => some ⟨pending, some (.number (10 * n + d))⟩
    | _ => none
  | .operator kind => some ⟨attach kind pending e, none⟩
  | .openArgument kind => some ⟨.argument kind e :: pending, none⟩
  | .close => close? pending e
  | t => start? (attach .mul pending e) t

def step? (r : Reader) (t : Token) : Option Reader :=
  match r.operand? with
  | none => start? r.pending t
  | some e => continue? r.pending e t

def run? (r : Reader) (ts : List Token) : Option Reader := ts.foldlM step? r

end Reader

/-- The shape that is written down in a list of tokens. -/
def Shape.read? (ts : List Token) : Option Shape := do
  let r ← Reader.run? ⟨[], none⟩ ts
  let (outer, e) := Reader.settle .any r.pending (← r.operand?)
  if outer = [] then some e else none

namespace Script

/-- The frames that are still open behind a script when all its tokens are read. -/
def frames : Script → List Frame
  | .sign op operand => operand.frames ++ [.sign op]
  | .operation kind _ lhs rhs => rhs.frames ++ [.operation kind lhs.shape]
  | .number _ | .letter _ | .parens _ | .root _ | .argument _ _ _ => []

/-- The operand behind these frames. -/
def last : Script → Shape
  | .sign _ operand => operand.last
  | .operation _ _ _ rhs => rhs.last
  | s => s.shape

theorem foldl_frames (s : Script) : s.frames.foldl (fun e f => f.apply e) s.last = s.shape := by
  induction s with
  | sign op operand ih =>
    rw [frames, List.foldl_concat, last, ih]
    rfl
  | operation kind written lhs rhs _ ih =>
    rw [frames, List.foldl_concat, last, ih]
    rfl
  | number | letter | parens | root | argument => rfl

theorem frames_of_atom {s : Script} (atom : s.level = .atom) : s.frames = [] ∧ s.last = s.shape := by
  cases s with
  | sign op operand => cases atom
  | operation kind written lhs rhs => cases kind <;> cases atom
  | number | letter | parens | root | argument => exact ⟨rfl, rfl⟩

end Script

theorem Precedence.lt_iff {p q : Precedence} : p < q ↔ p.level < q.level := Iff.rfl

theorem Precedence.le_iff {p q : Precedence} : p ≤ q ↔ p.level ≤ q.level := Iff.rfl

theorem Precedence.level_inj {p q : Precedence} : p = q ↔ p.level = q.level := by
  cases p <;> cases q <;> decide

namespace BinaryKind
variable {kind kind' : BinaryKind} {side : Associativity} {p q : Precedence}

theorem associativity_eq (same : kind.precedence = kind'.precedence) :
    kind.associativity = kind'.associativity := by
  cases kind <;> cases kind' <;> first | rfl | cases same

theorem precedence_ne_sign (kind : BinaryKind) : kind.precedence ≠ .sign := by
  cases kind <;> nofun

theorem unknown_admits (p : Precedence) : BinaryKind.unknown.Admits .left p := by
  cases p <;> decide

theorem Admits.mono (admits : kind.Admits side p) (tighter : p ≤ q) : kind.Admits side q := by
  rcases admits with above | ⟨rfl, same⟩
  · exact .inl (Nat.lt_of_lt_of_le above tighter)
  · rcases Nat.eq_or_lt_of_le tighter with level | above
    · exact .inr ⟨Precedence.level_inj.mpr level, same⟩
    · exact .inl above

theorem Admits.le (admits : kind.Admits side p) : kind.precedence ≤ p := by
  rcases admits with tighter | ⟨same, -⟩
  · exact Nat.le_of_lt tighter
  · exact Nat.le_of_eq (Precedence.level_inj.mp same)

theorem admits_atom (kind : BinaryKind) (side : Associativity) : kind.Admits side .atom := by
  cases kind <;> exact .inl (by decide)

/-- Operators of one precedence group to the same side. -/
theorem not_admits_right (left : kind.Admits .left kind'.precedence) :
    ¬kind'.Admits .right kind.precedence := by
  rintro (tighter | ⟨same, right⟩)
  · have := left.le
    rw [Precedence.lt_iff] at tighter
    rw [Precedence.le_iff] at this
    omega
  · rcases left with tighter | ⟨-, left⟩
    · rw [Precedence.lt_iff, same] at tighter
      omega
    · rw [associativity_eq same, left] at right
      cases right

theorem Admits.trans (left : kind.Admits .left kind'.precedence) (right : kind'.Admits .right p) :
    kind.Admits .left p := by
  rcases right with tighter | ⟨rfl, -⟩
  · exact .inl (Nat.lt_of_le_of_lt left.le tighter)
  · exact left

end BinaryKind

namespace Frame

theorem Admits.mono {f : Frame} {p q : Precedence} (admits : f.Admits p) (tighter : p ≤ q) :
    f.Admits q := by
  cases f with
  | sign op => exact Nat.le_trans admits tighter
  | operation kind lhs => exact BinaryKind.Admits.mono admits tighter
  | parens | root | argument => trivial

end Frame

namespace Script

/-- An operator that takes a script as its left operand completes all its frames. -/
theorem not_admits_of_mem_frames {s : Script} {kind : BinaryKind} (legible : s.Legible)
    (left : kind.Admits .left s.level) : ∀ f ∈ s.frames, ¬f.Admits kind.precedence := by
  induction s with
  | number | letter | parens | root | argument => nofun
  | sign op operand ih =>
    obtain ⟨-, tight, legible⟩ := legible
    have looser : kind.precedence < .sign := left.resolve_right fun same =>
      kind.precedence_ne_sign same.1
    refine List.forall_mem_append.mpr ⟨ih legible (.inl (Nat.lt_of_lt_of_le looser tight)), ?_⟩
    exact List.forall_mem_singleton.mpr (Nat.not_le_of_lt looser)
  | operation kind' written lhs rhs _ ih =>
    obtain ⟨-, right, -, -, legible⟩ := legible
    refine List.forall_mem_append.mpr ⟨ih legible (left.trans right), ?_⟩
    exact List.forall_mem_singleton.mpr (BinaryKind.not_admits_right left)

end Script

namespace Reader
variable {pending : List Frame} {p : Precedence}

theorem settle_append {frames : List Frame} (completed : ∀ f ∈ frames, ¬f.Admits p) (e : Shape) :
    settle p (frames ++ pending) e = settle p pending (frames.foldl (fun e f => f.apply e) e) := by
  induction frames generalizing e with
  | nil => rfl
  | cons f frames ih =>
    obtain ⟨here, completed⟩ := List.forall_mem_cons.mp completed
    rw [List.cons_append, settle, if_neg here, ih completed, List.foldl_cons]

theorem settle_of_admits (admits : ∀ f ∈ pending.head?, f.Admits p) (e : Shape) :
    settle p pending e = (pending, e) := by
  cases pending with
  | nil => rfl
  | cons f pending => rw [settle, if_pos (admits f rfl)]

theorem admits_head {f : Frame} (pending : List Frame) (admits : f.Admits p) :
    ∀ g ∈ (f :: pending).head?, g.Admits p := by
  rintro g ⟨⟩
  exact admits

theorem settle_frames {s : Script} {kind : BinaryKind} (legible : s.Legible)
    (left : kind.Admits .left s.level) (admits : ∀ f ∈ pending.head?, f.Admits kind.precedence) :
    settle kind.precedence (s.frames ++ pending) s.last = (pending, s.shape) := by
  rw [settle_append (s.not_admits_of_mem_frames legible left), s.foldl_frames,
    settle_of_admits admits]

theorem close?_frames {s : Script} (legible : s.Legible) {f : Frame} (delimits : f.Admits .any) :
    close? (s.frames ++ f :: pending) s.last = some ⟨pending, some (f.apply s.shape)⟩ := by
  have settled := settle_frames legible (BinaryKind.unknown_admits s.level)
    (admits_head pending delimits)
  rw [close?, show Precedence.any = BinaryKind.unknown.precedence from rfl, settled]

theorem run?_append (r : Reader) (ts us : List Token) :
    r.run? (ts ++ us) = (r.run? ts).bind fun r => r.run? us := List.foldlM_append

theorem run?_cons (r : Reader) (t : Token) (ts : List Token) :
    r.run? (t :: ts) = (r.step? t).bind fun r => r.run? ts := List.foldlM_cons

theorem step?_digit (pending : List Frame) (n d : Nat) :
    step? ⟨pending, some (.number n)⟩ (.digit d) = some ⟨pending, some (.number (10 * n + d))⟩ := rfl

theorem step?_close (pending : List Frame) (e : Shape) :
    step? ⟨pending, some e⟩ .close = close? pending e := rfl

theorem run?_digits (pending : List Frame) (n : Nat) :
    run? ⟨pending, none⟩ (Script.digits n) = some ⟨pending, some (.number n)⟩ := by
  have continued (cs : List Char) (m : Nat) :
      run? ⟨pending, some (.number m)⟩ (cs.map fun c => .digit (c.toNat - '0'.toNat)) =
        some ⟨pending, some (.number (Nat.ofDigitChars 10 cs m))⟩ := by
    induction cs generalizing m with
    | nil => rfl
    | cons c cs ih =>
      rw [List.map_cons, run?_cons, step?_digit, Option.bind_some, ih, Nat.ofDigitChars_cons]
  obtain ⟨c, cs, split⟩ := List.exists_cons_of_ne_nil (Nat.toDigits_ne_nil (n := n) (b := 10))
  have value := Nat.ofDigitChars_ten_toDigits (n := n)
  rw [split, Nat.ofDigitChars_cons, Nat.mul_zero, Nat.zero_add] at value
  rw [Script.digits, split, List.map_cons, run?_cons, ← value]
  exact continued cs _

/-- Behind an operand, the tokens of a right operand do the same with the operator as without it, if
the operands may stand side by side. -/
theorem run?_operator {kind : BinaryKind} {written : Bool} {ts : List Token} (e : Shape)
    (apart : written = false → kind = .mul ∧ ∃ t ∈ ts.head?, t.juxtaposes = true) :
    run? ⟨pending, some e⟩ ((if written then [.operator kind] else []) ++ ts) =
      run? ⟨attach kind pending e, none⟩ ts := by
  cases written with
  | true => rfl
  | false =>
    obtain ⟨rfl, t, first, juxtaposes⟩ := apart rfl
    cases ts with
    | nil => cases first
    | cons u ts =>
      obtain rfl : u = t := Option.some.inj first
      cases u with
      | letter | openParens | openRoot => rfl
      | digit | operator | openArgument | close => cases juxtaposes

end Reader

namespace Script
open Reader

/-- What stands between two delimiters is complete behind them. -/
theorem run?_enclosed {s : Script} {f : Frame} {pending : List Frame} {r : Reader} {t : Token}
    (legible : s.Legible) (started : step? r t = some ⟨f :: pending, none⟩)
    (inside : run? ⟨f :: pending, none⟩ s.tokens = some ⟨s.frames ++ f :: pending, some s.last⟩)
    (delimits : f.Admits .any) :
    run? r (t :: (s.tokens ++ [.close])) = some ⟨pending, some (f.apply s.shape)⟩ := by
  rw [run?_cons, started, Option.bind_some, run?_append, inside, Option.bind_some, run?_cons,
    step?_close, close?_frames legible delimits]
  rfl

/-- All tokens of a script lead to its last operand behind its open frames, on top of whatever was
pending, provided that the script may stand there without parentheses. -/
theorem run?_tokens {s : Script} (legible : s.Legible) {pending : List Frame}
    (admits : ∀ f ∈ pending.head?, f.Admits s.level) :
    run? ⟨pending, none⟩ s.tokens = some ⟨s.frames ++ pending, some s.last⟩ := by
  induction s generalizing pending with
  | number n => exact run?_digits pending n
  | letter name => rfl
  | sign op operand ih =>
    obtain ⟨known, tight, legible⟩ := legible
    have started : step? ⟨pending, none⟩ op.token = some ⟨.sign op :: pending, none⟩ := by
      cases op with
      | neg | pos => rfl
      | unknown => exact absurd rfl known
    have below := ih legible (admits_head (f := .sign op) pending tight)
    rw [tokens, run?_cons, started, Option.bind_some, below, frames, List.append_assoc]
    rfl
  | operation kind written lhs rhs ihl ihr =>
    obtain ⟨left, right, apart, legible, legible'⟩ := legible
    have first := ihl legible fun f top => (admits f top).mono left.le
    have second := ihr legible' (admits_head (f := .operation kind lhs.shape) pending right)
    -- The operator completes the frames of its left operand and no others.
    have attached : attach kind (lhs.frames ++ pending) lhs.last =
        .operation kind lhs.shape :: pending := by
      rw [attach, settle_frames legible left admits]
    rw [tokens, run?_append, first, Option.bind_some, run?_operator _ apart, attached, second, frames,
      List.append_assoc]
    rfl
  | parens inner ih =>
    have inside := ih legible (admits_head (f := .parens) pending trivial)
    exact run?_enclosed (s := inner) legible rfl inside trivial
  | root arg ih =>
    have inside := ih legible (admits_head (f := .root) pending trivial)
    exact run?_enclosed (s := arg) legible rfl inside trivial
  | argument kind lhs rhs ihl ihr =>
    obtain ⟨atom, legible, legible'⟩ := legible
    obtain ⟨closed, whole⟩ := frames_of_atom atom
    have first := ihl legible (atom ▸ admits : ∀ f ∈ pending.head?, f.Admits lhs.level)
    have second := ihr legible' (admits_head (f := .argument kind lhs.shape) pending trivial)
    rw [tokens, run?_append, first, closed, whole, Option.bind_some, List.nil_append]
    exact run?_enclosed legible' rfl second trivial

/-- A legible script is read as the shape it was written for. -/
theorem read?_tokens {s : Script} (legible : s.Legible) : Shape.read? s.tokens = some s.shape := by
  have run : run? ⟨[], none⟩ s.tokens = some ⟨s.frames ++ [], some s.last⟩ :=
    run?_tokens legible nofun
  have settled : settle BinaryKind.unknown.precedence (s.frames ++ []) s.last = ([], s.shape) :=
    settle_frames legible (BinaryKind.unknown_admits s.level) nofun
  rw [Shape.read?, run]
  change (let (outer, e) := settle BinaryKind.unknown.precedence (s.frames ++ []) s.last
    if outer = [] then some e else none) = _
  rw [settled]
  rfl

end Script
end Schoolbook
