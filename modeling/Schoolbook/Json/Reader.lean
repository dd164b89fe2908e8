import Schoolbook.Json.Basic

/-!
The JSON value that a text stands for. Every step of the reading returns what is left of the text,
which is always shorter than what it was given.
-/
namespace Schoolbook.Json

/-- What is left of a text after something was read from its front. -/
abbrev Rest (text : List Char) := { rest : List Char // rest.length < text.length }

/-- The same rest, seen from a longer text. -/
def Rest.widen {short long : List Char} (r : Rest short) (h : short.length < long.length) :
    Rest long :=
  ⟨r.val, Nat.lt_trans r.property h⟩

def isBlank (c : Char) : Bool := c = ' ' || c = '\t' || c = '\n' || c = '\r'

def skipBlanks (text : List Char) : List Char := text.dropWhile isBlank

theorem length_lt_of_skipBlanks {text rest : List Char} {c : Char}
    (h : skipBlanks text = c :: rest) : rest.length < text.length := by
  have := (List.dropWhile_suffix isBlank : text.dropWhile isBlank <:+ text).length_le
  rw [show text.dropWhile isBlank = c :: rest from h, List.length_cons] at this
  omega

/-! ### Strings -/

def hexDigit? (c : Char) : Option Nat :=
  if '0' ≤ c ∧ c ≤ '9' then some (c.toNat - '0'.toNat)
  else if 'a' ≤ c ∧ c ≤ 'f' then some (c.toNat - 'a'.toNat + 10)
  else if 'A' ≤ c ∧ c ≤ 'F' then some (c.toNat - 'A'.toNat + 10)
  else none

def codeUnit? (a b c d : Char) : Option Nat := do
  return (((← hexDigit? a) * 16 + (← hexDigit? b)) * 16 + (← hexDigit? c)) * 16 + (← hexDigit? d)

def escaped? : Char → Option Char
  | '"' => some '"'
  | '\\' => some '\\'
  | '/' => some '/'
  | 'b' => some '\x08'
  | 'f' => some '\x0c'
  | 'n' => some '\n'
  | 'r' => some '\r'
  | 't' => some '\t'
  | _ => none

/-- A character outside the first plane is escaped as two code units. -/
def ofSurrogates? (high low : Nat) : Option Char :=
  if 0xD800 ≤ high ∧ high < 0xDC00 ∧ 0xDC00 ≤ low ∧ low < 0xE000 then
    some (Char.ofNat (0x10000 + (high - 0xD800) * 0x400 + (low - 0xDC00)))
  else none

def ofCodeUnit? (unit : Nat) : Option Char :=
  if 0xD800 ≤ unit ∧ unit < 0xE000 then none else some (Char.ofNat unit)

/-- One character of a string, plain or escaped, and the text after it. -/
def stringChar? : List Char → Option (Char × List Char)
  | '\\' :: 'u' :: a :: b :: c :: d :: rest => do
    let unit ← codeUnit? a b c d
    match ofCodeUnit? unit, rest with
    | some char, _ => return (char, rest)
    | none, '\\' :: 'u' :: e :: f :: g :: h :: rest =>
      return (← ofSurrogates? unit (← codeUnit? e f g h), rest)
    | none, _ => none
  | '\\' :: c :: rest => (escaped? c).map fun char => (char, rest)
  | c :: rest => if c < ' ' ∨ c = '"' ∨ c = '\\' then none else some (c, rest)
  | [] => none

theorem length_lt_of_stringChar? {text rest : List Char} {c : Char}
    (h : stringChar? text = some (c, rest)) : rest.length < text.length := by
  unfold stringChar? at h
  split at h
  · obtain ⟨unit, _, h⟩ := Option.bind_eq_some_iff.mp h
    split at h
    · simp_all +arith
    · obtain ⟨low, _, h⟩ := Option.bind_eq_some_iff.mp h
      obtain ⟨char, _, h⟩ := Option.bind_eq_some_iff.mp h
      simp_all +arith
    · cases h
  · obtain ⟨char, _, h⟩ := Option.map_eq_some_iff.mp h
    simp_all +arith
  · split at h
    · cases h
    · simp_all
  · cases h

/-- The characters of a string after its opening quote, up to the closing one. -/
def stringRest? (text : List Char) : Option (List Char × Rest text) :=
  match text with
  | '"' :: rest => some ([], ⟨rest, by simp⟩)
  | text =>
    match read : stringChar? text with
    | some (c, rest) =>
      have shorter := length_lt_of_stringChar? read
      (stringRest? rest).map fun (chars, after) => (c :: chars, after.widen shorter)
    | none => none
termination_by text.length

/-! ### Numbers -/

def isNumberChar (c : Char) : Bool :=
  c.isDigit || c = '-' || c = '+' || c = '.' || c = 'e' || c = 'E'

def digitsValue (digits : List Char) : Nat :=
  digits.foldl (fun n c => 10 * n + (c.toNat - '0'.toNat)) 0

def splitDigits (text : List Char) : List Char × List Char :=
  (text.takeWhile Char.isDigit, text.dropWhile Char.isDigit)

/-- The digits after a decimal point, if there is one, and the text after them. -/
def fractionPart? : List Char → Option (Option (List Char) × List Char)
  | '.' :: rest =>
    let (digits, after) := splitDigits rest
    if digits.isEmpty then none else some (some digits, after)
  | text => some (none, text)

def wholeExponent? (negative : Bool) (digits : List Char) : Option Int :=
  if digits.isEmpty ∨ ¬ digits.all Char.isDigit then none
  else
    let size : Int := digitsValue digits
    some (if negative then -size else size)

/-- The exponent that ends a number, if there is one. -/
def exponentPart? : List Char → Option (Option Int)
  | [] => some none
  | c :: rest =>
    if c = 'e' ∨ c = 'E' then
      match rest with
      | '-' :: digits => (wholeExponent? true digits).map some
      | '+' :: digits => (wholeExponent? false digits).map some
      | digits => (wholeExponent? false digits).map some
    else none

/-- The double next to `digits * 10 ^ exponent`. A value beyond all finite doubles is refused. -/
def decimal? (negative : Bool) (digits : Nat) (exponent : Int) : Option Json :=
  let places := (Nat.toDigits 10 digits).length + exponent
  let size : Option Float :=
    if digits = 0 ∨ places < -330 then some 0
    else if 310 < places then none
    else
      let x := Float.ofScientific digits (exponent < 0) exponent.natAbs
      if x.isFinite then some x else none
  size.map fun x => .decimal (if negative then -x else x)

/-- A number without its sign. Zero with a sign is no integer. -/
def unsigned? (negative : Bool) (text : List Char) : Option Json := do
  let (whole, rest) := splitDigits text
  if whole.isEmpty ∨ (whole.head? = some '0' ∧ 1 < whole.length) then none
  let (fraction, rest) ← fractionPart? rest
  match fraction, ← exponentPart? rest with
  | none, none =>
    let n := digitsValue whole
    if negative ∧ n = 0 then return .decimal (-0.0)
    return .integer (if negative then -n else n)
  | fraction, exponent =>
    let places := fraction.getD []
    decimal? negative (digitsValue (whole ++ places)) (exponent.getD 0 - places.length)

def number? : List Char → Option Json
  | '-' :: text => unsigned? true text
  | text => unsigned? false text

/-! ### Values -/

/-- A value without parts, and the text after it. -/
def scalar? (text : List Char) : Option (Json × Rest text) :=
  match text with
  | 'n' :: 'u' :: 'l' :: 'l' :: rest => some (.null, ⟨rest, by simp +arith⟩)
  | 't' :: 'r' :: 'u' :: 'e' :: rest => some (.bool true, ⟨rest, by simp +arith⟩)
  | 'f' :: 'a' :: 'l' :: 's' :: 'e' :: rest => some (.bool false, ⟨rest, by simp +arith⟩)
  | '"' :: rest =>
    (stringRest? rest).map fun (chars, after) =>
      (.string (String.ofList chars), after.widen (by simp))
  | c :: rest =>
    if isNumberChar c then
      (number? (c :: rest.takeWhile isNumberChar)).map fun value =>
        (value, ⟨rest.dropWhile isNumberChar,
          Nat.lt_succ_of_le (List.dropWhile_suffix isNumberChar).length_le⟩)
    else none
  | [] => none

mutual

def value? (text : List Char) : Option (Json × Rest text) :=
  match start : skipBlanks text with
  | '[' :: rest =>
    have shorter := length_lt_of_skipBlanks start
    match finish : skipBlanks rest with
    | ']' :: after =>
      some (.array [], ⟨after, Nat.lt_trans (length_lt_of_skipBlanks finish) shorter⟩)
    | _ => (items? rest).map fun (items, after) => (.array items, after.widen shorter)
  | '\x7b' :: rest =>
    have shorter := length_lt_of_skipBlanks start
    match finish : skipBlanks rest with
    | '\x7d' :: after =>
      some (.object [], ⟨after, Nat.lt_trans (length_lt_of_skipBlanks finish) shorter⟩)
    | _ => (members? [] rest).map fun (fields, after) => (.object fields, after.widen shorter)
  | _ =>
    have notLonger : (skipBlanks text).length ≤ text.length :=
      (List.dropWhile_suffix isBlank).length_le
    (scalar? (skipBlanks text)).map fun (value, after) =>
      (value, ⟨after.val, Nat.lt_of_lt_of_le after.property notLonger⟩)
termination_by (text.length, 0)

/-- The items of an array up to its closing bracket. -/
def items? (text : List Char) : Option (List Json × Rest text) :=
  match value? text with
  | none => none
  | some (first, rest) =>
    match next : skipBlanks rest.val with
    | ',' :: more =>
      have shorter := Nat.lt_trans (length_lt_of_skipBlanks next) rest.property
      (items? more).map fun (items, after) => (first :: items, after.widen shorter)
    | ']' :: after =>
      some ([first], ⟨after, Nat.lt_trans (length_lt_of_skipBlanks next) rest.property⟩)
    | _ => none
termination_by (text.length, 1)

/-- The fields of an object up to its closing brace, added to those already read. -/
def members? (fields : List (String × Json)) (text : List Char) :
    Option (List (String × Json) × Rest text) :=
  match start : skipBlanks text with
  | '"' :: quoted =>
    match stringRest? quoted with
    | none => none
    | some (name, named) =>
      match colon : skipBlanks named.val with
      | ':' :: rest =>
        have shorter : rest.length < text.length :=
          Nat.lt_trans (length_lt_of_skipBlanks colon)
            (Nat.lt_trans named.property (length_lt_of_skipBlanks start))
        match value? rest with
        | none => none
        | some (value, rest) =>
          let fields := setField (String.ofList name) value fields
          match next : skipBlanks rest.val with
          | ',' :: more =>
            have shorter := Nat.lt_trans (length_lt_of_skipBlanks next)
              (Nat.lt_trans rest.property shorter)
            (members? fields more).map fun (fields, after) => (fields, after.widen shorter)
          | '\x7d' :: after =>
            some (fields, ⟨after, Nat.lt_trans (length_lt_of_skipBlanks next)
              (Nat.lt_trans rest.property shorter)⟩)
          | _ => none
      | _ => none
  | _ => none
termination_by (text.length, 0)

end

/-- The value of the whole text. -/
def parse? (text : String) : Option Json := do
  let (value, rest) ← value? text.toList
  if (skipBlanks rest.val).isEmpty then return value else none

end Schoolbook.Json
