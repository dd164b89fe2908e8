import Mathlib
import Schoolbook.Json.Reader
import Schoolbook.Json.Writer
import Schoolbook.Proofs.Json.Layer
import Schoolbook.Proofs.Json.Numeral

/-! What is read from the text of a document. It is the document itself as long as its doubles are finite
and the fields of each of its objects have different names. -/
namespace Schoolbook.Json

/-- A value was read, and the given text is left. -/
def Reads {α : Type} {text : List Char} (result : Option (α × Rest text)) (value : α)
    (rest : List Char) : Prop :=
  ∃ shorter, result = some (value, ⟨rest, shorter⟩)

/-- A text in front of which every number ends. -/
def Stops (text : List Char) : Prop := ∀ c ∈ text.head?, isNumberChar c = false

theorem skipBlanks_cons {c : Char} (rest : List Char) (visible : isBlank c = false) :
    skipBlanks (c :: rest) = c :: rest :=
  List.dropWhile_cons_of_neg (Bool.eq_false_iff.mp visible)

section strings

theorem codeUnit?_control : ∀ n < 32,
    codeUnit? '0' '0' (Nat.digitChar (n / 16)) (Nat.digitChar (n % 16)) = some n := by
  decide

theorem stringChar?_escape (c : Char) (rest : List Char) :
    stringChar? (escape c ++ rest) = some (c, rest) := by
  rw [escape]
  split_ifs with quote backslash control
  · rw [quote]
    rfl
  · rw [backslash]
    rfl
  · have low : c.toNat < 32 := control
    have unit := codeUnit?_control c.toNat low
    have plain : ofCodeUnit? c.toNat = some c := by
      rw [ofCodeUnit?, if_neg (by omega), Char.ofNat_toNat]
    simp only [List.cons_append, List.nil_append, stringChar?, unit, plain, Option.bind_eq_bind,
      Option.bind_some]
    rfl
  · rw [List.singleton_append, stringChar?.eq_3 _ _ (fun _ _ _ _ _ same _ => backslash same)
      (fun _ _ same _ => backslash same), if_neg]
    simp only [control, quote, backslash, or_self, not_false_eq_true]

/-- Every character of a string is read back, and the string ends at the first quote that is not
escaped. -/
theorem reads_stringRest (cs rest : List Char) :
    Reads (stringRest? (cs.flatMap escape ++ '"' :: rest)) cs rest := by
  induction cs with
  | nil =>
    rw [List.flatMap_nil, List.nil_append, stringRest?]
    exact ⟨_, rfl⟩
  | cons c cs ih =>
    obtain ⟨shorter, read⟩ := ih
    have first := stringChar?_escape c (cs.flatMap escape ++ '"' :: rest)
    rw [List.flatMap_cons, List.append_assoc]
    generalize escape c ++ (cs.flatMap escape ++ '"' :: rest) = text at first
    have notQuote (more : List Char) (same : text = '"' :: more) : False := by
      rw [same] at first
      cases (show none = _ from first)
    rw [stringRest?.eq_2 _ notQuote]
    split
    next d more found =>
      cases first.symm.trans found
      rw [read]
      exact ⟨_, rfl⟩
    next none => cases first.symm.trans none

end strings

/-- A number is read up to the first character that fits into none. -/
theorem reads_number {text : List Char} {j : Json} (each : ∀ c ∈ text, isNumberChar c = true)
    (read : number? text = some j) {rest : List Char} (stops : Stops rest) :
    Reads (scalar? (text ++ rest)) j rest := by
  cases text with
  | nil => cases read
  | cons c cs =>
    obtain ⟨first, others⟩ := List.forall_mem_cons.mp each
    obtain ⟨taken, dropped⟩ := while_append others stops
    have other {d : Char} (outside : isNumberChar d = false) : c ≠ d := by
      rintro rfl
      exact Bool.false_ne_true (outside.symm.trans first)
    rw [List.cons_append, scalar?.eq_5 _ _ (fun _ same _ => other rfl same)
      (fun _ same _ => other rfl same) (fun _ same _ => other rfl same) (fun same => other rfl same),
      if_pos first]
    simp only [taken, read, dropped]
    exact ⟨_, rfl⟩

section steps
variable {text more rest : List Char} {j : Json} {items : List Json} {c : Char}

theorem reads_value_scalar (visible : isBlank c = false) (noArray : c ≠ '[') (noObject : c ≠ '\x7b')
    (read : Reads (scalar? (c :: text)) j rest) : Reads (value? (c :: text)) j rest := by
  have start := skipBlanks_cons text visible
  have read : Reads (scalar? (skipBlanks (c :: text))) j rest := by rwa [start]
  obtain ⟨shorter, read⟩ := read
  rw [value?]
  split
  next found =>
    cases start.symm.trans found
    exact absurd rfl noArray
  next found =>
    cases start.symm.trans found
    exact absurd rfl noObject
  next =>
    rw [read]
    exact ⟨_, rfl⟩

theorem reads_value_empty_array (rest : List Char) :
    Reads (value? ('[' :: ']' :: rest)) (.array []) rest := by
  have start := skipBlanks_cons (c := '[') (']' :: rest) rfl
  have inside := skipBlanks_cons (c := ']') rest rfl
  rw [value?]
  split
  next found =>
    cases start.symm.trans found
    split
    next found =>
      cases inside.symm.trans found
      exact ⟨_, rfl⟩
    next other => exact absurd inside (other _)
  next found => cases start.symm.trans found
  next noArray _ => exact absurd start (noArray _)

theorem reads_value_array (visible : isBlank c = false) (noEnd : c ≠ ']')
    (read : Reads (items? (c :: text)) items rest) :
    Reads (value? ('[' :: c :: text)) (.array items) rest := by
  have start := skipBlanks_cons (c := '[') (c :: text) rfl
  have inside := skipBlanks_cons text visible
  obtain ⟨shorter, read⟩ := read
  rw [value?]
  split
  next found =>
    cases start.symm.trans found
    split
    next found =>
      cases inside.symm.trans found
      exact absurd rfl noEnd
    next =>
      rw [read]
      exact ⟨_, rfl⟩
  next found => cases start.symm.trans found
  next noArray _ => exact absurd start (noArray _)

theorem reads_items_last (read : Reads (value? text) j (']' :: rest)) :
    Reads (items? text) [j] rest := by
  obtain ⟨shorter, read⟩ := read
  have ends := skipBlanks_cons (c := ']') rest rfl
  rw [items?, read]
  dsimp only
  split
  next found => cases ends.symm.trans found
  next found =>
    cases ends.symm.trans found
    exact ⟨_, rfl⟩
  next _ other => exact absurd ends (other _)

theorem reads_items_cons (read : Reads (value? text) j (',' :: more))
    (others : Reads (items? more) items rest) : Reads (items? text) (j :: items) rest := by
  obtain ⟨shorter, read⟩ := read
  obtain ⟨shorter', others⟩ := others
  have goesOn := skipBlanks_cons (c := ',') more rfl
  rw [items?, read]
  dsimp only
  split
  next found =>
    cases goesOn.symm.trans found
    rw [others]
    exact ⟨_, rfl⟩
  next found => cases goesOn.symm.trans found
  next other _ => exact absurd goesOn (other _)

theorem reads_value_empty_object (rest : List Char) :
    Reads (value? ('\x7b' :: '\x7d' :: rest)) (.object []) rest := by
  have start := skipBlanks_cons (c := '\x7b') ('\x7d' :: rest) rfl
  have inside := skipBlanks_cons (c := '\x7d') rest rfl
  rw [value?]
  split
  next found => cases start.symm.trans found
  next found =>
    cases start.symm.trans found
    split
    next found =>
      cases inside.symm.trans found
      exact ⟨_, rfl⟩
    next other => exact absurd inside (other _)
  next _ noObject => exact absurd start (noObject _)

theorem reads_value_object {fields : List (String × Json)}
    (read : Reads (members? [] ('"' :: text)) fields rest) :
    Reads (value? ('\x7b' :: '"' :: text)) (.object fields) rest := by
  have start := skipBlanks_cons (c := '\x7b') ('"' :: text) rfl
  have inside := skipBlanks_cons (c := '"') text rfl
  obtain ⟨shorter, read⟩ := read
  rw [value?]
  split
  next found => cases start.symm.trans found
  next found =>
    cases start.symm.trans found
    split
    next found => cases inside.symm.trans found
    next =>
      rw [read]
      exact ⟨_, rfl⟩
  next _ noObject => exact absurd start (noObject _)

/-- A field is read in three steps, its name, the colon and its value. After it the object ends, or a
comma leads to the other fields. -/
theorem reads_members {after next : List Char} {name : String} {done fields : List (String × Json)}
    (named : Reads (stringRest? text) name.toList (':' :: after))
    (read : Reads (value? after) j next)
    (followed : (next = '\x7d' :: rest ∧ fields = setField name j done) ∨
      ∃ more, next = ',' :: more ∧ Reads (members? (setField name j done) more) fields rest) :
    Reads (members? done ('"' :: text)) fields rest := by
  have start := skipBlanks_cons (c := '"') text rfl
  have colon := skipBlanks_cons (c := ':') after rfl
  obtain ⟨_, named⟩ := named
  obtain ⟨_, read⟩ := read
  rw [members?]
  split
  case h_2 other => exact absurd start (other _)
  next found =>
    cases start.symm.trans found
    rw [named]
    simp only [String.ofList_toList]
    split
    case h_2 other => exact absurd colon (other _)
    next found =>
      cases colon.symm.trans found
      rw [read]
      dsimp only
      rcases followed with ⟨rfl, rfl⟩ | ⟨more, rfl, others⟩
      · have ends := skipBlanks_cons (c := '\x7d') rest rfl
        split
        next found => cases ends.symm.trans found
        next found =>
          cases ends.symm.trans found
          exact ⟨_, rfl⟩
        next _ other => exact absurd ends (other _)
      · have goesOn := skipBlanks_cons (c := ',') more rfl
        obtain ⟨_, others⟩ := others
        split
        next found =>
          cases goesOn.symm.trans found
          rw [others]
          exact ⟨_, rfl⟩
        next found => cases goesOn.symm.trans found
        next other _ => exact absurd goesOn (other _)

end steps

mutual

/-- What a document is read as. A double without a finite value is written as `null`, and of several
fields of one name the last one counts. -/
def asRead : Json → Json
  | .decimal x => if x.isFinite then .decimal x else .null
  | .array items => .array (itemsAsRead items)
  | .object fields => .object (fieldsAsRead [] fields)
  | j => j

def itemsAsRead : List Json → List Json
  | [] => []
  | item :: items => item.asRead :: itemsAsRead items

def fieldsAsRead (done : List (String × Json)) : List (String × Json) → List (String × Json)
  | [] => done
  | (name, value) :: fields => fieldsAsRead (setField name value.asRead done) fields

end

section texts

theorem toList_quoted (s : String) :
    (quoted s).toList = '"' :: (s.toList.flatMap escape ++ ['"']) := by
  simp [quoted]

def itemTail (items : List Json) : List Char := items.flatMap fun item => ',' :: item.text.toList

def fieldText (field : String × Json) : List Char :=
  (quoted field.1).toList ++ ':' :: field.2.text.toList

def fieldTail (fields : List (String × Json)) : List Char :=
  fields.flatMap fun field => ',' :: fieldText field

theorem toList_itemTexts (item : Json) (items : List Json) :
    (",".intercalate (itemTexts (item :: items))).toList = item.text.toList ++ itemTail items := by
  induction items generalizing item with
  | nil => simp [itemTexts, itemTail]
  | cons next items ih =>
    rw [itemTexts, itemTexts, String.intercalate_cons_cons, ← itemTexts, String.toList_append, ih]
    simp [itemTail]

theorem toList_fieldTexts (field : String × Json) (fields : List (String × Json)) :
    (",".intercalate (fieldTexts (field :: fields))).toList = fieldText field ++ fieldTail fields := by
  induction fields generalizing field with
  | nil => simp [fieldTexts, fieldTail, fieldText]
  | cons next fields ih =>
    rw [fieldTexts, fieldTexts, String.intercalate_cons_cons, ← fieldTexts, String.toList_append, ih]
    simp [fieldTail, fieldText]

theorem stops_cons {c : Char} (rest : List Char) (other : isNumberChar c = false) :
    Stops (c :: rest) := by
  rintro _ ⟨⟩
  exact other

theorem visible_of_isNumberChar {c : Char} (number : isNumberChar c = true) :
    isBlank c = false ∧ c ≠ '[' ∧ c ≠ '\x7b' ∧ c ≠ ']' := by
  refine ⟨Bool.eq_false_iff.mpr fun blank => ?_, ?_, ?_, ?_⟩
  · simp only [isBlank, Bool.or_eq_true, decide_eq_true_iff] at blank
    rcases blank with ((rfl | rfl) | rfl) | rfl <;> cases number
  all_goals
    rintro rfl
    cases number

theorem reads_value_number {text rest : List Char} {j : Json}
    (each : ∀ c ∈ text, isNumberChar c = true) (read : number? text = some j) (stops : Stops rest) :
    Reads (value? (text ++ rest)) j rest := by
  have scalar := reads_number each read stops
  cases text with
  | nil => cases read
  | cons c cs =>
    obtain ⟨visible, noArray, noObject, -⟩ := visible_of_isNumberChar (each c List.mem_cons_self)
    exact reads_value_scalar visible noArray noObject scalar

theorem reads_value_string (s : String) (rest : List Char) :
    Reads (value? ((quoted s).toList ++ rest)) (.string s) rest := by
  have inside := reads_stringRest s.toList rest
  obtain ⟨_, read⟩ := inside
  rw [toList_quoted, List.cons_append, List.append_assoc, List.singleton_append]
  refine reads_value_scalar rfl (by decide) (by decide) ?_
  rw [scalar?, read]
  simp only [Option.map_some, String.ofList_toList]
  exact ⟨_, rfl⟩

theorem text_head (j : Json) :
    ∃ c cs, j.text.toList = c :: cs ∧ isBlank c = false ∧ c ≠ ']' := by
  have ofNumber {text : String} {k : Json} (each : ∀ c ∈ text.toList, isNumberChar c = true)
      (read : number? text.toList = some k) :
      ∃ c cs, text.toList = c :: cs ∧ isBlank c = false ∧ c ≠ ']' := by
    cases split : text.toList with
    | nil =>
      rw [split] at read
      cases read
    | cons c cs =>
      obtain ⟨visible, -, -, noEnd⟩ :=
        visible_of_isNumberChar (each c (split ▸ List.mem_cons_self))
      exact ⟨c, cs, rfl, visible, noEnd⟩
  cases j with
  | null => exact ⟨'n', _, rfl, rfl, by decide⟩
  | bool b => cases b <;> exact ⟨_, _, rfl, rfl, by decide⟩
  | integer n => exact ofNumber (fun _ => isNumberChar_of_mem_toString) (number?_toString n)
  | decimal x =>
    by_cases finite : x.isFinite = true
    · exact ofNumber (fun _ => isNumberChar_of_mem_decimalText finite) (number?_decimalText finite)
    · rw [text, decimalText, if_pos finite]
      exact ⟨'n', _, rfl, rfl, by decide⟩
  | string s => exact ⟨'"', _, toList_quoted s, rfl, by decide⟩
  | array items => exact ⟨'[', _, by rw [text]; simp; rfl, rfl, by decide⟩
  | object fields => exact ⟨'\x7b', _, by rw [text]; simp; rfl, rfl, by decide⟩

mutual

/-- The text of a document is read to its end, whatever follows. -/
theorem reads_text (j : Json) (rest : List Char) (stops : Stops rest) :
    Reads (value? (j.text.toList ++ rest)) j.asRead rest := by
  cases j with
  | null =>
    refine reads_value_scalar rfl (by decide) (by decide) ?_
    exact ⟨_, rfl⟩
  | bool b =>
    cases b <;> refine reads_value_scalar rfl (by decide) (by decide) ?_ <;> exact ⟨_, rfl⟩
  | integer n =>
    exact reads_value_number (fun _ => isNumberChar_of_mem_toString) (number?_toString n) stops
  | decimal x =>
    rw [asRead]
    by_cases finite : x.isFinite = true
    · rw [if_pos finite]
      exact reads_value_number (fun _ => isNumberChar_of_mem_decimalText finite)
        (number?_decimalText finite) stops
    · rw [if_neg finite, text, decimalText, if_pos finite]
      refine reads_value_scalar rfl (by decide) (by decide) ?_
      exact ⟨_, rfl⟩
  | string s => exact reads_value_string s rest
  | array items =>
    cases items with
    | nil => exact reads_value_empty_array rest
    | cons item items =>
      obtain ⟨c, cs, start, visible, noEnd⟩ := text_head item
      have read := reads_itemTexts item items rest
      have whole : (Json.array (item :: items)).text.toList ++ rest =
          '[' :: (item.text.toList ++ itemTail items ++ ']' :: rest) := by
        rw [text, String.toList_append, String.toList_append, toList_itemTexts]
        simp
      rw [whole]
      rw [start, List.cons_append, List.cons_append] at read ⊢
      exact reads_value_array visible noEnd read
  | object fields =>
    cases fields with
    | nil => exact reads_value_empty_object rest
    | cons field fields =>
      have read := reads_fieldTexts [] field fields rest
      have whole : (Json.object (field :: fields)).text.toList ++ rest =
          '\x7b' :: (fieldText field ++ fieldTail fields ++ '\x7d' :: rest) := by
        rw [text, String.toList_append, String.toList_append, toList_fieldTexts]
        simp
      rw [whole]
      rw [fieldText, toList_quoted, List.cons_append, List.cons_append, List.cons_append] at read ⊢
      exact reads_value_object read
termination_by sizeOf j

theorem reads_itemTexts (item : Json) (items : List Json)
    (rest : List Char) :
    Reads (items? (item.text.toList ++ itemTail items ++ ']' :: rest)) (itemsAsRead (item :: items))
      rest := by
  cases items with
  | nil =>
    have read := reads_text item (']' :: rest) (stops_cons rest rfl)
    rw [itemTail, List.flatMap_nil, List.append_nil]
    exact reads_items_last read
  | cons next items =>
    have read := reads_text item
      (',' :: (next.text.toList ++ itemTail items ++ ']' :: rest)) (stops_cons _ rfl)
    have others := reads_itemTexts next items rest
    have whole : item.text.toList ++ itemTail (next :: items) ++ ']' :: rest =
        item.text.toList ++ ',' :: (next.text.toList ++ itemTail items ++ ']' :: rest) := by
      simp [itemTail]
    rw [whole]
    exact reads_items_cons read others
termination_by sizeOf (item :: items)

theorem reads_fieldTexts (done : List (String × Json))
    (field : String × Json) (fields : List (String × Json)) (rest : List Char) :
    Reads (members? done (fieldText field ++ fieldTail fields ++ '\x7d' :: rest))
      (fieldsAsRead done (field :: fields)) rest := by
  obtain ⟨name, value⟩ := field
  have named (after : List Char) := reads_stringRest name.toList (':' :: after)
  have opened (after : List Char) : fieldText (name, value) ++ after =
      '"' :: (name.toList.flatMap escape ++ '"' :: ':' :: (value.text.toList ++ after)) := by
    simp [fieldText, toList_quoted]
  cases fields with
  | nil =>
    have read := reads_text value ('\x7d' :: rest) (stops_cons rest rfl)
    rw [fieldTail, List.flatMap_nil, List.append_nil, opened]
    exact reads_members (named _) read (.inl ⟨rfl, rfl⟩)
  | cons next fields =>
    let more := fieldText next ++ fieldTail fields ++ '\x7d' :: rest
    have read := reads_text value (',' :: more) (stops_cons _ rfl)
    have others := reads_fieldTexts (setField name value.asRead done) next fields rest
    have whole : fieldText (name, value) ++ fieldTail (next :: fields) ++ '\x7d' :: rest =
        fieldText (name, value) ++ ',' :: more := by
      simp [fieldTail, more]
    rw [whole, opened]
    exact reads_members (named _) read (.inr ⟨more, rfl, others⟩)
termination_by sizeOf (field :: fields)

end

/-- Every document has a text that can be read. -/
theorem parse?_text (j : Json) : parse? j.text = some j.asRead := by
  have read := reads_text j [] nofun
  rw [List.append_nil] at read
  obtain ⟨_, read⟩ := read
  rw [parse?, read]
  rfl

end texts

theorem itemsAsRead_eq_map (items : List Json) : itemsAsRead items = items.map asRead := by
  induction items with
  | nil => rfl
  | cons item items ih => exact congrArg _ ih

theorem setField_of_absent {name : String} {fields : List (String × Json)}
    (absent : name ∉ fields.map Prod.fst) (value : Json) :
    setField name value fields = fields ++ [(name, value)] := by
  induction fields with
  | nil => rfl
  | cons field fields ih =>
    obtain ⟨differ, absent⟩ := not_or.mp (mt List.mem_cons.mpr absent)
    rw [setField, if_neg (Ne.symm differ), ih absent, List.cons_append]

theorem fieldsAsRead_of_distinct {done fields : List (String × Json)}
    (distinct : ((done ++ fields).map Prod.fst).Nodup) :
    fieldsAsRead done fields = done ++ fields.map fun field => (field.1, field.2.asRead) := by
  induction fields generalizing done with
  | nil => exact (List.append_nil done).symm
  | cons field fields ih =>
    obtain ⟨name, value⟩ := field
    have absent : name ∉ done.map Prod.fst := by
      rw [List.map_append, List.map_cons] at distinct
      exact fun inside => List.disjoint_of_nodup_append distinct inside List.mem_cons_self
    rw [fieldsAsRead, setField_of_absent absent, ih]
    · simp
    · simpa using distinct

/-- Writing a document and reading its text is a layer. -/
theorem isLayer_parse?_text : IsLayer fun j => parse? j.text := by
  have same {j : Json} (unchanged : j.asRead = j) : parse? j.text = some j := by
    rw [parse?_text, unchanged]
  have back {j : Json} (kept : parse? j.text = some j) : j.asRead = j := by
    rw [parse?_text] at kept
    exact Option.some.inj kept
  refine ⟨fun _ => same rfl, fun _ => same rfl, fun _ => same rfl, fun {x} finite => same ?_,
    fun {items} each => same ?_, fun {fields} distinct each => same ?_⟩
  · rw [asRead, if_pos finite]
  · have kept := List.map_congr_left fun item member => back (each item member)
    rw [asRead, itemsAsRead_eq_map, kept, List.map_id']
  · have kept := List.map_congr_left fun (field : String × Json) member =>
      show (field.1, field.2.asRead) = field by rw [back (each field member)]
    rw [asRead, @fieldsAsRead_of_distinct [] fields distinct, List.nil_append, kept, List.map_id']

theorem Portable.parse?_text {j : Json} (portable : j.Portable) : parse? j.text = some j :=
  isLayer_parse?_text.reproduces portable

end Schoolbook.Json
