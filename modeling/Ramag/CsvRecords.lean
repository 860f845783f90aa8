import Ramag.Strings

/-!
Comma separated values by the rules of RFC 4180, where a line break ends every
record: a field is plain text, or stands between quotes, where it may hold
commas and line breaks and its own quotes doubled. A field that is written by
these rules is read back whatever follows it.
-/
namespace Ramag.CsvRecords
open Strings List

/-- The characters that a plain field cannot hold. -/
def isSpecial (c : Char) : Bool := c = ',' || c = '"' || c = '\r' || c = '\n'

/-- What the reader stands in. -/
inductive Place
  /-- The start of a record, where the text may end. -/
  | record
  /-- The start of a field after a comma. -/
  | field
  | plain
  | quoted
  /-- After a quote inside a quoted field: the end of the field, or the first of two. -/
  | closing
  /-- After the carriage return that ends a record. -/
  | ending

/-- Reads records, with the field and the fields that are read so far, both reversed. -/
def readFrom : Place → Text → List Text → Text → Option (List (List Text))
  | .record, _, _, [] => some []
  | _, _, _, [] => none
  | .record, field, fields, c :: t | .field, field, fields, c :: t =>
    if c = '"' then readFrom .quoted [] fields t
    else if c = ',' then readFrom .field [] (field :: fields) t
    else if c = '\r' then readFrom .ending [] (field :: fields) t
    else if c = '\n' then none
    else readFrom .plain [c] fields t
  | .plain, field, fields, c :: t =>
    if c = ',' then readFrom .field [] (field.reverse :: fields) t
    else if c = '\r' then readFrom .ending [] (field.reverse :: fields) t
    else if c = '"' ∨ c = '\n' then none
    else readFrom .plain (c :: field) fields t
  | .quoted, field, fields, c :: t => readFrom (if c = '"' then .closing else .quoted) (if c = '"' then field else c :: field) fields t
  | .closing, field, fields, c :: t =>
    if c = '"' then readFrom .quoted ('"' :: field) fields t
    else if c = ',' then readFrom .field [] (field.reverse :: fields) t
    else if c = '\r' then readFrom .ending [] (field.reverse :: fields) t
    else none
  | .ending, _, fields, c :: t => if c = '\n' then (readFrom .record [] [] t).map (fields.reverse :: ·) else none

/-- The records of a text. -/
def read (text : Text) : Option (List (List Text)) := readFrom .record [] [] text

example : read "a,\"b\"\"\r\n\"\r\n,\r\n\r\n".toList = some [["a".toList, "b\"\r\n".toList], [[], []], [[]]] := by decide

/-! ### Writing -/

/-- A field by the rules: quoted if it holds a special character. -/
def fieldText (field : Text) : Text :=
  if field.any isSpecial then '"' :: replaceChar '"' ['"', '"'] field ++ ['"'] else field

/-- The fields with commas between them, and the end of the record. -/
def recordText : List Text → Text
  | [] => ['\r', '\n']
  | [field] => fieldText field ++ ['\r', '\n']
  | field :: fields => fieldText field ++ ',' :: recordText fields

/-- Where a field may start. -/
def Place.isStart : Place → Bool
  | .record | .field => true
  | _ => false

variable {field : Text} {fields : List Text} {rest : Text}

theorem read_plain (plain : ∀ c ∈ field, isSpecial c = false) (before : Text) :
    readFrom .plain before fields (field ++ rest) = readFrom .plain (field.reverse ++ before) fields rest := by
  induction field generalizing before with
  | nil => rfl
  | cons c field ih =>
    have usual := plain c mem_cons_self
    simp only [isSpecial, Bool.or_eq_false_iff, decide_eq_false_iff_not] at usual
    obtain ⟨⟨⟨comma, quote⟩, carriage⟩, line⟩ := usual
    rw [cons_append, readFrom, if_neg comma, if_neg carriage, if_neg (by simp [quote, line]), ih fun c mem => plain c (.tail _ mem)]
    simp

theorem read_quoted (before : Text) : readFrom .quoted before fields (replaceChar '"' ['"', '"'] field ++ '"' :: rest) =
      readFrom .closing (field.reverse ++ before) fields rest := by
  induction field generalizing before with
  | nil => rfl
  | cons c field ih =>
    have replaced : replaceChar '"' ['"', '"'] (c :: field) =
        (if c = '"' then ['"', '"'] else [c]) ++ replaceChar '"' ['"', '"'] field := rfl
    rw [replaced, reverse_cons, append_assoc, append_assoc]
    by_cases quote : c = '"'
    · subst quote
      exact ih ('"' :: before)
    · rw [if_neg quote, singleton_append, readFrom, if_neg quote, if_neg quote]
      exact ih (c :: before)

section
variable {place : Place} (start : place.isStart = true)
include start

theorem read_started {c : Char} (plain : isSpecial c = false) :
    readFrom place [] fields (c :: rest) = readFrom .plain [c] fields rest := by
  simp only [isSpecial, Bool.or_eq_false_iff, decide_eq_false_iff_not] at plain
  obtain ⟨⟨⟨comma, quote⟩, carriage⟩, line⟩ := plain
  cases place with
  | record | field => rw [readFrom, if_neg quote, if_neg comma, if_neg carriage, if_neg line]
  | _ => cases start

theorem read_open :
    readFrom place [] fields ('"' :: rest) = readFrom .quoted [] fields rest := by
  cases place with
  | record | field => rfl
  | _ => cases start

theorem read_field {stop : Char} (stops : stop = ',' ∨ stop = '\r') :
    readFrom place [] fields (fieldText field ++ stop :: rest) =
      readFrom (if stop = ',' then .field else .ending) [] (field :: fields) rest := by
  unfold fieldText
  by_cases special : field.any isSpecial = true
  · rw [if_pos special, append_assoc, cons_append, read_open start, singleton_append, read_quoted]
    rcases stops with rfl | rfl <;> simp [readFrom]
  rw [if_neg special]
  simp only [any_eq_true, not_exists, not_and, Bool.not_eq_true] at special
  cases field with
  | nil =>
    cases place with
    | record | field => rcases stops with rfl | rfl <;> rfl
    | _ => cases start
  | cons c field =>
    rw [cons_append, read_started start (special c mem_cons_self), read_plain fun c mem => special c (.tail _ mem)]
    rcases stops with rfl | rfl <;> simp [readFrom]

end

theorem read_record {written : List Text} (filled : written ≠ []) {place : Place} (start : place.isStart = true) :
    readFrom place [] fields (recordText written ++ rest) = (readFrom .record [] [] rest).map ((fields.reverse ++ written) :: ·) := by
  induction written generalizing fields place with
  | nil => exact absurd rfl filled
  | cons field written ih =>
    cases written with
    | nil =>
      rw [recordText, append_assoc]
      exact (read_field start (.inr rfl)).trans (by simp [readFrom])
    | cons next written =>
      have one : readFrom place [] fields (fieldText field ++ ',' :: (recordText (next :: written) ++ rest)) = _ :=
        read_field start (.inl rfl)
      have others : readFrom .field [] (field :: fields) (recordText (next :: written) ++ rest) =
          (readFrom .record [] [] rest).map (((field :: fields).reverse ++ next :: written) :: ·) := ih nofun rfl
      have split : recordText (field :: next :: written) = fieldText field ++ ',' :: recordText (next :: written) := rfl
      rw [split, append_assoc, cons_append]
      exact (one.trans others).trans (by simp)

theorem read_records {records : List (List Text)} (whole : ∀ record ∈ records, record ≠ []) :
    read (records.flatMap recordText) = some records := by
  induction records with
  | nil => rfl
  | cons record records ih =>
    have back : readFrom .record [] [] (records.flatMap recordText) = some records := ih fun record mem => whole record (.tail _ mem)
    rw [flatMap_cons, read, read_record (whole record mem_cons_self) rfl, back]
    rfl

end Ramag.CsvRecords
