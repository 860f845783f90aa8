import Ramag.BsonJson
import Ramag.LogDecoding

/-!
The JSON representation of a document read back. A value is lost exactly at a
key that the reader takes for a wrapper, and at a small 64-bit integer in a code
scope, where the crate writes a bare number.
-/
namespace Ramag.BsonRoundTrip
open Strings Domain Json RedisFragment BsonJson List

section
variable {Leaf : Type} (crate : Crate Leaf)

mutual
/-- No key looks like a wrapper, and no 64-bit integer in a code scope fits into
    32 bits. -/
def survives (inScope : Bool) : Bson Leaf → Bool
  | .Int32 _ => true
  | .Int64 n => !inScope || !fitsInt32 n
  | .Array items => itemsSurvive inScope items
  | .Document fields => fieldsSurvive inScope fields
  | .JavaScriptCodeWithScope _ scope => fieldsSurvive true scope
  | .Leaf _ => true

def itemsSurvive (inScope : Bool) : List (Bson Leaf) → Bool
  | [] => true
  | item :: items => survives inScope item && itemsSurvive inScope items

def fieldsSurvive (inScope : Bool) : Document Leaf → Bool
  | [] => true
  | (key, value) :: fields => !crate.reserved key && survives inScope value && fieldsSurvive inScope fields
end

/-- How a value is written, inside and outside of code scopes. -/
def written (inScope : Bool) (b : Bson Leaf) : Value :=
  if inScope then crate.intoRelaxedExtjson b else bsonToJsonInt64Safe crate b

variable {crate}

private theorem itemsToJson_eq (items : List (Bson Leaf)) : itemsToJson crate items = items.map (bsonToJsonInt64Safe crate) := by
  induction items with
  | nil => rfl
  | cons item items ih => rw [itemsToJson, ih, map_cons]

private theorem fieldsToJson_eq (fields : Document Leaf) :
    fieldsToJson crate fields = fields.map fun field => (field.1, bsonToJsonInt64Safe crate field.2) := by
  induction fields with
  | nil => rfl
  | cons field fields ih => rw [fieldsToJson, ih, map_cons]

theorem written_array (documented : crate.Documented) (inScope : Bool) (items : List (Bson Leaf)) :
    written crate inScope (.Array items) = .Array (items.map (written crate inScope)) := by
  cases inScope with
  | true => exact documented.array items
  | false => exact congrArg Value.Array (itemsToJson_eq items)

theorem written_document (documented : crate.Documented) (inScope : Bool) (fields : Document Leaf) :
    written crate inScope (.Document fields) = .Object (fields.map fun field => (field.1, written crate inScope field.2)) := by
  cases inScope with
  | true => exact documented.document fields
  | false => exact congrArg Value.Object (fieldsToJson_eq fields)

theorem written_scope (documented : crate.Documented) (inScope : Bool) (code : Text) (scope : Document Leaf) :
    written crate inScope (.JavaScriptCodeWithScope code scope) =
      .Object [("$code", .String code), ("$scope", written crate true (.Document scope))] := by
  cases inScope <;> exact documented.scope code scope

private theorem reads_int32 (documented : crate.Documented) (inScope : Bool) (n : Int32) :
    crate.fromValue (written crate inScope (.Int32 n)) = .ok (.Int32 n) := by
  have fits : fitsInt32 n.toInt64 = true := by
    have low := n.le_toInt
    have high := n.toInt_lt
    simp only [fitsInt32, Int32.toInt_toInt64, Bool.and_eq_true, decide_eq_true_eq]
    omega
  have same : written crate inScope (.Int32 n) = .ofI64 n.toInt64 := by
    cases inScope <;> exact documented.int32 n
  rw [same, documented.readsInt, if_pos fits, Int32.toInt32_toInt64]

private theorem reads_int64 (documented : crate.Documented) (inScope : Bool) (n : Int64) :
    crate.fromValue (written crate inScope (.Int64 n)) = .ok (.Int64 n) ↔ (!inScope || !fitsInt32 n) = true := by
  cases inScope with
  | false =>
    have same : written crate false (.Int64 n) = .single "$numberLong" (.String (i64Text n)) := rfl
    rw [same, documented.readsLong]
    simp
  | true =>
    have same : written crate true (.Int64 n) = .ofI64 n := documented.int64 n
    rw [same, documented.readsInt]
    by_cases fits : fitsInt32 n = true <;> simp

mutual
/-- A value is read back as it was written exactly when it survives. -/
theorem reads_written (documented : crate.Documented) (inScope : Bool) :
    ∀ b : Bson Leaf, crate.fromValue (written crate inScope b) = .ok b ↔ survives crate inScope b = true
  | .Int32 n => by simp [reads_int32 documented, survives]
  | .Int64 n => by rw [reads_int64 documented, survives]
  | .Array items => by
    rw [written_array documented, documented.readsArray, survives, List.forall₂_map_left_iff, List.forall₂_same]
    exact reads_items documented inScope items
  | .Document fields => by
    rw [survives]
    exact reads_fields documented inScope fields
  | .JavaScriptCodeWithScope code scope => by
    rw [written_scope documented, documented.readsScope, survives]
    exact reads_fields documented true scope
  | .Leaf leaf => by
    have same : written crate inScope (.Leaf leaf) = crate.intoRelaxedExtjson (.Leaf leaf) := by
      cases inScope <;> rfl
    simp [same, documented.leaf, survives]

theorem reads_items (documented : crate.Documented) (inScope : Bool) :
    ∀ items : List (Bson Leaf), (∀ item ∈ items, crate.fromValue (written crate inScope item) = .ok item) ↔
      itemsSurvive crate inScope items = true
  | [] => by simp [itemsSurvive]
  | item :: items => by
    rw [List.forall_mem_cons, reads_written documented inScope item, reads_items documented inScope items, itemsSurvive, Bool.and_eq_true]

theorem reads_fields (documented : crate.Documented) (inScope : Bool) :
    ∀ fields : Document Leaf, crate.fromValue (written crate inScope (.Document fields)) = .ok (.Document fields) ↔
      fieldsSurvive crate inScope fields = true
  | [] => by simp [written_document documented, documented.readsObject, fieldsSurvive]
  | (key, value) :: fields => by
    have front := reads_written documented inScope value
    have others := reads_fields documented inScope fields
    rw [written_document documented, documented.readsObject] at others ⊢
    simp only [map_cons, forall_mem_cons, forall₂_cons, true_and]
    rw [fieldsSurvive, Bool.and_eq_true, Bool.and_eq_true, ← others, ← front, Bool.not_eq_true']
    constructor
    · rintro ⟨⟨free, frees⟩, value, values⟩
      exact ⟨⟨free, value⟩, frees, values⟩
    · rintro ⟨⟨free, value⟩, frees, values⟩
      exact ⟨⟨free, frees⟩, value, values⟩
end

/-- A document comes back from its JSON representation exactly when it survives. -/
theorem jsonToDocument_documentToJson (documented : crate.Documented) (shown : Bson Leaf → Text) (document : Document Leaf) :
    jsonToDocument crate shown (documentToJson crate document) = .ok document ↔ fieldsSurvive crate false document = true := by
  rw [← reads_fields documented false document]
  have same : documentToJson crate document = written crate false (.Document document) := rfl
  rw [same, jsonToDocument, jsonToBson]
  cases crate.fromValue (written crate false (.Document document)) with
  | error e => simp
  | ok b => cases b <;> simp

end

/-! ### A crate with strings as its only leaves -/

def WRAPPERS : List Text :=
  ["$oid", "$symbol", "$numberInt", "$numberLong", "$numberDouble", "$numberDecimal", "$binary", "$uuid", "$code", "$scope", "$timestamp",
    "$regularExpression", "$dbPointer", "$date", "$minKey", "$maxKey",
    "$undefined"]

mutual
private def relaxed : Bson Text → Value
  | .Int32 n => .ofI64 n.toInt64
  | .Int64 n => .ofI64 n
  | .Array items => .Array (relaxedItems items)
  | .Document fields => .Object (relaxedFields fields)
  | .JavaScriptCodeWithScope code scope => .Object [("$code", .String code), ("$scope", .Object (relaxedFields scope))]
  | .Leaf text => .String text

private def relaxedItems : List (Bson Text) → List Value
  | [] => []
  | item :: items => relaxed item :: relaxedItems items

private def relaxedFields : Document Text → List (Text × Value)
  | [] => []
  | (key, value) :: fields => (key, relaxed value) :: relaxedFields fields
end

private def readLong (text : Text) : Except Text (Bson Text) :=
  match GitLog.parseI64 text with
  | .ok n => .ok (.Int64 (.ofInt n))
  | .error e => .error e

mutual
private def read : Value → Except Text (Bson Text)
  | .String text => .ok (.Leaf text)
  | .Number n =>
    match n.asI64 with
    | some n => .ok (if fitsInt32 n then .Int32 n.toInt32 else .Int64 n)
    | none => .error "number"
  | .Array values =>
    match readItems values with
    | .ok items => .ok (.Array items)
    | .error e => .error e
  | .Object fields =>
    if fields.all fun field => field.1 ∉ WRAPPERS then
      match readFields fields with
      | .ok document => .ok (.Document document)
      | .error e => .error e
    else readWrapper fields
  | .Null | .Bool _ => .error "value"

private def readWrapper : List (Text × Value) → Except Text (Bson Text)
  | [(_, .String text)] => readLong text
  | [(_, .String code), (_, value)] =>
    match read value with
    | .ok (.Document scope) => .ok (.JavaScriptCodeWithScope code scope)
    | _ => .error "scope"
  | _ => .error "wrapper"

private def readItems : List Value → Except Text (List (Bson Text))
  | [] => .ok []
  | value :: values =>
    match read value, readItems values with
    | .ok item, .ok items => .ok (item :: items)
    | .error e, _ | _, .error e => .error e

private def readFields : List (Text × Value) → Except Text (Document Text)
  | [] => .ok []
  | (key, value) :: fields =>
    match read value, readFields fields with
    | .ok item, .ok document => .ok ((key, item) :: document)
    | .error e, _ | _, .error e => .error e
end

def stringCrate : Crate Text := ⟨fun key => key ∈ WRAPPERS, relaxed, read⟩

private theorem relaxedItems_eq (items : List (Bson Text)) : relaxedItems items = items.map relaxed := by
  induction items with
  | nil => rfl
  | cons item items ih => rw [relaxedItems, ih, map_cons]

private theorem relaxedFields_eq (fields : Document Text) : relaxedFields fields = fields.map fun field => (field.1, relaxed field.2) := by
  induction fields with
  | nil => rfl
  | cons field fields ih => rw [relaxedFields, ih, map_cons]

private theorem readItems_ok (values : List Value) (items : List (Bson Text)) :
    readItems values = .ok items ↔ List.Forall₂ (fun value item => read value = .ok item) values items := by
  induction values generalizing items with
  | nil => cases items <;> simp [readItems]
  | cons value values ih =>
    cases items with
    | nil =>
      rw [readItems]
      split <;> simp
    | cons item items =>
      rw [forall₂_cons, ← ih, readItems]
      split <;> simp_all

variable (fields : List (Text × Value))

private theorem readFields_ok (document : Document Text) : readFields fields = .ok document ↔
      List.Forall₂ (fun field item => field.1 = item.1 ∧ read field.2 = .ok item.2) fields document := by
  induction fields generalizing document with
  | nil => cases document <;> simp [readFields]
  | cons field fields ih =>
    cases document with
    | nil =>
      rw [readFields]
      split <;> simp
    | cons item document =>
      obtain ⟨key, inner⟩ := item
      rw [forall₂_cons, ← ih, readFields]
      split <;> simp_all [and_assoc]

private theorem i64Text_seconds (n : Int64) : i64Text n = LogDecoding.secondsText n.toInt := by
  have sign : n < 0 ↔ n.toInt < 0 := by rw [Int64.lt_iff_toInt_lt, Int64.toInt_zero]
  simp [i64Text, LogDecoding.secondsText, sign]

private theorem readWrapper_other :
    (∀ document, readWrapper fields ≠ .ok (.Document document)) ∧ ∀ items, readWrapper fields ≠ .ok (.Array items) := by
  unfold readWrapper
  split
  · rw [readLong]
    split <;> simp
  · split <;> simp
  · simp

private theorem read_number (n : Number) :
    (∀ items, read (.Number n) ≠ .ok (.Array items)) ∧ ∀ document, read (.Number n) ≠ .ok (.Document document) := by
  rw [read]
  split
  · split_ifs <;> simp
  · simp

private theorem read_array (values : List Value) (document : Document Text) : read (.Array values) ≠ .ok (.Document document) := by
  rw [read]
  split <;> simp

private theorem read_object (items : List (Bson Text)) : read (.Object fields) ≠ .ok (.Array items) := by
  rw [read]
  split_ifs
  · split <;> simp
  · exact (readWrapper_other fields).2 items

theorem stringCrate_documented : stringCrate.Documented where
  int32 _ := rfl
  int64 _ := rfl
  array items := congrArg Value.Array (relaxedItems_eq items)
  document fields := congrArg Value.Object (relaxedFields_eq fields)
  scope _ _ := rfl
  readsInt n := by
    have known := Value.asI64_ofI64 n
    unfold Value.ofI64 at known ⊢
    change read (.Number _) = _
    rw [read]
    simp only [Value.asI64] at known
    rw [known]
  readsLong n := by
    have number : GitLog.parseI64 (LogDecoding.secondsText n.toInt) = .ok n.toInt := LogDecoding.parseI64_secondsText n.le_toInt n.toInt_lt
    change read (.Object [("$numberLong", .String (i64Text n))]) = _
    rw [read, if_neg (by simp [WRAPPERS])]
    change readLong (i64Text n) = _
    rw [readLong, i64Text_seconds, number]
    change Except.ok (Bson.Int64 (Int64.ofInt n.toInt)) = _
    rw [Int64.ofInt_toInt]
  readsArray values items := by
    change read (.Array values) = _ ↔ List.Forall₂ (fun value item => read value = .ok item) values items
    rw [read, ← readItems_ok]
    split <;> simp_all
  readsObject fields document := by
    change read (.Object fields) = _ ↔ (∀ field ∈ fields, decide (field.1 ∈ WRAPPERS) = false) ∧
      List.Forall₂ (fun field item => field.1 = item.1 ∧ read field.2 = .ok item.2) fields document
    by_cases free : (fields.all fun field => field.1 ∉ WRAPPERS) = true
    · have each : ∀ field ∈ fields, decide (field.1 ∈ WRAPPERS) = false := by
        intro field mem
        exact decide_eq_false (of_decide_eq_true (all_eq_true.mp free field mem))
      rw [read, if_pos free, ← readFields_ok]
      cases known : readFields fields with
      | error e => simp
      | ok found => simpa using fun _ => each
    · rw [read, if_neg free]
      refine ⟨fun same => absurd same ((readWrapper_other fields).1 document), fun both => absurd ?_ free⟩
      exact all_eq_true.mpr fun field mem => decide_eq_true (of_decide_eq_false (both.1 field mem))
  readsScope code value fields := by
    change read (.Object [("$code", .String code), ("$scope", value)]) =
      .ok (.JavaScriptCodeWithScope code fields) ↔ read value = .ok (.Document fields)
    rw [read, if_neg (by simp [WRAPPERS])]
    rw [readWrapper]
    cases read value with
    | error e => simp
    | ok b => cases b <;> simp
  onlyArrays value items same := by
    cases value with
    | Array values => exact ⟨values, rfl⟩
    | Object fields => exact absurd same (read_object fields items)
    | Number n => exact absurd same ((read_number n).1 items)
    | Null | Bool _ | String _ => cases same
  onlyObjects value document same := by
    cases value with
    | Object fields => exact ⟨fields, rfl⟩
    | Array values => exact absurd same (read_array values document)
    | Number n => exact absurd same ((read_number n).2 document)
    | Null | Bool _ | String _ => cases same
  leaf _ := rfl

end Ramag.BsonRoundTrip
