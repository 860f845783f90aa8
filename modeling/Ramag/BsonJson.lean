import Ramag.RedisFragment

/-!
BSON values and their JSON representation: relaxed Extended JSON, with every
64-bit integer outside of code scopes in a wrapper of its own. What the `bson`
crate does with a value is a parameter.
-/
namespace Ramag.BsonJson
open Strings Domain Json RedisFragment

/-- A BSON value. The types that the conversions only hand to the crate (strings,
    doubles, object ids, dates and so on) are the leaves. -/
inductive Bson (Leaf : Type)
  | Int32 (n : Int32)
  | Int64 (n : Int64)
  | Array (items : List (Bson Leaf))
  | Document (fields : List (Text × Bson Leaf))
  | JavaScriptCodeWithScope (code : Text) (scope : List (Text × Bson Leaf))
  | Leaf (leaf : Leaf)

abbrev Document (Leaf : Type) := List (Text × Bson Leaf)

def fitsInt32 (n : Int64) : Bool := -(2 ^ 31) ≤ n.toInt && n.toInt < 2 ^ 31

/-- The conversions of the crate, and the keys that its reader takes for the
    wrappers of Extended JSON. -/
structure Crate (Leaf : Type) where
  reserved : Text → Bool
  intoRelaxedExtjson : Bson Leaf → Value
  fromValue : Value → Except Text (Bson Leaf)

/-- What the crate documents about its relaxed Extended JSON and its reader. -/
structure Crate.Documented {Leaf : Type} (crate : Crate Leaf) : Prop where
  int32 : ∀ n, crate.intoRelaxedExtjson (.Int32 n) = .ofI64 n.toInt64
  int64 : ∀ n, crate.intoRelaxedExtjson (.Int64 n) = .ofI64 n
  array : ∀ items, crate.intoRelaxedExtjson (.Array items) = .Array (items.map crate.intoRelaxedExtjson)
  document : ∀ fields, crate.intoRelaxedExtjson (.Document fields) =
    .Object (fields.map fun field => (field.1, crate.intoRelaxedExtjson field.2))
  scope : ∀ code fields, crate.intoRelaxedExtjson (.JavaScriptCodeWithScope code fields) =
    .Object [("$code", .String code), ("$scope", crate.intoRelaxedExtjson (.Document fields))]
  readsInt : ∀ n, crate.fromValue (.ofI64 n) = .ok (if fitsInt32 n then .Int32 n.toInt32 else .Int64 n)
  readsLong : ∀ n, crate.fromValue (.single "$numberLong" (.String (i64Text n))) = .ok (.Int64 n)
  readsArray : ∀ values items, crate.fromValue (.Array values) = .ok (.Array items) ↔
    List.Forall₂ (fun value item => crate.fromValue value = .ok item) values items
  /-- An object becomes a document only when none of its keys is reserved. -/
  readsObject : ∀ fields document, crate.fromValue (.Object fields) = .ok (.Document document) ↔
    (∀ field ∈ fields, crate.reserved field.1 = false) ∧
      List.Forall₂ (fun field item => field.1 = item.1 ∧ crate.fromValue field.2 = .ok item.2) fields document
  readsScope : ∀ code value fields, crate.fromValue (.Object [("$code", .String code), ("$scope", value)]) =
      .ok (.JavaScriptCodeWithScope code fields) ↔ crate.fromValue value = .ok (.Document fields)
  onlyArrays : ∀ value items, crate.fromValue value = .ok (.Array items) → ∃ values, value = .Array values
  onlyObjects : ∀ value document, crate.fromValue value = .ok (.Document document) → ∃ fields, value = .Object fields
  leaf : ∀ leaf, crate.fromValue (crate.intoRelaxedExtjson (.Leaf leaf)) = .ok (.Leaf leaf)

section
variable {Leaf : Type} (crate : Crate Leaf)

mutual
def bsonToJsonInt64Safe : Bson Leaf → Value
  | .Int64 n => .single "$numberLong" (.String (i64Text n))
  | .Document fields => .Object (fieldsToJson fields)
  | .Array items => .Array (itemsToJson items)
  | .Int32 n => crate.intoRelaxedExtjson (.Int32 n)
  | .JavaScriptCodeWithScope code scope => crate.intoRelaxedExtjson (.JavaScriptCodeWithScope code scope)
  | .Leaf leaf => crate.intoRelaxedExtjson (.Leaf leaf)

def itemsToJson : List (Bson Leaf) → List Value
  | [] => []
  | item :: items => bsonToJsonInt64Safe item :: itemsToJson items

def fieldsToJson : Document Leaf → List (Text × Value)
  | [] => []
  | (key, value) :: fields => (key, bsonToJsonInt64Safe value) :: fieldsToJson fields
end

def documentToJson (document : Document Leaf) : Value := bsonToJsonInt64Safe crate (.Document document)

def jsonToBson (value : Value) : Result (Bson Leaf) :=
  match crate.fromValue value with
  | .ok bson => .ok bson
  | .error e => .error (.InvalidConfig ("JSON 解析 BSON 失败：" ++ e))

/-- `shown` is the crate's debug text of a value that is no document. -/
def jsonToDocument (shown : Bson Leaf → Text) (value : Value) : Result (Document Leaf) :=
  match jsonToBson crate value with
  | .error error => .error error
  | .ok (.Document document) => .ok document
  | .ok other => .error (.InvalidConfig ("期望 JSON 对象，实际：" ++ shown other))

end

end Ramag.BsonJson
