import Ramag.Domain
import Ramag.Json

/-!
The values of Redis keys and the JSON fragments in which an export file holds
them. A string describes itself; the elements of a collection carry their type,
with bytes in hex.
-/
namespace Ramag.RedisFragment
open Strings Domain Json

inductive RedisType
  | String
  | List
  | Hash
  | Set
  | ZSet
  | Stream
  | None

structure StreamEntry where
  id : Text
  fields : List (Text × Text)

inductive RedisValue
  | Nil
  | Text (text : Text)
  | Bytes (bytes : List UInt8)
  | Int (number : Int64)
  | Float (number : F64)
  | Bool (value : Bool)
  | List (members : List RedisValue)
  | Hash (pairs : List (Text × RedisValue))
  | Set (members : List RedisValue)
  | ZSet (pairs : List (RedisValue × F64))
  | Stream (entries : List StreamEntry)
  | Array (items : List RedisValue)

/-- A text of at most the given number of characters, with a mark where it was cut. -/
def truncate (s : Text) (maxLen : Nat) : Text := if s.length ≤ maxLen then s else s.take maxLen ++ "…"

def sanitizeInline (s : Text) : Text := s.map fun c => if c = '\n' ∨ c = '\r' then ' ' else c

/-- What the standard library and the hex codec do with a number or some bytes. -/
structure Formats where
  f64Text : F64 → Text
  hexEncode : List UInt8 → Text
  hexDecode : Text → Except Text (List UInt8)

def i64Text (n : Int64) : Text := if n < 0 then '-' :: natText n.toInt.natAbs else natText n.toInt.natAbs

section
variable (formats : Formats)

def displayPreview (maxLen : Nat) : RedisValue → Text
  | .Nil => "(nil)"
  | .Text s => sanitizeInline (truncate s maxLen)
  | .Bytes b => "[" ++ natText b.length ++ " bytes]"
  | .Int i => i64Text i
  | .Float f => formats.f64Text f
  | .Bool b => if b then "true" else "false"
  | .List v => "List(" ++ natText v.length ++ " elems)"
  | .Hash v => "Hash(" ++ natText v.length ++ " fields)"
  | .Set v => "Set(" ++ natText v.length ++ " elems)"
  | .ZSet v => "ZSet(" ++ natText v.length ++ " elems)"
  | .Stream v => "Stream(" ++ natText v.length ++ " entries)"
  | .Array v => "Array(" ++ natText v.length ++ " elems)"

def kindName : RedisType → Text
  | .String => "string"
  | .List => "list"
  | .Hash => "hash"
  | .Set => "set"
  | .ZSet => "zset"
  | .Stream => "stream"
  | .None => "none"

def encodeItem : RedisValue → Result Value
  | .Text text => .ok (.single "t" (.String text))
  | .Bytes bytes => .ok (.single "x" (.String (formats.hexEncode bytes)))
  | .Int number => .ok (.single "i" (.ofI64 number))
  | .Float number => .ok (.single "f" (.ofF64 number))
  | other => .error (.InvalidConfig ("成员类型无法导出：" ++ displayPreview formats 32 other))

def encodeHashPair (pair : Text × RedisValue) : Result Value := do
  let value ← encodeItem formats pair.2
  .ok (.Array [.String pair.1, value])

def encodeZsetPair (pair : RedisValue × F64) : Result Value := do
  let member ← encodeItem formats pair.1
  .ok (.Array [member, .ofF64 pair.2])

def encodeStreamEntry (entry : StreamEntry) : Value :=
  .Object [("id", .String entry.id), ("fields", .Array (entry.fields.map fun field => .Array [.String field.1, .String field.2]))]

/-- The fragment of a value, with the number of its elements. -/
def encodeFragment : RedisValue → Result (Value × Nat)
  | .Text text => .ok (.single "text" (.String text), 1)
  | .Bytes bytes => .ok (.single "hex" (.String (formats.hexEncode bytes)), 1)
  | .List members | .Set members => do
    let encoded ← members.mapM (encodeItem formats)
    .ok (.Array encoded, encoded.length)
  | .Hash pairs => do
    let encoded ← pairs.mapM (encodeHashPair formats)
    .ok (.Array encoded, encoded.length)
  | .ZSet pairs => do
    let encoded ← pairs.mapM (encodeZsetPair formats)
    .ok (.Array encoded, encoded.length)
  | .Stream entries =>
    let encoded := entries.map encodeStreamEntry
    .ok (.Array encoded, encoded.length)
  | .Nil => .ok (.Null, 0)
  | other => .error (.InvalidConfig ("值类型无法导出：" ++ displayPreview formats 32 other))

/-! ### Decoding -/

def invalidConfig {α : Type} (message : Text) : Option α → Result α
  | some value => .ok value
  | none => .error (.InvalidConfig message)

def decodeHex (text : Text) : Result (List UInt8) :=
  (formats.hexDecode text).mapError fun error => .InvalidConfig ("hex 解码失败：" ++ error)

def decodeItem (value : Value) : Result RedisValue := do
  let object ← invalidConfig "成员必须是对象" value.asObject
  match (object.lookup "t".toList).bind Value.asStr with
  | some text => .ok (.Text text)
  | none =>
  match (object.lookup "x".toList).bind Value.asStr with
  | some hexText => do
    let bytes ← decodeHex formats hexText
    .ok (.Bytes bytes)
  | none =>
  match (object.lookup "i".toList).bind Value.asI64 with
  | some number => .ok (.Int number)
  | none =>
  match (object.lookup "f".toList).bind Value.asF64 with
  | some number => .ok (.Float number)
  | none => .error (.InvalidConfig "成员编码无法识别")

/-- The two values of an array of length two. -/
def asPair (value : Value) : Option (Value × Value) :=
  match value.asArray with
  | some [first, second] => some (first, second)
  | _ => none

def decodeHashPair (value : Value) : Result (Text × RedisValue) := do
  let (first, second) ← invalidConfig "hash 片段格式异常" (asPair value)
  let field ← invalidConfig "hash field 必须是字符串" first.asStr
  let member ← decodeItem formats second
  .ok (field, member)

def decodeZsetPair (value : Value) : Result (RedisValue × F64) := do
  let (first, second) ← invalidConfig "zset 片段格式异常" (asPair value)
  let score ← invalidConfig "zset score 必须是数字" second.asF64
  let member ← decodeItem formats first
  .ok (member, score)

def decodeStreamField (value : Value) : Result (Text × Text) := do
  let (first, second) ← invalidConfig "stream field 格式异常" (asPair value)
  match first.asStr, second.asStr with
  | some field, some text => .ok (field, text)
  | _, _ => .error (.InvalidConfig "stream field 必须是字符串")

def decodeStreamEntry (entry : Value) : Result StreamEntry := do
  let id ← invalidConfig "stream entry 缺少 id" ((entry.get "id").bind Value.asStr)
  let fields ← invalidConfig "stream entry 缺少 fields" ((entry.get "fields").bind Value.asArray)
  let fields ← fields.mapM decodeStreamField
  .ok ⟨id, fields⟩

/-- The value of a fragment; a string describes itself, a collection needs the kind of its key. -/
def decodeFragment (kind : Option Text) (fragment : Value) : Result RedisValue :=
  match fragment.asObject with
  | some object =>
    match (object.lookup "text".toList).bind Value.asStr with
    | some text => .ok (.Text text)
    | none =>
    match (object.lookup "hex".toList).bind Value.asStr with
    | some hexText => do
      let bytes ← decodeHex formats hexText
      .ok (.Bytes bytes)
    | none => .error (.InvalidConfig "string 片段格式异常")
  | none => do
    let array ← invalidConfig "值片段必须是对象或数组" fragment.asArray
    let kind ← invalidConfig "集合片段缺少类型信息" kind
    if kind = "list" then do
      let members ← array.mapM (decodeItem formats)
      .ok (.List members)
    else if kind = "set" then do
      let members ← array.mapM (decodeItem formats)
      .ok (.Set members)
    else if kind = "hash" then do
      let pairs ← array.mapM (decodeHashPair formats)
      .ok (.Hash pairs)
    else if kind = "zset" then do
      let pairs ← array.mapM (decodeZsetPair formats)
      .ok (.ZSet pairs)
    else if kind = "stream" then do
      let entries ← array.mapM decodeStreamEntry
      .ok (.Stream entries)
    else .error (.InvalidConfig ("未知值类型：" ++ kind))

end

end Ramag.RedisFragment
