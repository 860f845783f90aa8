import Ramag.BoundedJson
import Ramag.Uuids
import Mathlib.Data.List.Sort

/-!
The history of API requests: one table for all workspaces, with the encrypted
records under the ids of workspace and record. Appending reads the records of
the workspace, drops its oldest ones over the limits and writes the new record.
-/
namespace Ramag.ApiHistory
open Strings Domain BoundedJson OrderedTables Uuids

def MAX_API_REQUEST_NAME_BYTES : Nat := 256
def MAX_API_ASSERTIONS : Nat := 64
def MAX_API_ERROR_BYTES : Nat := 64 * 1024
def MAX_API_HISTORY_BODY_BYTES : Nat := 16 * 1024
def MAX_API_HISTORY : Nat := 200
def MAX_API_HISTORY_LIST_BYTES : Nat := 16 * 1024 * 1024
def MAX_API_HISTORY_RECORD_BYTES : Nat := 128 * 1024

/-- A record. The details are what is only written and read back; the time is in nanoseconds since 1970. -/
structure ApiHistoryRecord (δ : Type) where
  id : Uuid
  requestName : Text
  assertionCount : Nat
  assertionFailed : Nat
  error : Option Text
  bodyPreview : Text
  createdAt : Int
  details : δ

def validateText (label value : Text) (maxBytes : Nat) (singleLine : Bool) : Except Text Unit :=
  if byteLen value > maxBytes then .error (label ++ "超过 " ++ natText maxBytes ++ " bytes 上限")
  else if singleLine && value.any (fun c => c = '\r' || c = '\n') then .error (label ++ "不能包含换行")
  else if value.any (fun c => isControl c && (singleLine || !(c = '\r' || c = '\n'))) then
    .error (label ++ "包含不允许的控制字符")
  else .ok ()

/-- How a domain error is shown. -/
def displayError : DomainError → Text
  | .InvalidConfig m => "配置无效: " ++ m
  | .Forbidden m => m
  | .QueryFailed m => "查询执行失败: " ++ m
  | .Storage m => "存储错误: " ++ m
  | .NotFound m => "未找到: " ++ m
  | .Other m => "未知错误: " ++ m

section
variable {δ : Type}

def ApiHistoryRecord.validate (record : ApiHistoryRecord δ) : Except Text Unit := do
  if (trim record.requestName).isEmpty || decide (byteLen record.requestName > MAX_API_REQUEST_NAME_BYTES) then
    .error "API 历史请求名称无效"
  else if record.assertionCount > MAX_API_ASSERTIONS || record.assertionFailed > record.assertionCount then
    .error "API 历史断言统计无效"
  else
    validateText "API 历史正文摘要" record.bodyPreview MAX_API_HISTORY_BODY_BYTES false
    match record.error with
    | some error => validateText "API 历史错误摘要" error MAX_API_ERROR_BYTES false
    | none => .ok ()

/-- How records are written: as JSON, which is read back, and encrypted under a nonce as 28 bytes more in
    hexadecimal digits. -/
structure Codec (δ : Type) where
  toJson : ApiHistoryRecord δ → Text
  fromJson : Text → Except Text (ApiHistoryRecord δ)
  encrypt : List UInt8 → Text → Result Text
  decrypt : Text → Result Text
  fromJson_toJson : ∀ record, fromJson (toJson record) = .ok record
  decrypt_encrypt : ∀ {nonce plain sealed}, encrypt nonce plain = .ok sealed → decrypt sealed = .ok plain
  encrypt_length : ∀ {nonce plain sealed}, encrypt nonce plain = .ok sealed → byteLen sealed = (byteLen plain + 28) * 2

variable (codec : Codec δ)

def key (workspaceId : Uuid) (record : ApiHistoryRecord δ) : Text := workspaceId.text ++ ':' :: record.id.text

/-- `prefix` -/
def recordPrefix (workspaceId : Uuid) : Text := workspaceId.text ++ [':']

def encode (nonce : List UInt8) (record : ApiHistoryRecord δ) : Result Text := do
  record.validate.mapError .InvalidConfig
  let json ← serialize (codec.toJson record) MAX_API_HISTORY_RECORD_BYTES "API 历史"
  codec.encrypt nonce json

def decode (key value : Text) : Result (ApiHistoryRecord δ) := do
  ensureLen (byteLen value) (MAX_API_HISTORY_RECORD_BYTES * 2 + 64) ("API 历史 " ++ key)
  let json ← (codec.decrypt value).mapError fun error => .Storage ("解密 API 历史失败：" ++ displayError error)
  let record ← (codec.fromJson json).mapError fun error => .Storage ("反序列化 API 历史失败：" ++ error)
  record.validate.mapError fun error => .Storage ("API 历史无效：" ++ error)
  .ok record

/-- The entries of a workspace, in the order of their keys. -/
def workspaceEntries (table : Table Text Text) (workspaceId : Uuid) : List (Text × Text) :=
  table.entries.filter fun entry => decide (recordPrefix workspaceId <+: entry.1)

/-- What `append` looks at of a record: its key, its bytes and its time. -/
structure HistoryEntry where
  key : Text
  bytes : Nat
  createdAt : Int
  deriving DecidableEq

def readEntry (entry : Text × Text) : Result HistoryEntry :=
  (decode codec entry.1 entry.2).map fun history => ⟨entry.1, byteLen entry.2, history.createdAt⟩

def totalBytes (entries : List HistoryEntry) : Nat := (entries.map HistoryEntry.bytes).sum

/-- The loop that drops the oldest entries while they are over the limits: the keys it removes. -/
def removeKeys (total : Nat) : List HistoryEntry → List Text
  | [] => []
  | entry :: entries =>
    if (entry :: entries).length > MAX_API_HISTORY ∨ total > MAX_API_HISTORY_LIST_BYTES then
      entry.key :: removeKeys (total - entry.bytes) entries
    else []

def append (workspaceId : Uuid) (nonce : List UInt8) (record : ApiHistoryRecord δ) (table : Table Text Text) :
    Result (Table Text Text) := do
  let value ← encode codec nonce record
  let recordKey := key workspaceId record
  let entries ← (workspaceEntries table workspaceId).mapM (readEntry codec)
  let entries := entries.filter (fun entry => entry.key ≠ recordKey) ++ [⟨recordKey, byteLen value, record.createdAt⟩]
  let entries := entries.insertionSort fun left right => left.createdAt ≤ right.createdAt
  let table := (removeKeys (totalBytes entries) entries).foldl Table.remove table
  .ok (table.insert recordKey value)

/-- The loop of `list`, behind the records that were read. -/
def listEntries (records : List (ApiHistoryRecord δ)) (retainedBytes : Nat) : List (Text × Text) → Result (List (ApiHistoryRecord δ))
  | [] => .ok records
  | (storedKey, storedValue) :: entries => do
    let (_, nextBytes) ← nextCollectionBudget records.length retainedBytes (byteLen storedValue) MAX_API_HISTORY
      MAX_API_HISTORY_LIST_BYTES "API 历史列表"
    let record ← decode codec storedKey storedValue
    listEntries (records ++ [record]) nextBytes entries

/-- `list`: the latest records of a workspace. -/
def list (workspaceId : Uuid) (limit : Nat) (table : Table Text Text) : Result (List (ApiHistoryRecord δ)) :=
  let limit := min limit MAX_API_HISTORY
  if limit = 0 then .ok []
  else do
    let records ← listEntries codec [] 0 (workspaceEntries table workspaceId)
    .ok ((records.insertionSort fun left right => right.createdAt ≤ left.createdAt).take limit)

def clear (workspaceId : Uuid) (table : Table Text Text) : Table Text Text :=
  ((workspaceEntries table workspaceId).map (·.1)).foldl Table.remove table

end

end Ramag.ApiHistory
