import Ramag.BoundedJson
import Ramag.Timestamps
import Ramag.Uuids

/-!
The history of queries: one table under times and ids, with the number of its
records and their bytes kept beside it. Appending trims the oldest records
while there are too many or they are too large.
-/
namespace Ramag.QueryHistory
open Strings Domain BoundedJson OrderedTables Timestamps Uuids
open DataSyncGate (saturatingAdd)

def MAX_CONNECTION_NAME_BYTES : Nat := 256
def MAX_QUERY_HISTORY_SQL_BYTES : Nat := 1024 * 1024
def MAX_QUERY_HISTORY_ERROR_BYTES : Nat := 64 * 1024
def HISTORY_MAX_KEEP : Nat := 5000
def MAX_HISTORY_RECORD_JSON_BYTES : Nat := 8 * 1024 * 1024
def MAX_HISTORY_TOTAL_BYTES : Nat := 256 * 1024 * 1024
def MAX_HISTORY_MUTATION_SCAN_BYTES : Nat := 256 * 1024 * 1024
def HISTORY_DELETE_BATCH : Nat := 512

/-! ### Records -/

/-- A record. The details are what is only written and read back. -/
structure QueryRecord (δ : Type) where
  id : Uuid
  connectionId : Uuid
  connectionName : Text
  sql : Text
  sqlTruncated : Bool
  error : Option Text
  errorTruncated : Bool
  executedAt : Timestamp
  details : δ

/-- The value, cut to whole characters, and whether it was cut. -/
def truncateOwned (value : Text) (maxBytes : Nat) : Text × Bool :=
  if byteLen value ≤ maxBytes then (value, false) else (takeBytes maxBytes value, true)

def validateLen (label value : Text) (maxBytes : Nat) : Except Text Unit :=
  if byteLen value > maxBytes then
    .error (label ++ "过长：" ++ natText (byteLen value) ++ " bytes，最多 " ++ natText maxBytes ++ " bytes")
  else .ok ()

structure QueryHistoryPage (δ : Type) where
  records : List (QueryRecord δ)
  truncated : Bool

section
variable {δ : Type}

def QueryRecord.enforceLimits (record : QueryRecord δ) : QueryRecord δ :=
  let sql := truncateOwned record.sql MAX_QUERY_HISTORY_SQL_BYTES
  let error := record.error.map fun error => truncateOwned error MAX_QUERY_HISTORY_ERROR_BYTES
  { record with
    connectionName := (truncateOwned record.connectionName MAX_CONNECTION_NAME_BYTES).1
    sql := sql.1
    sqlTruncated := record.sqlTruncated || sql.2
    error := error.map (·.1)
    errorTruncated := record.errorTruncated || error.elim false (·.2) }

def QueryRecord.validate (record : QueryRecord δ) : Except Text Unit := do
  validateLen "历史连接名称" record.connectionName MAX_CONNECTION_NAME_BYTES
  validateLen "历史正文" record.sql MAX_QUERY_HISTORY_SQL_BYTES
  match record.error with
  | some error => validateLen "历史错误" error MAX_QUERY_HISTORY_ERROR_BYTES
  | none => .ok ()

def QueryRecord.inlinePayloadBytes (record : QueryRecord δ) : Nat :=
  saturatingAdd (saturatingAdd (byteLen record.connectionName) (byteLen record.sql)) (record.error.elim 0 byteLen)

/-- How records are written: as JSON, which is read back. -/
structure Codec (δ : Type) where
  toJson : QueryRecord δ → Text
  fromJson : Text → Except Text (QueryRecord δ)
  fromJson_toJson : ∀ record, fromJson (toJson record) = .ok record

variable (codec : Codec δ)

def storageErr (context error : Text) : DomainError := .Storage (context ++ "：" ++ error)

def decodeRecord (key value : Text) : Result (QueryRecord δ) := do
  ensureLen (byteLen value) MAX_HISTORY_RECORD_JSON_BYTES ("history 记录 " ++ key)
  let record ← (codec.fromJson value).mapError (storageErr ("反序列化 history 记录 " ++ key ++ " 失败"))
  let record := record.enforceLimits
  record.validate.mapError fun error => .Storage ("history 记录 " ++ key ++ " 无效：" ++ error)
  .ok record

def recordKey (record : QueryRecord δ) : Text := toRfc3339 record.executedAt ++ '_' :: record.id.text

/-- The records, and what the metadata say of them. -/
structure HistoryTables where
  table : Table Text Text
  recordCount : Option Nat
  valueBytes : Option Nat

structure HistoryStats where
  recordCount : Nat
  totalBytes : Nat

def sumValues (totalBytes : Nat) : List (Text × Text) → Result Nat
  | [] => .ok totalBytes
  | (key, value) :: entries => do
    ensureLen (byteLen value) MAX_HISTORY_RECORD_JSON_BYTES ("history 记录 " ++ key)
    if totalBytes + byteLen value ≥ 2 ^ 64 then .error (.Storage "history 总大小溢出")
    else sumValues (totalBytes + byteLen value) entries

def loadHistoryStats (store : HistoryTables) : Result HistoryStats :=
  let actualCount := store.table.entries.length
  match store.valueBytes with
  | some storedBytes =>
    if store.recordCount = some actualCount then .ok ⟨actualCount, storedBytes⟩
    else (sumValues 0 store.table.entries).map (⟨actualCount, ·⟩)
  | none => (sumValues 0 store.table.entries).map (⟨actualCount, ·⟩)

def persistHistoryStats (table : Table Text Text) (stats : HistoryStats) : HistoryTables :=
  ⟨table, some stats.recordCount, some stats.totalBytes⟩

def historyOverBudget (stats : HistoryStats) (maxRecords maxTotalBytes : Nat) : Bool :=
  decide (stats.recordCount > maxRecords) || decide (stats.totalBytes > maxTotalBytes)

def HistoryStats.without (stats : HistoryStats) (removedBytes : Nat) : HistoryStats :=
  ⟨stats.recordCount - 1, stats.totalBytes - removedBytes⟩

def collectFirstEntries (table : Table Text Text) (limit : Nat) : List (Text × Nat) :=
  (table.entries.take limit).map fun entry => (entry.1, byteLen entry.2)

/-- One round over the oldest entries, with whether any was removed. -/
def trimBatch (maxRecords maxTotalBytes : Nat) (table : Table Text Text) (stats : HistoryStats) (removedAny : Bool) :
    List (Text × Nat) → Result (Table Text Text × HistoryStats × Bool)
  | [] => .ok (table, stats, removedAny)
  | (oldestKey, expectedBytes) :: oldest =>
    if !historyOverBudget stats maxRecords maxTotalBytes then .ok (table, stats, removedAny)
    else
      match table.get oldestKey with
      | none => .error (.Storage "裁剪 history 时记录已消失")
      | some removed =>
        if byteLen removed ≠ expectedBytes then .error (.Storage "裁剪 history 时记录大小发生变化，事务已取消")
        else trimBatch maxRecords maxTotalBytes (table.remove oldestKey) (stats.without (byteLen removed)) true oldest

/-- The rounds. Every round removes an entry, so that there are none left when as many rounds as entries were made. -/
def trimHistory (maxRecords maxTotalBytes : Nat) (table : Table Text Text) (stats : HistoryStats) :
    Nat → Result (Table Text Text × HistoryStats)
  | 0 =>
    if historyOverBudget stats maxRecords maxTotalBytes then
      .error (.Storage "history 元数据与实际记录不一致，无法安全裁剪")
    else .ok (table, stats)
  | rounds + 1 =>
    if historyOverBudget stats maxRecords maxTotalBytes then
      let oldest := collectFirstEntries table HISTORY_DELETE_BATCH
      if oldest.isEmpty then .error (.Storage "history 元数据与实际记录不一致，无法安全裁剪")
      else do
        let (table, stats, removedAny) ← trimBatch maxRecords maxTotalBytes table stats false oldest
        if !removedAny then .error (.Storage "无法推进 history 裁剪")
        else trimHistory maxRecords maxTotalBytes table stats rounds
    else .ok (table, stats)

def appendWithBudget (record : QueryRecord δ) (maxRecords maxTotalBytes : Nat) (store : HistoryTables) :
    Result HistoryTables := do
  let record := record.enforceLimits
  record.validate.mapError fun error => .Storage ("history 记录无效：" ++ error)
  let key := recordKey record
  let value ← serialize (codec.toJson record) MAX_HISTORY_RECORD_JSON_BYTES "history 记录"
  let stats ← loadHistoryStats store
  let replacedBytes := (store.table.get key).map byteLen
  let table := store.table.insert key value
  let recordCount := if replacedBytes.isNone then stats.recordCount + 1 else stats.recordCount
  let totalBytes := stats.totalBytes - replacedBytes.getD 0 + byteLen value
  if recordCount ≥ 2 ^ 64 then .error (.Storage "history 数量溢出")
  else if totalBytes ≥ 2 ^ 64 then .error (.Storage "history 总大小溢出")
  else do
    let (table, stats) ← trimHistory maxRecords maxTotalBytes table ⟨recordCount, totalBytes⟩ table.entries.length
    .ok (persistHistoryStats table stats)

def append (record : QueryRecord δ) (store : HistoryTables) : Result HistoryTables :=
  appendWithBudget codec record HISTORY_MAX_KEEP MAX_HISTORY_TOTAL_BYTES store

/-- The loop of `list_bounded`, behind the records that were read. -/
def listLoop (connFilter : Option Uuid) (limit maxInlineBytes : Nat) (records : List (QueryRecord δ))
    (totalInlineBytes : Nat) : List (Text × Text) → Result (QueryHistoryPage δ)
  | [] => .ok ⟨records, false⟩
  | (key, value) :: entries => do
    let record ← decodeRecord codec key value
    if connFilter.any fun filterId => decide (record.connectionId ≠ filterId) then
      listLoop connFilter limit maxInlineBytes records totalInlineBytes entries
    else
      let nextTotal := saturatingAdd totalInlineBytes record.inlinePayloadBytes
      if decide (records.length ≥ limit) || (!records.isEmpty && decide (nextTotal > maxInlineBytes)) then .ok ⟨records, true⟩
      else listLoop connFilter limit maxInlineBytes (records ++ [record]) nextTotal entries

def listBounded (connFilter : Option Uuid) (limit maxInlineBytes : Nat) (store : HistoryTables) : Result (QueryHistoryPage δ) :=
  if limit = 0 || maxInlineBytes = 0 then .ok ⟨[], false⟩
  else listLoop codec connFilter limit maxInlineBytes [] 0 store.table.entries.reverse

def targetKey (table : Table Text Text) (id : Uuid) : Option Text :=
  (table.entries.find? fun entry => id.text.isSuffixOf entry.1).map (·.1)

def delete (id : Uuid) (store : HistoryTables) : Result HistoryTables := do
  let stats ← loadHistoryStats store
  match targetKey store.table id with
  | some key =>
    match store.table.get key with
    | some removed => .ok (persistHistoryStats (store.table.remove key) (stats.without (byteLen removed)))
    | none => .ok (persistHistoryStats (store.table.remove key) stats)
  | none => .ok (persistHistoryStats store.table stats)

/-- The entries of a connection, with their bytes. -/
def collectToRemove (target : Uuid) (scannedCount scannedBytes : Nat) (toRemove : List (Text × Nat)) :
    List (Text × Text) → Result (List (Text × Nat))
  | [] => .ok toRemove
  | (key, value) :: entries => do
    let (scannedCount, scannedBytes) ← (nextCollectionBudget scannedCount scannedBytes (byteLen value) HISTORY_MAX_KEEP
      MAX_HISTORY_MUTATION_SCAN_BYTES "查询历史").mapError fun error =>
        .Storage ("按连接清空前发现历史表异常：" ++ error.message ++ "；请使用全量清空恢复")
    let record ← decodeRecord codec key value
    collectToRemove target scannedCount scannedBytes
      (if record.connectionId = target then toRemove ++ [(key, byteLen value)] else toRemove) entries

def removeEach (table : Table Text Text) (stats : HistoryStats) : List (Text × Nat) → Result (Table Text Text × HistoryStats)
  | [] => .ok (table, stats)
  | (key, expectedBytes) :: toRemove =>
    match table.get key with
    | none => .error (.Storage "清空 history 时记录已消失")
    | some removed =>
      if byteLen removed ≠ expectedBytes then .error (.Storage "清空 history 时记录大小发生变化，事务已取消")
      else removeEach (table.remove key) (stats.without (byteLen removed)) toRemove

/-- Removes the first keys in batches until there are none; every batch removes one. -/
def removeBatches (table : Table Text Text) : Nat → Table Text Text
  | 0 => table
  | rounds + 1 =>
    let keys := table.keys.take HISTORY_DELETE_BATCH
    if keys.isEmpty then table else removeBatches (keys.foldl Table.remove table) rounds

def clear (connFilter : Option Uuid) (store : HistoryTables) : Result HistoryTables :=
  match connFilter with
  | some target => do
    let stats ← loadHistoryStats store
    let toRemove ← collectToRemove codec target 0 0 [] store.table.entries
    let (table, stats) ← removeEach store.table stats toRemove
    .ok (persistHistoryStats table stats)
  | none => .ok (persistHistoryStats (removeBatches store.table store.table.entries.length) ⟨0, 0⟩)

end

end Ramag.QueryHistory
