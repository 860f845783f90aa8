import Ramag.Sql

/-!
The importer of SQL files: lines are read into segments, a statement that is
complete is queued, and the queued statements are executed in chunks. Every
function returns the state it leaves behind, also when it stops with an error;
the queries that were executed are kept in the order in which they were sent.
-/
namespace Ramag.SqlImport
open Strings Domain Sql

def CHUNK_FLUSH_BYTES : Nat := TRANSFER_BATCH_BYTES
def CHUNK_FLUSH_STMTS : Nat := TRANSFER_BATCH_ITEMS
def MAX_LINE_BYTES : Nat := TRANSFER_BATCH_BYTES
def MAX_TRANSFER_WARNINGS : Nat := 100

def MYSQL_IMPORT_PREFIX : Text := "SET FOREIGN_KEY_CHECKS=0;\n"

inductive ConflictPolicy
  | Skip
  | Merge
  | Overwrite
  | Fail
  deriving DecidableEq

inductive SegmentKind
  | Header
  | Types
  | SequencesPre
  | Table
  | Data
  | Fk
  | Index
  | Sequences
  | View
  | Generic
  deriving DecidableEq

/-- The structure segments that may be skipped because their objects exist. -/
def SegmentKind.toleratesErrors : SegmentKind → Bool
  | .Types | .SequencesPre | .Fk | .Index | .Sequences => true
  | _ => false

def SegmentKind.label : SegmentKind → Text
  | .Header => "库结构"
  | .Types => "枚举类型"
  | .SequencesPre => "序列"
  | .Table => "表结构"
  | .Data => "表数据"
  | .Fk => "外键"
  | .Index => "索引"
  | .Sequences => "序列值"
  | .View => "视图"
  | .Generic => "SQL 语句"

structure Segment where
  kind : SegmentKind
  name : Text
  buffer : Text := []
  pendingStatement : Text := []
  stmtLines : Nat := 0
  skip : Bool := false
  failed : Bool := false

structure TransferSummary where
  objects : Nat := 0
  items : Nat := 0
  skipped : Nat := 0
  failed : Nat := 0
  cancelled : Bool := false
  warnings : List Text := []
  warningsOverflow : Nat := 0

def TransferSummary.pushWarning (summary : TransferSummary) (warning : Text) : TransferSummary :=
  if summary.warnings.length < MAX_TRANSFER_WARNINGS then { summary with warnings := summary.warnings ++ [warning] }
  else { summary with warningsOverflow := summary.warningsOverflow + 1 }

/-- The connection: what it answers may depend on every query before. -/
structure Service where
  execute : List Query → Query → Result Nat
  listSchemas : List Query → Result (List Text)
  listTables : List Query → Text → Result (List (Text × Bool))

/-- The variables of the import; `calls` are the executed queries. -/
structure Importer where
  segment : Segment := { kind := .Generic, name := [] }
  summary : TransferSummary := {}
  calls : List Query := []
  schema : Option Text := none
  existing : List (Text × Bool) := []
  skippedObjects : List Text := []
  headerEngine : Option Text := none
  headerDatabase : Option Text := none
  expectedTableSeen : Bool := false

abbrev Outcome := Except (DomainError × Importer) Importer

/-- The state that a step leaves behind. -/
def Outcome.state : Outcome → Importer
  | .ok state => state
  | .error (_, state) => state

/-! ### Chunks -/

def sqlChunkPayloadLimit (driver : DriverKind) : Nat :=
  if driver = .Mysql then CHUNK_FLUSH_BYTES - byteLen MYSQL_IMPORT_PREFIX else CHUNK_FLUSH_BYTES

/-- The query of a chunk: MySQL turns the checks of foreign keys off first. -/
def chunkQuery (driver : DriverKind) (schema : Option Text) (sql : Text) : Query :=
  { sql := if driver = .Mysql then MYSQL_IMPORT_PREFIX ++ sql else sql, defaultSchema := schema }

variable (svc : Service)

def runChunk (driver : DriverKind) (schema : Option Text) (sql : Text) (state : Importer) : Result Nat × Importer :=
  let query := chunkQuery driver schema sql
  (svc.execute state.calls query, { state with calls := state.calls ++ [query] })

/-- The header creates its own database and must not switch to it before. -/
def schemaForCall (state : Importer) : Option Text := if state.segment.kind = .Header then none else state.schema

def oversizedStatement : DomainError :=
  .InvalidConfig ("单条 SQL 超过 " ++ natText (CHUNK_FLUSH_BYTES / 1024 / 1024) ++ " MiB 安全上限，无法导入；请先拆分该语句")

def importFailed (segment : Segment) (error : DomainError) : Text :=
  "导入" ++ segment.kind.label ++ "「" ++ segment.name ++ "」失败：" ++ error.message

def flushSegment (driver : DriverKind) (policy : ConflictPolicy) (state : Importer) : Outcome :=
  let segment := state.segment
  let cleared := { state with segment := { segment with buffer := [], stmtLines := 0 } }
  if segment.skip || segment.failed || (trim segment.buffer).isEmpty then .ok cleared
  else
    match runChunk svc driver (schemaForCall state) segment.buffer cleared with
    | (.ok affected, next) => .ok { next with summary := { next.summary with items := next.summary.items + affected } }
    | (.error error, next) =>
      if policy = .Fail then .error (.QueryFailed (importFailed segment error), next)
      else if segment.kind.toleratesErrors then
        .ok { next with summary :=
          next.summary.pushWarning (segment.kind.label ++ "语句被跳过：" ++ error.message) }
      else
        .ok { next with
          segment := { next.segment with failed := true }
          summary := { next.summary with failed := next.summary.failed + 1 }.pushWarning (importFailed segment error) }

def pushStatement (driver : DriverKind) (policy : ConflictPolicy) (statement : Text) (state : Importer) : Outcome :=
  let state := { state with segment := { state.segment with
    buffer := state.segment.buffer ++ statement
    stmtLines := state.segment.stmtLines + 1 } }
  if state.segment.stmtLines ≥ CHUNK_FLUSH_STMTS || byteLen state.segment.buffer ≥ sqlChunkPayloadLimit driver then
    flushSegment svc driver policy state
  else .ok state

/-- Queues a complete statement; the chunk at hand is executed first when the
    statement does not fit any more. -/
def queueStatement (driver : DriverKind) (policy : ConflictPolicy) (statement : Text) (state : Importer) : Outcome :=
  if (trim statement).isEmpty || state.segment.skip || state.segment.failed then .ok state
  else if byteLen statement > sqlChunkPayloadLimit driver then .error (oversizedStatement, state)
  else do
    let prospective := byteLen state.segment.buffer + byteLen statement
    let state ←
      if !state.segment.buffer.isEmpty &&
          (state.segment.stmtLines ≥ CHUNK_FLUSH_STMTS || prospective > sqlChunkPayloadLimit driver) then
        flushSegment svc driver policy state
      else .ok state
    if state.segment.failed then .ok state else pushStatement svc driver policy statement state

end Ramag.SqlImport
