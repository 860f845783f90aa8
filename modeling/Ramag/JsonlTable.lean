import Mathlib
import Ramag.Json
import Ramag.Programs
import Ramag.SqlImport
import Ramag.SqlLiteral

/-!
The importer of a table from JSON lines. Every line that is an object with a
column of the table becomes a row; rows of the same columns are collected and
sent in one INSERT. The JSON reader and the database are a `Service`.
-/
namespace Ramag.JsonlTable
open Strings Domain Json Programs
open SqlImport (ConflictPolicy TransferSummary)
open SqlLiteral (joinWith)

def BATCH_ROWS : Nat := TRANSFER_BATCH_ITEMS
def BATCH_BYTES : Nat := TRANSFER_BATCH_BYTES
def MAX_LINE_BYTES : Nat := TRANSFER_BATCH_BYTES
def MAX_UNKNOWN_KEYS_LISTED : Nat := 8

/-- The database, whose answers may depend on every query before, and the
    reader and writer of JSON. -/
structure Service where
  listColumns : Result (List Text)
  execute : List Query → Query → Result Nat
  parse : Text → Except Text Value
  numberText : Number → Text
  jsonText : Value → Text

/-- What is imported into, and how. -/
structure Request where
  driver : DriverKind
  production : Bool
  schema : Text
  table : Text
  policy : ConflictPolicy

/-- The variables of the import; `calls` are the queries that were executed. -/
structure Importer where
  calls : List Query := []
  summary : TransferSummary := { objects := 1 }
  unknownKeys : List Text := []
  columns : List Text := []
  rows : List Text := []
  bytes : Nat := 0
  firstLine : Nat := 0

abbrev Import (α : Type) := Prog Importer DomainError α

variable (driver : DriverKind)

def quoteString (text : Text) : Text :=
  '\'' :: (text.flatMap fun c =>
    if c = '\'' then ['\'', '\''] else if c = '\\' ∧ driver = .Mysql then ['\\', '\\'] else [c]) ++ ['\'']

def quoteIdent (ident : Text) : Text :=
  if driver = .Mysql then quoted '`' ident else quoted '"' ident

def qualifiedTable (schema table : Text) : Text :=
  quoteIdent driver schema ++ '.' :: quoteIdent driver table

section
variable (svc : Service) (request : Request)

def sqlLiteral : Value → Text
  | .Null => "NULL"
  | .Bool true => "TRUE"
  | .Bool false => "FALSE"
  | .Number number => svc.numberText number
  | .String text => quoteString request.driver text
  | nested => quoteString request.driver (svc.jsonText nested)

def renderRow (columns : List Text) (object : List (Text × Value)) : Text :=
  '(' :: joinWith ", " (columns.map fun name =>
    match object.lookup name with
    | some value => sqlLiteral svc request value
    | none => "NULL") ++ [')']

/-- `Skip` and `Merge` leave rows out that the database refuses as duplicates. -/
def dedupe : Bool := request.policy = .Skip || request.policy = .Merge

def buildInsertSql (columns rows : List Text) : Text :=
  (if dedupe request && request.driver = .Mysql then "INSERT IGNORE INTO".toList else "INSERT INTO".toList) ++
    ' ' :: qualifiedTable request.driver request.schema request.table ++ " (".toList ++
    joinWith ", ".toList (columns.map (quoteIdent request.driver)) ++ ") VALUES\n".toList ++
    joinWith ",\n".toList rows ++
    (if dedupe request && (request.driver = .Postgres || request.driver = .Sqlite) then "\nON CONFLICT DO NOTHING".toList
      else [])

def insertQuery (columns rows : List Text) : Query :=
  { sql := buildInsertSql request columns rows, defaultSchema := some request.schema }

def deleteQuery : Query :=
  { sql := "DELETE FROM " ++ qualifiedTable request.driver request.schema request.table
    defaultSchema := some request.schema }

/-- The pending rows become a query. -/
def takeRows (s : Importer) : Importer :=
  { s with rows := [], calls := s.calls ++ [insertQuery request s.columns s.rows] }

def countAffected (rows affected : Nat) (s : Importer) : Importer :=
  { s with
    summary := { s.summary with
      items := s.summary.items + affected
      skipped := s.summary.skipped + if dedupe request then rows - affected else 0 } }

def countRefused (firstLine rows : Nat) (error : DomainError) (s : Importer) : Importer :=
  { s with
    summary := { s.summary with failed := s.summary.failed + rows }.pushWarning
      ("自第 " ++ natText firstLine ++ " 行起的 " ++ natText rows ++ " 行批次执行失败：" ++
        error.message) }

/-- The pending rows are sent; a refused batch is a warning, unless the policy is `Fail`. -/
def flushBatch : Import Unit := do
  let s ← Prog.get
  if s.rows = [] then pure ()
  else do
    Prog.modify (takeRows request)
    match svc.execute s.calls (insertQuery request s.columns s.rows) with
    | .ok affected => Prog.modify (countAffected request s.rows.length affected)
    | .error error =>
      if request.policy = .Fail then Prog.fail error
      else Prog.modify (countRefused s.firstLine s.rows.length error)

def closeBatch : Import Unit := do
  flushBatch svc request
  Prog.modify fun s => { s with bytes := 0 }

/-- The bytes of the pending statement with one row more. -/
def nextBytes (s : Importer) (single : Nat) (tuple : Text) : Nat :=
  if s.rows = [] then single else s.bytes + 2 + byteLen tuple

/-- Rows of other columns are sent first. -/
def closeOther (present : List Text) : Import Unit := do
  let s ← Prog.get
  if present ≠ s.columns ∧ s.rows ≠ [] then closeBatch svc request else pure ()

def openBatch (present : List Text) (lineNo : Nat) : Import Unit :=
  Prog.modify fun s => if s.rows = [] then { s with columns := present, firstLine := lineNo } else s

/-- The pending rows are sent when the next row does not fit. -/
def makeRoom (lineNo single : Nat) (tuple : Text) : Import Unit := do
  let s ← Prog.get
  if s.rows ≠ [] ∧ (s.rows.length ≥ BATCH_ROWS ∨ nextBytes s single tuple > BATCH_BYTES) then do
    closeBatch svc request
    Prog.modify fun s => { s with firstLine := lineNo }
  else pure ()

def addRow (single : Nat) (tuple : Text) : Import Unit :=
  Prog.modify fun s => { s with bytes := nextBytes s single tuple, rows := s.rows ++ [tuple] }

def closeFull : Import Unit := do
  let s ← Prog.get
  if s.rows.length ≥ BATCH_ROWS then closeBatch svc request else pure ()

/-! ### Lines -/

def oversizedRow (lineNo : Nat) : DomainError :=
  .InvalidConfig ("第 " ++ natText lineNo ++ " 行生成的单条 SQL 超过 " ++ natText (BATCH_BYTES / 1024 / 1024) ++ " MiB，无法导入")

def importRow (lineNo : Nat) (present : List Text) (object : List (Text × Value)) : Import Unit := do
  closeOther svc request present
  openBatch present lineNo
  let s ← Prog.get
  let tuple := renderRow svc request s.columns object
  let single := byteLen (buildInsertSql request s.columns [tuple])
  if single > BATCH_BYTES then
    Prog.fail (oversizedRow lineNo)
  else do
    makeRoom svc request lineNo single tuple
    addRow single tuple
    closeFull svc request

/-- The columns of the table that an object has, in the order of the table. -/
def presentColumns (columnNames : List Text) (object : List (Text × Value)) : List Text :=
  columnNames.filter fun name => (object.lookup name).isSome

/-- The keys of an object that are no columns, added to those that were seen. -/
def collectUnknown (columnNames : List Text) (object : List (Text × Value)) (unknownKeys : List Text) : List Text :=
  object.foldl (fun keys field =>
    if field.1 ∈ columnNames ∨ field.1 ∈ keys then keys else keys.orderedInsert (· ≤ ·) field.1) unknownKeys

def reject (lineNo : Nat) (reason : Text) : Import Unit :=
  Prog.modify fun s =>
    { s with
      summary := { s.summary with failed := s.summary.failed + 1 }.pushWarning
        ("第 " ++ natText lineNo ++ " 行" ++ reason) }

def importLine (columnNames : List Text) (lineNo : Nat) (line : Text) : Import Unit :=
  if trim line = [] then pure ()
  else match svc.parse (trim line) with
    | .error error => reject lineNo (" JSON 解析失败：" ++ error)
    | .ok parsed =>
      match parsed.asObject with
      | none => reject lineNo "不是 JSON 对象，已跳过"
      | some object => do
        Prog.modify fun s => { s with unknownKeys := collectUnknown columnNames object s.unknownKeys }
        if presentColumns columnNames object = [] then reject lineNo "没有任何键匹配表列"
        else importRow svc request lineNo (presentColumns columnNames object) object

/-- A line that was read, unless it is too long. -/
def boundedLine (line : Text) : Result Text :=
  if byteLen line > MAX_LINE_BYTES then
    .error (.InvalidConfig ("导入文件单行超过 " ++ natText (MAX_LINE_BYTES / 1024 / 1024) ++ " MiB 安全上限，疑似损坏"))
  else .ok line

/-- The lines as they are read, from the given line number on. `cancelled` tells
    what the flag shows at a line. -/
def importLines (columnNames : List Text) (cancelled : Nat → Bool) : List (Result Text) → Nat → Import Unit
  | [], _ => pure ()
  | read :: rest, lineNo => do
    let line ← Prog.lift (read >>= boundedLine)
    if cancelled lineNo then Prog.modify fun s => { s with summary := { s.summary with cancelled := true } }
    else do
      importLine svc request columnNames lineNo line
      importLines columnNames cancelled rest (lineNo + 1)

def flushLast : Import Unit := do
  let s ← Prog.get
  if s.summary.cancelled then pure () else flushBatch svc request

def clearTable : Import Unit := do
  if request.policy = .Overwrite then do
    let s ← Prog.get
    Prog.modify fun s => { s with calls := s.calls ++ [deleteQuery request] }
    let _ ← Prog.lift (svc.execute s.calls (deleteQuery request))
    pure ()
  else pure ()

def warnUnknown : Import Unit :=
  Prog.modify fun s =>
    if s.unknownKeys = [] then s
    else
      let listed := s.unknownKeys.take MAX_UNKNOWN_KEYS_LISTED ++
        if s.unknownKeys.length > MAX_UNKNOWN_KEYS_LISTED then ["…".toList] else []
      { s with summary := s.summary.pushWarning ("忽略未匹配表列的键（".toList ++ natText s.unknownKeys.length ++
          " 个）：".toList ++ joinWith "、".toList listed) }

def importJsonlIntoTable (cancelled : Nat → Bool) (lines : List (Result Text)) : Import Unit :=
  if request.production then Prog.fail (.Forbidden READ_ONLY_MESSAGE)
  else if request.driver = .Redis ∨ request.driver = .Mongodb then
    Prog.fail (.InvalidConfig ".jsonl 表级导入仅支持 MySQL / PostgreSQL / SQLite 连接")
  else do
    let columnNames ← Prog.lift svc.listColumns
    if columnNames = [] then
      Prog.fail (.NotFound ("表 " ++ request.schema ++ '.' :: request.table ++ " 不存在或无列信息"))
    else do
      clearTable svc request
      importLines svc request columnNames cancelled lines 1
      flushLast svc request
      warnUnknown

end

end Ramag.JsonlTable
