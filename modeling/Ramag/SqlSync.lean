import Ramag.Batching
import Ramag.SqlLiteral
import Ramag.SyncJournal
import Mathlib.Data.Finset.Card

/-!
The SQL path of the data sync. The databases and the cancellation flag are a
`World`; the journal of a run holds every poll of the flag, every query that
reads, and every statement that writes.
-/
namespace Ramag.SqlSync
open Strings Domain SqlLiteral Programs SyncJournal
open DataSyncGate (DataSyncSummary)

def ID_QUERY_BYTES : Nat := 8 * 1024 * 1024
def ID_QUERY_ITEMS : Nat := 1000

/-- A table of the plan. The preflight sets the create statement of exactly the
    tables that the target lacks, and rejects tables without an identity. -/
structure SqlPreparedObject where
  source : Text
  target : Text
  identity : List Text
  writableColumns : List Text
  sourceTextColumns : List Text
  targetExists : Bool
  createStatement : Option Text
  postCreateStatements : List Text
  finalStatements : List Text
  hasIdentityAlways : Bool
  identified : identity ≠ []
  created : createStatement.isSome = !targetExists

structure SqlPreparedEnum where
  name : Text
  signature : Text
  createStatement : Text

/-- A plan. The preflight creates the namespace exactly when it is missing, and
    sequences only for tables that it creates. -/
structure SqlPreparedPlan where
  engine : DriverKind
  sourceNamespace : Text
  targetNamespace : Text
  namespaceExists : Bool
  namespaceCreate : Option Text
  preCreateStatements : List Text
  postgresEnums : List SqlPreparedEnum
  objects : List SqlPreparedObject
  supported : engine = .Mysql ∨ engine = .Postgres
  placed : namespaceCreate.isSome = !namespaceExists
  sequenced : preCreateStatements ≠ [] → ∃ object ∈ objects, object.targetExists = false

def createsStructure (plan : SqlPreparedPlan) : Bool :=
  !plan.namespaceExists || plan.objects.any fun object => !object.targetExists

structure QueryResult where
  rows : List Row := []
  truncated : Bool := false
  affectedRows : Nat := 0
  retainedBytes : Nat := 0

/-- What a statement that writes is for. -/
inductive Purpose
  | namespaceCreate
  | enumType
  | preCreate
  | create (object : SqlPreparedObject)
  | postCreate (object : SqlPreparedObject)
  | rows (object : SqlPreparedObject)
  | final (object : SqlPreparedObject)

/-- `fetched` is a row query that was not truncated: the number of identity keys
    that it asked for, and the number of rows that it brought. -/
inductive Event
  | poll (requested : Bool)
  | enums
  | select (side : Side) (sql : Text)
  | fetched (asked received : Nat)
  | write (purpose : Purpose) (sql : Text) (accepted : Bool)

/-- The databases, the moment from which the cancellation flag is set, and the
    serialization of identity keys. -/
structure World where
  execute : List Event → Side → Query → Result QueryResult
  targetEnums : List Event → Result (List (Text × Text))
  snapshotUnchanged : Result Bool
  cancelAt : Option Nat
  identityKey : List Value → Result Text

section
variable (world : World)

def cancellationRequested : Sync Event Bool := SyncJournal.cancellationRequested .poll world.cancelAt

/-- `honor_cancel && permit.cancellation_requested()` -/
def honored (honorCancel : Bool) : Sync Event Bool := if honorCancel then cancellationRequested world else pure false

def read (side : Side) (sql : Text) : Sync Event QueryResult :=
  perform (.select side sql) fun history => world.execute history side { sql, resultByteLimit := some TRANSFER_BATCH_BYTES }

def loadEnums : Sync Event (List (Text × Text)) := perform .enums world.targetEnums

def write (purpose : Purpose) (sql : Text) : Sync Event QueryResult := do
  let s ← Prog.get
  let result := world.execute s.history .target { sql }
  record (.write purpose sql result.isOk)
  Prog.lift result

def executeStatement (purpose : Purpose) (statement : Text) : Sync Event Unit :=
  if byteLen statement > TRANSFER_BATCH_BYTES then
    Prog.fail (.InvalidConfig ("结构 SQL 超过 " ++ natText (TRANSFER_BATCH_BYTES / 1024 / 1024) ++ " MiB 安全上限"))
  else do
    let _ ← write world purpose statement
    pure ()

end

/-! ### Identity keys -/

variable (driver : DriverKind)

def sourceSelectColumns (columns textColumns : List Text) : Text :=
  joinWith ", " (columns.map fun column =>
    let quoted := quoteIdentifier driver column
    if driver = .Postgres ∧ column ∈ textColumns then "CAST(" ++ quoted ++ " AS TEXT) AS " ++ quoted
    else quoted)

def keysetSelect (table selected : Text) (identity : List Text) (lastKey : Option (List Value)) : Text :=
  let order := quotedColumns driver identity
  let predicate := match lastKey with
    | none => []
    | some values =>
      let literals := joinWith ", " (values.map (transferLiteral driver))
      if identity.length = 1 then " WHERE " ++ quoteIdentifier driver (identity.headD []) ++ " > " ++ literals
      else " WHERE (" ++ order ++ ") > (" ++ literals ++ [')']
  "SELECT " ++ selected ++ " FROM " ++ table ++ predicate ++ " ORDER BY " ++ order ++ " LIMIT " ++ natText TRANSFER_BATCH_ITEMS ++ [';']

def identityPredicate (columns : List Text) (rows : List Row) : Result Text :=
  if rows = [] then .error (.Other "身份键批次不能为空")
  else if rows.any fun row => row.length ≠ columns.length then
    .error (.QueryFailed "身份键列数与结果不一致")
  else match columns with
    | [column] => .ok (quoteIdentifier driver column ++ " IN (" ++
        joinWith ", " (rows.map fun row => transferLiteral driver (row.headD .Null)) ++ [')'])
    | _ => .ok ('(' :: quotedColumns driver columns ++ ") IN (" ++ joinWith ", " (rows.map (rowTuple (transferLiteral driver))) ++ [')'])

def identityBytes (row : Row) : Nat :=
  (row.map fun value => byteLen (transferLiteral driver value) + 2).sum

def identityFits (pending : List Row) (row : Row) : Bool :=
  pending.length < ID_QUERY_ITEMS && (pending.map (identityBytes driver)).sum + identityBytes driver row ≤ ID_QUERY_BYTES

/-- The identities in ranges, each of which one query can ask for. -/
def identityRanges (identities : List Row) : Result (List (List Row)) :=
  if identities.any fun row => identityBytes driver row > TRANSFER_BATCH_BYTES then
    .error (.InvalidConfig "单个 SQL 身份键超过安全字节上限")
  else .ok (Batching.batches (identityFits driver) (fun _ => false) [] identities)

theorem flatten_identityRanges {driver : DriverKind} {identities : List Row} {ranges : List (List Row)}
    (done : identityRanges driver identities = .ok ranges) : ranges.flatten = identities := by
  unfold identityRanges at done
  split at done
  · cases done
  · rw [← Except.ok.inj done]
    exact Batching.flatten_batches [] identities

def identityPositions (object : SqlPreparedObject) : Result (List Nat) :=
  object.identity.mapM fun name =>
    match object.writableColumns.idxOf? name with
    | some position => .ok position
    | none => .error (.InvalidConfig ("记录身份列 " ++ name ++ " 不可写入"))

/-- The values of a row at the positions. -/
def valuesAt (missing : DomainError) (positions : List Nat) (row : Row) : Result (List Value) :=
  positions.mapM fun position =>
    match row[position]? with
    | some value => .ok value
    | none => .error missing

def lastIdentity (rows : List Row) (positions : List Nat) (object : SqlPreparedObject) : Result (List Value) :=
  match rows.getLast? with
  | none => .error (.QueryFailed "SQL 分页结果为空")
  | some row => valuesAt (.QueryFailed ("表 " ++ object.source ++ " 的身份键结果列缺失")) positions row

def oversizedRowError (object : SqlPreparedObject) : DomainError :=
  .InvalidConfig ("表 " ++ object.source ++ " 的单行或身份键超过 " ++ natText (TRANSFER_BATCH_BYTES / 1024 / 1024) ++ " MiB 安全上限")

section
variable (world : World) (plan : SqlPreparedPlan) (object : SqlPreparedObject)

def sourceTable : Text := qualified plan.engine plan.sourceNamespace object.source
def targetTable : Text := qualified plan.engine plan.targetNamespace object.target

/-- The keys of the ranges that the target has, added to those that were found. -/
def lookUpRanges : List (List Row) → Finset Text → Sync Event (Finset Text)
  | [], found => pure found
  | range :: rest, found => do
    let predicate ← Prog.lift (identityPredicate plan.engine object.identity range)
    let result ← read world .target ("SELECT " ++ sourceSelectColumns plan.engine object.identity object.sourceTextColumns ++ " FROM " ++
      targetTable plan object ++ " WHERE " ++ predicate ++ [';'])
    if result.truncated then
      Prog.fail (.InvalidConfig "目标身份键查询超过安全字节上限，请缩小同步范围")
    else do
      let keys ← Prog.lift (result.rows.mapM world.identityKey)
      lookUpRanges rest (found ∪ keys.toFinset)

def existingIdentityKeys (identities : List Row) : Sync Event (Finset Text) := do
  let ranges ← Prog.lift (identityRanges plan.engine identities)
  lookUpRanges world plan object ranges ∅

/-- One query for the range on top of the stack. A truncated answer is thrown
    away, and its range is asked for in two halves. -/
def fetchRange : List (List Row) × List Row → Sync Event ((List (List Row) × List Row) ⊕ List Row)
  | ([], output) => pure (.inr output)
  | (range :: pending, output) => do
    let predicate ← Prog.lift (identityPredicate plan.engine object.identity range)
    let result ← read world .source ("SELECT " ++
      sourceSelectColumns plan.engine object.writableColumns object.sourceTextColumns ++ " FROM " ++
      sourceTable plan object ++ " WHERE " ++ predicate ++ " ORDER BY " ++
      quotedColumns plan.engine object.identity ++ [';'])
    if result.truncated then
      if range.length ≤ 1 then Prog.fail (oversizedRowError object)
      else pure (.inl (range.take (range.length / 2) :: range.drop (range.length / 2) :: pending, output))
    else do
      record (.fetched range.length result.rows.length)
      pure (.inl (pending, output ++ result.rows))

-- the source takes the ranges from the end of its list
def fetchSourceRows (rounds : Nat) (identities : List Row) : Sync Event (List Row) := do
  let ranges ← Prog.lift (identityRanges plan.engine identities)
  Prog.loop (fetchRange world plan object) rounds (ranges.reverse, [])

def conflict : Text :=
  conflictText plan.engine (if plan.engine = .Postgres then .doNothing object.identity
    else .onDuplicateKey (object.identity.head object.identified))

def insertHead : Text :=
  insertPrefix (targetTable plan object) (quotedColumns plan.engine object.writableColumns)
    (plan.engine = .Postgres && object.hasIdentityAlways)

def mysqlMissingIdentitiesAfterInsert (rows : List Row) : Sync Event Nat := do
  let positions ← Prog.lift (identityPositions object)
  let identities ← Prog.lift
    (rows.mapM (valuesAt (.QueryFailed "MySQL 写后身份键结果列缺失") positions))
  let existing ← existingIdentityKeys world plan object identities
  pure (identities.length - existing.card)

/-- Only MySQL looks for rows that its INSERT left out. -/
def failedAfterInsert (rows : List Row) : Sync Event Nat :=
  if plan.engine = .Mysql then mysqlMissingIdentitiesAfterInsert world plan object rows else pure 0

/-- What an INSERT of so many rows adds to the counters. -/
def countInsert (attempted affected failed : Nat) (summary : DataSyncSummary) : DataSyncSummary :=
  let inserted := min affected (attempted - failed)
  { summary with
    inserted := summary.inserted + inserted
    skipped := summary.skipped + (attempted - inserted - failed)
    failed := summary.failed + failed }

def flushInsert (statement : Text) (rows : List Row) : Sync Event Unit := do
  let result ← write world (.rows object) (statement ++ conflict plan object ++ [';'])
  let failed ← failedAfterInsert world plan object rows
  count (countInsert rows.length result.affectedRows failed)
  if failed > 0 then
    Prog.fail (.QueryFailed ("MySQL 表 " ++ object.target ++ " 有 " ++ natText failed ++
      " 行与目标的非身份唯一约束冲突；已停止同步，目标已有数据未被覆盖"))
  else pure ()

def insertLoop : List Row → Text → List Row → Sync Event Unit
  | [], statement, buffered => if buffered = [] then pure () else flushInsert world plan object statement buffered
  | row :: rest, statement, buffered =>
    let tuple := rowTuple (transferLiteral plan.engine) row
    let prospective := byteLen statement + (if buffered = [] then 0 else 2) + byteLen tuple +
      byteLen (conflict plan object) + 1
    if prospective > TRANSFER_BATCH_BYTES ∧ buffered = [] then Prog.fail (oversizedRowError object)
    else if buffered ≠ [] ∧ (buffered.length ≥ TRANSFER_BATCH_ITEMS ∨ prospective > TRANSFER_BATCH_BYTES) then do
      flushInsert world plan object statement buffered
      insertLoop rest (insertHead plan object ++ tuple) [row]
    else
      insertLoop rest (statement ++ (if buffered = [] then [] else ", ") ++ tuple) (buffered ++ [row])

def insertRows (rows : List Row) : Sync Event Unit :=
  if rows = [] then pure () else insertLoop world plan object rows (insertHead plan object) []

/-- One page of a table that the run has created. -/
def newTablePage (honorCancel : Bool) (positions : List Nat) (lastKey : Option (List Value)) :
    Sync Event (Option (List Value) ⊕ Unit) := do
  if ← honored world honorCancel then do
    count cancel
    pure (.inr ())
  else do
    let result ← read world .source (keysetSelect plan.engine (sourceTable plan object)
      (sourceSelectColumns plan.engine object.writableColumns object.sourceTextColumns) object.identity lastKey)
    if result.rows = [] then
      if result.truncated then Prog.fail (oversizedRowError object) else pure (.inr ())
    else do
      let key ← Prog.lift (lastIdentity result.rows positions object)
      count (addScanned result.rows.length result.retainedBytes)
      insertRows world plan object result.rows
      pure (.inl (some key))

def syncNewTable (rounds : Nat) (honorCancel : Bool) : Sync Event Unit := do
  let positions ← Prog.lift (identityPositions object)
  Prog.loop (newTablePage world plan object honorCancel positions) rounds none

/-- The identities whose keys the target lacks; the others are skipped. -/
def missingIdentities (existing : Finset Text) : List Row → List Row → Sync Event (List Row)
  | [], missing => pure missing
  | row :: rest, missing => do
    let key ← Prog.lift (world.identityKey row)
    if key ∈ existing then do
      count (addSkipped 1)
      missingIdentities existing rest missing
    else missingIdentities existing rest (missing ++ [row])

/-- The rows that vanished are named in a warning, and counted nowhere. -/
def warnVanished (asked received : Nat) : Sync Event Unit :=
  if received < asked then
    count (pushWarning ("源表 " ++ object.source ++ " 在扫描后有 " ++ natText (asked - received) ++ " 条记录消失，已安全跳过"))
  else pure ()

/-- One page of a table that the target has. -/
def existingTablePage (rounds : Nat) (honorCancel : Bool) (lastKey : Option (List Value)) :
    Sync Event (Option (List Value) ⊕ Unit) := do
  if ← honored world honorCancel then do
    count cancel
    pure (.inr ())
  else do
    let ids ← read world .source (keysetSelect plan.engine (sourceTable plan object)
      (sourceSelectColumns plan.engine object.identity object.sourceTextColumns) object.identity lastKey)
    if ids.rows = [] then
      if ids.truncated then Prog.fail (oversizedRowError object) else pure (.inr ())
    else do
      let key ← Prog.lift (lastIdentity ids.rows (List.range object.identity.length) object)
      count (addScanned ids.rows.length ids.retainedBytes)
      let existing ← existingIdentityKeys world plan object ids.rows
      let missing ← missingIdentities world existing ids.rows []
      if missing = [] then pure (.inl (some key))
      else if ← honored world honorCancel then do
        count cancel
        pure (.inr ())
      else do
        let rows ← fetchSourceRows world plan object rounds missing
        warnVanished object missing.length rows.length
        insertRows world plan object rows
        pure (.inl (some key))

def syncExistingTable (rounds : Nat) (honorCancel : Bool) : Sync Event Unit :=
  Prog.loop (existingTablePage world plan object rounds honorCancel) rounds none

def syncTable (rounds : Nat) (honorCancel : Bool) : Sync Event Unit :=
  if object.targetExists then syncExistingTable world plan object rounds honorCancel
  else syncNewTable world plan object rounds honorCancel

def incompatibleEnum (name : Text) : DomainError :=
  .InvalidConfig ("目标枚举类型 " ++ plan.targetNamespace ++ '.' :: name ++
    " 已存在，但选项定义与源不一致；为避免数据语义错误，已停止同步")

/-- The types that are missing are created. A type that could not be created is
    looked for again, since another session may have created it. -/
def ensureEnums : List SqlPreparedEnum → List (Text × Text) → Sync Event Unit
  | [], _ => pure ()
  | expected :: rest, definitions =>
    match definitions.lookup expected.name with
    | some existing =>
      if existing = expected.signature then ensureEnums rest definitions
      else Prog.fail (incompatibleEnum plan expected.name)
    | none => do
      match ← (executeStatement world .enumType expected.createStatement).attempt with
      | .ok _ => ensureEnums rest ((expected.name, expected.signature) :: definitions)
      | .error createError => do
        let reloaded ← loadEnums world
        match reloaded.lookup expected.name with
        | some existing =>
          if existing = expected.signature then ensureEnums rest reloaded
          else Prog.fail (incompatibleEnum plan expected.name)
        | none => Prog.fail createError

def ensurePostgresEnums : Sync Event Unit :=
  if plan.engine ≠ .Postgres ∨ plan.postgresEnums = [] then pure ()
  else do
    let definitions ← loadEnums world
    ensureEnums world plan plan.postgresEnums definitions

def createObject : Sync Event Unit :=
  match object.createStatement with
  | none => pure ()
  | some statement => do
    executeStatement world (.create object) statement
    Prog.forEach object.postCreateStatements (executeStatement world (.postCreate object))

def createNamespace : Sync Event Unit :=
  match plan.namespaceCreate with
  | none => pure ()
  | some statement => executeStatement world .namespaceCreate statement

/-- Everything that is created before the first row is read. -/
def createStructures : Sync Event Unit := do
  createNamespace world plan
  ensurePostgresEnums world plan
  Prog.forEach plan.preCreateStatements (executeStatement world .preCreate)
  Prog.forEach plan.objects (createObject world)

/-- A request that comes after structures were created takes effect at the end. -/
def deferCancellation (requested deferred : Bool) : Sync Event Bool :=
  if requested && createsStructure plan && !deferred then do
    count (pushWarning "已创建目标结构；为避免留下不完整表或约束，取消请求将在结构安全收尾后生效")
    pure true
  else pure deferred

/-- The objects one after the other; the result tells whether a request was deferred. -/
def syncObjects (rounds : Nat) : List SqlPreparedObject → Bool → Sync Event Bool
  | [], deferred => pure deferred
  | object :: rest, deferred => do
    let first ← cancellationRequested world
    if first && !createsStructure plan then do
      count cancel
      pure deferred
    else do
      let second ← cancellationRequested world
      let deferred ← deferCancellation plan second deferred
      syncTable world plan object rounds (!createsStructure plan)
      let s ← Prog.get
      if s.summary.cancelled then pure deferred
      else do
        count addObject
        syncObjects rounds rest deferred

def finalizeObject : Sync Event Unit := Prog.forEach object.finalStatements (executeStatement world (.final object))

/-- The final statements, unless the run was cancelled. -/
def finalize : Sync Event Unit := do
  let s ← Prog.get
  if s.summary.cancelled then pure () else Prog.forEach plan.objects (finalizeObject world)

def runSqlSync (rounds : Nat) : Sync Event Unit := do
  let unchanged ← Prog.lift world.snapshotUnchanged
  if !unchanged then Prog.fail (.InvalidConfig "目标 SQL 结构已在预检后变化，请重新预检并确认")
  else do
    let requested ← cancellationRequested world
    if requested then count cancel
    else do
      createStructures world plan
      let deferred ← syncObjects world plan rounds plan.objects false
      finalize world plan
      if deferred then count cancel else pure ()

end

section
variable {world : World} {pre kept stop : Journal Event → Prop}

theorem read_triple {side : Side} {sql : Text} (reads : ∀ s, kept s → kept (s.record (.select side sql)))
    (ends : ∀ s, kept s → stop s) : Triple kept (read world side sql) (fun _ => kept) stop :=
  perform_triple reads ends

theorem write_triple {purpose : Purpose} {sql : Text} {post : Journal Event → Prop}
    (accepted : ∀ s, pre s → post (s.record (.write purpose sql true)))
    (refused : ∀ s, pre s → stop (s.record (.write purpose sql false))) : Triple pre (write world purpose sql) (fun _ => post) stop := by
  refine .getThen fun v => ?_
  cases world.execute v.history .target { sql } with
  | ok result => exact .bind (.modify fun s held => accepted s held.2) fun _ => .done
  | error error => exact .bind (.modify fun s held => refused s held.2) fun _ => .halt

theorem executeStatement_triple {purpose : Purpose} {statement : Text} {post : Journal Event → Prop}
    (accepted : ∀ s, pre s → post (s.record (.write purpose statement true)))
    (refused : ∀ s, pre s → stop (s.record (.write purpose statement false))) (unsent : ∀ s, pre s → stop s) :
    Triple pre (executeStatement world purpose statement) (fun _ => post) stop := by
  refine .ite (fun _ => .fail unsent) fun _ => ?_
  exact .bind (write_triple accepted refused) fun _ => .done

variable {plan : SqlPreparedPlan} {object : SqlPreparedObject}

section
variable (reads : ∀ s side sql, kept s → kept (s.record (.select side sql))) (ends : ∀ s, kept s → stop s)
include reads ends

theorem lookUpRanges_triple (ranges : List (List Row)) (found : Finset Text) :
    Triple kept (lookUpRanges world plan object ranges found) (fun _ => kept) stop := by
  induction ranges generalizing found with
  | nil => exact .done
  | cons range rest ih =>
    refine .bind (.lift_same ends) fun predicate => .given fun _ => ?_
    refine .bind (read_triple (fun s => reads s _ _) ends) fun result => ?_
    refine .ite (fun _ => .fail ends) fun _ => ?_
    exact .bind (.lift_same ends) fun keys => .given fun _ => ih (found ∪ keys.toFinset)

theorem existingIdentityKeys_triple (identities : List Row) : Triple kept (existingIdentityKeys world plan object identities) (fun _ => kept) stop :=
  Triple.bind (.lift_same ends) fun ranges => .given fun _ => lookUpRanges_triple reads ends ranges ∅

/-- No more rows fail than were tried. -/
theorem failedAfterInsert_triple (rows : List Row) :
    Triple kept (failedAfterInsert world plan object rows) (fun failed s => failed ≤ rows.length ∧ kept s) stop := by
  refine .ite (fun _ => ?_) fun _ => .ret fun _ held => ⟨Nat.zero_le _, held⟩
  refine .bind (.lift_same ends) fun positions => .given fun _ => ?_
  refine .bind (.lift_same ends) fun identities => .given fun aligned => ?_
  have length := (mapM_ok_iff.mp aligned).length_eq
  refine .bind (existingIdentityKeys_triple reads ends identities) fun existing => .ret fun s held => ?_
  exact ⟨by omega, held⟩

end

end

end Ramag.SqlSync
