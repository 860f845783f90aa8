import Ramag.Batching
import Ramag.Json
import Ramag.SyncJournal
import Mathlib.Data.Finset.Card

/-!
The MongoDB path of the data sync. The databases and the cancellation flag are a
`World`; the journal of a run holds the polls of the flag, the queries, the
inserts, and for every page of an existing collection what became of its ids.
-/
namespace Ramag.MongoSync
open Strings Domain Json Programs SyncJournal
open DataSyncGate (DataSyncSummary)

def ID_FILTER_BYTES : Nat := 8 * 1024 * 1024

structure MongoPreparedObject where
  source : Text
  target : Text
  options : Value
  missingIndexes : List Value
  targetExists : Bool

structure MongoQuerySpec where
  filter : Value
  projection : Option Value := none
  sort : Option Value := none
  limit : Option Nat := none
  resultByteLimit : Option Nat := none

structure MongoResult where
  documents : List Value := []
  truncated : Bool := false

/-- What the driver answers to an insert: the number of new ids, or of the
    documents that were refused for their `_id` alone, or another error. -/
inductive InsertAnswer
  | inserted (ids : Nat)
  | duplicatesOnly (count : Nat)
  | failed (error : DomainError)

structure InsertManyOutcome where
  inserted : Nat := 0
  duplicates : Nat := 0

/-- `paged` is a page of an existing collection: its ids, those that the target
    has, and the number of documents that were fetched. -/
inductive Event
  | poll (requested : Bool)
  | find (side : Side) (collection : Text)
  | command (collection : Text)
  | insert (collection : Text) (documents : Nat)
  | paged (ids : List Text) (existing : Finset Text) (fetched : Nat)

/-- The databases, the moment from which the cancellation flag is set, and what
    the driver makes of values: their serialization, their size in memory, and
    their conversion, which may fail. -/
structure World where
  find : List Event → Side → Text → MongoQuerySpec → Result MongoResult
  insertMany : List Event → Text → List Value → InsertAnswer
  runCommand : List Event → Value → Result Unit
  cancelAt : Option Nat
  idKey : Value → Result Text
  retainedBytes : Value → Nat
  convert : List Value → Result Unit

/-! ### Queries -/

def byId (operator : Text) (operand : Value) : Value := .single "_id" (.single operator operand)

def ascendingId : Value := .single "_id" (.ofI64 1)

def pageSpec (lastId projection : Option Value) : MongoQuerySpec :=
  { filter := match lastId with
      | some id => byId "$gt" id
      | none => .Object []
    projection, sort := some ascendingId, limit := some TRANSFER_BATCH_ITEMS
    resultByteLimit := some TRANSFER_BATCH_BYTES }

def lookUpSpec (ids : List Value) : MongoQuerySpec :=
  { filter := byId "$in" (.Array ids), projection := some ascendingId, limit := some ids.length
    resultByteLimit := some TRANSFER_BATCH_BYTES }

def fetchSpec (ids : List Value) : MongoQuerySpec :=
  { filter := byId "$in" (.Array ids), sort := some ascendingId, limit := some ids.length
    resultByteLimit := some TRANSFER_BATCH_BYTES }

def documentId (document : Value) : Result Value :=
  match document.get "_id" with
  | some id => .ok id
  | none => .error (.QueryFailed "MongoDB 文档缺少 _id")

section
variable (world : World)

def documentKey (document : Value) : Result Text := documentId document >>= world.idKey

def cancellationRequested : Sync Event Bool := SyncJournal.cancellationRequested .poll world.cancelAt

def find (side : Side) (collection : Text) (spec : MongoQuerySpec) : Sync Event MongoResult :=
  perform (.find side collection) fun history => world.find history side collection spec

def runCommand (collection : Text) (command : Value) : Sync Event Unit :=
  perform (.command collection) fun history => world.runCommand history command

/-- An id with its key. -/
def keyed (id : Value) : Result (Text × Value) := do
  let key ← world.idKey id
  pure (key, id)

def idFits (pending : List (Text × Value)) (id : Text × Value) : Bool :=
  pending.length < TRANSFER_BATCH_ITEMS &&
    (pending.map fun entry => byteLen entry.1).sum + byteLen id.1 ≤ ID_FILTER_BYTES

/-- The ids, with their keys, in chunks that one filter can hold. -/
def idChunks (ids : List Value) : Result (List (List (Text × Value))) := do
  let entries ← ids.mapM (keyed world)
  if entries.any fun entry => byteLen entry.1 > ID_FILTER_BYTES then
    .error (.InvalidConfig "MongoDB _id 过大，无法构造安全的批量查询")
  else .ok (Batching.batches idFits (fun _ => false) [] entries)

def lookUpChunks (collection : Text) : List (List (Text × Value)) → Finset Text → Sync Event (Finset Text)
  | [], existing => pure existing
  | chunk :: rest, existing => do
    let result ← find world .target collection (lookUpSpec (chunk.map (·.2)))
    let keys ← Prog.lift (result.documents.mapM (documentKey world))
    if result.truncated then
      Prog.fail (.QueryFailed "MongoDB 目标 _id 批量查询超过内存边界，请缩小同步批次")
    else lookUpChunks collection rest (existing ∪ keys.toFinset)

def existingIdKeys (collection : Text) (ids : List Value) : Sync Event (Finset Text) := do
  let chunks ← Prog.lift (idChunks world ids)
  lookUpChunks world collection chunks ∅

/-- One entry for every key, as a map keeps them. -/
def insertEntry (entries : List (Text × Value)) (entry : Text × Value) : List (Text × Value) :=
  entries.filter (·.1 ≠ entry.1) ++ [entry]

/-- One query for the documents of a chunk that are still to come. -/
def fetchRound (collection : Text) : List (Text × Value) × List Value → Sync Event ((List (Text × Value) × List Value) ⊕ List Value)
  | (remaining, documents) => do
    let requested ← cancellationRequested world
    if requested || remaining.isEmpty then pure (.inr documents)
    else do
      let result ← find world .source collection (fetchSpec (remaining.map (·.2)))
      if result.documents.isEmpty then pure (.inr documents)
      else do
        let keys ← Prog.lift (result.documents.mapM (documentKey world))
        let left := remaining.filter fun entry => entry.1 ∉ keys
        if left.length = remaining.length then Prog.fail (.QueryFailed "MongoDB 缺失文档查询未推进")
        else if result.truncated then pure (.inl (left, documents ++ result.documents))
        else pure (.inr (documents ++ result.documents))

def fetchChunks (collection : Text) (rounds : Nat) : List (List (Text × Value)) → List Value → Sync Event (List Value)
  | [], documents => pure documents
  | chunk :: rest, documents => do
    let documents ← Prog.loop (fetchRound world collection) rounds (chunk.foldl insertEntry [], documents)
    fetchChunks collection rounds rest documents

def fetchDocumentsByIds (collection : Text) (rounds : Nat) (ids : List Value) : Sync Event (List Value) := do
  let chunks ← Prog.lift (idChunks world ids)
  fetchChunks world collection rounds chunks []

def insertMany (collection : Text) (documents : List Value) : Sync Event InsertManyOutcome :=
  if documents.length > TRANSFER_BATCH_ITEMS then
    Prog.fail (.InvalidConfig ("MongoDB insertMany 单批最多 " ++ natText TRANSFER_BATCH_ITEMS ++ " 个文档"))
  else do
    Prog.lift (world.convert documents)
    if documents = [] then pure {}
    else do
      let answer ← perform (.insert collection documents.length) fun history => .ok (world.insertMany history collection documents)
      match answer with
      | .inserted ids => pure { inserted := ids }
      | .duplicatesOnly count => pure { inserted := documents.length - count, duplicates := count }
      | .failed error => Prog.fail error

def countDocuments (outcome : InsertManyOutcome) (bytes : Nat) (summary : DataSyncSummary) : DataSyncSummary :=
  { summary with
    inserted := summary.inserted + outcome.inserted
    skipped := summary.skipped + outcome.duplicates
    bytes := summary.bytes + bytes }

def flushDocuments (collection : Text) (documents : List Value) (bytes : Nat) : Sync Event Unit := do
  let outcome ← insertMany world collection documents
  count (countDocuments outcome bytes)

/-- The documents in batches; a request ends the loop, which is no failure. -/
def insertDocuments (collection : Text) : List Value → List Value → Nat → Sync Event Unit
  | [], batch, batchBytes =>
    if batch.isEmpty then pure ()
    else do
      let requested ← cancellationRequested world
      if requested then count cancel else flushDocuments world collection batch batchBytes
  | document :: rest, batch, batchBytes => do
    let requested ← cancellationRequested world
    if requested then count cancel
    else
      let bytes := world.retainedBytes document
      if bytes > TRANSFER_BATCH_BYTES then
        Prog.fail (.InvalidConfig ("MongoDB 单文档超过 " ++ natText (TRANSFER_BATCH_BYTES / 1024 / 1024) ++ " MiB 应用传输边界"))
      else if !batch.isEmpty && (batch.length ≥ TRANSFER_BATCH_ITEMS || batchBytes + bytes > TRANSFER_BATCH_BYTES) then do
        flushDocuments world collection batch batchBytes
        insertDocuments collection rest [document] bytes
      else insertDocuments collection rest (batch ++ [document]) (batchBytes + bytes)

def createCollection (object : MongoPreparedObject) : Sync Event Unit :=
  runCommand world object.target (.Object ((object.options.asObject.getD []).filter (·.1 ≠ "create".toList) ++
    [("create".toList, .String object.target)]))

def createIndexes (object : MongoPreparedObject) : Sync Event Unit :=
  runCommand world object.target
    (.Object [("createIndexes", .String object.target), ("indexes", .Array object.missingIndexes)])

def newCollectionPage (object : MongoPreparedObject) (lastId : Option Value) : Sync Event (Option Value ⊕ Unit) := do
  let requested ← cancellationRequested world
  if requested then do
    count cancel
    pure (.inr ())
  else do
    let result ← find world .source object.source (pageSpec lastId none)
    match result.documents.getLast? with
    | none => pure (.inr ())
    | some document => do
      let nextId ← Prog.lift (documentId document)
      count (addScanned result.documents.length 0)
      insertDocuments world object.target result.documents [] 0
      pure (.inl (some nextId))

/-- The ids that the target lacks, with their keys; the others are skipped. -/
def missingIds (existing : Finset Text) : List Value → List Value → Sync Event (List Value)
  | [], missing => pure missing
  | id :: rest, missing => do
    let key ← Prog.lift (world.idKey id)
    if key ∈ existing then do
      count (addSkipped 1)
      missingIds existing rest missing
    else missingIds existing rest (missing ++ [id])

/-- `ids_missing_after_fetch`: the ids that the target lacks and whose documents did not come. -/
def idsMissingAfterFetch (existing fetched : Finset Text) (sourceIds : Nat) : Nat :=
  sourceIds - (existing.card + fetched.card)

def countVanished (object : MongoPreparedObject) (vanished : Nat) : Sync Event Unit :=
  if vanished > 0 then do
    count (addSkipped vanished)
    count (pushWarning ("源 Collection " ++ object.source ++ " 有 " ++ natText vanished ++ " 个文档在读取期间消失"))
  else pure ()

def existingCollectionPage (object : MongoPreparedObject) (rounds : Nat) (lastId : Option Value) :
    Sync Event (Option Value ⊕ Unit) := do
  let requested ← cancellationRequested world
  if requested then do
    count cancel
    pure (.inr ())
  else do
    let result ← find world .source object.source (pageSpec lastId (some ascendingId))
    if result.documents.isEmpty then pure (.inr ())
    else do
      let ids ← Prog.lift (result.documents.mapM documentId)
      count (addScanned ids.length 0)
      let existing ← existingIdKeys world object.target ids
      let missing ← missingIds world existing ids []
      let documents ← fetchDocumentsByIds world object.source rounds missing
      let requested ← cancellationRequested world
      if requested then do
        count cancel
        pure (.inr ())
      else do
        let fetched ← Prog.lift (documents.mapM (documentKey world))
        let keys ← Prog.lift (ids.mapM world.idKey)
        record (.paged keys existing documents.length)
        countVanished object (idsMissingAfterFetch existing fetched.toFinset ids.length)
        insertDocuments world object.target documents [] 0
        pure (.inl ids.getLast?)

/-- The indexes that the target lacks, unless the run was cancelled. -/
def createMissingIndexes (object : MongoPreparedObject) : Sync Event Unit := do
  let s ← Prog.get
  if s.summary.cancelled || object.missingIndexes.isEmpty then pure () else createIndexes world object

def syncCollection (object : MongoPreparedObject) (rounds : Nat) : Sync Event Unit :=
  if object.targetExists then do
    Prog.loop (existingCollectionPage world object rounds) rounds none
    createMissingIndexes world object
  else do
    createCollection world object
    Prog.loop (newCollectionPage world object) rounds none
    createMissingIndexes world object

end

end Ramag.MongoSync
