import Mathlib.Algebra.Order.Ring.Int
import Mathlib.Algebra.Order.Ring.Nat
import Ramag.Domain
import Ramag.Runs

/-!
The manual transactions of one query tab. An action of the tab may spawn a call
to the driver; the driver serves the call, and the answer comes back to the tab
at any later time, when the tab may be gone. The driver keeps the transactions
that were opened, each with the savepoints of the server.
-/
namespace Ramag.TransactionTab
open Strings Domain Runs

def MAX_TRANSACTION_SAVEPOINTS : Nat := 32
def MAX_SAVEPOINT_NAME_BYTES : Nat := 64

variable {κ τ : Type}

structure ConnectionConfig (κ : Type) where
  id : κ
  database : Option Text

structure TransactionSavepoint where
  name : Text
  dirty : Bool

structure TransactionSession (τ : Type) where
  id : τ
  dirty : Bool
  savepoints : List TransactionSavepoint
  nextSavepoint : Nat

/-- `running` and `pendingResultEdits` are changed by other parts of the tab. -/
structure QueryTab (κ τ : Type) where
  connection : Option (ConnectionConfig κ) := none
  activeSchema : Option Text := none
  transaction : Option (TransactionSession τ) := none
  transactionBusy : Bool := false
  transactionSeq : Nat := 0
  running : Bool := false
  pendingResultEdits : Bool := false

inductive Call (τ : Type)
  | beginTransaction
  | createSavepoint (id : τ) (name : Text)
  | rollbackToSavepoint (id : τ) (savepoint : TransactionSavepoint) (targetIndex : Nat)
  | releaseSavepoint (id : τ) (name : Text) (targetIndex : Nat)
  | finishTransaction (id : τ) (commit : Bool)
  /-- A rollback whose answer the tab does not wait for. -/
  | rollbackDetached (id : τ)

inductive Answer (τ : Type)
  | opened (id : τ)
  | ok
  | failed
  deriving DecidableEq

inductive Stage (τ : Type)
  | calling
  | answered (answer : Answer τ)
  | done
  deriving DecidableEq

structure Task (κ τ : Type) where
  connection : κ
  requestSeq : Nat
  call : Call τ
  stage : Stage τ

variable (tab : QueryTab κ τ)

namespace QueryTab

def hasOpenTransaction : Bool :=
  tab.transaction.isSome || tab.transactionBusy

def transactionSavepoints : List TransactionSavepoint :=
  tab.transaction.elim [] (·.savepoints)

def markTransactionDirty : QueryTab κ τ :=
  { tab with transaction := tab.transaction.map fun session => { session with dirty := true } }

/-- The tab is busy under a new number, and the call carries that number. -/
def request (connection : ConnectionConfig κ) (call : Call τ) : QueryTab κ τ × Option (Task κ τ) :=
  let requestSeq := (tab.transactionSeq + 1) % 2 ^ 64
  ({ tab with transactionBusy := true, transactionSeq := requestSeq }, some ⟨connection.id, requestSeq, call, .calling⟩)

def beginTransaction (tab : QueryTab κ τ) : QueryTab κ τ × Option (Task κ τ) :=
  if tab.transaction.isSome || tab.transactionBusy || tab.running then (tab, none)
  else if tab.pendingResultEdits then (tab, none)
  else
    match tab.connection with
    | none => (tab, none)
    | some connection => tab.request connection .beginTransaction

def savepointName (nextSavepoint : Nat) : Text := "ramag_sp_" ++ natText nextSavepoint

def createSavepoint (tab : QueryTab κ τ) : QueryTab κ τ × Option (Task κ τ) :=
  if tab.transactionBusy || tab.running then (tab, none)
  else if tab.pendingResultEdits then (tab, none)
  else
    match tab.transaction with
    | none => (tab, none)
    | some session =>
      if session.savepoints.length ≥ MAX_TRANSACTION_SAVEPOINTS then (tab, none)
      else
        match tab.connection with
        | none => (tab, none)
        | some connection => tab.request connection (.createSavepoint session.id (savepointName session.nextSavepoint))

def rollbackToSavepoint (tab : QueryTab κ τ) (savepoint : TransactionSavepoint) : QueryTab κ τ × Option (Task κ τ) :=
  if tab.transactionBusy || tab.running then (tab, none)
  else
    match tab.transaction, tab.connection with
    | some session, some connection =>
      match session.savepoints.findIdx? (fun item => item.name = savepoint.name) with
      | none => (tab, none)
      | some targetIndex => tab.request connection (.rollbackToSavepoint session.id savepoint targetIndex)
    | _, _ => (tab, none)

def rollbackToLatestSavepoint : QueryTab κ τ × Option (Task κ τ) :=
  if tab.pendingResultEdits then (tab, none)
  else
    match tab.transactionSavepoints.getLast? with
    | none => (tab, none)
    | some savepoint => tab.rollbackToSavepoint savepoint

def releaseLatestSavepoint : QueryTab κ τ × Option (Task κ τ) :=
  if tab.pendingResultEdits then (tab, none)
  else
    match tab.transactionSavepoints.getLast? with
    | none => (tab, none)
    | some savepoint =>
      if tab.transactionBusy || tab.running then (tab, none)
      else
        match tab.transaction, tab.connection with
        | some session, some connection =>
          match session.savepoints.findIdx? (fun item => item.name = savepoint.name) with
          | none => (tab, none)
          | some targetIndex => tab.request connection (.releaseSavepoint session.id savepoint.name targetIndex)
        | _, _ => (tab, none)

def finishTransaction (tab : QueryTab κ τ) (commit : Bool) : QueryTab κ τ × Option (Task κ τ) :=
  if tab.transactionBusy || tab.running then (tab, none)
  else if tab.pendingResultEdits then (tab, none)
  else
    match tab.transaction, tab.connection with
    | some session, some connection => tab.request connection (.finishTransaction session.id commit)
    | _, _ => (tab, none)

/-- A tab that was busy spawns nothing: the source takes the call in flight to
    be a commit or a rollback. -/
def rollbackTransactionDetached : QueryTab κ τ × Option (Task κ τ) :=
  let requestSeq := (tab.transactionSeq + 1) % 2 ^ 64
  let left := { tab with transaction := none, transactionBusy := false, transactionSeq := requestSeq }
  if tab.transactionBusy then (left, none)
  else
    match tab.transaction, tab.connection with
    | some session, some connection => (left, some ⟨connection.id, requestSeq, .rollbackDetached session.id, .calling⟩)
    | _, _ => (left, none)

/-- The rollback of `set_connection` and `set_active_schema`. -/
def leaveContext : QueryTab κ τ × Option (Task κ τ) :=
  if tab.hasOpenTransaction then tab.rollbackTransactionDetached else (tab, none)

def setConnection (connection : Option (ConnectionConfig κ)) : QueryTab κ τ × Option (Task κ τ) :=
  let (left, task) := tab.leaveContext
  ({ left with
    activeSchema := (connection.bind (·.database)).filter (· ≠ [])
    connection }, task)

def setActiveSchema (schema : Option Text) : QueryTab κ τ × Option (Task κ τ) :=
  let normalized := schema.filter (· ≠ [])
  if tab.activeSchema ≠ normalized then
    let (left, task) := tab.leaveContext
    ({ left with activeSchema := normalized }, task)
  else (tab, none)

variable [DecidableEq κ] [DecidableEq τ]

/-- The check of `begin_transaction` and of `finish_transaction`. -/
def requestCurrent (tab : QueryTab κ τ) (task : Task κ τ) : Bool :=
  tab.transactionSeq = task.requestSeq && tab.connection.any (·.id = task.connection)

def transactionRequestMatches (tab : QueryTab κ τ) (task : Task κ τ) (transactionId : τ) : Bool :=
  tab.transactionSeq = task.requestSeq && tab.connection.any (·.id = task.connection) &&
    tab.transaction.any (·.id = transactionId)

/-- The answer to a savepoint call: it changes the session when the call succeeded. -/
def savepointAnswered (tab : QueryTab κ τ) (task : Task κ τ) (transactionId : τ) (answer : Answer τ)
    (change : TransactionSession τ → TransactionSession τ) : QueryTab κ τ :=
  if tab.transactionRequestMatches task transactionId then
    match answer with
    | .ok => { tab with transactionBusy := false, transaction := tab.transaction.map change }
    | _ => { tab with transactionBusy := false }
  else tab

/-- The tab after an answer. A transaction that was opened for nobody any more
    is rolled back. -/
def receive (tab : QueryTab κ τ) (task : Task κ τ) (answer : Answer τ) : QueryTab κ τ × Option τ :=
  match task.call with
  | .beginTransaction =>
    if tab.requestCurrent task then
      match answer with
      | .opened id => ({ tab with transactionBusy := false, transaction := some ⟨id, false, [], 1⟩ }, none)
      | _ => ({ tab with transactionBusy := false }, none)
    else
      match answer with
      | .opened id => (tab, some id)
      | _ => (tab, none)
  | .createSavepoint id name =>
    (tab.savepointAnswered task id answer fun current => { current with
      savepoints := current.savepoints ++ [⟨name, current.dirty⟩]
      nextSavepoint := min (current.nextSavepoint + 1) (2 ^ 32 - 1) }, none)
  | .rollbackToSavepoint id savepoint targetIndex =>
    (tab.savepointAnswered task id answer fun current => { current with
      savepoints := current.savepoints.take (targetIndex + 1)
      dirty := savepoint.dirty }, none)
  | .releaseSavepoint id _ targetIndex =>
    (tab.savepointAnswered task id answer fun current => { current with
      savepoints := current.savepoints.take targetIndex }, none)
  | .finishTransaction _ _ =>
    if tab.requestCurrent task then ({ tab with transactionBusy := false, transaction := none }, none) else (tab, none)
  | .rollbackDetached _ => (tab, none)

end QueryTab

/-! ### The driver -/

/-- A transaction that the driver opened. A transaction that has ended has no
    slot in the `TransactionStore` any more. -/
structure Opened (κ : Type) where
  connection : κ
  savepoints : List Text
  ended : Bool

def validateSavepointName (name : Text) : Bool :=
  name ≠ [] && byteLen name ≤ MAX_SAVEPOINT_NAME_BYTES && name.head?.any Char.isAlpha &&
    name.tail.all fun c => c.isAlphanum || c = '_'

/-- The savepoints from the latest one of the name back to the first, the
    latest in front. -/
def fromLatest (name : Text) (savepoints : List Text) : List Text :=
  savepoints.reverse.dropWhile (· ≠ name)

/-- What a savepoint command that succeeds makes of the savepoints; a name that
    is not there is an error. In some databases a savepoint replaces one of the
    same name. -/
def savepointCommand (replaces : Bool) (savepoints : List Text) : Call τ → Option (List Text)
  | .createSavepoint _ name => some ((if replaces then savepoints.filter (· ≠ name) else savepoints) ++ [name])
  | .rollbackToSavepoint _ savepoint _ =>
    if fromLatest savepoint.name savepoints = [] then none else some (fromLatest savepoint.name savepoints).reverse
  | .releaseSavepoint _ name _ => if fromLatest name savepoints = [] then none else some (fromLatest name savepoints).tail.reverse
  | _ => none

namespace Call

/-- The name in a savepoint call. -/
def savepointName : Call τ → Option Text
  | .createSavepoint _ name | .releaseSavepoint _ name _ => some name
  | .rollbackToSavepoint _ savepoint _ => some savepoint.name
  | _ => none

/-- The transaction that the call is about. -/
def transaction : Call τ → Option τ
  | .beginTransaction => none
  | .createSavepoint id _ | .rollbackToSavepoint id _ _ | .releaseSavepoint id _ _ | .finishTransaction id _
  | .rollbackDetached id => some id

end Call

/-- The transactions of the driver by their identifiers. -/
abbrev Server (κ τ : Type) := τ → Option (Opened κ)

variable [DecidableEq κ] [DecidableEq τ] (server : Server κ τ)

/-- The transaction of a slot that is still in the store. -/
def Server.slot (connection : κ) (id : τ) : Option (Opened κ) :=
  (server id).filter fun opened => opened.connection = connection && !opened.ended

variable (replaces : Bool)

/-- `execute_savepoint_command`, where `accepted` is whether the database lets
    the command succeed. A command that fails has changed nothing. -/
def Server.executeSavepointCommand (connection : κ) (id : τ) (name : Text) (call : Call τ) (accepted : Bool) : Server κ τ × Answer τ :=
  if !validateSavepointName name then (server, .failed)
  else
    match server.slot connection id with
    | none => (server, .failed)
    | some opened =>
      match savepointCommand replaces opened.savepoints call with
      | none => (server, .failed)
      | some savepoints => if accepted then (Function.update server id (some { opened with savepoints }), .ok) else (server, .failed)

/-- `finish_transaction` of the driver takes the transaction out of the store
    first, and it is gone also when the command fails. -/
def Server.finishTransaction (connection : κ) (id : τ) (accepted : Bool) : Server κ τ × Answer τ :=
  match server.slot connection id with
  | none => (server, .failed)
  | some opened => (Function.update server id (some { opened with ended := true }), if accepted then .ok else .failed)

/-- One call is served. A transaction is opened under an identifier that no
    transaction had. -/
def Server.serve (connection : κ) (call : Call τ) (fresh : τ) (accepted : Bool) : Option (Server κ τ × Answer τ) :=
  match call with
  | .beginTransaction =>
    if !accepted then some (server, .failed)
    else if (server fresh).isSome then none
    else some (Function.update server fresh (some ⟨connection, [], false⟩), .opened fresh)
  | .createSavepoint id name | .releaseSavepoint id name _ =>
    some (server.executeSavepointCommand replaces connection id name call accepted)
  | .rollbackToSavepoint id savepoint _ => some (server.executeSavepointCommand replaces connection id savepoint.name call accepted)
  | .finishTransaction id _ | .rollbackDetached id => some (server.finishTransaction connection id accepted)

/-- The tab is none when it is gone. -/
structure State (κ τ : Type) where
  tab : Option (QueryTab κ τ)
  tasks : List (Task κ τ) := []
  server : Server κ τ := fun _ => none

inductive Act (κ τ : Type)
  | beginTransaction
  | createSavepoint
  | rollbackToLatestSavepoint
  | releaseLatestSavepoint
  | finishTransaction (commit : Bool)
  | markTransactionDirty
  /-- Another part of the tab starts or ends a query, or edits a result. -/
  | edit (running pendingResultEdits : Bool)
  | setConnection (connection : Option (ConnectionConfig κ))
  | setActiveSchema (schema : Option Text)
  | closeTab
  /-- The driver serves the call. -/
  | serve (i : Nat) (fresh : τ) (accepted : Bool)
  /-- The answer of the call comes back. -/
  | complete (i : Nat)

variable (s : State κ τ)

namespace State

def perform (action : QueryTab κ τ → QueryTab κ τ × Option (Task κ τ)) : Option (State κ τ) :=
  s.tab.map fun tab => { s with tab := some (action tab).1, tasks := s.tasks ++ (action tab).2.toList }

def serve (s : State κ τ) (replaces : Bool) (i : Nat) (fresh : τ) (accepted : Bool) : Option (State κ τ) :=
  match s.tasks[i]? with
  | none => none
  | some task =>
    if task.stage = .calling then
      (s.server.serve replaces task.connection task.call fresh accepted).map fun (server, answer) =>
        { s with server, tasks := s.tasks.set i { task with stage := .answered answer } }
    else none

/-- The rollback of a transaction that was opened and not adopted. -/
def staleRollback (task : Task κ τ) (id : τ) : Task κ τ :=
  ⟨task.connection, task.requestSeq, .rollbackDetached id, .calling⟩

def complete (i : Nat) : Option (State κ τ) :=
  match s.tasks[i]? with
  | none => none
  | some task =>
    match task.stage with
    | .answered answer =>
      let tasks := s.tasks.set i { task with stage := .done }
      match s.tab with
      | some tab =>
        let (left, stale) := tab.receive task answer
        some { s with tab := some left, tasks := tasks ++ (stale.map (staleRollback task)).toList }
      | none =>
        match answer with
        | .opened id => some { s with tasks := tasks ++ [staleRollback task id] }
        | _ => some { s with tasks }
    | _ => none

def step : Act κ τ → Option (State κ τ)
  | .beginTransaction => s.perform (·.beginTransaction)
  | .createSavepoint => s.perform (·.createSavepoint)
  | .rollbackToLatestSavepoint => s.perform (·.rollbackToLatestSavepoint)
  | .releaseLatestSavepoint => s.perform (·.releaseLatestSavepoint)
  | .finishTransaction commit => s.perform (·.finishTransaction commit)
  | .markTransactionDirty => s.perform fun tab => (tab.markTransactionDirty, none)
  | .edit running pendingResultEdits => s.perform fun tab => ({ tab with running, pendingResultEdits }, none)
  | .setConnection connection => s.perform (·.setConnection connection)
  | .setActiveSchema schema => s.perform (·.setActiveSchema schema)
  | .closeTab => (s.perform (·.rollbackTransactionDetached)).map fun closed => { closed with tab := none }
  | .serve i fresh accepted => s.serve replaces i fresh accepted
  | .complete i => s.complete i

end State

end Ramag.TransactionTab
