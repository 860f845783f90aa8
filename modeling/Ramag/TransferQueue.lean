import Ramag.Domain
import Ramag.Runs

/-!
The queue of the SSH transfers. Enqueueing, executing, cancelling, retrying and
clearing run side by side; each section under the lock of the queue is one step,
and so is what an execution waits for: the checks before the driver is called
and the answer of the driver. The events of a run are kept in a log, the latest
first.
-/
namespace Ramag.TransferQueue
open Strings Domain

def MAX_TRANSFER_HISTORY : Nat := 100
def MAX_QUEUED_TRANSFERS : Nat := 64
def MAX_TRANSFER_WARNINGS : Nat := 100
def MAX_TRANSFER_ERROR_BYTES : Nat := 16 * 1024

inductive TransferDirection
  | Upload
  | Download
  | DownloadArchive
  deriving DecidableEq

inductive TransferStatus
  | Waiting
  | Running
  | Completed
  | Failed
  | Cancelled
  deriving DecidableEq

def TransferStatus.isTerminal : TransferStatus → Bool
  | .Completed | .Failed | .Cancelled => true
  | .Waiting | .Running => false

structure TransferTask (ι ρ : Type) where
  id : ι
  profileId : ρ
  direction : TransferDirection
  localPath : Text
  remotePath : Text
  transferredBytes : Nat := 0
  totalBytes : Nat := 0
  status : TransferStatus := .Waiting
  error : Option Text := none
  warnings : List Text := []

variable {ι ρ : Type} (task : TransferTask ι ρ)

namespace TransferTask

def new (id : ι) (profileId : ρ) (direction : TransferDirection) (localPath remotePath : Text) : TransferTask ι ρ :=
  { id, profileId, direction, localPath, remotePath }

def isTerminal (task : TransferTask ι ρ) : Bool := task.status.isTerminal

def markRunning : TransferTask ι ρ :=
  if task.status = .Waiting then { task with status := .Running } else task

def updateProgress (transferred total : Nat) : TransferTask ι ρ :=
  if task.status = .Running then
    { task with totalBytes := total, transferredBytes := if total = 0 then transferred else min transferred total }
  else task

def finishWithWarnings (result : Except Text Unit) (warnings : List Text) (cancelled : Bool) : TransferTask ι ρ :=
  if task.isTerminal then task
  else
    { task with
      status := if cancelled then .Cancelled else match result with
        | .ok () => .Completed
        | .error _ => .Failed
      error := match result with
        | .ok () => none
        | .error message => some message
      warnings := warnings.take MAX_TRANSFER_WARNINGS }

end TransferTask

def boundedError (message : Text) : Text :=
  if byteLen message ≤ MAX_TRANSFER_ERROR_BYTES then message else takeBytes MAX_TRANSFER_ERROR_BYTES message ++ ['…']

/-- The loop of `prune_history`: the oldest tasks that have ended go until few enough are left. -/
def pruneFrom : Nat → List (TransferTask ι ρ) → List (TransferTask ι ρ)
  | _, [] => []
  | finished, task :: tasks =>
    if finished > MAX_TRANSFER_HISTORY then
      if task.isTerminal then pruneFrom (finished - 1) tasks else task :: pruneFrom finished tasks
    else task :: tasks

def pruneHistory (tasks : List (TransferTask ι ρ)) : List (TransferTask ι ρ) :=
  pruneFrom (tasks.countP TransferTask.isTerminal) tasks

variable [DecidableEq ι]

/-- A change of the first task with the id. -/
def updateTask (id : ι) (change : TransferTask ι ρ → TransferTask ι ρ) : List (TransferTask ι ρ) → List (TransferTask ι ρ)
  | [] => []
  | task :: tasks => if task.id = id then change task :: tasks else task :: updateTask id change tasks

def findTask (id : ι) (tasks : List (TransferTask ι ρ)) : Option (TransferTask ι ρ) :=
  tasks.find? fun task => task.id = id

/-- Whether a task with the id waits, which only a cancellation asks for. -/
def isWaiting (id : ι) (tasks : List (TransferTask ι ρ)) : Bool :=
  tasks.any fun task => task.id = id && task.status = .Waiting

/-! ### Calls -/

/-- What the checks before the driver is called answer. -/
structure Preflight where
  /-- Whether the profile is a production one. -/
  profile : Except Text Bool
  capabilities : Except Text Unit
  remotePath : Except Text Unit
  writePlatform : Except Text Unit

def ensureSftpWritable (production : Bool) : Except Text Unit := if production then .error READ_ONLY_MESSAGE else .ok ()

/-- The checks in their order; the last two are of uploads. -/
def Preflight.run (answers : Preflight) (direction : TransferDirection) : Except Text Unit := do
  let production ← answers.profile
  answers.capabilities
  answers.remotePath
  if direction = .Upload then
    ensureSftpWritable production
    answers.writePlatform
  else .ok ()

/-- What a call is about to do. A cancellation is named by its place in `QueueState.tokens`. -/
inductive Call (ι ρ : Type)
  /-- `begin` -/
  | executing (id : ι)
  /-- The checks of `execute_transfer`. -/
  | preparing (task : TransferTask ι ρ) (token : Nat)
  /-- The driver is at work. -/
  | driving (id : ι) (token : Nat)
  /-- The look at the cancellation when the driver has answered. -/
  | answered (id : ι) (token : Nat) (result : Except Text (List Text))
  /-- `finish` -/
  | finishing (id : ι) (result : Except Text Unit) (warnings : List Text) (cancelled : Bool)
  /-- The execution is over. -/
  | returned (id : ι)
  /-- The first section of `retry_transfer`. -/
  | retrying (id : ι)
  /-- The enqueueing of `retry_transfer`. -/
  | requeuing (task : TransferTask ι ρ)
  /-- A call that is over or was refused. -/
  | ended

inductive Event (ι : Type)
  | enqueued (id : ι)
  /-- A cancellation was accepted, while the task was waiting or later. -/
  | accepted (id : ι) (waiting : Bool)
  /-- The driver was called. -/
  | called (id : ι)
  /-- The driver returned, with `Ok` or an error. -/
  | driven (id : ι) (ok : Bool)
  deriving DecidableEq

structure QueueState (ι ρ : Type) where
  tasks : List (TransferTask ι ρ) := []
  cancellations : ι → Option Nat := fun _ => none
  /-- The flags of the cancellations that were made. -/
  tokens : List Bool := []
  calls : List (Call ι ρ) := []
  log : List (Event ι) := []

inductive Act (ι ρ : Type)
  /-- A request that passes the checks of `enqueue_transfer`; any other does not come to the queue. -/
  | enqueue (id : ι) (profileId : ρ) (direction : TransferDirection) (localPath remotePath : Text)
  | executeTransfer (id : ι)
  | retryTransfer (id : ι)
  /-- The next step of a call. -/
  | move (call : Nat)
  | prepare (call : Nat) (answers : Preflight)
  /-- The driver returns, with its warnings. -/
  | answer (call : Nat) (result : Except Text (List Text))
  /-- The enqueueing of a retry under a new id. -/
  | requeue (call : Nat) (id : ι)
  /-- A progress callback, which may come late. -/
  | progress (id : ι) (transferred total : Nat)
  | cancelTransfer (id : ι)
  /-- `disconnect`, and the saving and deleting of a profile. -/
  | cancelProfileTransfers (profileId : ρ)
  /-- `shutdown` -/
  | cancelAllTransfers
  | clearFinishedTransfers

namespace QueueState

variable (s : QueueState ι ρ) (id : ι)

def goOn (call : Nat) (next : Call ι ρ) : QueueState ι ρ :=
  { s with calls := s.calls.set call next }

def note (event : Event ι) : QueueState ι ρ :=
  { s with log := event :: s.log }

/-- `prune_history` -/
def prune : QueueState ι ρ :=
  { s with tasks := pruneHistory s.tasks }

/-- `TransferStore::enqueue`; a new id is one that no task had. -/
def enqueue (task : TransferTask ι ρ) : Option (QueueState ι ρ) :=
  if s.tasks.countP (fun existing => !existing.isTerminal) ≥ MAX_QUEUED_TRANSFERS then none
  else
    some { s with
      tasks := pruneHistory s.tasks ++ [task]
      cancellations := Function.update s.cancellations task.id (some s.tokens.length)
      tokens := s.tokens ++ [false]
      log := .enqueued task.id :: s.log }

/-- A waiting task is ended at once, by `cancel_transfer` and `cancel_tasks`. -/
def endWaiting : QueueState ι ρ :=
  { s with
    tasks := updateTask id (fun task => task.finishWithWarnings (.error "传输已取消") [] true) s.tasks
    cancellations := Function.update s.cancellations id none
    log := .accepted id true :: s.log }

/-- A task that runs is told to stop. -/
def requestStop (token : Nat) : QueueState ι ρ :=
  { s with tokens := s.tokens.set token true, log := .accepted id false :: s.log }

/-- `cancel_transfer`, which answers `false` without a cancellation under the id. -/
def cancelTransfer : QueueState ι ρ :=
  match s.cancellations id with
  | none => s
  | some token => if isWaiting id s.tasks then (s.endWaiting id).prune else s.requestStop id token

/-- One task of `cancel_tasks`. -/
def cancelOne : QueueState ι ρ :=
  if isWaiting id s.tasks then s.endWaiting id
  else
    match s.cancellations id with
    | some token => s.requestStop id token
    | none => s

/-- `cancel_profile_transfers` and `cancel_all_transfers`: the tasks that have not ended are cancelled in turn. -/
def cancelMatching (matching : TransferTask ι ρ → Bool) : QueueState ι ρ :=
  (((s.tasks.filter fun task => matching task && !task.isTerminal).map TransferTask.id).foldl cancelOne s).prune

/-- `TransferStore::finish` -/
def finish (result : Except Text Unit) (warnings : List Text) (cancelled : Bool) : QueueState ι ρ :=
  prune { s with
    tasks := updateTask id (fun task => task.finishWithWarnings (result.mapError boundedError) warnings cancelled) s.tasks
    cancellations := Function.update s.cancellations id none }

def move (call : Nat) : Call ι ρ → Option (QueueState ι ρ)
  | .executing id =>
    match findTask id s.tasks with
    | none => some (s.goOn call .ended)
    | some task =>
      if task.status ≠ .Waiting then some (s.goOn call .ended)
      else
        let running := { s with tasks := updateTask id TransferTask.markRunning s.tasks }
        match s.cancellations id with
        | none => some (running.goOn call .ended)
        | some token => some (running.goOn call (.preparing task.markRunning token))
  | .answered id token result =>
    let cancelled := s.tokens[token]?.getD false
    match result with
    | .ok warnings => some (s.goOn call (.finishing id (.ok ()) warnings cancelled))
    | .error message => some (s.goOn call (.finishing id (.error message) [] cancelled))
  | .finishing id result warnings cancelled => some ((s.finish id result warnings cancelled).goOn call (.returned id))
  | .retrying id =>
    match findTask id s.tasks with
    | some task => some (s.goOn call (if task.isTerminal then .requeuing task else .ended))
    | none => some (s.goOn call .ended)
  | .preparing .. | .driving .. | .returned _ | .requeuing _ | .ended => none

def step [DecidableEq ρ] (s : QueueState ι ρ) : Act ι ρ → Option (QueueState ι ρ)
  | .enqueue id profileId direction localPath remotePath =>
    if .enqueued id ∈ s.log then none
    else some ((s.enqueue (.new id profileId direction localPath remotePath)).getD s)
  | .executeTransfer id => some { s with calls := s.calls ++ [.executing id] }
  | .retryTransfer id => some { s with calls := s.calls ++ [.retrying id] }
  | .move call => s.calls[call]?.bind (s.move call)
  | .prepare call answers =>
    match s.calls[call]? with
    | some (.preparing task token) =>
      match answers.run task.direction with
      | .ok () => some ((s.note (.called task.id)).goOn call (.driving task.id token))
      | .error message => some (s.goOn call (.finishing task.id (.error ("未知错误: " ++ message)) [] false))
    | _ => none
  | .answer call result =>
    match s.calls[call]? with
    | some (.driving id token) => some ((s.note (.driven id result.toBool)).goOn call (.answered id token result))
    | _ => none
  | .requeue call id =>
    match s.calls[call]? with
    | some (.requeuing task) =>
      if .enqueued id ∈ s.log then none
      else
        some (((s.enqueue (.new id task.profileId task.direction task.localPath task.remotePath)).getD s).goOn call .ended)
    | _ => none
  | .progress id transferred total => some { s with tasks := updateTask id (fun task => task.updateProgress transferred total) s.tasks }
  | .cancelTransfer id => some (s.cancelTransfer id)
  | .cancelProfileTransfers profileId => some (s.cancelMatching fun task => task.profileId = profileId)
  | .cancelAllTransfers => some (s.cancelMatching fun _ => true)
  | .clearFinishedTransfers => some { s with tasks := s.tasks.filter fun task => !task.isTerminal }

end QueueState

/-! ### The life of a transfer -/

open Runs List

variable {ι ρ : Type}

/-- Some of the oldest tasks that have ended are missing. -/
structure PrunesOldest (tasks kept : List (TransferTask ι ρ)) : Prop where
  sublist : kept.Sublist tasks
  unended : kept.filter (fun task => !task.isTerminal) = tasks.filter fun task => !task.isTerminal
  oldest : kept.filter TransferTask.isTerminal =
    (tasks.filter TransferTask.isTerminal).drop (tasks.countP TransferTask.isTerminal - MAX_TRANSFER_HISTORY)

section
variable (finished : Nat) (tasks : List (TransferTask ι ρ))
include finished tasks

theorem pruneFrom_sublist : (pruneFrom finished tasks).Sublist tasks := by
  fun_induction pruneFrom finished tasks with
  | case1 => exact List.Sublist.refl _
  | case2 _ _ _ _ _ ih => exact ih.cons _
  | case3 _ _ _ _ _ ih => exact ih.cons_cons _
  | case4 => exact List.Sublist.refl _

theorem pruneFrom_unended :
    (pruneFrom finished tasks).filter (fun task => !task.isTerminal) = tasks.filter fun task => !task.isTerminal := by
  fun_induction pruneFrom finished tasks with
  | case1 => rfl
  | case2 _ _ _ _ ended ih | case3 _ _ _ _ ended ih => simp [ih, ended]

  | case4 => rfl

theorem pruneFrom_oldest : (pruneFrom finished tasks).filter TransferTask.isTerminal =
      (tasks.filter TransferTask.isTerminal).drop (finished - MAX_TRANSFER_HISTORY) := by
  fun_induction pruneFrom finished tasks with
  | case1 => simp
  | case2 finished task tasks many ended ih =>
    have one : finished - MAX_TRANSFER_HISTORY = finished - 1 - MAX_TRANSFER_HISTORY + 1 := by omega
    rw [ih, filter_cons_of_pos ended, one, drop_succ_cons]
  | case3 finished task tasks many unended ih => rw [filter_cons_of_neg unended, filter_cons_of_neg unended, ih]
  | case4 finished task tasks few =>
    have none : finished - MAX_TRANSFER_HISTORY = 0 := by omega
    rw [none, drop_zero]

end

theorem pruneHistory_oldest (tasks : List (TransferTask ι ρ)) : PrunesOldest tasks (pruneHistory tasks) :=
  ⟨pruneFrom_sublist _ tasks, pruneFrom_unended _ tasks, pruneFrom_oldest _ tasks⟩

theorem pruneHistory_short (tasks : List (TransferTask ι ρ)) :
    (pruneHistory tasks).countP TransferTask.isTerminal ≤ MAX_TRANSFER_HISTORY := by
  rw [countP_eq_length_filter, (pruneHistory_oldest tasks).oldest, length_drop, countP_eq_length_filter]
  omega

theorem pruneHistory_unended (tasks : List (TransferTask ι ρ)) :
    (pruneHistory tasks).countP (fun task => !task.isTerminal) = tasks.countP fun task => !task.isTerminal := by
  rw [countP_eq_length_filter, (pruneHistory_oldest tasks).unended, countP_eq_length_filter]

/-! ### Changes of one task -/

/-- A task goes on in its life, and one that has ended stays as it is. -/
structure Follows (before after : TransferTask ι ρ) : Prop where
  id : after.id = before.id
  ended : before.isTerminal = true → after = before
  status : after.status = before.status ∨ before.status = .Waiting ∧ (after.status = .Running ∨ after.status = .Cancelled) ∨
    before.status = .Running ∧ after.isTerminal = true

theorem Follows.refl (task : TransferTask ι ρ) : Follows task task := ⟨rfl, fun _ => rfl, .inl rfl⟩

theorem Follows.unended {before after : TransferTask ι ρ} (follows : Follows before after)
    (unended : after.isTerminal = false) : before.isTerminal = false := by
  by_contra ended
  rw [Bool.not_eq_false] at ended
  simp [follows.ended ended, ended] at unended

section Update

variable [DecidableEq ι] {id : ι}
  {change : TransferTask ι ρ → TransferTask ι ρ}
  {tasks : List (TransferTask ι ρ)}

theorem updateTask_forall₂ {R : TransferTask ι ρ → TransferTask ι ρ → Prop}
    (refl : ∀ task, R task task) (changes : ∀ task ∈ tasks, task.id = id → R task (change task)) :
    List.Forall₂ R tasks (updateTask id change tasks) := by
  induction tasks with
  | nil => exact .nil
  | cons task tasks ih =>
    rw [updateTask]
    split_ifs with same
    · exact .cons (changes task mem_cons_self same) (forall₂_same.mpr fun task _ => refl task)
    · exact .cons (refl task) (ih fun task mem => changes task (.tail _ mem))

theorem updateTask_other (keeps : ∀ task, (change task).id = task.id) {other : ι} (apart : other ≠ id) :
    (updateTask id change tasks).filter (fun task => task.id = other) = tasks.filter fun task => task.id = other := by
  induction tasks with
  | nil => rfl
  | cons task tasks ih =>
    rw [updateTask]
    split_ifs with same
    · have gone : ¬ task.id = other := fun equal => apart (equal.symm.trans same)
      rw [filter_cons_of_neg (by simpa [keeps] using gone), filter_cons_of_neg (by simpa using gone)]
    · by_cases mine : task.id = other
      · rw [filter_cons_of_pos (by simpa using mine), filter_cons_of_pos (by simpa using mine), ih]
      · rw [filter_cons_of_neg (by simpa using mine), filter_cons_of_neg (by simpa using mine), ih]

theorem updateTask_none (none : tasks.filter (fun task => task.id = id) = []) : updateTask id change tasks = tasks := by
  induction tasks with
  | nil => rfl
  | cons task tasks ih =>
    by_cases same : task.id = id
    · rw [filter_cons_of_pos (by simpa using same)] at none
      cases none
    · rw [filter_cons_of_neg (by simpa using same)] at none
      rw [updateTask, if_neg same, ih none]

theorem updateTask_one (keeps : ∀ task, (change task).id = task.id) {task : TransferTask ι ρ}
    (one : tasks.filter (fun task => task.id = id) = [task]) :
    (updateTask id change tasks).filter (fun task => task.id = id) = [change task] := by
  induction tasks with
  | nil => cases one
  | cons first tasks ih =>
    rw [updateTask]
    by_cases same : first.id = id
    · rw [filter_cons_of_pos (by simpa using same)] at one
      obtain ⟨rfl, rest⟩ := List.cons.inj one
      rw [if_pos same, filter_cons_of_pos (by simpa [keeps] using same), rest]
    · rw [filter_cons_of_neg (by simpa using same)] at one
      rw [if_neg same, filter_cons_of_neg (by simpa using same), ih one]

omit [DecidableEq ι] in
@[simp] theorem markRunning_id (task : TransferTask ι ρ) : task.markRunning.id = task.id := by
  unfold TransferTask.markRunning
  split <;> rfl

omit [DecidableEq ι] in
@[simp] theorem updateProgress_id (task : TransferTask ι ρ) (transferred total : Nat) :
    (task.updateProgress transferred total).id = task.id := by
  unfold TransferTask.updateProgress
  split <;> rfl

omit [DecidableEq ι] in
@[simp] theorem updateProgress_status (task : TransferTask ι ρ) (transferred total : Nat) :
    (task.updateProgress transferred total).status = task.status := by
  unfold TransferTask.updateProgress
  split <;> rfl

omit [DecidableEq ι] in
@[simp] theorem finishWithWarnings_id (task : TransferTask ι ρ) (result : Except Text Unit)
    (warnings : List Text) (cancelled : Bool) : (task.finishWithWarnings result warnings cancelled).id = task.id := by
  unfold TransferTask.finishWithWarnings
  split <;> rfl

omit [DecidableEq ι] in
theorem finishWithWarnings_status {task : TransferTask ι ρ} (unended : task.isTerminal = false)
    (result : Except Text Unit) (warnings : List Text) (cancelled : Bool) : (task.finishWithWarnings result warnings cancelled).status =
      if cancelled then .Cancelled else if result.toBool then .Completed else .Failed := by
  unfold TransferTask.finishWithWarnings
  rw [if_neg (by simp [unended])]
  cases result <;> rfl

end Update

/-- The id that the call works for, or that it worked for to the end. -/
def Call.worksFor : Call ι ρ → Option ι
  | .preparing task _ => some task.id
  | .driving id _ | .answered id _ _ | .finishing id _ _ _ | .returned id => some id
  | _ => none

def Event.id : Event ι → ι
  | .enqueued id | .accepted id _ | .called id | .driven id _ => id

/-- A cancellation of the task was accepted. -/
def Accepted (log : List (Event ι)) (id : ι) : Prop := ∃ waiting, .accepted id waiting ∈ log

/-- The final status tells what happened. -/
structure Outcome (log : List (Event ι)) (task : TransferTask ι ρ) : Prop where
  completed : task.status = .Completed ↔ .driven task.id true ∈ log
  cancelled : task.status = .Cancelled ↔ Accepted log task.id ∧ .driven task.id true ∉ log
  failed : task.status = .Failed ↔ ¬ Accepted log task.id ∧ .driven task.id true ∉ log

/-- What there is of one id. -/
structure View (ι ρ : Type) where
  tasks : List (TransferTask ι ρ)
  handle : Option Nat
  flag : Option Bool
  calls : List (Call ι ρ)
  log : List (Event ι)

def QueueState.view [DecidableEq ι] (s : QueueState ι ρ) (id : ι) : View ι ρ where
  tasks := s.tasks.filter fun task => task.id = id
  handle := s.cancellations id
  flag := (s.cancellations id).bind fun token => s.tokens[token]?
  calls := s.calls.filter fun call => call.worksFor = some id
  log := s.log.filter fun event => event.id = id

/-- What has been noted of the task when its execution stands at this call. -/
def Call.Stands (id : ι) (token : Nat) (log : List (Event ι)) : Call ι ρ → Prop
  | .preparing task token' => task.id = id ∧ token' = token ∧ .called id ∉ log ∧ .driven id true ∉ log
  | .driving id' token' => id' = id ∧ token' = token ∧ .driven id true ∉ log
  | .answered id' token' result => id' = id ∧ token' = token ∧ (.driven id true ∈ log ↔ result.toBool = true)
  | .finishing id' result _ _ => id' = id ∧ (.driven id true ∈ log ↔ result.toBool = true)
  | _ => False

namespace View

structure Waits (id : ι) (v : View ι ρ) : Prop where
  one : ∃ task, v.tasks = [task] ∧ task.status = .Waiting
  handle : ∃ token, v.handle = some token
  flag : v.flag = some false
  calls : v.calls = []
  log : v.log = [.enqueued id]

structure Runs [DecidableEq ι] (id : ι) (v : View ι ρ) : Prop where
  one : ∃ task, v.tasks = [task] ∧ task.status = .Running
  stands : ∃ call token, v.calls = [call] ∧ v.handle = some token ∧ call.Stands id token v.log
  flag : ∃ accepted, v.flag = some accepted ∧ (accepted = true ↔ .accepted id false ∈ v.log)
  enqueued : .enqueued id ∈ v.log
  late : .accepted id true ∉ v.log
  once : v.log.count (.called id) ≤ 1

structure Over [DecidableEq ι] (id : ι) (v : View ι ρ) : Prop where
  tasks : v.tasks = [] ∨ ∃ task, v.tasks = [task] ∧ task.isTerminal = true ∧ Outcome v.log task
  handle : v.handle = none
  calls : ∀ call ∈ v.calls, call = .returned id
  enqueued : .enqueued id ∈ v.log
  late : .accepted id true ∈ v.log → .called id ∉ v.log
  once : v.log.count (.called id) ≤ 1

/-- An id is not used yet, or its task waits, or runs, or has ended. -/
def Fine [DecidableEq ι] (id : ι) (v : View ι ρ) : Prop :=
  v = ⟨[], none, none, [], []⟩ ∨ v.Waits id ∨ v.Runs id ∨ v.Over id

end View

end Ramag.TransferQueue
