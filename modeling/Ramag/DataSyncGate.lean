import Mathlib.Algebra.Order.Ring.Int
import Mathlib.Algebra.Order.Ring.Nat
import Ramag.Strings

/-!
The application-wide gate of data synchronisation. `DataSyncGate` admits one
task, shows it until the user acknowledges its result, and hands its executor a
permit. Every operation holds the lock of the gate, so an interleaving of calls
is a list of operations (`Op`), each carrying any permit or task id at all.
`History` keeps what happened to each task that was ever admitted, and
`Consistent` is the invariant that every run keeps.
-/
namespace Ramag.DataSyncGate
open Strings List

/-- A UUID, which the gate only compares. -/
abbrev DataSyncTaskId := Nat

structure DataSyncExecutionContext where
  sourceConnection : Text
  sourceScope : Text
  targetConnection : Text
  targetScope : Text

inductive DataSyncGatePhase
  | Running
  | Cancelling
  | Completed
  | Failed
  | Cancelled
  deriving DecidableEq

def DataSyncGatePhase.terminal : DataSyncGatePhase → Bool
  | .Completed | .Failed | .Cancelled => true
  | .Running | .Cancelling => false

inductive DataSyncStage
  | Preparing
  | VerifyingTarget
  | CreatingStructure
  | Scanning
  | Writing
  | Finalizing
  | Cancelling

structure DataSyncProgress where
  stage : DataSyncStage := .Preparing
  object : Text := []
  objectsDone : Nat := 0
  objectsTotal : Option Nat := none
  scanned : Nat := 0
  inserted : Nat := 0
  skipped : Nat := 0
  failed : Nat := 0
  warnings : Nat := 0
  bytes : Nat := 0
  elapsedMs : Nat := 0

structure DataSyncSummary where
  objects : Nat := 0
  scanned : Nat := 0
  inserted : Nat := 0
  skipped : Nat := 0
  failed : Nat := 0
  bytes : Nat := 0
  elapsedMs : Nat := 0
  cancelled : Bool := false
  warnings : List Text := []
  warningsOverflow : Nat := 0

structure DataSyncGateSnapshot where
  taskId : DataSyncTaskId
  phase : DataSyncGatePhase
  context : DataSyncExecutionContext
  progress : DataSyncProgress
  summary : Option DataSyncSummary
  error : Option Text

/-- Addition of `u64` counters that stops at the largest value. -/
def saturatingAdd (a b : Nat) : Nat := min (a + b) (2 ^ 64 - 1)

/-- A permit. `cancel` is the cell of the shared cancellation flag. -/
structure DataSyncPermit where
  generation : Nat
  taskId : DataSyncTaskId
  cancel : Nat

structure ActiveTask where
  generation : Nat
  taskId : DataSyncTaskId
  phase : DataSyncGatePhase
  context : DataSyncExecutionContext
  progress : DataSyncProgress
  summary : Option DataSyncSummary
  error : Option Text
  cancel : Nat

/-- The gate, and the cancellation flags that it has allocated. -/
structure Gate where
  generation : Nat := 0
  active : Option ActiveTask := none
  flags : List Bool := []

variable (gate : Gate) (taskId : DataSyncTaskId)

/-- The task as `begin` admits it. -/
def admitted (context : DataSyncExecutionContext) : ActiveTask :=
  { generation := (gate.generation + 1) % 2 ^ 64, taskId, phase := .Running, context, progress := {},
    summary := none, error := none, cancel := gate.flags.length }

def begin (context : DataSyncExecutionContext) : Gate × Option DataSyncPermit :=
  match gate.active with
  | some _ => (gate, none)
  | none =>
    let task := admitted gate taskId context
    ({ generation := task.generation, flags := gate.flags ++ [false], active := some task },
     some { generation := task.generation, taskId, cancel := task.cancel })

def isBlocking : Bool := gate.active.isSome

/-- `elapsed` is the time since the task began, in milliseconds. -/
def snapshot (elapsed : Nat) : Option DataSyncGateSnapshot :=
  gate.active.map fun active =>
    let progress := if active.phase.terminal then active.progress
      else { active.progress with elapsedMs := max active.progress.elapsedMs (min elapsed (2 ^ 64 - 1)) }
    { taskId := active.taskId, phase := active.phase, context := active.context, progress,
      summary := active.summary, error := active.error }

variable (permit : DataSyncPermit)

/-- The active task, when the permit is its own. -/
def currentTask : Option ActiveTask :=
  gate.active.filter fun active => active.generation = permit.generation ∧ active.taskId = permit.taskId

def updateProgress (progress : DataSyncProgress) : Gate × Bool :=
  match currentTask gate permit with
  | none => (gate, false)
  | some active =>
    if active.phase.terminal then (gate, false)
    else
      let progress := if active.phase = .Cancelling then { progress with stage := .Cancelling } else progress
      ({ gate with active := some { active with progress } }, true)

/-- What an accepted cancellation does to the task and its flag. -/
def markCancelling (active : ActiveTask) : Gate :=
  { gate with
    flags := gate.flags.set active.cancel true
    active := some { active with phase := .Cancelling, progress := { active.progress with stage := .Cancelling } } }

def requestCancel : Gate × Bool :=
  match currentTask gate permit with
  | none => (gate, false)
  | some active => if active.phase ≠ .Running then (gate, false) else (markCancelling gate active, true)

def requestCancelCurrent : Gate × Bool :=
  match gate.active with
  | none => (gate, false)
  | some active => if active.taskId ≠ taskId ∨ active.phase ≠ .Running then (gate, false) else (markCancelling gate active, true)

def MAX_SYNC_ERROR_BYTES : Nat := 128 * 1024

def compactText (text : Text) (maxBytes : Nat) : Text :=
  if byteLen text ≤ maxBytes then text else takeBytes maxBytes text ++ ['…']

/-- The task with its result merged into the progress. -/
def finished (active : ActiveTask) (phase : DataSyncGatePhase) (summary : DataSyncSummary) (error : Option Text) : ActiveTask :=
  { active with
    phase
    progress := { active.progress with
      scanned := max active.progress.scanned summary.scanned
      inserted := max active.progress.inserted summary.inserted
      skipped := max active.progress.skipped summary.skipped
      failed := max active.progress.failed summary.failed
      bytes := max active.progress.bytes summary.bytes
      warnings := max active.progress.warnings (saturatingAdd summary.warnings.length summary.warningsOverflow)
      elapsedMs := max active.progress.elapsedMs summary.elapsedMs }
    summary := some summary
    error }

def finish (phase : DataSyncGatePhase) (summary : DataSyncSummary) (error : Option Text) : Gate × Bool :=
  match currentTask gate permit with
  | none => (gate, false)
  | some active =>
    if active.phase.terminal then (gate, false)
    else ({ gate with active := some (finished active phase summary error) }, true)

variable (summary : DataSyncSummary)

def finishCompleted : Gate × Bool :=
  finish gate permit .Completed summary none

def finishCancelled : Gate × Bool :=
  finish gate permit .Cancelled { summary with cancelled := true } none

def finishFailed (error : Text) : Gate × Bool :=
  finish gate permit .Failed summary (some (compactText error MAX_SYNC_ERROR_BYTES))

def acknowledgeAndRelease : Gate × Bool :=
  match currentTask gate permit with
  | none => (gate, false)
  | some active => if active.phase.terminal then ({ gate with active := none }, true) else (gate, false)

def acknowledgeCurrent : Gate × Bool :=
  match gate.active with
  | none => (gate, false)
  | some active =>
    if active.taskId ≠ taskId ∨ active.phase.terminal = false then (gate, false)
    else ({ gate with active := none }, true)

/-- One call. A permit is a plain value without a destructor, so dropping one
    is an operation that the gate does not see. -/
inductive Op
  | begin (taskId : DataSyncTaskId) (context : DataSyncExecutionContext)
  | updateProgress (permit : DataSyncPermit) (progress : DataSyncProgress)
  | requestCancel (permit : DataSyncPermit)
  | requestCancelCurrent (taskId : DataSyncTaskId)
  | finishCompleted (permit : DataSyncPermit) (summary : DataSyncSummary)
  | finishCancelled (permit : DataSyncPermit) (summary : DataSyncSummary)
  | finishFailed (permit : DataSyncPermit) (summary : DataSyncSummary) (error : Text)
  | dropPermit (permit : DataSyncPermit)
  | acknowledgeAndRelease (permit : DataSyncPermit)
  | acknowledgeCurrent (taskId : DataSyncTaskId)

/-- The gate after a call, and whether the call was accepted. -/
def apply : Op → Gate × Bool
  | .begin taskId context => ((begin gate taskId context).1, (begin gate taskId context).2.isSome)
  | .updateProgress permit progress => updateProgress gate permit progress
  | .requestCancel permit => requestCancel gate permit
  | .requestCancelCurrent taskId => requestCancelCurrent gate taskId
  | .finishCompleted permit summary => finishCompleted gate permit summary
  | .finishCancelled permit summary => finishCancelled gate permit summary
  | .finishFailed permit summary error => finishFailed gate permit summary error
  | .dropPermit _ => (gate, true)
  | .acknowledgeAndRelease permit => acknowledgeAndRelease gate permit
  | .acknowledgeCurrent taskId => acknowledgeCurrent gate taskId

def Op.begins : Op → Bool
  | .begin _ _ => true
  | _ => false

def Op.cancels : Op → Bool
  | .requestCancel _ | .requestCancelCurrent _ => true
  | _ => false

/-- The call acknowledges this very task. -/
def Op.Acknowledges (op : Op) (active : ActiveTask) : Prop :=
  (∃ permit, op = .acknowledgeAndRelease permit ∧ active.generation = permit.generation ∧
    active.taskId = permit.taskId) ∨ op = .acknowledgeCurrent active.taskId

/-- What a call can do to the gate: nothing, or one of five changes, each with
    the guard under which it happens. -/
inductive Effect (gate : Gate) (op : Op) : Prop
  | unchanged (same : (apply gate op).1 = gate) (refused : op.cancels = true → (apply gate op).2 = false)
  | began (next : ActiveTask) (idle : gate.active = none) (quiet : op.cancels = false) (begins : op.begins = true)
      (generation : next.generation = (gate.generation + 1) % 2 ^ 64) (cell : next.cancel = gate.flags.length)
      (running : next.phase = .Running)
      (after : (apply gate op).1 = ⟨(gate.generation + 1) % 2 ^ 64, some next, gate.flags ++ [false]⟩)
  | updated (active : ActiveTask) (progress : DataSyncProgress) (current : gate.active = some active)
      (quiet : op.cancels = false) (open_ : active.phase.terminal = false)
      (stage : active.phase = .Cancelling → progress.stage = .Cancelling)
      (after : (apply gate op).1 = { gate with active := some { active with progress } })
  | cancelled (active : ActiveTask) (current : gate.active = some active) (asked : op.cancels = true)
      (running : active.phase = .Running) (accepted : (apply gate op).2 = true)
      (after : (apply gate op).1 = markCancelling gate active)
  | finished (active next : ActiveTask) (current : gate.active = some active) (quiet : op.cancels = false)
      (open_ : active.phase.terminal = false) (closed : next.phase.terminal = true)
      (generation : next.generation = active.generation) (taskId : next.taskId = active.taskId)
      (cell : next.cancel = active.cancel) (stage : next.progress.stage = active.progress.stage)
      (after : (apply gate op).1 = { gate with active := some next })
  | released (active : ActiveTask) (current : gate.active = some active) (quiet : op.cancels = false)
      (closed : active.phase.terminal = true) (acknowledged : op.Acknowledges active)
      (after : (apply gate op).1 = { gate with active := none })

private theorem currentTask_some {gate : Gate} {permit : DataSyncPermit} {active : ActiveTask}
    (found : currentTask gate permit = some active) :
    gate.active = some active ∧ active.generation = permit.generation ∧ active.taskId = permit.taskId := by
  simpa [currentTask, Option.filter_eq_some_iff] using found

private theorem finish_effect (op : Op) (permit : DataSyncPermit) (phase : DataSyncGatePhase)
    (summary : DataSyncSummary) (error : Option Text) (quiet : op.cancels = false)
    (closed : phase.terminal = true) (run : apply gate op = finish gate permit phase summary error) : Effect gate op := by
  cases found : currentTask gate permit with
  | none => exact .unchanged (by simp [run, finish, found]) (by simp [quiet])
  | some active =>
    obtain ⟨current, _, _⟩ := currentTask_some found
    by_cases terminal : active.phase.terminal = true
    · exact .unchanged (by simp [run, finish, found, terminal]) (by simp [quiet])
    · have open_ : active.phase.terminal = false := by simpa using terminal
      exact .finished active (finished active phase summary error) current quiet open_ closed rfl rfl rfl rfl
        (by simp [run, finish, found, open_])

theorem apply_effect (op : Op) : Effect gate op := by
  cases op with
  | begin taskId context =>
    cases idle : gate.active with
    | some active => exact .unchanged (by simp [apply, begin, idle]) (by simp [Op.cancels])
    | none => exact .began (admitted gate taskId context) idle rfl rfl rfl rfl rfl (by simp [apply, begin, idle, admitted])
  | updateProgress permit progress =>
    cases found : currentTask gate permit with
    | none => exact .unchanged (by simp [apply, updateProgress, found]) (by simp [Op.cancels])
    | some active =>
      obtain ⟨current, _, _⟩ := currentTask_some found
      by_cases terminal : active.phase.terminal = true
      · exact .unchanged (by simp [apply, updateProgress, found, terminal]) (by simp [Op.cancels])
      have open_ : active.phase.terminal = false := by simpa using terminal
      refine .updated active _ current rfl open_ ?_ (by simp only [apply, updateProgress, found]; rw [if_neg terminal])
      intro cancelling
      simp [cancelling]
  | requestCancel permit =>
    cases found : currentTask gate permit with
    | none => exact .unchanged (by simp [apply, requestCancel, found]) (by simp [apply, requestCancel, found])
    | some active =>
      obtain ⟨current, _, _⟩ := currentTask_some found
      by_cases running : active.phase = .Running
      · exact .cancelled active current rfl running (by simp [apply, requestCancel, found, running])
          (by simp [apply, requestCancel, found, running])
      · exact .unchanged (by simp [apply, requestCancel, found, running])
          (by simp [apply, requestCancel, found, running])
  | requestCancelCurrent taskId =>
    cases current : gate.active with
    | none =>
      exact .unchanged (by simp [apply, requestCancelCurrent, current])
        (by simp [apply, requestCancelCurrent, current])
    | some active =>
      by_cases refused : active.taskId ≠ taskId ∨ active.phase ≠ .Running
      · exact .unchanged (by simp only [apply, requestCancelCurrent, current]; rw [if_pos refused])
          (by simp only [apply, requestCancelCurrent, current]; rw [if_pos refused]; simp)
      have running : active.phase = .Running := by
        by_contra other
        exact refused (.inr other)
      exact .cancelled active current rfl running
        (by simp only [apply, requestCancelCurrent, current]; rw [if_neg refused])
        (by simp only [apply, requestCancelCurrent, current]; rw [if_neg refused])
  | finishCompleted permit summary | finishCancelled permit summary | finishFailed permit summary error => exact finish_effect gate _ permit _ _ _ rfl rfl rfl

  | dropPermit permit => exact .unchanged rfl (by simp [Op.cancels])
  | acknowledgeAndRelease permit =>
    cases found : currentTask gate permit with
    | none => exact .unchanged (by simp [apply, acknowledgeAndRelease, found]) (by simp [Op.cancels])
    | some active =>
      obtain ⟨current, gen, taskId⟩ := currentTask_some found
      by_cases terminal : active.phase.terminal = true
      · exact .released active current rfl terminal (.inl ⟨permit, rfl, gen, taskId⟩)
          (by simp [apply, acknowledgeAndRelease, found, terminal])
      · exact .unchanged (by simp [apply, acknowledgeAndRelease, found, terminal]) (by simp [Op.cancels])
  | acknowledgeCurrent taskId =>
    cases current : gate.active with
    | none => exact .unchanged (by simp [apply, acknowledgeCurrent, current]) (by simp [Op.cancels])
    | some active =>
      by_cases refused : active.taskId ≠ taskId ∨ active.phase.terminal = false
      · exact .unchanged (by simp only [apply, acknowledgeCurrent, current]; rw [if_pos refused])
          (by simp [Op.cancels])
      · simp only [not_or, ne_eq, not_not, Bool.not_eq_false] at refused
        exact .released active current rfl refused.2 (.inr (by rw [refused.1]))
          (by simp [apply, acknowledgeCurrent, current, refused])

/-- What happened to one admitted task. -/
structure History where
  permit : DataSyncPermit
  cancelsAccepted : Nat := 0
  finishes : Nat := 0
  released : Bool := false

/-- The histories after a call, read off the gate before and after it: a task
    is admitted when the gate becomes occupied and released when it becomes
    free, and finishes when its phase becomes terminal. -/
def record (op : Op) (tasks : List History) : List History :=
  match gate.active, (apply gate op).1.active with
  | none, none => tasks
  | none, some next => tasks ++ [{ permit := ⟨next.generation, next.taskId, next.cancel⟩ }]
  | some active, none => tasks.modify active.cancel fun h => { h with released := true }
  | some active, some next => tasks.modify active.cancel fun h =>
      { h with
        cancelsAccepted := h.cancelsAccepted + (if op.cancels && (apply gate op).2 then 1 else 0)
        finishes := h.finishes + (if !active.phase.terminal && next.phase.terminal then 1 else 0) }

structure Run where
  gate : Gate := {}
  tasks : List History := []

def step (run : Run) (op : Op) : Run := ⟨(apply run.gate op).1, record run.gate op run.tasks⟩

def runOps (ops : List Op) : Run := ops.foldl step {}

/-- What the history of the task that occupies the gate says about it. -/
structure Current (active : ActiveTask) (h : History) : Prop where
  permit : h.permit = ⟨active.generation, active.taskId, active.cancel⟩
  held : h.released = false
  finishes : h.finishes = if active.phase.terminal then 1 else 0
  cancelling : 0 < h.cancelsAccepted → active.phase ≠ .Running ∧ active.progress.stage = .Cancelling
  stage : active.phase = .Cancelling → active.progress.stage = .Cancelling

/-- The history of the `i`-th admitted task agrees with the gate. -/
structure Recorded (gate : Gate) (i : Nat) (h : History) : Prop where
  generation : h.permit.generation = (i + 1) % 2 ^ 64
  cell : h.permit.cancel = i
  flag : gate.flags[i]? = some (decide (0 < h.cancelsAccepted))
  current : ∀ active, gate.active = some active → active.cancel = i → Current active h
  settled : (∀ active, gate.active = some active → active.cancel ≠ i) → h.released = true ∧ h.finishes = 1

/-- The invariant of every run: only the task admitted last can occupy the
    gate, and every history agrees with the gate. -/
structure Consistent (run : Run) : Prop where
  cells : run.gate.flags.length = run.tasks.length
  counter : run.gate.generation = run.tasks.length % 2 ^ 64
  last : ∀ active, run.gate.active = some active → active.cancel + 1 = run.tasks.length
  recorded : ∀ i h, run.tasks[i]? = some h → Recorded run.gate i h

variable {run : Run}

/-- The step of the invariant for a call that changes only the task in the gate
    and adds to its own history. -/
private theorem consistent_modify {gate : Gate} {active next : ActiveTask} {f : History → History}
    (inv : Consistent run) (current : run.gate.active = some active) (after : gate.active = some next)
    (gen : gate.generation = run.gate.generation) (cell : next.cancel = active.cancel)
    (length : gate.flags.length = run.gate.flags.length) (others : ∀ i, i ≠ active.cancel → gate.flags[i]? = run.gate.flags[i]?)
    (permit : ∀ h, (f h).permit = h.permit) (own : ∀ h, Recorded run.gate active.cancel h → Current active h →
      gate.flags[active.cancel]? = some (decide (0 < (f h).cancelsAccepted)) ∧ Current next (f h)) :
    Consistent ⟨gate, run.tasks.modify active.cancel f⟩ where
  cells := by simpa [length] using inv.cells
  counter := by simpa [gen] using inv.counter
  last := by
    intro other same
    obtain rfl : next = other := by simpa [after] using same
    simpa [cell] using inv.last active current
  recorded := by
    intro i h found
    by_cases mine : active.cancel = i
    · subst mine
      obtain ⟨old, oldFound, rfl⟩ : ∃ old, run.tasks[active.cancel]? = some old ∧ f old = h := by simpa using found
      have before := inv.recorded _ _ oldFound
      obtain ⟨flag, now⟩ := own old before (before.current active current rfl)
      refine ⟨by rw [permit]; exact before.generation, by rw [permit]; exact before.cell, flag, ?_, ?_⟩
      · intro other same _
        obtain rfl : next = other := by simpa [after] using same
        exact now
      · intro elsewhere
        exact absurd cell (elsewhere next after)
    · have old : run.tasks[i]? = some h := by simpa [mine] using found
      have before := inv.recorded _ _ old
      refine ⟨before.generation, before.cell, by rw [others i (.symm mine)]; exact before.flag, ?_, ?_⟩
      · intro other same cellIs
        obtain rfl : next = other := by simpa [after] using same
        exact absurd (cell.symm.trans cellIs) mine
      intro _
      refine before.settled ?_
      intro other same
      obtain rfl : active = other := by simpa [current] using same
      exact mine

private theorem modify_unchanged (tasks : List History) (i : Nat) (f : History → History)
    (same : ∀ h, f h = h) : tasks.modify i f = tasks := by
  have identity : f = id := funext same
  rw [identity, modify_id]

/-- Every call keeps the invariant. -/
theorem step_consistent (inv : Consistent run) (op : Op) : Consistent (step run op) := by
  unfold step record
  cases apply_effect run.gate op with
  | unchanged same refused =>
    have quiet : (op.cancels && (apply run.gate op).2) = false := by
      cases asked : op.cancels with
      | false => rfl
      | true => simp [refused asked]
    rw [same, quiet]
    cases current : run.gate.active with
    | none => exact inv
    | some active =>
      dsimp only
      rw [modify_unchanged _ _ _ (by intro h; simp)]
      exact inv
  | began next idle quiet begins gen cell running after =>
    simp only [idle, after]
    refine ⟨by simp [inv.cells], by simp [inv.counter], ?_, ?_⟩
    · intro other same
      obtain rfl : next = other := by simpa using same
      simp [cell, inv.cells]
    intro i h found
    rcases Nat.lt_trichotomy i run.tasks.length with earlier | here | later
    · have old : run.tasks[i]? = some h := by simpa [getElem?_append_left earlier] using found
      have before := inv.recorded _ _ old
      refine ⟨before.generation, before.cell, ?_, ?_, ?_⟩
      · simpa [getElem?_append_left (show i < run.gate.flags.length by rw [inv.cells]; exact earlier)]
          using before.flag
      · intro other same cellIs
        obtain rfl : next = other := by simpa using same
        rw [cell, inv.cells] at cellIs
        omega
      · intro _
        exact before.settled (by simp [idle])
    · subst here
      obtain rfl : { permit := ⟨next.generation, next.taskId, next.cancel⟩ : History } = h := by simpa using found
      refine ⟨by simp [gen, inv.counter, Nat.add_mod], by simp [cell, inv.cells], by simp [← inv.cells], ?_, ?_⟩
      · intro other same _
        obtain rfl : next = other := by simpa using same
        exact ⟨rfl, rfl, by simp [running, DataSyncGatePhase.terminal], by simp, by simp [running]⟩
      · intro elsewhere
        exact absurd (by rw [cell, inv.cells]) (elsewhere next rfl)
    · rw [getElem?_eq_none (by simp; omega)] at found
      cases found
  | updated active progress current quiet open_ stage after =>
    simp only [current, after, quiet, open_]
    refine consistent_modify inv current rfl rfl rfl rfl (fun _ _ => rfl) (fun _ => rfl) ?_
    intro h before now
    refine ⟨by simpa using before.flag, ?_⟩
    obtain ⟨permit, held, finishes, cancelling, _⟩ := now
    refine ⟨permit, held, by simpa [open_] using finishes, ?_, stage⟩
    intro accepted
    have phase := (cancelling (by simpa using accepted)).1
    refine ⟨phase, stage ?_⟩
    revert phase open_
    cases active.phase <;> simp [DataSyncGatePhase.terminal]
  | cancelled active current asked running accepted after =>
    have inside : active.cancel < run.gate.flags.length := by
      have := inv.last active current
      rw [inv.cells]
      omega
    simp only [current, after, asked, accepted, markCancelling, running]
    refine consistent_modify inv current rfl rfl rfl (by simp) ?_ (fun _ => rfl) ?_
    · intro i other
      simp [Ne.symm other]
    intro h before now
    refine ⟨by simp [inside], now.permit, now.held, ?_, ?_, fun _ => rfl⟩
    · simpa [DataSyncGatePhase.terminal, running] using now.finishes
    · intro _
      exact ⟨by simp, rfl⟩
  | finished active next current quiet open_ closed gen taskId cell stage after =>
    simp only [current, after, quiet, open_, closed]
    refine consistent_modify inv current rfl rfl cell rfl (fun _ _ => rfl) (fun _ => rfl) ?_
    intro h before now
    refine ⟨by simpa using before.flag, ?_, now.held, ?_, ?_, ?_⟩
    · simp only [gen, taskId, cell]
      exact now.permit
    · simpa [open_, closed] using now.finishes
    · intro accepted
      refine ⟨?_, by rw [stage]; exact (now.cancelling (by simpa using accepted)).2⟩
      intro running
      simp [running, DataSyncGatePhase.terminal] at closed
    · intro cancelling
      simp [cancelling, DataSyncGatePhase.terminal] at closed
  | released active current quiet closed acknowledged after =>
    simp only [current, after]
    refine ⟨by simpa using inv.cells, by simpa using inv.counter, by simp, ?_⟩
    intro i h found
    rw [getElem?_modify] at found
    by_cases mine : active.cancel = i
    · subst mine
      obtain ⟨old, oldFound, rfl⟩ : ∃ old, run.tasks[active.cancel]? = some old ∧ { old with released := true } = h := by simpa using found
      have before := inv.recorded _ _ oldFound
      have now := before.current active current rfl
      exact ⟨before.generation, before.cell, before.flag, by simp, fun _ => ⟨rfl, by simpa [closed] using now.finishes⟩⟩
    · have old : run.tasks[i]? = some h := by simpa [mine] using found
      have before := inv.recorded _ _ old
      refine ⟨before.generation, before.cell, before.flag, by simp, fun _ => before.settled ?_⟩
      intro other same
      obtain rfl : active = other := by simpa [current] using same
      exact mine

theorem run_consistent (ops : List Op) : Consistent (runOps ops) := by
  refine List.foldlRecOn (motive := Consistent) ops step ?_ fun run inv op _ => step_consistent inv op
  exact ⟨rfl, rfl, by simp, by simp⟩

/-! ### The protocol -/

/-- The call carries the permit of a task that is no longer in the gate, or a
    generation or task id other than those of the task in the gate. -/
def Op.Stale (run : Run) : Op → Prop
  | .updateProgress permit _ | .requestCancel permit | .finishCompleted permit _ | .finishCancelled permit _
  | .finishFailed permit _ _ | .acknowledgeAndRelease permit =>
    (∃ h ∈ run.tasks, h.released = true ∧ h.permit = permit) ∨ ∀ active, run.gate.active = some active →
        permit.generation ≠ active.generation ∨ permit.taskId ≠ active.taskId
  | .requestCancelCurrent taskId | .acknowledgeCurrent taskId => ∀ active, run.gate.active = some active → taskId ≠ active.taskId
  | .begin _ _ | .dropPermit _ => False

/-- What the gate promises after any run. -/
structure Protocol (run : Run) : Prop where
  /-- at most one task is active, and it is the one in the gate -/
  exclusive : (run.tasks.filter fun h => !h.released).length = if isBlocking run.gate then 1 else 0
  /-- a task can begin exactly when none occupies the gate -/
  begins : ∀ taskId context, (begin run.gate taskId context).2.isSome ↔ ∀ h ∈ run.tasks, h.released = true
  /-- a stale permit or a foreign task id changes nothing -/
  stale : ∀ op : Op, op.Stale run → apply run.gate op = (run.gate, false)
  /-- a terminal task stays as it is until it is acknowledged -/
  terminal : ∀ op active, run.gate.active = some active → active.phase.terminal = true →
    (apply run.gate op).1 = run.gate ∨ (op.Acknowledges active ∧ (apply run.gate op).1.active = none)
  /-- a task that did not finish is not released, whatever was dropped -/
  unreleased : ∀ h ∈ run.tasks, h.finishes = 0 → h.released = false
  /-- the flag of a task is set exactly when a cancellation of it was accepted -/
  flag : ∀ h ∈ run.tasks, run.gate.flags[h.permit.cancel]? = some (decide (0 < h.cancelsAccepted))
  /-- a cancellation is only accepted for a running task -/
  accepted : ∀ op : Op, op.cancels = true → (apply run.gate op).2 = true → ∃ active, run.gate.active = some active ∧ active.phase = .Running
  /-- after an accepted cancellation no snapshot shows a running stage -/
  cancelled : ∀ h ∈ run.tasks, h.released = false → 0 < h.cancelsAccepted → ∀ elapsed shown,
    snapshot run.gate elapsed = some shown → shown.phase ≠ .Running ∧ shown.progress.stage = .Cancelling
  /-- a task becomes terminal at most once -/
  once : ∀ h ∈ run.tasks, h.finishes ≤ 1

section
variable {run : Run} (inv : Consistent run)
include inv

variable {h : History}

private theorem released_or_current {i : Nat} (found : run.tasks[i]? = some h) : (h.released = true ∧ h.finishes = 1) ∨
      ∃ active, run.gate.active = some active ∧ active.cancel = i ∧ Current active h := by
  have recorded := inv.recorded i h found
  by_cases elsewhere : ∀ active, run.gate.active = some active → active.cancel ≠ i
  · exact .inl (recorded.settled elsewhere)
  · push Not at elsewhere
    obtain ⟨active, current, cell⟩ := elsewhere
    exact .inr ⟨active, current, cell, recorded.current active current cell⟩

variable {active : ActiveTask}

private theorem current_history (current : run.gate.active = some active) :
    ∃ past h, run.tasks = past ++ [h] ∧ past.length = active.cancel ∧ Current active h := by
  have last := inv.last active current
  have inside : active.cancel < run.tasks.length := by omega
  have recorded := inv.recorded active.cancel _ (getElem?_eq_getElem inside)
  refine ⟨run.tasks.take active.cancel, run.tasks[active.cancel], ?_, by simp; omega, recorded.current active current rfl⟩
  rw [← take_succ_eq_append_getElem inside, last, take_length]

private theorem past_released (current : run.gate.active = some active) {past : List History}
    (split : run.tasks = past ++ [h]) (length : past.length = active.cancel) : ∀ old ∈ past, old.released = true := by
  intro old mem
  obtain ⟨i, inside, rfl⟩ := getElem_of_mem mem
  have found : run.tasks[i]? = some past[i] := by simp [split, getElem?_append_left inside]
  rcases released_or_current inv found with done | ⟨other, same, cell, _⟩
  · exact done.1
  · obtain rfl : active = other := by simpa [current] using same
    omega

private theorem all_released (idle : run.gate.active = none) : ∀ h ∈ run.tasks, h.released = true := by
  intro h mem
  obtain ⟨i, inside, rfl⟩ := getElem_of_mem mem
  rcases released_or_current inv (getElem?_eq_getElem inside) with done | ⟨_, same, _, _⟩
  · exact done.1
  · simp [idle] at same

private theorem exclusive_correct : (run.tasks.filter fun h => !h.released).length = if isBlocking run.gate then 1 else 0 := by
  cases current : run.gate.active with
  | none =>
    have none_left : (run.tasks.filter fun h => !h.released) = [] := by simpa using all_released inv current
    simp [none_left, isBlocking, current]
  | some active =>
    obtain ⟨past, h, split, length, now⟩ := current_history inv current
    have none_left : (past.filter fun h => !h.released) = [] := by simpa using past_released inv current split length
    simp [split, none_left, now.held, isBlocking, current]

private theorem begins_correct (taskId : DataSyncTaskId) (context : DataSyncExecutionContext) :
    (begin run.gate taskId context).2.isSome ↔ ∀ h ∈ run.tasks, h.released = true := by
  cases current : run.gate.active with
  | none => simpa [begin, current] using all_released inv current
  | some active =>
    obtain ⟨past, h, split, _, now⟩ := current_history inv current
    simp [begin, current, split, now.held]

/-- With fewer than `2 ^ 64` tasks no two of them have the same generation. -/
private theorem released_generation (few : run.tasks.length < 2 ^ 64) (mem : h ∈ run.tasks)
    (released : h.released = true) (current : run.gate.active = some active) : h.permit.generation ≠ active.generation := by
  obtain ⟨i, inside, rfl⟩ := getElem_of_mem mem
  have recorded := inv.recorded i _ (getElem?_eq_getElem inside)
  have last := inv.last active current
  have owner := inv.recorded active.cancel _ (getElem?_eq_getElem (by omega))
  have now := owner.current active current rfl
  have gen : active.generation = (active.cancel + 1) % 2 ^ 64 := by rw [← owner.generation, now.permit]
  intro same
  rw [recorded.generation, gen] at same
  have equal : i = active.cancel := by omega
  subst equal
  simp [now.held] at released

private theorem currentTask_stale (few : run.tasks.length < 2 ^ 64) {permit : DataSyncPermit}
    (stale : (∃ h ∈ run.tasks, h.released = true ∧ h.permit = permit) ∨ ∀ active, run.gate.active = some active →
        permit.generation ≠ active.generation ∨ permit.taskId ≠ active.taskId) : currentTask run.gate permit = none := by
  cases found : currentTask run.gate permit with
  | none => rfl
  | some active =>
    obtain ⟨current, gen, taskId⟩ := currentTask_some found
    rcases stale with ⟨h, mem, released, rfl⟩ | other
    · exact absurd gen.symm (released_generation inv few mem released current)
    · rcases other active current with differs | differs
      · exact absurd gen.symm differs
      · exact absurd taskId.symm differs

private theorem stale_correct (few : run.tasks.length < 2 ^ 64) (op : Op) (stale : op.Stale run) :
    apply run.gate op = (run.gate, false) := by
  cases op with
  | begin taskId context | dropPermit permit => exact absurd stale id
  | updateProgress permit progress => simp [apply, updateProgress, currentTask_stale inv few stale]
  | requestCancel permit => simp [apply, requestCancel, currentTask_stale inv few stale]
  | requestCancelCurrent taskId =>
    cases current : run.gate.active with
    | none => simp [apply, requestCancelCurrent, current]
    | some active => simp [apply, requestCancelCurrent, current, Ne.symm (stale active current)]
  | finishCompleted permit summary => simp [apply, finishCompleted, finish, currentTask_stale inv few stale]
  | finishCancelled permit summary => simp [apply, finishCancelled, finish, currentTask_stale inv few stale]
  | finishFailed permit summary error => simp [apply, finishFailed, finish, currentTask_stale inv few stale]
  | acknowledgeAndRelease permit => simp [apply, acknowledgeAndRelease, currentTask_stale inv few stale]
  | acknowledgeCurrent taskId =>
    cases current : run.gate.active with
    | none => simp [apply, acknowledgeCurrent, current]
    | some active => simp [apply, acknowledgeCurrent, current, Ne.symm (stale active current)]

end

private theorem terminal_correct (gate : Gate) (op : Op) (active : ActiveTask) (current : gate.active = some active)
    (closed : active.phase.terminal = true) : (apply gate op).1 = gate ∨ (op.Acknowledges active ∧ (apply gate op).1.active = none) := by
  cases apply_effect gate op with
  | unchanged same _ => exact .inl same
  | began next idle => simp [idle] at current
  | updated other progress same quiet open_ | finished other next same quiet open_ =>
    obtain rfl : active = other := by simpa [current] using same
    simp [closed] at open_
  | cancelled other same asked running =>
    obtain rfl : active = other := by simpa [current] using same
    simp [running, DataSyncGatePhase.terminal] at closed
  | released other same quiet _ acknowledged after =>
    obtain rfl : active = other := by simpa [current] using same
    exact .inr ⟨acknowledged, by simp [after]⟩

private theorem accepted_correct (gate : Gate) (op : Op) (asked : op.cancels = true)
    (accepted : (apply gate op).2 = true) : ∃ active, gate.active = some active ∧ active.phase = .Running := by
  cases apply_effect gate op with
  | unchanged _ refused => simp [refused asked] at accepted
  | cancelled active current _ running => exact ⟨active, current, running⟩
  | began _ _ quiet | updated _ _ _ quiet | finished _ _ _ quiet | released _ _ quiet => simp [quiet] at asked

private theorem cancelled_correct (inv : Consistent run) {h : History} (mem : h ∈ run.tasks)
    (held : h.released = false) (accepted : 0 < h.cancelsAccepted) {elapsed : Nat} {shown : DataSyncGateSnapshot}
    (taken : snapshot run.gate elapsed = some shown) : shown.phase ≠ .Running ∧ shown.progress.stage = .Cancelling := by
  obtain ⟨i, inside, rfl⟩ := getElem_of_mem mem
  rcases released_or_current inv (getElem?_eq_getElem inside) with done | ⟨active, current, _, now⟩
  · simp [held] at done
  obtain ⟨phase, stage⟩ := now.cancelling accepted
  simp only [snapshot, current, Option.map_some, Option.some.injEq] at taken
  subst taken
  refine ⟨phase, ?_⟩
  by_cases closed : active.phase.terminal = true <;> simp [closed, stage]

private theorem step_task_count (run : Run) (op : Op) : (step run op).tasks.length ≤ run.tasks.length + if op.begins then 1 else 0 := by
  unfold step record
  cases apply_effect run.gate op with
  | unchanged same _ =>
    cases current : run.gate.active <;> simp [same, current]
  | began next idle _ begins _ _ _ after => simp [idle, after, begins]
  | updated active progress current _ _ _ after
  | finished active next current _ _ _ _ _ _ _ after | released active current _ _ _ after => simp [current, after]
  | cancelled active current _ _ _ after => simp [current, after, markCancelling]

private theorem task_count (ops : List Op) (run : Run) :
    (ops.foldl step run).tasks.length ≤ run.tasks.length + (ops.filter Op.begins).length := by
  induction ops generalizing run with
  | nil => simp
  | cons op ops ih =>
    have here := step_task_count run op
    have rest := ih (step run op)
    by_cases begins : op.begins = true
    · simp only [foldl_cons, filter_cons, begins, if_true, length_cons] at here rest ⊢
      omega
    · simp only [foldl_cons, filter_cons, begins, Bool.false_eq_true, if_false] at here rest ⊢
      omega

/-- The gate keeps its protocol under every interleaving of calls, with any
    permits and task ids, as long as its generation counter does not wrap. -/
theorem gate_protocol (ops : List Op) (few : (ops.filter Op.begins).length < 2 ^ 64) : Protocol (runOps ops) := by
  have inv := run_consistent ops
  have short : (runOps ops).tasks.length < 2 ^ 64 :=
    Nat.lt_of_le_of_lt (by simpa [runOps] using task_count ops {}) few
  refine ⟨exclusive_correct inv, begins_correct inv, stale_correct inv short, fun op active => terminal_correct _ op active,
    ?_, ?_, accepted_correct _, fun h mem held accepted elapsed shown => cancelled_correct inv mem held accepted, ?_⟩
  · intro h mem unfinished
    obtain ⟨i, inside, rfl⟩ := getElem_of_mem mem
    rcases released_or_current inv (getElem?_eq_getElem inside) with done | ⟨_, _, _, now⟩
    · simp [unfinished] at done
    · exact now.held
  · intro h mem
    obtain ⟨i, inside, rfl⟩ := getElem_of_mem mem
    have recorded := inv.recorded i _ (getElem?_eq_getElem inside)
    rw [recorded.cell]
    exact recorded.flag
  · intro h mem
    obtain ⟨i, inside, rfl⟩ := getElem_of_mem mem
    rcases released_or_current inv (getElem?_eq_getElem inside) with done | ⟨active, _, _, now⟩
    · omega
    · rw [now.finishes]
      split <;> omega

/-- A first task is cancelled and acknowledged, and its permit is used against
    the second one. -/
theorem gate_protocol_two_tasks : Protocol (runOps [.begin 7 ⟨[], [], [], []⟩, .requestCancelCurrent 7, .finishCancelled ⟨1, 7, 0⟩ {},
      .acknowledgeCurrent 7, .begin 8 ⟨[], [], [], []⟩, .finishCompleted ⟨1, 7, 0⟩ {}]) :=
  gate_protocol _ (by decide)

end Ramag.DataSyncGate
