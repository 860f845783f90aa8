import Ramag.TransferQueueLives

/-!
The promises of the transfer queue (`Sound`) in every run whose executions finish
with what happened to their tasks (`Allowed`). The queue itself does not see to
that: a cancellation that comes after the target was replaced, and one that
comes before a failed check, are told wrongly.
-/
namespace Ramag.TransferQueue
open Strings Domain Runs List

variable {ι ρ : Type} [DecidableEq ι]

omit [DecidableEq ι] in
theorem follows_markRunning (task : TransferTask ι ρ) : Follows task task.markRunning := by
  by_cases waits : task.status = .Waiting
  · have running : task.markRunning.status = .Running := by rw [TransferTask.markRunning, if_pos waits]
    refine ⟨markRunning_id task, fun ended => ?_, .inr (.inl ⟨waits, .inl running⟩)⟩
    rw [TransferTask.isTerminal, waits] at ended
    cases ended
  · rw [TransferTask.markRunning, if_neg waits]
    exact .refl task

omit [DecidableEq ι] in
theorem follows_updateProgress (task : TransferTask ι ρ) (transferred total : Nat) :
    Follows task (task.updateProgress transferred total) := by
  refine ⟨updateProgress_id task _ _, fun ended => if_neg fun runs => ?_, .inl (updateProgress_status task _ _)⟩
  rw [TransferTask.isTerminal, runs] at ended
  cases ended

omit [DecidableEq ι] in
theorem markRunning_terminal (task : TransferTask ι ρ) : task.markRunning.isTerminal = task.isTerminal := by
  unfold TransferTask.markRunning
  split_ifs with waits
  · rw [TransferTask.isTerminal, TransferTask.isTerminal, waits]
    rfl
  · rfl

omit [DecidableEq ι] in
theorem updateProgress_terminal (task : TransferTask ι ρ) (transferred total : Nat) :
    (task.updateProgress transferred total).isTerminal = task.isTerminal := by
  rw [TransferTask.isTerminal, updateProgress_status, TransferTask.isTerminal]

theorem updateTask_terminal {id : ι} {change : TransferTask ι ρ → TransferTask ι ρ}
    (same : ∀ task, (change task).isTerminal = task.isTerminal) (tasks : List (TransferTask ι ρ)) :
    (updateTask id change tasks).countP TransferTask.isTerminal = tasks.countP TransferTask.isTerminal := by
  induction tasks with
  | nil => rfl
  | cons task tasks ih =>
    rw [updateTask]
    split_ifs
    · simp [countP_cons, same]
    · simp [countP_cons, ih]

/-- A task is as it was, or it waited and is cancelled. -/
def Cancels (before after : TransferTask ι ρ) : Prop :=
  after = before ∨ before.status = .Waiting ∧ after.status = .Cancelled ∧ after.id = before.id

variable {a b : TransferTask ι ρ}

omit [DecidableEq ι] in
theorem Cancels.trans {c : TransferTask ι ρ} (first : Cancels a b) (second : Cancels b c) : Cancels a c := by
  rcases first with rfl | ⟨waits, cancelled, same⟩
  · exact second
  rcases second with rfl | ⟨waits', -, -⟩
  · exact .inr ⟨waits, cancelled, same⟩
  · rw [cancelled] at waits'
    cases waits'

omit [DecidableEq ι] in
theorem Cancels.follows (cancels : Cancels a b) : Follows a b := by
  rcases cancels with rfl | ⟨waits, cancelled, same⟩
  · exact .refl b
  · refine ⟨same, fun ended => ?_, .inr (.inl ⟨waits, .inr cancelled⟩)⟩
    rw [TransferTask.isTerminal, waits] at ended
    cases ended

omit [DecidableEq ι] in
theorem cancels_trans {first second third : List (TransferTask ι ρ)}
    (one : List.Forall₂ Cancels first second) (two : List.Forall₂ Cancels second third) : List.Forall₂ Cancels first third := by
  induction one generalizing third with
  | nil => exact two
  | cons cancels _ ih =>
    cases two with
    | cons cancels' rest => exact .cons (cancels.trans cancels') (ih rest)

omit [DecidableEq ι] in
theorem advances_same (tasks : List (TransferTask ι ρ)) : Advances tasks tasks :=
  .moved (forall₂_same.mpr fun task _ => .refl task) rfl

namespace QueueState

variable {s s' : QueueState ι ρ} {id : ι} {i : Nat}

variable {task : TransferTask ι ρ}

theorem only_of_view {other : TransferTask ι ρ} (one : (s.view id).tasks = [task]) (mem : other ∈ s.tasks)
    (mine : other.id = id) : other = task := by
  have inside : other ∈ (s.view id).tasks := mem_filter.mpr ⟨mem, decide_eq_true mine⟩
  rw [one] at inside
  exact mem_singleton.mp inside

section
variable (lives : s.Lives)
include lives

theorem Lives.endWaiting_cancels (waiting : isWaiting id s.tasks = true) : List.Forall₂ Cancels s.tasks (s.endWaiting id).tasks := by
  obtain ⟨task, mem, rfl, status⟩ := isWaiting_iff.mp waiting
  refine updateTask_forall₂ (fun task => .inl rfl) fun other there mine => .inr ?_
  obtain rfl := only_of_view (lives.waits mem status).2 there mine
  have unended : other.isTerminal = false := by rw [TransferTask.isTerminal, status]; rfl
  exact ⟨status, finishWithWarnings_status unended _ _ _, finishWithWarnings_id other _ _ _⟩

theorem Lives.cancelOne_cancels (id : ι) : List.Forall₂ Cancels s.tasks (s.cancelOne id).tasks := by
  unfold QueueState.cancelOne
  split_ifs with waiting
  · exact lives.endWaiting_cancels waiting
  · split <;> exact forall₂_same.mpr fun task _ => .inl rfl

theorem Lives.cancelEach (ids : List ι) :
    (ids.foldl QueueState.cancelOne s).Lives ∧ List.Forall₂ Cancels s.tasks (ids.foldl QueueState.cancelOne s).tasks := by
  induction ids generalizing s with
  | nil => exact ⟨lives, forall₂_same.mpr fun task _ => .inl rfl⟩
  | cons id ids ih =>
    obtain ⟨rest, cancels⟩ := ih (lives.cancelOne id)
    exact ⟨rest, cancels_trans (lives.cancelOne_cancels id) cancels⟩

theorem Lives.cancelMatching (matching : TransferTask ι ρ → Bool) :
    (s.cancelMatching matching).Lives ∧ Advances s.tasks (s.cancelMatching matching).tasks := by
  obtain ⟨rest, cancels⟩ := lives.cancelEach ((s.tasks.filter fun task => matching task && !task.isTerminal).map TransferTask.id)
  exact ⟨rest.prune, .pruned (cancels.imp fun _ _ => Cancels.follows)⟩

theorem Lives.cancelTransfer (id : ι) : (s.cancelTransfer id).Lives ∧ Advances s.tasks (s.cancelTransfer id).tasks := by
  unfold QueueState.cancelTransfer
  cases handle : s.cancellations id with
  | none => exact ⟨lives, advances_same _⟩
  | some token =>
    by_cases waiting : isWaiting id s.tasks = true
    · simp only [waiting, if_true]
      exact ⟨(lives.endWaiting waiting).prune, .pruned ((lives.endWaiting_cancels waiting).imp fun _ _ => Cancels.follows)⟩
    · simp only [waiting]
      exact ⟨lives.requestStop handle waiting, advances_same _⟩

theorem Lives.enqueue (task : TransferTask ι ρ) (fresh : .enqueued task.id ∉ s.log) (status : task.status = .Waiting) :
    ((s.enqueue task).getD s).Lives ∧ Advances s.tasks ((s.enqueue task).getD s).tasks := by
  cases queued : s.enqueue task with
  | none => exact ⟨lives, advances_same _⟩
  | some s' =>
    obtain ⟨room, rfl⟩ := enqueue_some queued
    exact ⟨lives.prune.add fresh status, .added status room⟩

theorem Lives.finish_follows {result : Except Text Unit} {warnings : List Text} {cancelled : Bool}
    (place : s.calls[i]? = some (.finishing id result warnings cancelled)) :
    List.Forall₂ Follows s.tasks (s.closeTask id result warnings cancelled).tasks := by
  obtain ⟨runs, -⟩ := lives.runs place rfl nofun
  obtain ⟨task, one, status⟩ := runs.one
  refine updateTask_forall₂ .refl fun other there mine => ?_
  obtain rfl := only_of_view one there mine
  have unended : other.isTerminal = false := by rw [TransferTask.isTerminal, status]; rfl
  refine ⟨finishWithWarnings_id other _ _ _, fun ended => ?_, .inr (.inr ⟨status, finished_terminal unended _ _ _⟩)⟩
  rw [unended] at ended
  cases ended

end

/-! ### Steps -/

/-- An execution finishes with what happened to its task. -/
def Allowed (s : QueueState ι ρ) : Act ι ρ → Prop
  | .move call => ∀ id result warnings cancelled, s.calls[call]? = some (.finishing id result warnings cancelled) →
      s.Told id result cancelled
  | _ => True

variable {old : Call ι ρ}

theorem move_advances (lives : s.Lives) (place : s.calls[i]? = some old) (moved : s.move i old = some s') : Advances s.tasks s'.tasks := by
  cases old with
  | executing id =>
    have begun : Advances s.tasks (updateTask id TransferTask.markRunning s.tasks) :=
      .moved (updateTask_forall₂ .refl fun task _ _ => follows_markRunning task) (updateTask_terminal markRunning_terminal _)
    simp only [QueueState.move] at moved
    split at moved
    · cases moved
      exact advances_same _
    split at moved
    · cases moved
      exact advances_same _
    · split at moved <;> cases moved <;> exact begun
  | answered id token result =>
    cases result <;> cases moved <;> exact advances_same _
  | finishing id result warnings cancelled =>
    cases moved
    exact .pruned (lives.finish_follows place)
  | retrying id =>
    simp only [QueueState.move] at moved
    split at moved <;> cases moved <;> exact advances_same _
  | preparing => cases moved
  | driving => cases moved
  | returned => cases moved
  | requeuing => cases moved
  | ended => cases moved

theorem move_lives (lives : s.Lives) (place : s.calls[i]? = some old)
    (allowed : s.Allowed (.move i)) (moved : s.move i old = some s') : s'.Lives := by
  cases old with
  | executing id =>
    simp only [QueueState.move] at moved
    split at moved
    · cases moved
      exact lives.goOn place rfl rfl
    rename_i task found
    obtain ⟨mem, rfl⟩ := findTask_some found
    split_ifs at moved with other
    · cases moved
      exact lives.goOn place rfl rfl
    rw [not_not] at other
    obtain ⟨token, handle⟩ := (lives.waits mem other).1.handle
    have held : s.cancellations task.id = some token := handle
    rw [held] at moved
    cases moved
    exact lives.begin place mem other held
  | answered id token result =>
    cases result with
    | ok warnings | error message =>
      cases moved
      refine lives.work place rfl (by rintro ⟨⟩) rfl ?_
      rintro _ ⟨-, -, driven⟩
      exact ⟨rfl, driven⟩
  | finishing id result warnings cancelled =>
    cases moved
    exact (lives.finish place (allowed id result warnings cancelled place)).prune
  | retrying id =>
    simp only [QueueState.move] at moved
    split at moved
    · cases moved
      refine lives.goOn place rfl ?_
      split <;> rfl
    · cases moved
      exact lives.goOn place rfl rfl
  | preparing => cases moved
  | driving => cases moved
  | returned => cases moved
  | requeuing => cases moved
  | ended => cases moved

variable [DecidableEq ρ]

variable {act : Act ι ρ}

theorem step_lives (lives : s.Lives) (allowed : s.Allowed act) (stepped : s.step act = some s') : s'.Lives := by
  cases act with
  | enqueue id profileId direction localPath remotePath =>
    simp only [step] at stepped
    split_ifs at stepped with used
    cases stepped
    exact (lives.enqueue (.new id profileId direction localPath remotePath) used rfl).1
  | executeTransfer id | retryTransfer id =>
    cases stepped
    exact lives.same rfl fun _ => view_arrive rfl _
  | move i =>
    obtain ⟨old, place, moved⟩ := Option.bind_eq_some_iff.mp stepped
    exact move_lives lives place allowed moved
  | prepare i answers =>
    simp only [step] at stepped
    split at stepped
    · rename_i task token place
      split at stepped
      · cases stepped
        refine lives.workNote place rfl (by rintro ⟨⟩) rfl rfl (by rintro _ ⟨⟩) ?_ fun _ => ?_
        · rintro _ ⟨same, token, uncalled, undriven⟩
          exact ⟨same, token, by simpa using undriven⟩
        obtain ⟨runs, one⟩ := lives.runs place rfl (by rintro ⟨⟩)
        obtain ⟨call, token, calls, -, stood⟩ := runs.stands
        rw [one] at calls
        cases calls
        exact stood.2.2.1
      · cases stepped
        refine lives.work place rfl (by rintro ⟨⟩) rfl ?_
        rintro _ ⟨same, -, -, undriven⟩
        exact ⟨rfl, iff_of_false undriven (by rintro ⟨⟩)⟩
    · cases stepped
  | answer i result =>
    simp only [step] at stepped
    split at stepped
    · rename_i id token place
      cases stepped
      refine lives.workNote place rfl (by rintro ⟨⟩) rfl rfl (by rintro _ ⟨⟩) ?_ (by rintro ⟨⟩)
      rintro _ ⟨-, same, undriven⟩
      refine ⟨rfl, same, ?_⟩
      rw [mem_cons, or_iff_left undriven, Event.driven.injEq]
      exact ⟨fun both => both.2.symm, fun ok => ⟨rfl, ok.symm⟩⟩
    · cases stepped
  | requeue i id =>
    simp only [step] at stepped
    split at stepped
    · rename_i task place
      split_ifs at stepped with used
      cases stepped
      let again := TransferTask.new id task.profileId task.direction task.localPath task.remotePath
      have stays : ((s.enqueue again).getD s).calls[i]? = some (.requeuing task) := by
        cases room : s.enqueue again with
        | none => exact place
        | some s' =>
          obtain ⟨-, rfl⟩ := enqueue_some room
          exact place
      exact (lives.enqueue again used rfl).1.goOn stays rfl rfl
    · cases stepped
  | progress id transferred total =>
    cases stepped
    exact lives.progress id transferred total
  | cancelTransfer id =>
    cases stepped
    exact (lives.cancelTransfer id).1
  | cancelProfileTransfers profileId | cancelAllTransfers =>
    cases stepped
    exact (lives.cancelMatching _).1
  | clearFinishedTransfers =>
    cases stepped
    exact lives.fewer filter_sublist (by simp)

theorem step_advances (lives : s.Lives) (stepped : s.step act = some s') : Advances s.tasks s'.tasks := by
  cases act with
  | enqueue id profileId direction localPath remotePath =>
    simp only [step] at stepped
    split_ifs at stepped with used
    cases stepped
    exact (lives.enqueue (.new id profileId direction localPath remotePath) used rfl).2
  | move i =>
    obtain ⟨old, place, moved⟩ := Option.bind_eq_some_iff.mp stepped
    exact move_advances lives place moved
  | prepare i answers =>
    simp only [step] at stepped
    split at stepped
    · split at stepped <;> cases stepped <;> exact advances_same _
    · cases stepped
  | answer i result =>
    simp only [step] at stepped
    split at stepped
    · cases stepped
      exact advances_same _
    · cases stepped
  | requeue i id =>
    simp only [step] at stepped
    split at stepped
    · rename_i task place
      split_ifs at stepped with used
      cases stepped
      exact (lives.enqueue (.new id task.profileId task.direction task.localPath task.remotePath) used rfl).2
    · cases stepped
  | progress id transferred total =>
    cases stepped
    exact .moved (updateTask_forall₂ .refl fun task _ _ => follows_updateProgress task _ _)
      (updateTask_terminal (fun task => updateProgress_terminal task _ _) _)
  | cancelTransfer id =>
    cases stepped
    exact (lives.cancelTransfer id).2
  | cancelProfileTransfers profileId | cancelAllTransfers =>
    cases stepped
    exact (lives.cancelMatching _).2
  | clearFinishedTransfers =>
    cases stepped
    exact .cleared
  | executeTransfer id | retryTransfer id =>
    cases stepped
    exact advances_same _

structure Kept (s : QueueState ι ρ) : Prop where
  lives : s.Lives
  queued : s.tasks.countP (fun task => !task.isTerminal) ≤ MAX_QUEUED_TRANSFERS
  history : s.tasks.countP TransferTask.isTerminal ≤ MAX_TRANSFER_HISTORY

theorem step_kept (kept : s.Kept) (allowed : s.Allowed act) (stepped : s.step act = some s') : s'.Kept := by
  obtain ⟨queued, history⟩ := (step_advances kept.lives stepped).bounds kept.queued kept.history
  exact ⟨step_lives kept.lives allowed stepped, queued, history⟩

omit [DecidableEq ρ] in
theorem start_kept : Kept ({} : QueueState ι ρ) :=
  ⟨⟨fun _ => .inl rfl, nofun⟩, Nat.zero_le _, Nat.zero_le _⟩

/-- What the queue promises in a state. -/
structure Sound (s : QueueState ι ρ) : Prop where
  queued : s.tasks.countP (fun task => !task.isTerminal) ≤ MAX_QUEUED_TRANSFERS
  history : s.tasks.countP TransferTask.isTerminal ≤ MAX_TRANSFER_HISTORY
  /-- There are cancellations for exactly the tasks that have not ended. -/
  handles : ∀ id, (∃ token, s.cancellations id = some token) ↔ ∃ task ∈ s.tasks, task.id = id ∧ task.isTerminal = false
  /-- A step moves the status of a task forward, never changes one that has ended, and takes out only ended tasks. -/
  advances : ∀ act s', s.step act = some s' → Advances s.tasks s'.tasks
  /-- The driver is called once at most, and not for a task that was cancelled while it waited. -/
  once : ∀ id, s.log.count (.called id) ≤ 1
  unstarted : ∀ id, .accepted id true ∈ s.log → .called id ∉ s.log
  /-- A task whose execution has returned has ended. -/
  returned : ∀ id, .returned id ∈ s.calls → ∀ task ∈ s.tasks, task.id = id → task.isTerminal = true
  outcome : ∀ task ∈ s.tasks, task.isTerminal = true → Outcome s.log task

omit [DecidableEq ρ] in
theorem mem_view_log {event : Event ι} (mine : event.id = id) : event ∈ (s.view id).log ↔ event ∈ s.log := by
  rw [view, mem_filter, mine]
  simp

omit [DecidableEq ρ] in
theorem mem_view_task (mem : task ∈ s.tasks) : task ∈ (s.view task.id).tasks :=
  mem_filter.mpr ⟨mem, decide_eq_true rfl⟩

omit [DecidableEq ρ] in
theorem Lives.handles (lives : s.Lives) (id : ι) :
    (∃ token, s.cancellations id = some token) ↔ ∃ task ∈ s.tasks, task.id = id ∧ task.isTerminal = false := by
  have handle : (s.view id).handle = s.cancellations id := rfl
  have unended : ∀ {task}, (s.view id).tasks = [task] → task.isTerminal = false →
      ∃ task ∈ s.tasks, task.id = id ∧ task.isTerminal = false := by
    intro task one runs
    obtain ⟨mem, mine⟩ := mine_of_view one
    exact ⟨task, mem, mine, runs⟩
  have absent : s.cancellations id = none → (∀ task ∈ (s.view id).tasks, task.isTerminal = true) →
      ((∃ token, s.cancellations id = some token) ↔ ∃ task ∈ s.tasks, task.id = id ∧ task.isTerminal = false) := by
    intro none all
    refine iff_of_false (fun ⟨token, held⟩ => by rw [none] at held; cases held) ?_
    rintro ⟨task, mem, rfl, runs⟩
    rw [all task (mem_view_task mem)] at runs
    cases runs
  rcases lives.fine id with unknown | waits | runs | over'
  · exact absent (by rw [← handle, unknown]) (by rw [unknown]; exact fun _ => nofun)
  · obtain ⟨task, one, status⟩ := waits.one
    exact iff_of_true waits.handle (unended one (by rw [TransferTask.isTerminal, status]; rfl))
  · obtain ⟨task, one, status⟩ := runs.one
    obtain ⟨_, token, -, held, -⟩ := runs.stands
    exact iff_of_true ⟨token, held⟩ (unended one (by rw [TransferTask.isTerminal, status]; rfl))
  · refine absent over'.handle fun task mem => ?_
    rcases over'.tasks with none | ⟨only, one, ended, -⟩
    · rw [none] at mem
      cases mem
    · rw [one, mem_singleton] at mem
      exact mem ▸ ended

omit [DecidableEq ρ] in
theorem count_view_log (id : ι) : (s.view id).log.count (.called id) = s.log.count (.called id) :=
  count_filter (decide_eq_true rfl)

omit [DecidableEq ρ] in
theorem Lives.once (lives : s.Lives) (id : ι) : s.log.count (.called id) ≤ 1 := by
  rw [← count_view_log]
  rcases lives.fine id with unknown | waits | runs | over'
  · rw [unknown]
    exact Nat.zero_le 1
  · rw [waits.log, count_cons_of_ne (by nofun)]
    exact Nat.zero_le 1
  · exact runs.once
  · exact over'.once

omit [DecidableEq ρ] in
theorem Lives.unstarted (lives : s.Lives) (accepted : .accepted id true ∈ s.log) : .called id ∉ s.log := by
  have noted : .accepted id true ∈ (s.view id).log := (mem_view_log rfl).mpr accepted
  intro called
  have noted' : .called id ∈ (s.view id).log := (mem_view_log rfl).mpr called
  rcases lives.fine id with unknown | waits | runs | over'
  · rw [unknown] at noted
    cases noted
  · rw [waits.log, mem_singleton] at noted
    cases noted
  · exact runs.late noted
  · exact over'.late noted noted'

omit [DecidableEq ρ] in
theorem Lives.ended (lives : s.Lives) (mem : task ∈ s.tasks) (returned : .returned task.id ∈ s.calls) : task.isTerminal = true := by
  have inside : .returned task.id ∈ (s.view task.id).calls := mem_filter.mpr ⟨returned, decide_eq_true rfl⟩
  rcases lives.fine task.id with unknown | waits | runs | over'
  · rw [unknown] at inside
    cases inside
  · rw [waits.calls] at inside
    cases inside
  · obtain ⟨call, token, calls, -, stood⟩ := runs.stands
    rw [calls, mem_singleton] at inside
    rw [← inside] at stood
    exact stood.elim
  · rcases over'.tasks with none | ⟨only, one, ended, -⟩
    · have there := mem_view_task mem
      rw [none] at there
      cases there
    · rw [only_of_view one mem rfl]
      exact ended

omit [DecidableEq ρ] in
theorem Lives.outcome (lives : s.Lives) (mem : task ∈ s.tasks) (terminal : task.isTerminal = true) : Outcome s.log task := by
  have outcome : Outcome (s.view task.id).log task := by
    have there := mem_view_task mem
    rcases lives.fine task.id with unknown | waits | runs | over'
    · rw [unknown] at there
      cases there
    · obtain ⟨only, one, status⟩ := waits.one
      rw [← only_of_view one mem rfl] at status
      rw [TransferTask.isTerminal, status] at terminal
      cases terminal
    · obtain ⟨only, one, status⟩ := runs.one
      rw [← only_of_view one mem rfl] at status
      rw [TransferTask.isTerminal, status] at terminal
      cases terminal
    · rcases over'.tasks with none | ⟨only, one, -, outcome⟩
      · rw [none] at there
        cases there
      · exact only_of_view one mem rfl ▸ outcome
  have driven : .driven task.id true ∈ (s.view task.id).log ↔ .driven task.id true ∈ s.log := mem_view_log rfl
  have accepted : Accepted (s.view task.id).log task.id ↔ Accepted s.log task.id := exists_congr fun waiting => mem_view_log rfl
  refine ⟨?_, ?_, ?_⟩
  · rw [← driven]
    exact outcome.completed
  · rw [← driven, ← accepted]
    exact outcome.cancelled
  · rw [← driven, ← accepted]
    exact outcome.failed

theorem Kept.sound (kept : s.Kept) : s.Sound where
  queued := kept.queued
  history := kept.history
  handles := kept.lives.handles
  advances := fun act s' stepped => step_advances kept.lives stepped
  once := kept.lives.once
  unstarted := fun id => kept.lives.unstarted
  returned := by
    rintro _ returned task mem rfl
    exact kept.lives.ended mem returned
  outcome := fun task mem terminal => kept.lives.outcome mem terminal

end QueueState

open QueueState

variable [DecidableEq ρ]

/-- Every state of a run of allowed steps keeps the promises, and a pruning takes the oldest tasks that have ended. -/
theorem queue_sound {s : QueueState ι ρ} (reached : Reached step Allowed {} s) :
    s.Sound ∧ ∀ tasks : List (TransferTask ι ρ), PrunesOldest tasks (pruneHistory tasks) :=
  ⟨(reached.keeps start_kept fun _ _ _ kept allowed stepped => step_kept kept allowed stepped).sound, pruneHistory_oldest⟩

def ready : Preflight := ⟨.ok false, .ok (), .ok (), .ok ()⟩

/-- A transfer that is cancelled while the driver works, and stops. -/
theorem queue_sound_cancelled : ∃ s : QueueState Nat Nat, s.tasks.map TransferTask.status = [.Cancelled] ∧ s.Sound ∧
    ∀ tasks : List (TransferTask Nat Nat), PrunesOldest tasks (pruneHistory tasks) := by
  have follows : ∃ s : QueueState Nat Nat, s.tasks.map TransferTask.status = [.Cancelled] ∧ Runs.Follows step Allowed {}
      [.enqueue 0 0 .Upload ['a'] ['b'], .executeTransfer 0, .move 0, .prepare 0 ready, .cancelTransfer 0, .answer 0 (.error []),
        .move 0, .move 0] s := by
    refine ⟨_, ?_, trivial, _, rfl, trivial, _, rfl, nofun, _, rfl, trivial, _, rfl, trivial, _, rfl, trivial, _, rfl, nofun, _,
      rfl, ?_, _, rfl, rfl⟩
    · rfl
    intro id result warnings cancelled place
    cases place
    intro token handle
    cases handle
    rfl
  obtain ⟨s, status, follows⟩ := follows
  exact ⟨s, status, queue_sound (Reached.start.follows follows)⟩

/-- The transfer is cancelled when the driver has replaced the target. -/
theorem completed_told_cancelled : ¬ ∀ s : QueueState Nat Nat, Reached step (fun _ _ => True) {} s →
    s.Sound ∧ ∀ tasks : List (TransferTask Nat Nat), PrunesOldest tasks (pruneHistory tasks) := by
  intro law
  have follows : ∃ s : QueueState Nat Nat, (∃ task ∈ s.tasks, task.status = .Cancelled ∧ .driven task.id true ∈ s.log) ∧
      Runs.Follows step (fun _ _ => True) {}
        [.enqueue 0 0 .Upload ['a'] ['b'], .executeTransfer 0, .move 0, .prepare 0 ready, .answer 0 (.ok []), .cancelTransfer 0,
          .move 0, .move 0] s := by
    refine ⟨_, ?_, trivial, _, rfl, trivial, _, rfl, trivial, _, rfl, trivial, _, rfl, trivial, _, rfl, trivial, _, rfl, trivial, _,
      rfl, trivial, _, rfl, rfl⟩
    exact ⟨_, mem_singleton.mpr rfl, rfl, by decide⟩
  obtain ⟨s, ⟨task, mem, cancelled, driven⟩, follows⟩ := follows
  have sound := (law s (Reached.start.follows follows)).1
  have completed := (sound.outcome task mem (by rw [TransferTask.isTerminal, cancelled]; rfl)).completed.mpr driven
  rw [cancelled] at completed
  cases completed

end Ramag.TransferQueue
