import Ramag.TransferQueue

/-!
Every step of the queue keeps each id in one of its four conditions (`Lives`)
and moves the tasks forward (`Advances`). An execution that finishes does so
with what happened to its task; this `Told` asks for.
-/
namespace Ramag.TransferQueue
open Strings Domain Runs List

variable {ι ρ : Type} [DecidableEq ι]

/-- What a step does to the tasks. -/
inductive Advances (tasks : List (TransferTask ι ρ)) : List (TransferTask ι ρ) → Prop
  | moved {moved : List (TransferTask ι ρ)} : List.Forall₂ Follows tasks moved →
      moved.countP TransferTask.isTerminal = tasks.countP TransferTask.isTerminal → Advances tasks moved
  | pruned {moved : List (TransferTask ι ρ)} : List.Forall₂ Follows tasks moved → Advances tasks (pruneHistory moved)
  | cleared : Advances tasks (tasks.filter fun task => !task.isTerminal)
  | added {task : TransferTask ι ρ} : task.status = .Waiting →
      tasks.countP (fun existing => !existing.isTerminal) < MAX_QUEUED_TRANSFERS → Advances tasks (pruneHistory tasks ++ [task])

variable {tasks : List (TransferTask ι ρ)}

omit [DecidableEq ι] in
theorem unended_le {moved : List (TransferTask ι ρ)} (follow : List.Forall₂ Follows tasks moved) :
    moved.countP (fun task => !task.isTerminal) ≤ tasks.countP fun task => !task.isTerminal := by
  induction follow with
  | nil => exact Nat.le_refl _
  | @cons before after tasks moved one _ ih =>
    simp only [countP_cons]
    by_cases ended : after.isTerminal = true
    · simp only [ended, Bool.not_true, Bool.false_eq_true, if_false]
      omega
    · rw [Bool.not_eq_true] at ended
      simp only [ended, one.unended ended, Bool.not_false, if_true]
      omega

omit [DecidableEq ι] in
theorem Advances.bounds {tasks' : List (TransferTask ι ρ)} (advances : Advances tasks tasks')
    (queued : tasks.countP (fun task => !task.isTerminal) ≤ MAX_QUEUED_TRANSFERS)
    (history : tasks.countP TransferTask.isTerminal ≤ MAX_TRANSFER_HISTORY) :
    tasks'.countP (fun task => !task.isTerminal) ≤ MAX_QUEUED_TRANSFERS ∧ tasks'.countP TransferTask.isTerminal ≤ MAX_TRANSFER_HISTORY := by
  cases advances with
  | moved follow same => exact ⟨Nat.le_trans (unended_le follow) queued, same ▸ history⟩
  | @pruned moved follow =>
    rw [pruneHistory_unended]
    exact ⟨Nat.le_trans (unended_le follow) queued, pruneHistory_short moved⟩
  | cleared =>
    rw [countP_filter, countP_filter]
    simpa using queued
  | @added task waits room =>
    have open' : task.isTerminal = false := by simp [TransferTask.isTerminal, waits, TransferStatus.isTerminal]
    simp only [countP_append, countP_singleton, open', Bool.not_false, if_true, Bool.false_eq_true, if_false,
      Nat.add_zero, pruneHistory_unended]
    exact ⟨room, pruneHistory_short tasks⟩

namespace QueueState

structure Lives (s : QueueState ι ρ) : Prop where
  fine : ∀ id, (s.view id).Fine id
  /-- No two tasks share a cancellation. -/
  distinct : ∀ id id' token, s.cancellations id = some token → s.cancellations id' = some token → id = id'

variable {s s' : QueueState ι ρ} {id : ι} {i : Nat} {old new : Call ι ρ}

theorem Lives.change (lives : s.Lives) (id : ι) (others : ∀ other, other ≠ id → s'.view other = s.view other) (fine : (s'.view id).Fine id)
    (distinct : ∀ id id' token, s'.cancellations id = some token → s'.cancellations id' = some token → id = id') : s'.Lives where
  fine := by
    intro other
    by_cases same : other = id
    · exact same ▸ fine
    · rw [others other same]
      exact lives.fine other
  distinct := distinct

theorem Lives.same (lives : s.Lives) (cancellations : s'.cancellations = s.cancellations)
    (views : ∀ id, s'.view id = s.view id) : s'.Lives where
  fine := fun id => views id ▸ lives.fine id
  distinct := cancellations ▸ lives.distinct

theorem view_arrive {call : Call ι ρ} (none : call.worksFor = none) (id : ι) :
    view { s with calls := s.calls ++ [call] } id = s.view id := by
  simp [view, none]

theorem view_goOn_other (place : s.calls[i]? = some old) (without : old.worksFor ≠ some id) (none : new.worksFor ≠ some id) :
    (s.goOn i new).view id = s.view id := by
  have calls : (s.calls.set i new).filter (fun call => call.worksFor = some id) = s.calls.filter fun call => call.worksFor = some id :=
    filter_set_other place (decide_eq_false without) (decide_eq_false none)
  simp [view, goOn, calls]

variable {event : Event ι}

theorem log_mine (mine : event.id = id) : (event :: s.log).filter (fun event => decide (event.id = id)) = event :: (s.view id).log :=
  filter_cons_of_pos (by simpa using mine)

theorem log_other (other : event.id ≠ id) : (event :: s.log).filter (fun event => decide (event.id = id)) = (s.view id).log :=
  filter_cons_of_neg (by simpa using other)

theorem view_note_other (other : event.id ≠ id) : (s.note event).view id = s.view id := by simp [view, note, other]

theorem Lives.runs (lives : s.Lives) (place : s.calls[i]? = some old) (mine : old.worksFor = some id)
    (unfinished : old ≠ .returned id) : (s.view id).Runs id ∧ (s.view id).calls = [old] := by
  have mem : old ∈ (s.view id).calls := mem_filter.mpr ⟨mem_of_getElem? place, decide_eq_true mine⟩
  rcases lives.fine id with unknown | waits | runs | ended
  · rw [unknown] at mem
    cases mem
  · rw [waits.calls] at mem
    cases mem
  · obtain ⟨call, token, one, -⟩ := runs.stands
    rw [one, mem_singleton] at mem
    exact ⟨runs, mem ▸ one⟩
  · exact absurd (ended.calls old mem) unfinished

variable {task : TransferTask ι ρ}

theorem Lives.waits (lives : s.Lives) (mem : task ∈ s.tasks)
    (status : task.status = .Waiting) : (s.view task.id).Waits task.id ∧ (s.view task.id).tasks = [task] := by
  have mine : task ∈ (s.view task.id).tasks := mem_filter.mpr ⟨mem, decide_eq_true rfl⟩
  rcases lives.fine task.id with unknown | waits | runs | ended
  · rw [unknown] at mine
    cases mine
  · obtain ⟨only, one, -⟩ := waits.one
    rw [one, mem_singleton] at mine
    exact ⟨waits, mine ▸ one⟩
  · obtain ⟨only, one, runs⟩ := runs.one
    rw [one, mem_singleton] at mine
    rw [← mine, status] at runs
    cases runs
  · rcases ended.tasks with none | ⟨only, one, terminal, -⟩
    · rw [none] at mine
      cases mine
    · rw [one, mem_singleton] at mine
      rw [← mine, TransferTask.isTerminal, status] at terminal
      cases terminal

theorem Lives.unknown (lives : s.Lives) (fresh : .enqueued id ∉ s.log) : s.view id = ⟨[], none, none, [], []⟩ := by
  have absent : .enqueued id ∉ (s.view id).log := fun mem => fresh (mem_filter.mp mem).1
  rcases lives.fine id with unknown | waits | runs | ended
  · exact unknown
  · exact absurd (waits.log ▸ mem_singleton.mpr rfl) absent
  · exact absurd runs.enqueued absent
  · exact absurd ended.enqueued absent

/-- The state with a change of the first task with the id. -/
def update (s : QueueState ι ρ) (id : ι) (change : TransferTask ι ρ → TransferTask ι ρ) : QueueState ι ρ :=
  { s with tasks := updateTask id change s.tasks }

variable {change : TransferTask ι ρ → TransferTask ι ρ}

theorem view_update_other (keeps : ∀ task, (change task).id = task.id) {other : ι} (apart : other ≠ id) :
    (s.update id change).view other = s.view other := by
  simp [view, update, updateTask_other keeps apart]

theorem view_update_one (keeps : ∀ task, (change task).id = task.id) (one : (s.view id).tasks = [task]) :
    (s.update id change).view id = { s.view id with tasks := [change task] } := by
  simp [view, update, updateTask_one keeps one]

theorem view_goOn_one (place : s.calls[i]? = some old) (one : (s.view id).calls = [old]) (mine : old.worksFor = some id) :
    (s.goOn i new).view id = { s.view id with calls := [new].filter fun call => call.worksFor = some id } := by
  obtain ⟨-, calls⟩ := filter_set_one new place (decide_eq_true mine) one
  simp [view, goOn, calls]

theorem view_note_mine (mine : event.id = id) : (s.note event).view id = { s.view id with log := event :: (s.view id).log } := by
  simp [view, note, mine]

theorem Lives.goOn (lives : s.Lives) (place : s.calls[i]? = some old) (without : old.worksFor = none) (none : new.worksFor = none) :
    (s.goOn i new).Lives :=
  lives.same rfl fun id => view_goOn_other place (by rw [without]; nofun) (by rw [none]; nofun)

theorem findTask_some (found : findTask id s.tasks = some task) : task ∈ s.tasks ∧ task.id = id := by
  have same := find?_some found
  exact ⟨mem_of_find?_eq_some found, of_decide_eq_true same⟩

variable {token : Nat}

theorem Lives.begin (lives : s.Lives) (place : s.calls[i]? = some (.executing task.id)) (mem : task ∈ s.tasks)
    (status : task.status = .Waiting) (handle : s.cancellations task.id = some token) :
    ((s.update task.id TransferTask.markRunning).goOn i (.preparing task.markRunning token)).Lives := by
  obtain ⟨waits, one⟩ := lives.waits mem status
  have running : task.markRunning.status = .Running := by rw [TransferTask.markRunning, if_pos status]
  refine lives.change task.id (fun other apart => ?_) (.inr (.inr (.inl ?_))) lives.distinct
  · have place' : (s.update task.id TransferTask.markRunning).calls[i]? = some (.executing task.id) := place
    rw [view_goOn_other place' nofun (by simpa [Call.worksFor] using apart.symm), view_update_other markRunning_id apart]
  have calls : (s.calls.set i (.preparing task.markRunning token)).filter (fun call => decide (call.worksFor = some task.id)) =
      [.preparing task.markRunning token] := filter_set_none place (by simp [Call.worksFor]) waits.calls
  have tasks : (updateTask task.id TransferTask.markRunning s.tasks).filter (fun other => decide (other.id = task.id)) =
      [task.markRunning] := updateTask_one markRunning_id one
  have shown : ((s.update task.id TransferTask.markRunning).goOn i (.preparing task.markRunning token)).view task.id =
      { s.view task.id with tasks := [task.markRunning], calls := [.preparing task.markRunning token] } := by
    rw [View.mk.injEq]
    exact ⟨tasks, rfl, rfl, calls, rfl⟩
  rw [shown]
  refine ⟨⟨_, rfl, running⟩, ⟨_, token, rfl, handle, markRunning_id task, rfl, ?_, ?_⟩, ⟨false, waits.flag, ?_⟩, ?_, ?_, ?_⟩ <;>
    simp [waits.log]

section
variable (lives : s.Lives) (place : s.calls[i]? = some old) (mine : old.worksFor = some id)
  (unfinished : old ≠ .returned id) (goesOn : new.worksFor = some id)
include lives place mine unfinished goesOn

theorem Lives.work
    (stands : ∀ token, old.Stands id token (s.view id).log → new.Stands id token (s.view id).log) : (s.goOn i new).Lives := by
  obtain ⟨runs, one⟩ := lives.runs place mine unfinished
  refine lives.change id (fun other apart => ?_) (.inr (.inr (.inl ?_))) lives.distinct
  · exact view_goOn_other place (by simpa [mine] using apart.symm) (by simpa [goesOn] using apart.symm)
  obtain ⟨call, token, only, handle, stood⟩ := runs.stands
  rw [one] at only
  cases only
  rw [view_goOn_one place one mine, filter_cons_of_pos (by simpa using goesOn), filter_nil]
  exact ⟨runs.one, ⟨new, token, rfl, handle, stands token stood⟩, runs.flag, runs.enqueued, runs.late, runs.once⟩

theorem Lives.workNote (own : event.id = id)
    (quiet : ∀ waiting, event ≠ .accepted id waiting)
    (stands : ∀ token, old.Stands id token (s.view id).log → new.Stands id token (event :: (s.view id).log))
    (once : event = .called id → .called id ∉ (s.view id).log) : ((s.note event).goOn i new).Lives := by
  obtain ⟨runs, one⟩ := lives.runs place mine unfinished
  have place' : (s.note event).calls[i]? = some old := place
  refine lives.change id (fun other apart => ?_) (.inr (.inr (.inl ?_))) lives.distinct
  · rw [view_goOn_other place' (by simpa [mine] using apart.symm) (by simpa [goesOn] using apart.symm)]
    exact view_note_other (fun same => apart (same.symm.trans own))
  obtain ⟨call, token, only, handle, stood⟩ := runs.stands
  rw [one] at only
  cases only
  have one' : ((s.note event).view id).calls = [old] := by rw [view_note_mine own, one]
  rw [view_goOn_one place' one' mine, view_note_mine own, filter_cons_of_pos (by simpa using goesOn), filter_nil]
  obtain ⟨accepted, flag, told⟩ := runs.flag
  refine ⟨runs.one, ⟨new, token, rfl, handle, stands token stood⟩, ⟨accepted, flag, ?_⟩, .tail _ runs.enqueued, ?_, ?_⟩
  · rw [told, mem_cons, or_iff_right (quiet false).symm]
  · rw [mem_cons, or_iff_right (quiet true).symm]
    exact runs.late
  rw [count_cons]
  by_cases calls : event = .called id
  · rw [count_eq_zero.mpr (once calls)]
    split <;> omega
  · rw [if_neg (by simpa using calls)]
    exact runs.once

end

/-- The cancellation that an execution finishes with is what happened: none after
    an `Ok` of the driver, else the one that was accepted, if any. -/
def Told (s : QueueState ι ρ) (id : ι) (result : Except Text Unit) (cancelled : Bool) : Prop :=
  if result.toBool then cancelled = false
  else ∀ token, s.cancellations id = some token → s.tokens[token]? = some cancelled

theorem mapError_toBool (result : Except Text Unit) (f : Text → Text) : (result.mapError f).toBool = result.toBool := by
  cases result <;> rfl

/-- `finish` without its pruning. -/
def closeTask (s : QueueState ι ρ) (id : ι) (result : Except Text Unit) (warnings : List Text) (cancelled : Bool) : QueueState ι ρ :=
  { s with
    tasks := updateTask id (fun task => task.finishWithWarnings (result.mapError boundedError) warnings cancelled) s.tasks
    cancellations := Function.update s.cancellations id none }

theorem distinct_without (lives : s.Lives) : ∀ a b token, Function.update s.cancellations id none a = some token →
    Function.update s.cancellations id none b = some token → a = b := by
  have held : ∀ a token, Function.update s.cancellations id none a = some token → s.cancellations a = some token := by
    intro a token has
    by_cases same : a = id
    · subst same
      rw [Function.update_self] at has
      cases has
    · rwa [Function.update_of_ne same] at has
  exact fun a b token first second => lives.distinct a b token (held a token first) (held b token second)

variable {result : Except Text Unit} {warnings : List Text} {cancelled : Bool}

theorem view_closeTask_other {other : ι} (apart : other ≠ id) : (s.closeTask id result warnings cancelled).view other = s.view other := by
  simp [view, closeTask, updateTask_other (fun task => finishWithWarnings_id task _ _ _) apart, Function.update_of_ne apart]

omit [DecidableEq ι] in
theorem outcome_finished {log : List (Event ι)} (unended : task.isTerminal = false)
    (driven : .driven task.id true ∈ log ↔ result.toBool = true) (late : .accepted task.id true ∉ log)
    (told : result.toBool = true → cancelled = false) (told' : result.toBool = false → (cancelled = true ↔ .accepted task.id false ∈ log)) :
    Outcome log (task.finishWithWarnings (result.mapError boundedError) warnings cancelled) := by
  have accepted : Accepted log task.id ↔ .accepted task.id false ∈ log := by
    constructor
    · rintro ⟨_ | _, mem⟩
      · exact mem
      · exact absurd mem late
    · exact fun mem => ⟨false, mem⟩
  have status := finishWithWarnings_status unended (result.mapError boundedError) warnings cancelled
  rw [mapError_toBool] at status
  cases ok : result.toBool with
  | true =>
    have drove := driven.mpr ok
    obtain rfl := told ok
    simp only [ok, Bool.false_eq_true, if_false, if_true] at status
    constructor <;> simp [status, drove]
  | false =>
    have undriven : .driven task.id true ∉ log := fun mem => by
      rw [driven.mp mem] at ok
      cases ok
    have flagged := told' ok
    rw [← accepted] at flagged
    simp only [ok, Bool.false_eq_true, if_false] at status
    cases cancelled with
    | true => constructor <;> simp [status, undriven, flagged.mp rfl]
    | false =>
      have none : ¬ Accepted log task.id := fun there => by cases flagged.mpr there
      constructor <;> simp [status, undriven, none]

omit [DecidableEq ι] in
theorem finished_terminal (unended : task.isTerminal = false) (result : Except Text Unit) (warnings : List Text) (cancelled : Bool) :
    (task.finishWithWarnings result warnings cancelled).isTerminal = true := by
  rw [TransferTask.isTerminal, finishWithWarnings_status unended]
  split_ifs <;> rfl

theorem mine_of_view (one : (s.view id).tasks = [task]) : task ∈ s.tasks ∧ task.id = id := by
  have mem : task ∈ (s.view id).tasks := one ▸ mem_singleton.mpr rfl
  exact ⟨(mem_filter.mp mem).1, of_decide_eq_true (mem_filter.mp mem).2⟩

theorem Lives.finish (lives : s.Lives) (place : s.calls[i]? = some (.finishing id result warnings cancelled))
    (told : s.Told id result cancelled) : ((s.closeTask id result warnings cancelled).goOn i (.returned id)).Lives := by
  obtain ⟨runs, only⟩ := lives.runs place rfl nofun
  obtain ⟨task, one, running⟩ := runs.one
  obtain ⟨-, mine⟩ := mine_of_view one
  obtain ⟨call, token, calls, handle, stood⟩ := runs.stands
  obtain ⟨accepted, flag, noted⟩ := runs.flag
  have unended : task.isTerminal = false := by rw [TransferTask.isTerminal, running]; rfl
  rw [only] at calls
  cases calls
  have place' : (s.closeTask id result warnings cancelled).calls[i]? = some (.finishing id result warnings cancelled) := place
  refine lives.change id (fun other apart => ?_) (.inr (.inr (.inr ?_))) (distinct_without lives)
  · rw [view_goOn_other place' (by simpa [Call.worksFor] using apart.symm) (by simpa [Call.worksFor] using apart.symm)]
    exact view_closeTask_other apart
  have tasks : (updateTask id (fun task => task.finishWithWarnings (result.mapError boundedError) warnings cancelled)
      s.tasks).filter (fun task => decide (task.id = id)) =
      [task.finishWithWarnings (result.mapError boundedError) warnings cancelled] :=
    updateTask_one (fun task => finishWithWarnings_id task _ _ _) one
  obtain ⟨-, calls⟩ := filter_set_one (.returned id) place (decide_eq_true rfl) only
  refine ⟨.inr ⟨_, tasks, finished_terminal unended _ _ _, ?_⟩, Function.update_self .., fun call mem => ?_, runs.enqueued,
    fun waiting => absurd waiting runs.late, runs.once⟩
  · subst mine
    refine outcome_finished unended stood.2 runs.late (fun ok => ?_) fun failed => ?_
    · simpa [Told, ok] using told
    have flagged : s.tokens[token]? = some cancelled := by
      simp only [Told, failed, Bool.false_eq_true, if_false] at told
      exact told token handle
    have same : (s.view task.id).flag = s.tokens[token]? := by
      show (s.cancellations task.id).bind _ = _
      rw [show s.cancellations task.id = some token from handle]
      rfl
    rw [same, flagged, Option.some_inj] at flag
    rw [flag]
    exact noted
  · have inside : call ∈ [Call.returned id].filter fun call => decide (call.worksFor = some id) := calls ▸ mem
    exact mem_singleton.mp (mem_filter.mp inside).1

/-! ### The queue -/

theorem Lives.fewer (lives : s.Lives) {kept : List (TransferTask ι ρ)} (sublist : kept.Sublist s.tasks)
    (unended : kept.filter (fun task => !task.isTerminal) = s.tasks.filter fun task => !task.isTerminal) :
    Lives { s with tasks := kept } where
  distinct := lives.distinct
  fine := by
    intro id
    have less : (kept.filter fun task => decide (task.id = id)).Sublist (s.view id).tasks := sublist.filter _
    have shown : view { s with tasks := kept } id = { s.view id with tasks := kept.filter fun task => decide (task.id = id) } := rfl
    have stays : ∀ {task}, (s.view id).tasks = [task] → task.isTerminal = false →
        (kept.filter fun task => decide (task.id = id)) = [task] := by
      intro task one runs
      obtain ⟨mem, mine⟩ := mine_of_view one
      have there : task ∈ kept.filter fun task => !task.isTerminal :=
        unended ▸ mem_filter.mpr ⟨mem, by rw [runs]; rfl⟩
      have inside : task ∈ kept.filter fun task => decide (task.id = id) := mem_filter.mpr ⟨(mem_filter.mp there).1, decide_eq_true mine⟩
      rw [one] at less
      rcases sublist_singleton.mp less with none | same
      · rw [none] at inside
        cases inside
      · exact same
    rw [shown]
    rcases lives.fine id with unknown | waits | runs | over'
    · rw [unknown] at less ⊢
      rw [sublist_nil.mp less]
      exact .inl rfl
    · obtain ⟨task, one, status⟩ := waits.one
      rw [stays one (by rw [TransferTask.isTerminal, status]; rfl)]
      exact .inr (.inl ⟨⟨task, rfl, status⟩, waits.handle, waits.flag, waits.calls, waits.log⟩)
    · obtain ⟨task, one, status⟩ := runs.one
      rw [stays one (by rw [TransferTask.isTerminal, status]; rfl)]
      exact .inr (.inr (.inl ⟨⟨task, rfl, status⟩, runs.stands, runs.flag, runs.enqueued, runs.late, runs.once⟩))
    · refine .inr (.inr (.inr ⟨?_, over'.handle, over'.calls, over'.enqueued, over'.late, over'.once⟩))
      rcases over'.tasks with none | ⟨task, one, ended⟩
      · rw [none] at less
        exact .inl (sublist_nil.mp less)
      rw [one] at less
      rcases sublist_singleton.mp less with none | same
      · exact .inl none
      · exact .inr ⟨task, same, ended⟩

theorem Lives.prune (lives : s.Lives) : s.prune.Lives :=
  lives.fewer (pruneHistory_oldest s.tasks).sublist (pruneHistory_oldest s.tasks).unended

theorem Lives.token_lt (lives : s.Lives) (handle : s.cancellations id = some token) : token < s.tokens.length := by
  have known : ∀ {flag}, (s.view id).flag = some flag → token < s.tokens.length := by
    intro flag has
    have found : s.tokens[token]? = some flag := by
      rw [← has]
      show _ = (s.cancellations id).bind _
      rw [handle]
      rfl
    exact (List.getElem?_eq_some_iff.mp found).1
  have held : (s.view id).handle = some token := handle
  rcases lives.fine id with unknown | waits | runs | over'
  · rw [unknown] at held
    cases held
  · exact known waits.flag
  · obtain ⟨accepted, flag, -⟩ := runs.flag
    exact known flag
  · rw [over'.handle] at held
    cases held

/-- A new task at the end of the queue. -/
def add (s : QueueState ι ρ) (task : TransferTask ι ρ) : QueueState ι ρ :=
  { s with
    tasks := s.tasks ++ [task]
    cancellations := Function.update s.cancellations task.id (some s.tokens.length)
    tokens := s.tokens ++ [false]
    log := .enqueued task.id :: s.log }

theorem Lives.add (lives : s.Lives) (fresh : .enqueued task.id ∉ s.log) (status : task.status = .Waiting) : (s.add task).Lives := by
  have unknown := lives.unknown fresh
  have shown : ∀ {other}, other ≠ task.id → (s.add task).view other = s.view other := by
    intro other apart
    have flag : (s.cancellations other).bind (fun token => (s.tokens ++ [false])[token]?) =
        (s.cancellations other).bind fun token => s.tokens[token]? := by
      cases handle : s.cancellations other with
      | none => rfl
      | some token => exact getElem?_append_left (lives.token_lt handle)
    simp [view, QueueState.add, Function.update_of_ne apart, Event.id, apart.symm, flag]
  refine lives.change task.id (fun other => shown) (.inr (.inl ?_)) ?_
  · obtain ⟨tasks, handle, flag, calls, log⟩ := View.mk.inj unknown
    refine ⟨⟨task, ?_, status⟩, ⟨s.tokens.length, Function.update_self ..⟩, ?_, calls, ?_⟩
    · simp [view, QueueState.add, tasks]
    · simp [view, QueueState.add]
    · exact (log_mine rfl).trans (congrArg _ log)
  · intro a b token first second
    have held : ∀ a token, Function.update s.cancellations task.id (some s.tokens.length) a = some token →
        a = task.id ∧ token = s.tokens.length ∨ s.cancellations a = some token ∧ token < s.tokens.length := by
      intro a token has
      by_cases same : a = task.id
      · subst same
        rw [Function.update_self, Option.some_inj] at has
        exact .inl ⟨rfl, has.symm⟩
      · rw [Function.update_of_ne same] at has
        exact .inr ⟨has, lives.token_lt has⟩
    rcases held a token first with ⟨rfl, rfl⟩ | ⟨mine, low⟩ <;> rcases held b _ second with ⟨rfl, last⟩ | ⟨yours, low'⟩
    · rfl
    · omega
    · omega
    · exact lives.distinct a b _ mine yours

theorem enqueue_some (queued : s.enqueue task = some s') :
    s.tasks.countP (fun existing => !existing.isTerminal) < MAX_QUEUED_TRANSFERS ∧ s' = s.prune.add task := by
  unfold enqueue at queued
  split_ifs at queued with full
  cases queued
  exact ⟨by omega, rfl⟩

theorem isWaiting_iff {tasks : List (TransferTask ι ρ)} :
    isWaiting id tasks = true ↔ ∃ task ∈ tasks, task.id = id ∧ task.status = .Waiting := by
  simp [isWaiting]

theorem Lives.endWaiting (lives : s.Lives) (waiting : isWaiting id s.tasks = true) : (s.endWaiting id).Lives := by
  obtain ⟨task, mem, rfl, status⟩ := isWaiting_iff.mp waiting
  obtain ⟨waits, one⟩ := lives.waits mem status
  have unended : task.isTerminal = false := by rw [TransferTask.isTerminal, status]; rfl
  refine lives.change task.id (fun other apart => ?_) (.inr (.inr (.inr ?_))) (distinct_without lives)
  · have gone : (.accepted task.id true :: s.log).filter (fun event => decide (event.id = other)) = (s.view other).log :=
      log_other apart.symm
    have tasks : (s.endWaiting task.id).tasks.filter (fun task => decide (task.id = other)) =
        s.tasks.filter fun task => decide (task.id = other) := updateTask_other (fun task => finishWithWarnings_id task _ _ _) apart
    show View.mk _ _ _ _ _ = View.mk _ _ _ _ _
    rw [View.mk.injEq]
    have handle : (s.endWaiting task.id).cancellations other = s.cancellations other := Function.update_of_ne apart ..
    exact ⟨tasks, handle, by rw [handle]; rfl, rfl, gone⟩
  · have tasks : ((s.endWaiting task.id).view task.id).tasks = [task.finishWithWarnings (.error "传输已取消") [] true] :=
      updateTask_one (fun task => finishWithWarnings_id task _ _ _) one
    have log : ((s.endWaiting task.id).view task.id).log = [.accepted task.id true, .enqueued task.id] :=
      (log_mine rfl).trans (congrArg _ waits.log)
    refine ⟨.inr ⟨_, tasks, finished_terminal unended _ _ _, ?_⟩, Function.update_self .., fun call inside => ?_, ?_, ?_, ?_⟩
    · have cancelled := finishWithWarnings_status unended (.error "传输已取消") [] true
      rw [log]
      have accepted : Accepted [.accepted task.id true, .enqueued task.id] task.id := ⟨true, mem_cons_self⟩
      refine ⟨?_, ?_, ?_⟩ <;> rw [cancelled] <;> simp [accepted]
    · have none : call ∈ (s.view task.id).calls := inside
      rw [waits.calls] at none
      cases none
    all_goals simp [log]

theorem Lives.requestStop (lives : s.Lives) (handle : s.cancellations id = some token)
    (unwaiting : ¬ isWaiting id s.tasks = true) : (s.requestStop id token).Lives := by
  have inside := lives.token_lt handle
  refine lives.change id (fun other apart => ?_) (.inr (.inr (.inl ?_))) lives.distinct
  · have gone : (.accepted id false :: s.log).filter (fun event => decide (event.id = other)) = (s.view other).log := log_other apart.symm
    have flag : (s.cancellations other).bind (fun token' => (s.tokens.set token true)[token']?) =
        (s.cancellations other).bind fun token' => s.tokens[token']? := by
      cases held : s.cancellations other with
      | none => rfl
      | some token' =>
        refine getElem?_set_ne fun same => apart ?_
        exact lives.distinct other id token' held (same ▸ handle)
    rw [View.mk.injEq]
    exact ⟨rfl, rfl, flag, rfl, gone⟩
  · have held : (s.view id).handle = some token := handle
    have runs : (s.view id).Runs id := by
      rcases lives.fine id with unknown | waits | runs | over'
      · rw [unknown] at held
        cases held
      · obtain ⟨task, one, status⟩ := waits.one
        obtain ⟨mem, mine⟩ := mine_of_view one
        exact absurd (isWaiting_iff.mpr ⟨task, mem, mine, status⟩) unwaiting
      · exact runs
      · rw [over'.handle] at held
        cases held
    obtain ⟨call, token', calls, handle', stood⟩ := runs.stands
    rw [held, Option.some_inj] at handle'
    subst handle'
    have log : ((s.requestStop id token).view id).log = .accepted id false :: (s.view id).log := log_mine rfl
    have flag : ((s.requestStop id token).view id).flag = some true := by
      show (s.cancellations id).bind (fun token' => (s.tokens.set token true)[token']?) = some true
      rw [handle]
      exact getElem?_set_self inside
    refine ⟨runs.one, ⟨call, token, calls, held, ?_⟩, ⟨true, flag, by simp [log]⟩, ?_, ?_, ?_⟩
    · rw [log]
      cases call <;> first | exact stood.elim | simpa [Call.Stands] using stood
    · rw [log]
      exact .tail _ runs.enqueued
    · simp [log, runs.late]
    · rw [log, count_cons_of_ne (by nofun)]
      exact runs.once

theorem Lives.cancelOne (lives : s.Lives) (id : ι) : (s.cancelOne id).Lives := by
  unfold QueueState.cancelOne
  split_ifs with waiting
  · exact lives.endWaiting waiting
  split
  · rename_i token handle
    exact lives.requestStop handle waiting
  · exact lives

theorem Lives.progress (lives : s.Lives) (id : ι) (transferred total : Nat) :
    (s.update id fun task => task.updateProgress transferred total).Lives := by
  refine lives.change id (fun other => view_update_other (fun task => updateProgress_id task _ _)) ?_ lives.distinct
  have one : ∀ {task}, (s.view id).tasks = [task] → (s.update id fun task => task.updateProgress transferred total).view id =
      { s.view id with tasks := [task.updateProgress transferred total] } :=
    view_update_one fun task => updateProgress_id task _ _
  have idle : ∀ {task : TransferTask ι ρ}, task.status ≠ .Running → task.updateProgress transferred total = task :=
    fun rests => if_neg rests
  have none : (s.view id).tasks = [] → (s.update id fun task => task.updateProgress transferred total).view id = s.view id := by
    intro none
    simp [update, updateTask_none none]
  rcases lives.fine id with unknown | waits | runs | over'
  · rw [none (by rw [unknown])]
    exact .inl unknown
  · obtain ⟨task, mine, status⟩ := waits.one
    rw [one mine, idle (by rw [status]; nofun)]
    exact .inr (.inl ⟨⟨task, rfl, status⟩, waits.handle, waits.flag, waits.calls, waits.log⟩)
  · obtain ⟨task, mine, status⟩ := runs.one
    rw [one mine]
    refine .inr (.inr (.inl ⟨⟨_, rfl, ?_⟩, runs.stands, runs.flag, runs.enqueued, runs.late, runs.once⟩))
    rw [updateProgress_status, status]
  · rcases over'.tasks with empty | ⟨task, mine, ended, outcome⟩
    · rw [none empty]
      exact .inr (.inr (.inr over'))
    · have rests : task.status ≠ .Running := fun runs => by rw [TransferTask.isTerminal, runs] at ended; cases ended
      rw [one mine, idle rests]
      exact .inr (.inr (.inr ⟨.inr ⟨task, rfl, ended, outcome⟩, over'.handle, over'.calls, over'.enqueued, over'.late, over'.once⟩))

end QueueState

end Ramag.TransferQueue
