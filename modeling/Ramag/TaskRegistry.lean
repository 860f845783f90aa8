import Mathlib.Data.Finmap
import Mathlib.Algebra.Order.Ring.Int
import Mathlib.Algebra.Order.Ring.Nat
import Ramag.Domain
import Mathlib.Data.List.AList

/-!
The tasks of one plugin. A `PluginTaskRegistry` hands out a bounded number of
handles and holds the cancellation flag of each one; a handle frees its slot
when it is dropped. Every operation holds the lock of the registry, so an
interleaving of calls is a list of operations (`Op`). `Scope` is the registry
together with the handles that are alive.
-/
namespace Ramag.TaskRegistry
open Strings Domain List List

def U64_MAX : Nat := 2 ^ 64 - 1
def MAX_PLUGIN_TASKS : Nat := 8
def MAX_PLUGIN_TASK_NAME_BYTES : Nat := 128
/-- Sixty seconds, as every duration here in nanoseconds. -/
def MAX_PLUGIN_TASK_TIMEOUT : Nat := 60 * 10 ^ 9
def MAX_PLUGIN_TASK_RESULT_BYTES : Nat := 1024 * 1024

inductive PluginTaskError
  | EmptyName
  | NameTooLong
  | InvalidName
  | LimitReached (max : Nat)
  | NotAccepting
  deriving DecidableEq

def validateName (name : Text) : Except PluginTaskError Unit :=
  if name = [] then .error .EmptyName
  else if byteLen name > MAX_PLUGIN_TASK_NAME_BYTES then .error .NameTooLong
  else if name.any isControl then .error .InvalidName
  else .ok ()

inductive PluginTaskBudgetError
  | InvalidTimeout
  | InvalidResultLimit

/-- A budget within the limits of a task. -/
structure PluginTaskBudget where
  timeout : Nat
  maxResultBytes : Nat
  lasting : 0 < timeout ∧ timeout ≤ MAX_PLUGIN_TASK_TIMEOUT
  holding : 0 < maxResultBytes ∧ maxResultBytes ≤ MAX_PLUGIN_TASK_RESULT_BYTES

def PluginTaskBudget.new (timeout maxResultBytes : Nat) : Except PluginTaskBudgetError PluginTaskBudget :=
  if time : timeout = 0 ∨ timeout > MAX_PLUGIN_TASK_TIMEOUT then .error .InvalidTimeout
  else if size : maxResultBytes = 0 ∨ maxResultBytes > MAX_PLUGIN_TASK_RESULT_BYTES then .error .InvalidResultLimit
  else .ok ⟨timeout, maxResultBytes, by omega, by omega⟩

/-- The registry, and the cancellation flags that it has allocated. A task is
    held under its id with the cell of its flag. -/
structure PluginTaskRegistry where
  nextId : Nat := 0
  accepting : Bool := true
  tasks : AList fun _ : Nat => Nat := ∅
  flags : List Bool := []

structure PluginTaskHandle where
  id : Nat
  name : Text
  cancellation : Nat

/-- The id of the next task. The addition stops at the largest `u64`, so the
    test for zero never holds. -/
def advance (nextId : Nat) : Nat :=
  let next := min (nextId + 1) U64_MAX
  if next = 0 then 1 else next

def PluginTaskRegistry.start (registry : PluginTaskRegistry) (name : Text) :
    Except PluginTaskError (PluginTaskHandle × PluginTaskRegistry) := do
  validateName name
  if registry.accepting = false then .error .NotAccepting
  else if registry.tasks.keys.length ≥ MAX_PLUGIN_TASKS then .error (.LimitReached MAX_PLUGIN_TASKS)
  else
    let id := advance registry.nextId
    let cancellation := registry.flags.length
    .ok (⟨id, name, cancellation⟩,
      { registry with
        nextId := id
        tasks := registry.tasks.insert id cancellation
        flags := registry.flags ++ [false] })

def PluginTaskRegistry.cancelAll (registry : PluginTaskRegistry) : PluginTaskRegistry :=
  { registry with
    accepting := false
    flags := registry.tasks.entries.foldl (fun flags task => flags.set task.2 true) registry.flags }

def PluginTaskRegistry.drop (registry : PluginTaskRegistry) (handle : PluginTaskHandle) : PluginTaskRegistry :=
  { registry with tasks := registry.tasks.erase handle.id }

def PluginTaskRegistry.requestCancel (registry : PluginTaskRegistry) (handle : PluginTaskHandle) : PluginTaskRegistry :=
  { registry with flags := registry.flags.set handle.cancellation true }

def PluginTaskRegistry.cancellationRequested (registry : PluginTaskRegistry) (handle : PluginTaskHandle) : Bool :=
  registry.flags[handle.cancellation]?.getD false

/-- A registry and the handles that are alive. A handle is moved, never copied,
    so each one is dropped once. -/
structure Scope where
  registry : PluginTaskRegistry := {}
  live : List PluginTaskHandle := []

/-- One call. A live handle is named by its place. -/
inductive Op
  | start (name : Text)
  | drop (index : Nat)
  | requestCancel (index : Nat)
  | cancelAll

def Scope.step (scope : Scope) : Op → Scope
  | .start name =>
    match scope.registry.start name with
    | .ok (handle, registry) => ⟨registry, scope.live ++ [handle]⟩
    | .error _ => scope
  | .drop index =>
    match scope.live[index]? with
    | some handle => ⟨scope.registry.drop handle, scope.live.eraseIdx index⟩
    | none => scope
  | .requestCancel index =>
    match scope.live[index]? with
    | some handle => { scope with registry := scope.registry.requestCancel handle }
    | none => scope
  | .cancelAll => { scope with registry := scope.registry.cancelAll }

/-- The scope after the calls, from a new registry. -/
def run (ops : List Op) : Scope := ops.foldl Scope.step {}

theorem run_concat (ops : List Op) (op : Op) : run (ops ++ [op]) = (run ops).step op := by simp [run]

/-- The registry takes a task of this name. -/
def PluginTaskRegistry.admits (registry : PluginTaskRegistry) (name : Text) : Prop :=
  validateName name = .ok () ∧ registry.accepting = true ∧ registry.tasks.keys.length < MAX_PLUGIN_TASKS

/-- The handle of the next task. -/
def PluginTaskRegistry.issued (registry : PluginTaskRegistry) (name : Text) : PluginTaskHandle :=
  ⟨advance registry.nextId, name, registry.flags.length⟩

/-- The registry that holds the next task. -/
def PluginTaskRegistry.holding (registry : PluginTaskRegistry) : PluginTaskRegistry :=
  { registry with
    nextId := advance registry.nextId
    tasks := registry.tasks.insert (advance registry.nextId) registry.flags.length
    flags := registry.flags ++ [false] }

variable {registry : PluginTaskRegistry}

variable {name : Text}

theorem start_admitted (admitted : registry.admits name) : registry.start name = .ok (registry.issued name, registry.holding) := by
  obtain ⟨named, open_, room⟩ := admitted
  have free : ¬ registry.tasks.keys.length ≥ MAX_PLUGIN_TASKS := by omega
  rw [PluginTaskRegistry.start, named]
  rw [if_neg (by simp [open_]), if_neg free]
  rfl

theorem start_refused (refused : ¬ registry.admits name) : ∃ error, registry.start name = .error error := by
  unfold PluginTaskRegistry.start
  cases named : validateName name with
  | error error => exact ⟨error, rfl⟩
  | ok =>
    by_cases closed : registry.accepting = false
    · exact ⟨.NotAccepting, by simp [closed, bind, Except.bind]⟩
    · by_cases full : registry.tasks.keys.length ≥ MAX_PLUGIN_TASKS
      · exact ⟨.LimitReached MAX_PLUGIN_TASKS, by simp [closed, full, bind, Except.bind]⟩
      · exact absurd ⟨named, by simpa using closed, by omega⟩ refused

theorem start_ok_iff : (∃ result, registry.start name = .ok result) ↔ registry.admits name := by
  constructor
  · rintro ⟨result, started⟩
    by_contra refused
    obtain ⟨error, failed⟩ := start_refused refused
    simp [failed] at started
  · intro admitted
    exact ⟨_, start_admitted admitted⟩

/-- What a call can do to the scope: nothing, or one of four changes. -/
inductive Effect (scope : Scope) : Op → Prop
  | unchanged (op : Op) (same : scope.step op = scope) : Effect scope op
  | started (name : Text) (admitted : scope.registry.admits name)
      (after : scope.step (.start name) = ⟨scope.registry.holding, scope.live ++ [scope.registry.issued name]⟩) :
      Effect scope (.start name)
  | dropped (index : Nat) (handle : PluginTaskHandle) (alive : scope.live[index]? = some handle)
      (after : scope.step (.drop index) = ⟨scope.registry.drop handle, scope.live.eraseIdx index⟩) :
      Effect scope (.drop index)
  | asked (index : Nat) (handle : PluginTaskHandle) (alive : scope.live[index]? = some handle)
      (after : scope.step (.requestCancel index) = { scope with registry := scope.registry.requestCancel handle }) :
      Effect scope (.requestCancel index)
  | closed (after : scope.step .cancelAll = { scope with registry := scope.registry.cancelAll }) :
      Effect scope .cancelAll

theorem step_effect (scope : Scope) (op : Op) : Effect scope op := by
  cases op with
  | start name =>
    by_cases admitted : scope.registry.admits name
    · exact .started name admitted (by rw [Scope.step, start_admitted admitted])
    · obtain ⟨error, refused⟩ := start_refused admitted
      exact .unchanged _ (by rw [Scope.step, refused])
  | drop index =>
    cases alive : scope.live[index]? with
    | none => exact .unchanged _ (by rw [Scope.step, alive])
    | some handle => exact .dropped index handle alive (by rw [Scope.step, alive])
  | requestCancel index =>
    cases alive : scope.live[index]? with
    | none => exact .unchanged _ (by rw [Scope.step, alive])
    | some handle => exact .asked index handle alive (by rw [Scope.step, alive])
  | cancelAll => exact .closed rfl

theorem foldl_set (tasks : List (Sigma fun _ : Nat => Nat)) (flags : List Bool) (cell : Nat) :
    (tasks.foldl (fun flags task => flags.set task.2 true) flags)[cell]? =
      if cell ∈ tasks.map (·.2) then flags[cell]?.map fun _ => true else flags[cell]? := by
  induction tasks generalizing flags with
  | nil => simp
  | cons task tasks ih =>
    rw [foldl_cons, ih, getElem?_set]
    by_cases here : task.2 = cell
    · by_cases there : cell < flags.length
      · simp [here, there]
      · simp [here, there]
    · have mem : cell ∈ (task :: tasks).map (·.2) ↔ cell ∈ tasks.map (·.2) := by
        rw [map_cons, mem_cons, or_iff_right (Ne.symm here)]
      rw [if_neg here, if_congr mem rfl rfl]

theorem length_foldl_set (tasks : List (Sigma fun _ : Nat => Nat)) (flags : List Bool) :
    (tasks.foldl (fun flags task => flags.set task.2 true) flags).length = flags.length := by
  induction tasks generalizing flags with
  | nil => rfl
  | cons task tasks ih => rw [foldl_cons, ih, length_set]

variable {cell : Nat}

theorem cancelAll_flag {id : Nat} (held : registry.tasks.lookup id = some cell)
    (allocated : cell < registry.flags.length) : registry.cancelAll.flags[cell]? = some true := by
  have mem : cell ∈ registry.tasks.entries.map (·.2) := mem_map.mpr ⟨⟨id, cell⟩, AList.mem_lookup_iff.mp held, rfl⟩
  rw [PluginTaskRegistry.cancelAll, foldl_set, if_pos mem, getElem?_eq_getElem allocated]
  rfl

variable {scope : Scope}

theorem step_flag (set : scope.registry.flags[cell]? = some true) (op : Op) : (scope.step op).registry.flags[cell]? = some true := by
  have inside : cell < scope.registry.flags.length := (List.getElem?_eq_some_iff.mp set).1
  cases step_effect scope op with
  | unchanged _ same => rw [same, set]
  | started name _ after =>
    rw [after]
    show (scope.registry.flags ++ [false])[cell]? = _
    rw [getElem?_append_left inside, set]
  | dropped _ handle _ after => rw [after]; exact set
  | asked _ handle _ after =>
    rw [after]
    show (scope.registry.flags.set handle.cancellation true)[cell]? = _
    by_cases here : handle.cancellation = cell
    · rw [here, getElem?_set_self inside]
    · rw [getElem?_set_ne here, set]
  | closed after =>
    rw [after]
    rw [PluginTaskRegistry.cancelAll, foldl_set, set]
    split_ifs <;> rfl

/-! ### The invariants -/

variable {nextId : Nat}

theorem advance_bound (bound : nextId ≤ U64_MAX) : nextId ≤ advance nextId ∧ advance nextId ≤ U64_MAX := by
  unfold advance U64_MAX at *
  simp only
  split_ifs <;> omega

theorem advance_fresh (below : nextId < U64_MAX) : nextId < advance nextId := by
  unfold advance U64_MAX at *
  simp only
  split_ifs <;> omega

/-- What every run keeps: the table is bounded, and every slot is the slot of a
    live handle. -/
structure Consistent (scope : Scope) : Prop where
  bounded : scope.registry.tasks.keys.length ≤ MAX_PLUGIN_TASKS
  counted : scope.registry.nextId ≤ U64_MAX
  issued : ∀ handle ∈ scope.live, handle.id ≤ scope.registry.nextId
  allocated : ∀ handle ∈ scope.live, handle.cancellation < scope.registry.flags.length
  slots : ∀ id cell, scope.registry.tasks.lookup id = some cell → ∃ handle ∈ scope.live, handle.id = id ∧ handle.cancellation = cell
  closed : scope.registry.accepting = false → ∀ id cell, scope.registry.tasks.lookup id = some cell →
    scope.registry.flags[cell]? = some true

/-- Every live handle has a slot of its own. -/
structure Separate (scope : Scope) : Prop where
  unique : (scope.live.map (·.id)).Nodup
  owned : ∀ handle ∈ scope.live, scope.registry.tasks.lookup handle.id = some handle.cancellation

theorem initial_consistent : Consistent {} where
  bounded := Nat.zero_le _
  counted := Nat.zero_le _
  issued := by simp
  allocated := by simp
  slots := by simp
  closed := by simp

theorem initial_separate : Separate {} := ⟨by simp, by simp⟩

private theorem held_inside (consistent : Consistent scope) {id : Nat}
    (held : scope.registry.tasks.lookup id = some cell) : cell < scope.registry.flags.length := by
  obtain ⟨handle, alive, _, rfl⟩ := consistent.slots id cell held
  exact consistent.allocated handle alive

theorem step_consistent (consistent : Consistent scope) (op : Op) : Consistent (scope.step op) := by
  cases step_effect scope op with
  | unchanged _ same => rwa [same]
  | started name admitted after =>
    obtain ⟨_, open_, room⟩ := admitted
    have bound := advance_bound consistent.counted
    rw [after]
    constructor
    · show (scope.registry.tasks.insert _ _).keys.length ≤ _
      rw [AList.keys_insert, length_cons]
      have := length_erase_le (a := advance scope.registry.nextId) (l := scope.registry.tasks.keys)
      omega
    · exact bound.2
    · rintro handle alive
      rcases mem_append.mp alive with old | new
      · exact (consistent.issued handle old).trans bound.1
      · rw [mem_singleton.mp new]
        exact le_rfl
    · rintro handle alive
      show _ < (scope.registry.flags ++ [false]).length
      rw [length_append, length_singleton]
      rcases mem_append.mp alive with old | new
      · exact (consistent.allocated handle old).trans (Nat.lt_succ_self _)
      · rw [mem_singleton.mp new]
        exact Nat.lt_succ_self _
    · intro id cell held
      by_cases new : id = advance scope.registry.nextId
      · refine ⟨_, mem_append_right _ (mem_singleton_self _), new.symm, ?_⟩
        rw [new] at held
        simpa [PluginTaskRegistry.holding, PluginTaskRegistry.issued] using held
      · obtain ⟨handle, alive, same⟩ := consistent.slots id cell
          (by simpa [PluginTaskRegistry.holding, AList.lookup_insert_ne new] using held)
        exact ⟨handle, mem_append_left _ alive, same⟩
    · intro shut
      exact absurd shut (by simp [PluginTaskRegistry.holding, open_])
  | dropped index handle alive after =>
    rw [after]
    have remains {id cell : Nat} (held : (scope.registry.drop handle).tasks.lookup id = some cell) :
        id ≠ handle.id ∧ scope.registry.tasks.lookup id = some cell := by
      obtain rfl | own := eq_or_ne id handle.id
      · simp [PluginTaskRegistry.drop] at held
      · exact ⟨own, by simpa [PluginTaskRegistry.drop, AList.lookup_erase_ne own] using held⟩
    constructor
    · show (scope.registry.tasks.erase handle.id).keys.length ≤ _
      rw [AList.keys_erase]
      exact length_erase_le.trans consistent.bounded
    · exact consistent.counted
    · exact fun other alive => consistent.issued other (mem_of_mem_eraseIdx alive)
    · exact fun other alive => consistent.allocated other (mem_of_mem_eraseIdx alive)
    · intro id cell held
      obtain ⟨foreign, before⟩ := remains held
      obtain ⟨other, mem, rfl, same⟩ := consistent.slots id cell before
      obtain ⟨place, inside, here⟩ := List.getElem_of_mem mem
      refine ⟨other, List.mem_eraseIdx_iff_getElem?.mpr ⟨place, ?_, List.getElem?_eq_some_iff.mpr ⟨inside, here⟩⟩, rfl, same⟩
      rintro rfl
      rw [getElem?_eq_getElem inside, here] at alive
      cases alive
      exact foreign rfl
    · exact fun shut id cell held => consistent.closed shut id cell (remains held).2
  | asked index handle alive after =>
    have length : (scope.registry.requestCancel handle).flags.length = scope.registry.flags.length := length_set
    rw [after]
    constructor
    · exact consistent.bounded
    · exact consistent.counted
    · exact consistent.issued
    · intro other mem
      rw [length]
      exact consistent.allocated other mem
    · exact consistent.slots
    · intro shut id cell held
      have set := step_flag (consistent.closed shut id cell held) (.requestCancel index)
      rwa [after] at set
  | closed after =>
    have length : scope.registry.cancelAll.flags.length = scope.registry.flags.length := length_foldl_set _ _
    rw [after]
    constructor
    · exact consistent.bounded
    · exact consistent.counted
    · exact consistent.issued
    · intro other mem
      rw [length]
      exact consistent.allocated other mem
    · exact consistent.slots
    · exact fun _ id cell held => cancelAll_flag held (held_inside consistent held)

theorem run_consistent (ops : List Op) : Consistent (run ops) := by
  induction ops using reverseRecOn with
  | nil => exact initial_consistent
  | append_singleton ops op ih =>
    rw [run_concat]
    exact step_consistent ih op

/-- A task that is taken does not get the id of one that still runs: the ids
    have not reached the largest `u64`, or no live task has it. -/
def Spare (scope : Scope) : Op → Prop
  | .start name => scope.registry.admits name → scope.registry.nextId = U64_MAX → U64_MAX ∉ scope.registry.tasks
  | _ => True

private theorem advance_spare (consistent : Consistent scope) (admitted : scope.registry.admits name) (spare : Spare scope (.start name)) :
    advance scope.registry.nextId ∉ scope.registry.tasks := by
  intro taken
  obtain ⟨cell, held⟩ := Option.isSome_iff_exists.mp (AList.lookup_isSome.mpr taken)
  obtain ⟨handle, alive, same, _⟩ := consistent.slots _ cell held
  have old := consistent.issued handle alive
  rcases Nat.lt_or_eq_of_le consistent.counted with below | last
  · have := advance_fresh below
    omega
  have bound := advance_bound consistent.counted
  have top : advance scope.registry.nextId = U64_MAX := by omega
  rw [top] at taken
  exact spare admitted last taken

theorem other_id {live : List PluginTaskHandle} {index : Nat} {handle other : PluginTaskHandle}
    (unique : (live.map (·.id)).Nodup) (alive : live[index]? = some handle) (mem : other ∈ live.eraseIdx index) : other.id ≠ handle.id := by
  obtain ⟨place, different, here⟩ := mem_eraseIdx_iff_getElem?.mp mem
  intro same
  have inside : index < (live.map (·.id)).length := by
    rw [List.length_map]
    exact (List.getElem?_eq_some_iff.mp alive).1
  have equal : (live.map (·.id))[index]? = (live.map (·.id))[place]? := by
    rw [List.getElem?_map, List.getElem?_map, alive, here, Option.map_some, Option.map_some, same]
  exact different (((getElem?_inj inside unique).mp equal).symm)

theorem step_separate (consistent : Consistent scope) (separate : Separate scope) (op : Op)
    (spare : Spare scope op) : Separate (scope.step op) := by
  cases step_effect scope op with
  | unchanged _ same => rwa [same]
  | started name admitted after =>
    have fresh := advance_spare consistent admitted spare
    have different {handle : PluginTaskHandle} (alive : handle ∈ scope.live) :
        handle.id ≠ advance scope.registry.nextId := by
      intro same
      rw [← same, ← AList.lookup_isSome, separate.owned handle alive] at fresh
      exact fresh rfl
    rw [after]
    constructor
    · rw [map_append, map_singleton, nodup_append]
      refine ⟨separate.unique, nodup_singleton _, ?_⟩
      rintro id old _ new
      obtain ⟨handle, alive, rfl⟩ := mem_map.mp old
      rw [mem_singleton.mp new]
      exact different alive
    · rintro handle alive
      show (scope.registry.tasks.insert _ _).lookup _ = _
      rcases mem_append.mp alive with old | new
      · rw [AList.lookup_insert_ne (different old), separate.owned handle old]
      · rw [mem_singleton.mp new]
        exact AList.lookup_insert _
  | dropped index handle alive after =>
    rw [after]
    constructor
    · exact separate.unique.sublist ((eraseIdx_sublist _ _).map _)
    intro other mem
    show (scope.registry.tasks.erase handle.id).lookup _ = _
    rw [AList.lookup_erase_ne (other_id separate.unique alive mem)]
    exact separate.owned other (mem_of_mem_eraseIdx mem)
  | asked index handle alive after =>
    rw [after]
    exact ⟨separate.unique, separate.owned⟩
  | closed after => exact ⟨separate.unique, separate.owned⟩

theorem live_length (consistent : Consistent scope) (separate : Separate scope) : scope.live.length = scope.registry.tasks.keys.length := by
  have same : (scope.live.map (·.id)).Perm scope.registry.tasks.keys := by
    rw [perm_ext_iff_of_nodup separate.unique scope.registry.tasks.keys_nodup]
    intro id
    constructor
    · intro mem
      obtain ⟨handle, alive, rfl⟩ := mem_map.mp mem
      rw [← AList.mem_keys, ← AList.lookup_isSome, separate.owned handle alive]
      rfl
    intro mem
    rw [← AList.mem_keys, ← AList.lookup_isSome] at mem
    obtain ⟨cell, held⟩ := Option.isSome_iff_exists.mp mem
    obtain ⟨handle, alive, rfl, _⟩ := consistent.slots id cell held
    exact mem_map_of_mem alive
  simpa using same.length_eq

theorem tasks_le_live (consistent : Consistent scope) : scope.registry.tasks.keys.length ≤ scope.live.length := by
  have inside : scope.registry.tasks.keys ⊆ scope.live.map (·.id) := by
    intro id mem
    rw [← AList.mem_keys, ← AList.lookup_isSome] at mem
    obtain ⟨cell, held⟩ := Option.isSome_iff_exists.mp mem
    obtain ⟨handle, alive, rfl, _⟩ := consistent.slots id cell held
    exact mem_map_of_mem alive
  simpa using (subperm_of_subset scope.registry.tasks.keys_nodup inside).length_le

theorem step_closed (closed : scope.registry.accepting = false) (op : Op) : (scope.step op).registry.accepting = false := by
  cases step_effect scope op with
  | unchanged _ same => rw [same, closed]
  | started name admitted _ => exact absurd admitted.2.1 (by simp [closed])
  | dropped _ _ _ after | asked _ _ _ after => rw [after]; exact closed

  | closed after => rfl

variable {ops : List Op}

theorem run_closed (closing : .cancelAll ∈ ops) : (run ops).registry.accepting = false := by
  induction ops using reverseRecOn with
  | nil => cases closing
  | append_singleton ops op ih =>
    rw [run_concat]
    rcases mem_append.mp closing with before | last
    · exact step_closed (ih before) op
    · rw [← mem_singleton.mp last]
      rfl

/-- Ids below the largest one are enough to keep the live handles apart. -/
structure Healthy (scope : Scope) : Prop where
  consistent : Consistent scope
  separate : scope.registry.nextId < U64_MAX → Separate scope

theorem initial_healthy : Healthy {} := ⟨initial_consistent, fun _ => initial_separate⟩

theorem step_nextId (consistent : Consistent scope) (op : Op) : scope.registry.nextId ≤ (scope.step op).registry.nextId := by
  cases step_effect scope op with
  | unchanged _ same => rw [same]
  | started name _ after => rw [after]; exact (advance_bound consistent.counted).1
  | dropped _ _ _ after | asked _ _ _ after => rw [after]; exact le_rfl

  | closed after => exact le_rfl

theorem step_healthy (healthy : Healthy scope) (op : Op) : Healthy (scope.step op) := by
  refine ⟨step_consistent healthy.consistent op, fun below => ?_⟩
  have earlier : scope.registry.nextId < U64_MAX := (step_nextId healthy.consistent op).trans_lt below
  refine step_separate healthy.consistent (healthy.separate earlier) op ?_
  cases op with
  | start name => exact fun _ last => absurd last (Nat.ne_of_lt earlier)
  | _ => trivial

theorem steps_healthy (healthy : Healthy scope) (ops : List Op) : Healthy (ops.foldl Scope.step scope) := by
  induction ops generalizing scope with
  | nil => exact healthy
  | cons op ops ih => exact ih (step_healthy healthy op)

theorem step_accepting (scope : Scope) {op : Op} (kept : op ≠ .cancelAll) :
    (scope.step op).registry.accepting = scope.registry.accepting := by
  cases step_effect scope op with
  | unchanged _ same => rw [same]
  | started name _ after | dropped _ _ _ after | asked _ _ _ after => rw [after]; rfl

  | closed _ => exact absurd rfl kept

theorem steps_accepting (scope : Scope) (kept : .cancelAll ∉ ops) :
    (ops.foldl Scope.step scope).registry.accepting = scope.registry.accepting := by
  induction ops generalizing scope with
  | nil => rfl
  | cons op ops ih =>
    have other : op ≠ .cancelAll := fun same => kept (same ▸ mem_cons_self)
    rw [foldl_cons, ih _ fun later => kept (mem_cons_of_mem _ later), step_accepting scope other]

theorem closed_cancelled (consistent : Consistent scope) (separate : Separate scope)
    (closed : scope.registry.accepting = false) {handle : PluginTaskHandle} (alive : handle ∈ scope.live) :
    scope.registry.cancellationRequested handle = true := by
  rw [PluginTaskRegistry.cancellationRequested, consistent.closed closed _ _ (separate.owned handle alive)]
  rfl

/-- Every call of the run is made where its id is spare. -/
def Spares (ops : List Op) : Prop := ∀ before op after, ops = before ++ op :: after → Spare (run before) op

theorem run_separate (spares : Spares ops) : Separate (run ops) := by
  induction ops using reverseRecOn with
  | nil => exact initial_separate
  | append_singleton ops op ih =>
    rw [run_concat]
    refine step_separate (run_consistent ops) (ih ?_) op (spares ops op [] rfl)
    rintro before earlier after rfl
    exact spares before earlier (after ++ [op]) (by simp)

/-- What the registry promises after the calls. -/
structure Promised (ops : List Op) : Prop where
  bounded : (run ops).live.length ≤ MAX_PLUGIN_TASKS
  unique : ((run ops).live.map (·.id)).Nodup
  freed : ∀ index handle, (run ops).live[index]? = some handle → (run ops).registry.tasks.lookup handle.id = some handle.cancellation ∧
      (run (ops ++ [.drop index])).registry.tasks.lookup handle.id = none ∧
      (∀ id, id ≠ handle.id → (run (ops ++ [.drop index])).registry.tasks.lookup id = (run ops).registry.tasks.lookup id) ∧
      ∀ other ∈ (run (ops ++ [.drop index])).live, (run (ops ++ [.drop index])).registry.tasks.lookup other.id = some other.cancellation
  cancelled : .cancelAll ∈ ops → (∀ handle ∈ (run ops).live, (run ops).registry.cancellationRequested handle = true) ∧
      ∀ name, ∃ error, (run ops).registry.start name = .error error

/-- A registry keeps its promises as long as every id that it hands out is
    spare. -/
theorem spares_promised (ops : List Op) (spares : Spares ops) : Promised ops := by
  have consistent := run_consistent ops
  have separate := run_separate spares
  constructor
  · rw [live_length consistent separate]
    exact consistent.bounded
  · exact separate.unique
  · intro index handle alive
    have later : Separate (run (ops ++ [.drop index])) := by
      rw [run_concat]
      exact step_separate consistent separate (.drop index) trivial
    have dropped : (run (ops ++ [.drop index])).registry.tasks = (run ops).registry.tasks.erase handle.id := by
      rw [run_concat, Scope.step, alive]
      rfl
    refine ⟨separate.owned handle (mem_of_getElem? alive), ?_, ?_, later.owned⟩
    · rw [dropped, AList.lookup_erase]
    · intro id other
      rw [dropped, AList.lookup_erase_ne other]
  · intro closing
    have closed := run_closed closing
    constructor
    · exact fun handle alive => closed_cancelled consistent separate closed alive
    intro name
    refine start_refused ?_
    rintro ⟨_, open_, _⟩
    simp [closed] at open_

/-- No id comes near the largest one in a run of fewer calls. -/
theorem run_nextId (ops : List Op) : (run ops).registry.nextId ≤ ops.length := by
  induction ops using reverseRecOn with
  | nil => exact le_rfl
  | append_singleton ops op ih =>
    rw [run_concat, length_append, length_singleton]
    cases step_effect (run ops) op with
    | unchanged _ same => rw [same]; omega
    | started name _ after =>
      rw [after]
      show advance _ ≤ _
      unfold advance
      simp only
      split_ifs <;> omega
    | dropped _ _ _ after | asked _ _ _ after => rw [after]; exact ih.trans (Nat.le_succ _)

    | closed after => exact ih.trans (Nat.le_succ _)

theorem short_spares (short : ops.length ≤ U64_MAX) : Spares ops := by
  rintro before op after rfl
  have issued := run_nextId before
  cases op with
  | start name =>
    intro _ last
    simp only [length_append, length_cons] at short
    omega
  | _ => trivial

theorem spares_promised_closed : Promised [.start "query", .start "export", .drop 0, .cancelAll] :=
  spares_promised _ (short_spares (by unfold U64_MAX; simp))

/-- Tasks that start and end, one after the other. -/
def rounds (n : Nat) : List Op := (replicate n [Op.start "entry", .drop 0]).flatten

/-- Rounds until one id is left, then two tasks that stay. -/
def exhausting : List Op := rounds (U64_MAX - 1) ++ [.start "entry", .start "entry"]

/-- A registry without tasks that has handed out `n` ids. -/
private structure Idle (n : Nat) (scope : Scope) : Prop where
  nextId : scope.registry.nextId = n
  accepting : scope.registry.accepting = true
  tasks : scope.registry.tasks = ∅
  live : scope.live = []

private theorem step_start (admitted : scope.registry.admits name) :
    scope.step (.start name) = ⟨scope.registry.holding, scope.live ++ [scope.registry.issued name]⟩ := by
  rw [Scope.step, start_admitted admitted]

variable {n : Nat}

private theorem idle_admits (idle : Idle n scope) : scope.registry.admits "entry" := by
  refine ⟨by decide, idle.accepting, ?_⟩
  rw [idle.tasks]
  decide

private theorem idle_round (idle : Idle n scope) (below : n < U64_MAX) : Idle (n + 1) ((scope.step (.start "entry")).step (.drop 0)) := by
  have next : advance scope.registry.nextId = n + 1 := by
    rw [idle.nextId]
    unfold advance U64_MAX at *
    simp only
    split_ifs <;> omega
  rw [step_start (idle_admits idle), idle.live]
  constructor
  · exact next
  · exact idle.accepting
  · show AList.erase _ (AList.insert _ _ scope.registry.tasks) = ∅
    rw [idle.tasks, PluginTaskRegistry.issued, AList.insert_empty]
    exact AList.ext (by simp [AList.erase])
  · rfl

private theorem idle_run (below : n ≤ U64_MAX) : Idle n (run (rounds n)) := by
  induction n with
  | zero => exact ⟨rfl, rfl, rfl, rfl⟩
  | succ n ih =>
    have round := idle_round (ih (by omega)) (by omega)
    have split : rounds (n + 1) = rounds n ++ [Op.start "entry", .drop 0] := by
      rw [rounds, replicate_succ', flatten_append, flatten_singleton, rounds]
    rw [split, run, foldl_append]
    exact round

theorem advance_last (last : U64_MAX ≤ nextId + 1) : advance nextId = U64_MAX := by
  unfold advance
  rw [min_eq_right last]
  exact if_neg (by unfold U64_MAX; omega)

private theorem idle_repeats (last : n + 1 = U64_MAX) (idle : Idle n scope) :
    ¬ ((((scope.step (.start "entry")).step (.start "entry")).live).map (·.id)).Nodup := by
  have first : advance scope.registry.nextId = U64_MAX := advance_last (by rw [idle.nextId, last])
  have second : advance U64_MAX = U64_MAX := advance_last (Nat.le_succ _)
  have admitted := idle_admits idle
  have again : scope.registry.holding.admits "entry" := by
    refine ⟨admitted.1, idle.accepting, ?_⟩
    show (AList.insert _ _ scope.registry.tasks).keys.length < _
    rw [AList.keys_insert, idle.tasks]
    exact Nat.lt_of_le_of_lt (Nat.succ_le_succ length_erase_le) (by decide)
  rw [step_start admitted, step_start again, idle.live]
  simp [PluginTaskRegistry.issued, PluginTaskRegistry.holding, first, second]

theorem spares_promised_exhausted : ¬ Promised exhausting := by
  intro promised
  have last : U64_MAX - 1 + 1 = U64_MAX := by unfold U64_MAX; omega
  have unique := promised.unique
  rw [exhausting] at unique
  generalize U64_MAX - 1 = n at last unique
  have idle : Idle n (run (rounds n)) := idle_run (by omega)
  rw [run, foldl_append, foldl_cons, foldl_cons, foldl_nil, ← run] at unique
  exact idle_repeats last idle unique

end Ramag.TaskRegistry
