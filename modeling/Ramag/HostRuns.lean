import Ramag.PluginHost

/-!
What holds of the host after any sequence of calls. `Lived` ties the phase of
the host to the states of its plugins, to the two lists their entries stand in
and to the hooks that were called; every call keeps it.
-/
namespace Ramag.HostRuns
open Strings Domain Plugin ToolRegistry Placement PluginHost List
open TaskRegistry (Scope Healthy PluginTaskHandle PluginTaskBudget U64_MAX MAX_PLUGIN_TASKS)

/-- The context after calls of its task registry that do not close it. -/
def Worked (context after : PluginContext) : Prop :=
  ∃ ops : List TaskRegistry.Op, .cancelAll ∉ ops ∧ after = { context with tasks := ops.foldl Scope.step context.tasks }

theorem Worked.refl (context : PluginContext) : Worked context context := ⟨[], by simp, rfl⟩

theorem Worked.trans {first second third : PluginContext} (before : Worked first second) (after : Worked second third) :
    Worked first third := by
  obtain ⟨ops, kept, rfl⟩ := before
  obtain ⟨more, again, rfl⟩ := after
  refine ⟨ops ++ more, ?_, by rw [foldl_append]⟩
  rw [mem_append]
  rintro (early | late)
  · exact kept early
  · exact again late

variable {context after : PluginContext}

theorem Worked.state (worked : Worked context after) : after.state = context.state := by
  obtain ⟨ops, _, rfl⟩ := worked
  rfl

theorem Worked.pluginId (worked : Worked context after) : after.pluginId = context.pluginId := by
  obtain ⟨ops, _, rfl⟩ := worked
  rfl

theorem startTask_ok {name : Text} {handle : PluginTaskHandle} (done : context.startTask name = .ok (handle, after)) :
    context.tasks.registry.admits name ∧ handle = context.tasks.registry.issued name ∧
      after = { context with tasks := context.tasks.step (.start name) } := by
  obtain ⟨⟨⟩, _, done⟩ := bind_ok done
  obtain ⟨⟨⟩, _, done⟩ := bind_ok done
  obtain ⟨⟨issued, registry⟩, started, done⟩ := bind_ok done
  have taken := mapError_ok started
  have admitted := TaskRegistry.start_ok_iff.mp ⟨_, taken⟩
  cases done
  have same := TaskRegistry.start_admitted admitted
  rw [taken] at same
  cases same
  refine ⟨admitted, rfl, ?_⟩
  rw [Scope.step, taken]

theorem act_worked (context : PluginContext) (act : PluginContext.Act) : Worked context (context.act act) := by
  cases act with
  | start name =>
    cases started : context.startTask name with
    | error error =>
      have idle : context.act (.start name) = context := by rw [PluginContext.act, started]
      rw [idle]
      exact .refl context
    | ok result =>
      obtain ⟨_, _, after⟩ := startTask_ok started
      have busy : context.act (.start name) = result.2 := by rw [PluginContext.act, started]
      exact ⟨[.start name], by simp, by rw [busy, after]; rfl⟩
  | drop index => exact ⟨[.drop index], by simp, rfl⟩
  | requestCancel index => exact ⟨[.requestCancel index], by simp, rfl⟩

theorem acts_worked (context : PluginContext) (script : List PluginContext.Act) : Worked context (context.acts script) := by
  induction script generalizing context with
  | nil => exact .refl context
  | cons act script ih => exact (act_worked context act).trans (ih (context.act act))

theorem executeEntry_worked (host : StaticPluginHost) (pluginId entryId : Text) (input : List UInt8)
    (budget : PluginTaskBudget) (adapter : Except PluginOperationError Unit) :
    (host.executeEntry pluginId entryId input budget adapter).1 = host ∨
      ∃ index record after, host.records[index]? = some record ∧ Worked record.context after ∧
        (host.executeEntry pluginId entryId input budget adapter).1 = host.setContext index after := by
  unfold StaticPluginHost.executeEntry
  cases found : position host.records fun record => record.context.pluginId.value = pluginId with
  | none => exact .inl rfl
  | some place =>
    obtain ⟨index, record⟩ := place
    simp only
    split_ifs
    · exact .inl rfl
    split
    · exact .inl rfl
    split_ifs
    · exact .inl rfl
    split
    · exact .inl rfl
    split
    · exact .inl rfl
    rename_i handle context started
    obtain ⟨_, _, after⟩ := startTask_ok started
    have worked : Worked record.context context := ⟨[.start (entryTaskName entryId)], by simp, after⟩
    split
    · refine .inr ⟨index, record, _, (position_some found).1, worked.trans ⟨[.drop _], by simp, rfl⟩, rfl⟩
    · exact .inr ⟨index, record, context, (position_some found).1, worked, rfl⟩

/-- What holds of a record between the calls. -/
structure Sane (record : PluginRecord) : Prop where
  named : record.context.pluginId = record.plugin.descriptor.id
  valid : record.plugin.descriptor.Valid
  tasks : Healthy record.context.tasks
  open_ : record.context.state = .Registered ∨ record.context.state = .Ready → record.context.tasks.registry.accepting = true
  closed : record.context.state = .Failed ∨ record.context.state = .Unloaded → record.context.tasks.registry.accepting = false

variable {record : PluginRecord}

theorem sane_worked (sane : Sane record) (worked : Worked record.context after) : Sane { record with context := after } := by
  obtain ⟨ops, kept, rfl⟩ := worked
  have accepting := TaskRegistry.steps_accepting record.context.tasks kept
  exact ⟨sane.named, sane.valid, TaskRegistry.steps_healthy sane.tasks ops, fun state => accepting.trans (sane.open_ state),
    fun state => accepting.trans (sane.closed state)⟩

/-- The plugin and the id of a record, which no call changes. -/
def identity (record : PluginRecord) : StaticPlugin × PluginId := (record.plugin, record.context.pluginId)

/-- No tool of the plugin is registered. -/
def Withdrawn (registry : Registry) (pluginId : PluginId) : Prop :=
  ∀ entry ∈ registry, entry.belongsTo pluginId = false

/-- No entry of the plugin is in the catalog. -/
def Delisted (catalog : PluginCatalog) (pluginId : PluginId) : Prop := ∀ entry ∈ catalog, entry.pluginId ≠ pluginId

theorem unregister_withdrawn (registry : Registry) (pluginId : PluginId) :
    Withdrawn (unregisterPlugin registry pluginId.value).1 pluginId := by
  intro entry mem
  simpa using (mem_filter.mp mem).2

theorem removePlugin_delisted (catalog : PluginCatalog) (pluginId : PluginId) :
    Delisted (catalog.removePlugin pluginId.value) pluginId := by
  rintro entry mem rfl
  simpa using (mem_filter.mp mem).2

variable {pass : Pass} {done rest : List PluginRecord}

theorem sweep_rule (visit : Pass → PluginRecord → Pass × PluginRecord) {holds : Pass → List PluginRecord → List PluginRecord → Prop}
    (keeps : ∀ pass done record rest, holds pass done (record :: rest) → holds (visit pass record).1 (done ++ [(visit pass record).2]) rest)
    (start : holds pass done rest) : holds (sweep visit pass rest).1 (done ++ (sweep visit pass rest).2) [] := by
  induction rest generalizing pass done with
  | nil => simpa [sweep] using start
  | cons record rest ih =>
    have next := ih (keeps pass done record rest start)
    rwa [append_assoc, singleton_append] at next

variable {context : PluginContext}

theorem stopTasks_healthy (healthy : Healthy context.tasks) :
    Healthy context.stopTasks.tasks := TaskRegistry.step_healthy healthy .cancelAll

theorem transition_eq {before : PluginState} (here : context.state = before)
    (after : PluginState) : context.transition before after = { context with state := after } := if_pos here

/-- How a plugin ends up when it is initialised, seen from its record, what was
    shared and the hooks that were called. -/
structure Initialized (before : Pass) (record : PluginRecord) (result : Pass × PluginRecord) : Prop where
  sane : Sane result.2
  same : identity result.2 = identity record
  catalog : result.1.shared.catalog = before.shared.catalog
  shrinks : ∀ entry ∈ result.1.shared.registry, entry ∈ before.shared.registry
  outcome :
    (result.2.context.state = .Ready ∧ result.1.calls = before.calls ++ [.Initialize record.context.pluginId true]) ∨
    (result.2.context.state = .Failed ∧ Withdrawn result.1.shared.registry record.context.pluginId ∧ (result.1.calls = before.calls ∨
        result.1.calls = before.calls ++ [.Initialize record.context.pluginId false]))

theorem failInitialization_initialized {before : Pass} {record failing : PluginRecord}
    {error : PluginOperationError} (sane : Sane record) (shared : pass.shared = before.shared) (plugin : failing.plugin = record.plugin)
    (pluginId : failing.context.pluginId = record.context.pluginId) (tasks : Healthy failing.context.tasks)
    (state : failing.context.state = .Initializing) (calls : pass.calls = before.calls ∨
      pass.calls = before.calls ++ [.Initialize record.context.pluginId false]) :
    Initialized before record (StaticPluginHost.failInitialization pass failing error) := by
  have failed : failing.context.stopTasks.transition .Initializing .Failed =
      { failing.context.stopTasks with state := .Failed } := if_pos state
  simp only [StaticPluginHost.failInitialization, failed]
  constructor
  · refine ⟨?_, ?_, stopTasks_healthy tasks, ?_, fun _ => rfl⟩
    · exact pluginId.trans (sane.named.trans (by rw [plugin]))
    · rw [plugin]
      exact sane.valid
    · rintro (other | other) <;> cases other
  · exact Prod.ext plugin pluginId
  · rw [shared]
  · intro entry mem
    rw [← shared]
    exact (mem_filter.mp mem).1
  · refine .inr ⟨rfl, ?_, calls⟩
    rw [← pluginId]
    exact unregister_withdrawn _ _

variable (host : StaticPluginHost)

theorem initializeRecord_initialized (load : PluginId → Except PluginOperationError Unit)
    (onInitialize : PluginId → Hook) (pass : Pass) (sane : Sane record) (registered : record.context.state = .Registered) :
    Initialized pass record (host.initializeRecord load onInitialize pass record) := by
  have begun : record.context.transition .Registered .Initializing =
      { record.context with state := .Initializing } := transition_eq registered _
  have worked := acts_worked { record.context with state := .Initializing }
    (onInitialize record.context.pluginId).script
  obtain ⟨ops, kept, after⟩ := worked
  have open_ := TaskRegistry.steps_accepting record.context.tasks kept
  unfold StaticPluginHost.initializeRecord
  simp only [registered, ne_eq, not_true_eq_false, ↓reduceIte, begun, after]
  split
  · exact failInitialization_initialized sane rfl rfl rfl sane.tasks rfl (.inl rfl)
  cases outcome : (onInitialize record.context.pluginId).outcome with
  | error error =>
    have called : (onInitialize record.context.pluginId).succeeded = false := by rw [Hook.succeeded, outcome]
    rw [called]
    exact failInitialization_initialized sane rfl rfl rfl (TaskRegistry.steps_healthy sane.tasks ops) rfl (.inr rfl)
  | ok =>
    have called : (onInitialize record.context.pluginId).succeeded = true := by rw [Hook.succeeded, outcome]
    rw [called, transition_eq rfl]
    constructor
    · refine ⟨sane.named, sane.valid, TaskRegistry.steps_healthy sane.tasks ops, ?_, ?_⟩
      · exact fun _ => open_.trans (sane.open_ (.inl registered))
      · rintro (other | other) <;> cases other
    · rfl
    · rfl
    · exact fun entry mem => mem
    · exact .inl ⟨rfl, rfl⟩

/-- How a plugin ends up when the host shuts down. -/
structure Unloaded (before : Pass) (record : PluginRecord) (result : Pass × PluginRecord) : Prop where
  sane : Sane result.2
  same : identity result.2 = identity record
  state : result.2.context.state = .Unloaded
  withdrawn : Withdrawn result.1.shared.registry record.context.pluginId
  delisted : Delisted result.1.shared.catalog record.context.pluginId
  registry : ∀ entry ∈ result.1.shared.registry, entry ∈ before.shared.registry
  catalog : ∀ entry ∈ result.1.shared.catalog, entry ∈ before.shared.catalog
  outcome :
    (record.context.state ≠ .Ready ∧ result.1.calls = before.calls) ∨
    (record.context.state = .Ready ∧ ∃ succeeded, result.1.calls = before.calls ++ [.Shutdown record.context.pluginId succeeded])

theorem unloadRecord_unloaded {before : Pass} {record ending : PluginRecord} (sane : Sane record)
    (registry : pass.shared.registry = before.shared.registry) (catalog : pass.shared.catalog = before.shared.catalog)
    (plugin : ending.plugin = record.plugin) (pluginId : ending.context.pluginId = record.context.pluginId)
    (tasks : Healthy ending.context.tasks) (outcome : (record.context.state ≠ .Ready ∧ pass.calls = before.calls) ∨
      (record.context.state = .Ready ∧ ∃ succeeded, pass.calls = before.calls ++ [.Shutdown record.context.pluginId succeeded])) :
    Unloaded before record (StaticPluginHost.unloadRecord pass ending) := by
  constructor
  · refine ⟨?_, ?_, stopTasks_healthy tasks, ?_, fun _ => rfl⟩
    · exact pluginId.trans (sane.named.trans (by rw [← plugin]; rfl))
    · show ending.plugin.descriptor.Valid
      rw [plugin]
      exact sane.valid
    · rintro (other | other) <;> cases other
  · exact Prod.ext plugin pluginId
  · rfl
  · rw [← pluginId]
    exact unregister_withdrawn _ _
  · rw [← pluginId]
    exact removePlugin_delisted _ _
  · intro entry mem
    rw [← registry]
    exact (mem_filter.mp mem).1
  · intro entry mem
    rw [← catalog]
    exact (mem_filter.mp mem).1
  · exact outcome

theorem shutdownRecord_unloaded (onShutdown : PluginId → Hook) (pass : Pass)
    (sane : Sane record) : Unloaded pass record (StaticPluginHost.shutdownRecord onShutdown pass record) := by
  unfold StaticPluginHost.shutdownRecord
  by_cases ready : record.context.state = .Ready
  · have closing : record.context.transition .Ready .ShuttingDown = { record.context with state := .ShuttingDown } := transition_eq ready _
    obtain ⟨ops, _, after⟩ := acts_worked ({ record.context with state := .ShuttingDown } : PluginContext).stopTasks
      (onShutdown record.context.pluginId).script
    have healthy := TaskRegistry.steps_healthy (stopTasks_healthy sane.tasks) ops
    simp only [ready, ne_eq, not_true_eq_false, ↓reduceIte, closing, after]
    split
    · exact unloadRecord_unloaded sane rfl rfl rfl rfl healthy (.inr ⟨ready, _, rfl⟩)
    · exact unloadRecord_unloaded sane rfl rfl rfl rfl healthy (.inr ⟨ready, _, rfl⟩)
  · simp only [ne_eq, ready, not_false_eq_true, ↓reduceIte]
    exact unloadRecord_unloaded sane rfl rfl rfl rfl sane.tasks (.inl ⟨ready, rfl⟩)

def initialized? : HookCall → Option PluginId
  | .Initialize pluginId _ => some pluginId
  | .Shutdown _ _ => none

def shutDown? : HookCall → Option PluginId
  | .Initialize _ _ => none
  | .Shutdown pluginId _ => some pluginId

/-- The hooks are called at most once for each plugin, in the order of the
    registration and then backwards, and the second one only after the first
    has succeeded. -/
structure Ordered (ids : List PluginId) (calls : List HookCall) : Prop where
  initialized : (calls.filterMap initialized?).Sublist ids
  shutDown : (calls.filterMap shutDown?).Sublist ids.reverse
  succeeded : ∀ before pluginId ok later, calls = before ++ .Shutdown pluginId ok :: later → .Initialize pluginId true ∈ before

/-- The states that the plugins can be in, by the phase of the host. -/
def Stage (calls : List HookCall) : HostPhase → Prop
  | .Registering => calls = [] ∧ ∀ record ∈ host.records,
      record.context.state = .Registered ∧ ¬ Withdrawn host.shared.registry record.context.pluginId
  | .Running => calls.filterMap shutDown? = [] ∧ ∀ record ∈ host.records,
      (record.context.state = .Ready ∧ .Initialize record.context.pluginId true ∈ calls) ∨
      (record.context.state = .Failed ∧ Withdrawn host.shared.registry record.context.pluginId)
  | .ShuttingDown => False
  | .Stopped => ∀ record ∈ host.records, record.context.state = .Unloaded ∧
      Withdrawn host.shared.registry record.context.pluginId ∧ Delisted host.shared.catalog record.context.pluginId

def ids : List PluginId := host.records.map (·.context.pluginId)

/-- Every entry that a plugin declared for the catalog is in it. -/
def Listed : Prop :=
  ∀ plugin ∈ host.records.map (·.plugin), ∀ entry ∈ plugin.catalogEntries, entry ∈ host.shared.catalog

structure Lived (run : Run) : Prop where
  sane : ∀ record ∈ run.host.records, Sane record
  unique : (ids run.host).Nodup
  ordered : Ordered (ids run.host) run.calls
  listed : run.host.phase = .Registering ∨ run.host.phase = .Running → Listed run.host
  stage : Stage run.host run.calls run.host.phase

theorem created_lived (registry : Registry) (permissionPolicy : List (PluginId × PluginCapability)) (storage : Bool) :
    Lived (created registry permissionPolicy storage) where
  sane _ mem := nomatch mem
  unique := nodup_nil
  ordered := ⟨.refl _, .refl _, fun before _ _ _ none => by cases before <;> cases none⟩
  listed _ _ mem := nomatch mem
  stage := ⟨rfl, fun _ mem => nomatch mem⟩

variable {α : Type}

theorem mem_modify {l : List α} {i : Nat} {f : α → α} {y : α} (mem : y ∈ l.modify i f) : y ∈ l ∨ ∃ x, l[i]? = some x ∧ y = f x := by
  obtain ⟨place, here⟩ := mem_iff_getElem?.mp mem
  rw [getElem?_modify] at here
  cases found : l[place]? with
  | none => rw [found] at here; cases here
  | some x =>
    rw [found] at here
    by_cases same : i = place
    · subst same
      exact .inr ⟨x, found, by simpa using here.symm⟩
    · exact .inl (mem_iff_getElem?.mpr ⟨place, by simpa [same, found] using here⟩)

theorem map_modify {β : Type} {g : α → β} {f : α → α} (kept : ∀ x, g (f x) = g x) (l : List α) (i : Nat) :
    (l.modify i f).map g = l.map g := by
  refine ext_getElem? fun place => ?_
  rw [getElem?_map, getElem?_modify, getElem?_map]
  cases l[place]? with
  | none => rfl
  | some x => by_cases same : i = place <;> simp [same, kept]

variable {run : Run}

theorem lived_setContext (lived : Lived run) {index : Nat} (here : run.host.records[index]? = some record)
    (worked : Worked record.context after) : Lived { run with host := run.host.setContext index after } := by
  have mem := mem_of_getElem? here
  have each {holds : PluginRecord → Prop} (all : ∀ old ∈ run.host.records, holds old)
      (new : holds { record with context := after }) :
      ∀ next ∈ (run.host.setContext index after).records, holds next := by
    intro next there
    rcases mem_modify there with old | ⟨old, found, rfl⟩
    · exact all next old
    · rw [here] at found
      cases found
      exact new
  have sameIds : ids (run.host.setContext index after) = ids run.host := by
    refine ext_getElem? fun place => ?_
    show ((run.host.records.modify _ _).map _)[place]? = (run.host.records.map _)[place]?
    by_cases same : index = place
    · subst same
      simp [here, worked.pluginId]
    · cases run.host.records[place]? <;> simp [same]
  have samePlugins : (run.host.setContext index after).records.map (·.plugin) =
        run.host.records.map (·.plugin) := map_modify (by intro _; rfl) _ _
  constructor
  · exact each lived.sane (sane_worked (lived.sane record mem) worked)
  · rw [sameIds]
    exact lived.unique
  · rw [sameIds]
    exact lived.ordered
  · intro phase
    rw [Listed, samePlugins]
    exact lived.listed phase
  · have stage := lived.stage
    show Stage _ run.calls run.host.phase
    cases phase : run.host.phase with
    | Registering | Running =>
      rw [phase] at stage
      refine ⟨stage.1, each stage.2 ?_⟩
      rw [worked.state, worked.pluginId]
      exact stage.2 record mem
    | ShuttingDown =>
      rw [phase] at stage
      exact stage
    | Stopped =>
      rw [phase] at stage
      refine each stage ?_
      rw [worked.state, worked.pluginId]
      exact stage record mem

/-- A change of the shared state that the invariant does not look at. -/
theorem lived_failure (lived : Lived run) (failures : List PluginDiagnostic) :
    Lived { run with host := { run.host with registrationFailures := failures } } :=
  ⟨lived.sane, lived.unique, lived.ordered, lived.listed, by
    have stage := lived.stage
    revert stage
    cases run.host.phase <;> exact id⟩

variable {descriptor : PluginDescriptor}

theorem added_present {before after : Registry} (added : Added before descriptor after) : ¬ Withdrawn after descriptor.id := by
  obtain ⟨tools, named, rfl⟩ := added.appended
  obtain ⟨tool, mem, _⟩ := mem_map.mp (named ▸ added.valid.primary)
  intro withdrawn
  have := withdrawn (.new tool (some descriptor)) (mem_append_right _ (mem_map_of_mem mem))
  simp [ToolEntry.new, ToolEntry.belongsTo] at this

theorem present_mono {before after : Registry} {pluginId : PluginId}
    (grows : ∀ entry ∈ before, entry.belongsTo pluginId = true → entry ∈ after)
    (present : ¬ Withdrawn before pluginId) : ¬ Withdrawn after pluginId := by
  intro withdrawn
  refine present fun entry mem => ?_
  cases belongs : entry.belongsTo pluginId with
  | false => rfl
  | true => rw [← belongs, withdrawn entry (grows entry mem belongs)]

theorem belongsTo_other {entry : ToolEntry} {id other : PluginId} (belongs : entry.belongsTo id = true)
    (different : id ≠ other) : entry.belongsTo other = false := by
  cases owner : entry.plugin with
  | none => rw [ToolEntry.belongsTo, owner]; rfl
  | some plugin =>
    obtain rfl : plugin.id = id := by simpa [ToolEntry.belongsTo, owner] using belongs
    simpa [ToolEntry.belongsTo, owner] using different

theorem catalog_register {catalog after : PluginCatalog} {entries : List PluginCatalogEntry}
    (done : catalog.register entries = .ok after) : after = catalog ++ entries := by
  obtain ⟨⟨⟩, _, done⟩ := bind_ok done
  obtain ⟨_, _, done⟩ := bind_ok done
  cases done
  rfl

theorem lived_register (lived : Lived run) (plugin : StaticPlugin) : Lived (run.step (.registerPlugin plugin)) := by
  show Lived { run with host := (run.host.registerPlugin plugin).1 }
  unfold StaticPluginHost.registerPlugin
  by_cases registering : run.host.phase = .Registering
  swap
  · simp only [ne_eq, registering, not_false_eq_true, ↓reduceIte]
    exact lived_failure lived _
  simp only [registering, ne_eq, not_true_eq_false, ↓reduceIte]
  cases done : registerPluginEntries run.host.shared.registry plugin.descriptor plugin.tools with
  | error source => exact lived_failure lived _
  | ok registry =>
    have added := registerPluginEntries_added done
    obtain ⟨quiet, each⟩ : run.calls = [] ∧ ∀ record ∈ run.host.records, record.context.state = .Registered ∧
          ¬ Withdrawn run.host.shared.registry record.context.pluginId := by
      have stage := lived.stage
      rwa [registering] at stage
    have other : ∀ record ∈ run.host.records, record.context.pluginId ≠ plugin.descriptor.id := by
      intro record mem same
      exact (each record mem).2 (by rw [same]; exact added.unclaimed)
    have grown : ∀ entry ∈ run.host.shared.registry, entry ∈ registry := by
      obtain ⟨tools, _, rfl⟩ := added.appended
      exact fun entry mem => mem_append_left _ mem
    cases accepted : run.host.shared.catalog.register plugin.catalogEntries with
    | error source =>
      refine ⟨lived.sane, lived.unique, lived.ordered, fun _ => lived.listed (.inl registering), ?_⟩
      refine ⟨quiet, fun record mem => ⟨(each record mem).1, ?_⟩⟩
      refine present_mono (fun entry there belongs => ?_) (each record mem).2
      refine mem_filter.mpr ⟨grown entry there, ?_⟩
      rw [belongsTo_other belongs (other record mem)]
      rfl
    | ok catalog =>
      obtain rfl := catalog_register accepted
      have fresh : plugin.descriptor.id ∉ ids run.host := by
        intro old
        obtain ⟨record, mem, same⟩ := mem_map.mp old
        exact other record mem same
      constructor
      · intro record mem
        rcases mem_append.mp mem with old | new
        · exact lived.sane record old
        · rw [mem_singleton.mp new]
          refine ⟨rfl, added.valid, TaskRegistry.initial_healthy, fun _ => rfl, ?_⟩
          rintro (state | state) <;> cases state
      · show ((run.host.records ++ [_]).map _).Nodup
        rw [map_append, nodup_append]
        refine ⟨lived.unique, nodup_singleton _, ?_⟩
        rintro id old _ new rfl
        rw [mem_singleton.mp new] at old
        exact fresh old
      · rw [quiet]
        exact ⟨nil_sublist _, nil_sublist _, fun before _ _ _ none => by cases before <;> cases none⟩
      · intro _ known mem entry there
        rw [map_append] at mem
        rcases mem_append.mp mem with old | new
        · exact mem_append_left _ (lived.listed (.inl registering) known old entry there)
        · rw [mem_singleton.mp new] at there
          exact mem_append_right _ there
      · refine ⟨quiet, fun record mem => ?_⟩
        rcases mem_append.mp mem with old | new
        · exact ⟨(each record old).1, present_mono (fun entry there _ => grown entry there) (each record old).2⟩
        · rw [mem_singleton.mp new]
          exact ⟨rfl, added_present added⟩

/-- The pass that initialises the plugins: those behind it are ready or failed,
    those before it still wait. -/
structure Starting (host : StaticPluginHost) (pass : Pass) (done rest : List PluginRecord) : Prop where
  same : (done ++ rest).map identity = host.records.map identity
  waiting : ∀ record ∈ rest, Sane record ∧ record.context.state = .Registered
  started : ∀ record ∈ done, Sane record ∧ ((record.context.state = .Ready ∧ .Initialize record.context.pluginId true ∈ pass.calls) ∨
      (record.context.state = .Failed ∧ Withdrawn pass.shared.registry record.context.pluginId))
  catalog : pass.shared.catalog = host.shared.catalog
  initialized : (pass.calls.filterMap initialized?).Sublist (done.map (·.context.pluginId))
  shutDown : pass.calls.filterMap shutDown? = []

theorem initializeRecord_starting {host : StaticPluginHost} {load : PluginId → Except PluginOperationError Unit}
    {onInitialize : PluginId → Hook} (starting : Starting host pass done (record :: rest)) :
    Starting host (host.initializeRecord load onInitialize pass record).1
      (done ++ [(host.initializeRecord load onInitialize pass record).2]) rest := by
  obtain ⟨sane, registered⟩ := starting.waiting record mem_cons_self
  have result := initializeRecord_initialized host load onInitialize pass sane registered
  generalize host.initializeRecord load onInitialize pass record = next at result
  have sameId : next.2.context.pluginId = record.context.pluginId := congrArg Prod.snd result.same
  have calls : ∃ more, next.1.calls = pass.calls ++ more ∧
      (more.filterMap initialized?).Sublist [record.context.pluginId] ∧ more.filterMap shutDown? = [] := by
    rcases result.outcome with ⟨_, called⟩ | ⟨_, _, quiet | called⟩
    · exact ⟨_, called, .refl _, rfl⟩
    · exact ⟨[], by simpa using quiet, nil_sublist _, rfl⟩
    · exact ⟨_, called, .refl _, rfl⟩
  obtain ⟨more, grown, one, none⟩ := calls
  constructor
  · rw [← starting.same, append_assoc, singleton_append, map_append, map_append, map_cons, result.same, map_cons]
  · exact fun other mem => starting.waiting other (mem_cons_of_mem _ mem)
  · intro other mem
    rcases mem_append.mp mem with old | new
    · obtain ⟨before, state⟩ := starting.started other old
      refine ⟨before, state.imp ?_ ?_⟩
      · rintro ⟨ready, called⟩
        exact ⟨ready, by rw [grown]; exact mem_append_left _ called⟩
      · rintro ⟨failed, withdrawn⟩
        exact ⟨failed, fun entry there => withdrawn entry (result.shrinks entry there)⟩
    · rw [mem_singleton.mp new]
      refine ⟨result.sane, ?_⟩
      rw [sameId]
      rcases result.outcome with ⟨ready, called⟩ | ⟨failed, withdrawn, _⟩
      · exact .inl ⟨ready, by rw [called]; exact mem_append_right _ mem_cons_self⟩
      · exact .inr ⟨failed, withdrawn⟩
  · rw [result.catalog, starting.catalog]
  · rw [grown, filterMap_append, map_append, map_singleton, sameId]
    exact starting.initialized.append one
  · rw [grown, filterMap_append, starting.shutDown, none, append_nil]

theorem lived_initialize (lived : Lived run) (load : PluginId → Except PluginOperationError Unit)
    (onInitialize : PluginId → Hook) : Lived (run.step (.initializeAll load onInitialize)) := by
  by_cases registering : run.host.phase = .Registering
  swap
  · have idle : run.step (.initializeAll load onInitialize) = run := by
      simp [Run.step, StaticPluginHost.initializeAll, registering]
    rw [idle]
    exact lived
  obtain ⟨quiet, each⟩ : run.calls = [] ∧ ∀ record ∈ run.host.records, record.context.state = .Registered ∧
        ¬ Withdrawn run.host.shared.registry record.context.pluginId := by
    have stage := lived.stage
    rwa [registering] at stage
  have start : Starting run.host { shared := run.host.shared } [] run.host.records :=
    ⟨rfl, fun record mem => ⟨lived.sane record mem, (each record mem).1⟩, by simp, rfl, .refl _, rfl⟩
  have finish := sweep_rule (run.host.initializeRecord load onInitialize)
    (fun pass done record rest => initializeRecord_starting) start
  generalize swept : sweep (run.host.initializeRecord load onInitialize) { shared := run.host.shared }
    run.host.records = result at finish
  have stepped : run.step (.initializeAll load onInitialize) =
      ⟨{ run.host with phase := .Running, shared := result.1.shared, records := result.2 }, result.1.calls⟩ := by
    simp [Run.step, StaticPluginHost.initializeAll, registering, swept, quiet]
  rw [stepped]
  have same := finish.same
  rw [append_nil] at same
  have sameIds : result.2.map (·.context.pluginId) = ids run.host := by
    have := congrArg (List.map Prod.snd) same
    rwa [map_map, map_map] at this
  have samePlugins : result.2.map (·.plugin) = run.host.records.map (·.plugin) := by
    have := congrArg (List.map Prod.fst) same
    rwa [map_map, map_map] at this
  constructor
  · exact fun record mem => (finish.started record mem).1
  · show (result.2.map _).Nodup
    rw [sameIds]
    exact lived.unique
  · refine ⟨finish.initialized, ?_, ?_⟩
    · rw [finish.shutDown]
      exact nil_sublist _
    intro before pluginId ok later split
    have none := finish.shutDown
    rw [show result.1.calls = _ from split, filterMap_append, filterMap_cons] at none
    simp [shutDown?] at none
  · intro _
    show ∀ plugin ∈ result.2.map (·.plugin), ∀ entry ∈ plugin.catalogEntries, entry ∈ result.1.shared.catalog
    rw [samePlugins, finish.catalog]
    exact lived.listed (.inl registering)
  · exact ⟨finish.shutDown, fun record mem => (finish.started record mem).2⟩

/-- The pass that shuts the plugins down, backwards. -/
structure Ending (host : StaticPluginHost) (earlier : List HookCall) (pass : Pass) (done rest : List PluginRecord) : Prop where
  same : (done ++ rest).map identity = host.records.reverse.map identity
  waiting : ∀ record ∈ rest, Sane record ∧ (record.context.state = .Ready → .Initialize record.context.pluginId true ∈ earlier)
  ended : ∀ record ∈ done, Sane record ∧ record.context.state = .Unloaded ∧
    Withdrawn pass.shared.registry record.context.pluginId ∧ Delisted pass.shared.catalog record.context.pluginId
  initialized : pass.calls.filterMap initialized? = []
  shutDown : (pass.calls.filterMap shutDown?).Sublist (done.map (·.context.pluginId))
  succeeded : ∀ pluginId ok, .Shutdown pluginId ok ∈ pass.calls → .Initialize pluginId true ∈ earlier

variable {onShutdown : PluginId → Hook}

theorem shutdownRecord_ending {host : StaticPluginHost} {earlier : List HookCall}
    (ending : Ending host earlier pass done (record :: rest)) :
    Ending host earlier (StaticPluginHost.shutdownRecord onShutdown pass record).1
      (done ++ [(StaticPluginHost.shutdownRecord onShutdown pass record).2]) rest := by
  obtain ⟨sane, initialized⟩ := ending.waiting record mem_cons_self
  have result := shutdownRecord_unloaded onShutdown pass sane
  generalize StaticPluginHost.shutdownRecord onShutdown pass record = next at result
  have sameId : next.2.context.pluginId = record.context.pluginId := congrArg Prod.snd result.same
  have calls : ∃ more, next.1.calls = pass.calls ++ more ∧ more.filterMap initialized? = [] ∧
      (more.filterMap shutDown?).Sublist [record.context.pluginId] ∧
      ∀ pluginId ok, .Shutdown pluginId ok ∈ more → .Initialize pluginId true ∈ earlier := by
    rcases result.outcome with ⟨_, quiet⟩ | ⟨ready, ok, called⟩
    · exact ⟨[], by simpa using quiet, rfl, nil_sublist _, by simp⟩
    refine ⟨_, called, rfl, .refl _, ?_⟩
    intro pluginId _ mem
    cases mem_singleton.mp mem
    exact initialized ready
  obtain ⟨more, grown, none, one, after⟩ := calls
  constructor
  · rw [← ending.same, append_assoc, singleton_append, map_append, map_append, map_cons, result.same, map_cons]
  · exact fun other mem => ending.waiting other (mem_cons_of_mem _ mem)
  · intro other mem
    rcases mem_append.mp mem with old | new
    · obtain ⟨before, state, withdrawn, delisted⟩ := ending.ended other old
      exact ⟨before, state, fun entry there => withdrawn entry (result.registry entry there),
        fun entry there => delisted entry (result.catalog entry there)⟩
    · rw [mem_singleton.mp new, sameId]
      exact ⟨result.sane, result.state, result.withdrawn, result.delisted⟩
  · rw [grown, filterMap_append, ending.initialized, none, append_nil]
  · rw [grown, filterMap_append, map_append, map_singleton, sameId]
    exact ending.shutDown.append one
  · intro pluginId ok mem
    rw [grown] at mem
    rcases mem_append.mp mem with old | new
    · exact ending.succeeded pluginId ok old
    · exact after pluginId ok new

theorem lived_shutdown (lived : Lived run) (onShutdown : PluginId → Hook) : Lived (run.step (.shutdownAll onShutdown)) := by
  by_cases halted : run.host.phase = .ShuttingDown ∨ run.host.phase = .Stopped
  · have idle : run.step (.shutdownAll onShutdown) = run := by
      simp [Run.step, StaticPluginHost.shutdownAll, halted]
    rw [idle]
    exact lived
  have ready : ∀ record ∈ run.host.records, record.context.state = .Ready →
      .Initialize record.context.pluginId true ∈ run.calls := by
    intro record mem state
    have stage := lived.stage
    cases phase : run.host.phase with
    | Registering =>
      rw [phase] at stage
      simp [(stage.2 record mem).1] at state
    | Running =>
      rw [phase] at stage
      rcases stage.2 record mem with ⟨_, called⟩ | ⟨failed, _⟩
      · exact called
      · simp [failed] at state
    | ShuttingDown => exact absurd (.inl phase) halted
    | Stopped => exact absurd (.inr phase) halted
  have first : run.calls.filterMap shutDown? = [] := by
    have stage := lived.stage
    cases phase : run.host.phase with
    | Registering =>
      rw [phase] at stage
      rw [stage.1]
      rfl
    | Running =>
      rw [phase] at stage
      exact stage.1
    | ShuttingDown => exact absurd (.inl phase) halted
    | Stopped => exact absurd (.inr phase) halted
  have start : Ending run.host run.calls { shared := run.host.shared } [] run.host.records.reverse :=
    ⟨rfl, fun record mem => ⟨lived.sane record (mem_reverse.mp mem), ready record (mem_reverse.mp mem)⟩,
      by simp, rfl, List.Sublist.refl _, by simp⟩
  have finish := sweep_rule (StaticPluginHost.shutdownRecord onShutdown)
    (fun pass done record rest => shutdownRecord_ending) start
  generalize swept : sweep (StaticPluginHost.shutdownRecord onShutdown) { shared := run.host.shared }
    run.host.records.reverse = result at finish
  have stepped : run.step (.shutdownAll onShutdown) =
      ⟨{ run.host with phase := .Stopped, shared := result.1.shared, records := result.2.reverse },
        run.calls ++ result.1.calls⟩ := by
    simp [Run.step, StaticPluginHost.shutdownAll, halted, swept]
  rw [stepped]
  have same := finish.same
  rw [append_nil] at same
  have sameIds : result.2.map (·.context.pluginId) = (ids run.host).reverse := by
    have := congrArg (List.map Prod.snd) same
    rw [map_map, map_map, map_reverse] at this
    exact this
  have backIds : result.2.reverse.map (·.context.pluginId) = ids run.host := by rw [map_reverse, sameIds, reverse_reverse]
  constructor
  · exact fun record mem => (finish.ended record (mem_reverse.mp mem)).1
  · show (result.2.reverse.map _).Nodup
    rw [backIds]
    exact lived.unique
  · show Ordered (result.2.reverse.map _) (run.calls ++ result.1.calls)
    rw [backIds]
    refine ⟨?_, ?_, ?_⟩
    · rw [filterMap_append, finish.initialized, append_nil]
      exact lived.ordered.initialized
    · rw [filterMap_append, first, nil_append, ← sameIds]
      exact finish.shutDown
    intro before pluginId ok later split
    have mine : .Shutdown pluginId ok ∈ result.1.calls := by
      have mem : HookCall.Shutdown pluginId ok ∈ run.calls ++ result.1.calls := by
        rw [split]
        exact mem_append_right _ mem_cons_self
      rcases mem_append.mp mem with old | new
      · have : pluginId ∈ run.calls.filterMap shutDown? := mem_filterMap.mpr ⟨_, old, rfl⟩
        simp [first] at this
      · exact new
    have called := finish.succeeded pluginId ok mine
    rcases append_eq_append_iff.mp split with ⟨more, rfl, _⟩ | ⟨more, whole, _⟩
    · exact mem_append_left _ called
    -- The hook would stand among the earlier calls.
    cases more with
    | nil => rwa [whole, append_nil] at called
    | cons call more =>
      rename_i tail
      obtain ⟨rfl, _⟩ := List.cons.inj tail
      have : pluginId ∈ run.calls.filterMap shutDown? :=
        mem_filterMap.mpr ⟨_, by rw [whole]; exact mem_append_right _ mem_cons_self, rfl⟩
      simp [first] at this
  · rintro (phase | phase) <;> cases phase
  · exact fun record mem => (finish.ended record (mem_reverse.mp mem)).2

/-- A call that works in the context of one plugin, or does nothing. -/
def Local (run : Run) (op : PluginHost.Op) : Prop :=
  run.step op = run ∨ ∃ index record after, run.host.records[index]? = some record ∧ Worked record.context after ∧
    run.step op = { run with host := run.host.setContext index after }

theorem executeEntry_local (run : Run) (pluginId entryId : Text) (input : List UInt8) (budget : PluginTaskBudget)
    (adapter : Except PluginOperationError Unit) : Local run (.executeEntry pluginId entryId input budget adapter) := by
  have step : run.step (.executeEntry pluginId entryId input budget adapter) =
      { run with host := (run.host.executeEntry pluginId entryId input budget adapter).1 } := rfl
  rcases executeEntry_worked run.host pluginId entryId input budget adapter with
    same | ⟨index, record, after, here, worked, same⟩
  · exact .inl (by rw [step, same])
  · exact .inr ⟨index, record, after, here, worked, by rw [step, same]⟩

theorem act_local (run : Run) (pluginId : PluginId) (script : List PluginContext.Act) : Local run (.act pluginId script) := by
  cases found : position run.host.records fun record => record.context.pluginId = pluginId with
  | none => exact .inl (by simp [Run.step, found])
  | some place => exact .inr ⟨_, _, _, (position_some found).1, acts_worked _ script, by simp [Run.step, found]⟩

theorem local_lived (lived : Lived run) {op : PluginHost.Op} (within : Local run op) : Lived (run.step op) := by
  rcases within with same | ⟨_, _, _, here, worked, same⟩
  · rw [same]
    exact lived
  · rw [same]
    exact lived_setContext lived here worked

theorem local_phase {op : PluginHost.Op} (within : Local run op) : (run.step op).host.phase = run.host.phase := by
  rcases within with same | ⟨_, _, _, _, _, same⟩ <;> rw [same]
  rfl

/-- Every call keeps the invariant. -/
theorem step_lived (lived : Lived run) (op : PluginHost.Op) : Lived (run.step op) := by
  cases op with
  | registerPlugin plugin => exact lived_register lived plugin
  | initializeAll load onInitialize => exact lived_initialize lived load onInitialize
  | shutdownAll onShutdown => exact lived_shutdown lived onShutdown
  | executeEntry pluginId entryId input budget adapter => exact local_lived lived (executeEntry_local ..)
  | act pluginId script => exact local_lived lived (act_local run pluginId script)

theorem runFrom_lived {start : Run} (lived : Lived start) (ops : List PluginHost.Op) : Lived (runFrom start ops) := by
  induction ops generalizing start with
  | nil => exact lived
  | cons op ops ih => exact ih (step_lived lived op)

/-! ### The lifecycle -/

theorem step_stopped (stopped : run.host.phase = .Stopped) (op : PluginHost.Op) : (run.step op).host.phase = .Stopped := by
  cases op with
  | registerPlugin plugin =>
    simp only [Run.step, StaticPluginHost.registerPlugin, stopped, ne_eq, reduceCtorEq, not_false_eq_true, ↓reduceIte]
    exact stopped
  | initializeAll load onInitialize => simp [Run.step, StaticPluginHost.initializeAll, stopped]
  | shutdownAll onShutdown => simp [Run.step, StaticPluginHost.shutdownAll, stopped]
  | executeEntry pluginId entryId input budget adapter => rw [local_phase (executeEntry_local ..), stopped]
  | act pluginId script => rw [local_phase (act_local run pluginId script), stopped]

theorem runFrom_stopped {start : Run} (lived : Lived start) {ops : List PluginHost.Op}
    (closing : .shutdownAll onShutdown ∈ ops) : (runFrom start ops).host.phase = .Stopped := by
  induction ops using List.reverseRecOn with
  | nil => cases closing
  | append_singleton ops op ih =>
    have split : runFrom start (ops ++ [op]) = (runFrom start ops).step op := by simp [runFrom]
    rw [split]
    rcases mem_append.mp closing with before | last
    · exact step_stopped (ih before) op
    obtain rfl := mem_singleton.mp last
    have stage := (runFrom_lived lived ops).stage
    by_cases halted : (runFrom start ops).host.phase = .Stopped
    · exact step_stopped halted _
    cases phase : (runFrom start ops).host.phase with
    | ShuttingDown => rw [phase] at stage; exact stage.elim
    | Stopped => exact absurd phase halted
    | _ => simp [Run.step, StaticPluginHost.shutdownAll, phase]

theorem filterMap_inj {κ : Type} {f : α → Option κ} {l : List α} (unique : (l.filterMap f).Nodup) {x y : α} {k : κ}
    (first : x ∈ l) (second : y ∈ l) (left : f x = some k) (right : f y = some k) : x = y := by
  induction l with
  | nil => cases first
  | cons z l ih =>
    have inside {w : α} (mem : w ∈ l) (key : f w = some k) : k ∈ l.filterMap f := mem_filterMap.mpr ⟨w, mem, key⟩
    rw [filterMap_cons] at unique
    rcases mem_cons.mp first with rfl | earlier
    · rw [left] at unique
      rcases mem_cons.mp second with rfl | later
      · rfl
      · exact absurd (inside later right) (nodup_cons.mp unique).1
    rcases mem_cons.mp second with rfl | later
    · rw [right] at unique
      exact absurd (inside earlier left) (nodup_cons.mp unique).1
    refine ih ?_ earlier later
    cases key : f z with
    | none => rwa [key] at unique
    | some other =>
      rw [key] at unique
      exact (nodup_cons.mp unique).2

/-- The plugin's own initialisation has failed, or it could not be prepared. -/
def FailedToInitialize (run : Run) (record : PluginRecord) : Prop :=
  record.context.state = .Failed ∨ .Initialize record.context.pluginId false ∈ run.calls

theorem failed_state (lived : Lived run) (mem : record ∈ run.host.records) (failed : FailedToInitialize run record) :
    record.context.state = .Failed ∨ record.context.state = .Unloaded := by
  rcases failed with state | called
  · exact .inl state
  have stage := lived.stage
  cases phase : run.host.phase with
  | Registering =>
    rw [phase] at stage
    simp [stage.1] at called
  | Running =>
    rw [phase] at stage
    rcases stage.2 record mem with ⟨_, also⟩ | ⟨state, _⟩
    · have := filterMap_inj (lived.ordered.initialized.nodup lived.unique) called also rfl rfl
      cases this
    · exact .inl state
  | ShuttingDown => rw [phase] at stage; exact stage.elim
  | Stopped =>
    rw [phase] at stage
    exact .inr (stage record mem).1

theorem gone_withdrawn (lived : Lived run) (mem : record ∈ run.host.records)
    (gone : record.context.state = .Failed ∨ record.context.state = .Unloaded) :
    Withdrawn run.host.shared.registry record.context.pluginId := by
  have stage := lived.stage
  cases phase : run.host.phase with
  | Registering =>
    rw [phase] at stage
    rw [(stage.2 record mem).1] at gone
    rcases gone with state | state <;> cases state
  | Running =>
    rw [phase] at stage
    rcases stage.2 record mem with ⟨state, _⟩ | ⟨_, withdrawn⟩
    · rw [state] at gone
      rcases gone with state | state <;> cases state
    · exact withdrawn
  | ShuttingDown => rw [phase] at stage; exact stage.elim
  | Stopped =>
    rw [phase] at stage
    exact (stage record mem).2.1

theorem startTask_refused (gone : context.state = .Failed ∨ context.state = .Unloaded)
    (name : Text) : context.startTask name = .error (.Unavailable context.pluginId context.state) := by
  rcases gone with state | state <;>
    simp [PluginContext.startTask, PluginContext.requireCapability, PluginContext.ensureAvailable, state, bind, Except.bind]

theorem position_record (lived : Lived run) (mem : record ∈ run.host.records) : ∃ index, run.host.records[index]? = some record ∧
      position run.host.records (fun other => other.context.pluginId.value = record.context.pluginId.value) = some (index, record) := by
  refine position_key (fun other : PluginRecord => other.context.pluginId.value) ?_ mem
  have : run.host.records.map (fun other => other.context.pluginId.value) = (ids run.host).map PluginId.value := by
    rw [ids, map_map]
    rfl
  rw [this]
  refine lived.unique.map ?_
  rintro ⟨a⟩ ⟨b⟩ same
  exact congrArg PluginId.mk same

theorem executeEntry_refused (lived : Lived run) (mem : record ∈ run.host.records)
    (other : record.context.state ≠ .Ready) (entryId : Text) (input : List UInt8) (budget : PluginTaskBudget)
    (adapter : Except PluginOperationError Unit) : (run.host.executeEntry record.context.pluginId.value entryId input budget adapter).2 =
      .error (.NotReady record.context.pluginId.value record.context.state) := by
  obtain ⟨index, _, found⟩ := position_record lived mem
  simp [StaticPluginHost.executeEntry, found, other]

/-- The end of a plugin: it is in neither list, its tasks are cancelled, and it
    starts no other one. A task is known by its id, so the cancellation is
    stated while the ids have not run out. -/
structure Ended (host : StaticPluginHost) (record : PluginRecord) : Prop where
  state : record.context.state = .Unloaded
  withdrawn : Withdrawn host.shared.registry record.context.pluginId
  delisted : Delisted host.shared.catalog record.context.pluginId
  cancelled : record.context.tasks.registry.nextId < U64_MAX → ∀ handle ∈ record.context.tasks.live,
    record.context.tasks.registry.cancellationRequested handle = true
  closed : ∀ name, ∃ error, record.context.startTask name = .error error

/-- A plugin that did not come up: it has no tool, no entry of it is executed,
    and what it declared for the catalog stays there until the shutdown. -/
structure Isolated (host : StaticPluginHost) (record : PluginRecord) : Prop where
  withdrawn : Withdrawn host.shared.registry record.context.pluginId
  refused : ∀ entryId input budget adapter, ∃ error,
    (host.executeEntry record.context.pluginId.value entryId input budget adapter).2 = .error error
  listed : host.phase ≠ .Stopped → ∀ entry ∈ record.plugin.catalogEntries, entry ∈ host.shared.catalog

/-- The life of the plugins of a host, over any calls. -/
structure Lifecycle (ops : List PluginHost.Op) (run : Run) : Prop where
  initialized : (run.calls.filterMap initialized?).Nodup
  shutDown : (run.calls.filterMap shutDown?).Nodup ∧ (run.calls.filterMap shutDown?).Sublist (ids run.host).reverse
  succeeded : ∀ before pluginId ok later, run.calls = before ++ .Shutdown pluginId ok :: later → .Initialize pluginId true ∈ before
  ended : ∀ onShutdown, .shutdownAll onShutdown ∈ ops → ∀ record ∈ run.host.records, Ended run.host record
  failed : ∀ record ∈ run.host.records, FailedToInitialize run record → Isolated run.host record

theorem lifecycle (registry : Registry) (permissionPolicy : List (PluginId × PluginCapability)) (storage : Bool)
    (ops : List PluginHost.Op) : Lifecycle ops (runFrom (created registry permissionPolicy storage) ops) := by
  have start := created_lived registry permissionPolicy storage
  have lived := runFrom_lived start ops
  have stopped {onShutdown : PluginId → Hook} (closing : .shutdownAll onShutdown ∈ ops) := runFrom_stopped start closing
  generalize runFrom (created registry permissionPolicy storage) ops = run at lived stopped
  constructor
  · exact lived.ordered.initialized.nodup lived.unique
  · exact ⟨lived.ordered.shutDown.nodup (nodup_reverse.mpr lived.unique), lived.ordered.shutDown⟩
  · exact lived.ordered.succeeded
  · intro onShutdown closing record mem
    have stage := lived.stage
    rw [stopped closing] at stage
    obtain ⟨state, withdrawn, delisted⟩ := stage record mem
    have sane := lived.sane record mem
    refine ⟨state, withdrawn, delisted, ?_, fun name => ⟨_, startTask_refused (.inr state) name⟩⟩
    intro below handle alive
    exact TaskRegistry.closed_cancelled sane.tasks.consistent (sane.tasks.separate below) (sane.closed (.inr state)) alive
  · intro record mem failed
    have gone := failed_state lived mem failed
    have other : record.context.state ≠ .Ready := by
      rintro ready
      rw [ready] at gone
      rcases gone with state | state <;> cases state
    refine ⟨gone_withdrawn lived mem gone,
      fun entryId input budget adapter => ⟨_, executeEntry_refused lived mem other entryId input budget adapter⟩, ?_⟩
    intro running
    have stage := lived.stage
    refine lived.listed ?_ record.plugin (mem_map_of_mem mem)
    cases phase : run.host.phase with
    | Registering => exact .inl rfl
    | Running => exact .inr rfl
    | ShuttingDown => rw [phase] at stage; exact stage.elim
    | Stopped => exact absurd phase running

/-- A plugin with one entry. -/
def sshPlugin : StaticPlugin :=
  let descriptor := PluginDescriptor.new ⟨"ssh"⟩ "SSH" "ssh"
  ⟨descriptor, [⟨"ssh", "SSH", []⟩], StaticPlugin.defaultCatalogEntries descriptor⟩

/-- The plugin is registered, and its initialisation fails. -/
def failing : List PluginHost.Op :=
  [.registerPlugin sshPlugin, .initializeAll (fun _ => .ok ()) fun _ => ⟨[], .error (.new "offline")⟩]

theorem lifecycle_failing_listed : ¬ ∀ record ∈ (runFrom (created [] [] false) failing).host.records,
      FailedToInitialize (runFrom (created [] [] false) failing) record →
        Delisted (runFrom (created [] [] false) failing).host.shared.catalog record.context.pluginId := by
  intro delisted
  have failed : ∃ record ∈ (runFrom (created [] [] false) failing).host.records, record.context.state = .Failed ∧
        ∃ entry ∈ (runFrom (created [] [] false) failing).host.shared.catalog,
          entry.pluginId = record.context.pluginId := by decide
  obtain ⟨record, mem, state, entry, listed, same⟩ := failed
  exact delisted record mem (.inl state) entry listed same

def TASK_SCOPED : PluginCapability := ⟨"task.scoped"⟩

theorem startTask_ready (ready : context.state = .Ready)
    (declared : TASK_SCOPED ∈ context.declaredCapabilities) (granted : TASK_SCOPED ∈ context.grantedCapabilities) (name : Text) :
    (∃ result, context.startTask name = .ok result) ↔ context.tasks.registry.admits name := by
  have allowed : context.requireCapability "task.scoped" = .ok () := by
    have available : context.ensureAvailable = .ok () := by rw [PluginContext.ensureAvailable, ready]
    rw [PluginContext.requireCapability, available]
    have first : refuse (TASK_SCOPED ∉ context.declaredCapabilities)
        (PluginContextError.CapabilityNotDeclared context.pluginId "task.scoped") = .ok () :=
      if_neg (not_not.mpr declared)
    have second : refuse (TASK_SCOPED ∉ context.grantedCapabilities)
        (PluginContextError.CapabilityNotGranted context.pluginId "task.scoped") = .ok () :=
      if_neg (not_not.mpr granted)
    unfold TASK_SCOPED at first second
    simp only [first, second, bind, Except.bind]
  constructor
  · rintro ⟨result, started⟩
    exact (startTask_ok started).1
  intro admitted
  have running : refuse (context.state = .ShuttingDown)
      (PluginContextError.TaskUnavailable context.pluginId .NotAccepting) = .ok () := if_neg (by rw [ready]; decide)
  refine ⟨(context.tasks.registry.issued name, { context with
    tasks := ⟨context.tasks.registry.holding, context.tasks.live ++ [context.tasks.registry.issued name]⟩ }), ?_⟩
  rw [PluginContext.startTask, allowed, running, TaskRegistry.start_admitted admitted]
  rfl

variable {entry : PluginEntryDescriptor}

theorem entryTaskName_valid (valid : entry.Valid) :
    TaskRegistry.validateName (entryTaskName entry.id) = .ok () ↔ byteLen entry.id ≤ 122 := by
  have length : byteLen (entryTaskName entry.id) = 6 + byteLen entry.id := by
    rw [entryTaskName, byteLen_append]
    rfl
  have plain : (entryTaskName entry.id).any Domain.isControl = false := by
    rw [entryTaskName, any_append, valid.plain]
    rfl
  have named : entryTaskName entry.id ≠ [] := by simp [entryTaskName]
  rw [TaskRegistry.validateName, if_neg named, length, plain]
  by_cases long : 6 + byteLen entry.id > TaskRegistry.MAX_PLUGIN_TASK_NAME_BYTES
  · rw [if_pos long]
    unfold TaskRegistry.MAX_PLUGIN_TASK_NAME_BYTES at long
    exact ⟨fun no => (by cases no), fun short => by omega⟩
  · rw [if_neg long]
    unfold TaskRegistry.MAX_PLUGIN_TASK_NAME_BYTES at long
    exact ⟨fun _ => by omega, fun _ => rfl⟩

/-- The limit of a valid entry never spoils a valid budget. -/
theorem entry_budget (valid : entry.Valid) (budget : PluginTaskBudget) :
    ∃ taskBudget, PluginTaskBudget.new budget.timeout (min budget.maxResultBytes entry.output.maxBytes) = .ok taskBudget := by
  have time := budget.lasting
  have size := budget.holding
  have output := valid.output
  rw [PluginTaskBudget.new, dif_neg (by omega), dif_neg (by omega)]
  exact ⟨_, rfl⟩

theorem find_entry (valid : descriptor.Valid) (mem : entry ∈ descriptor.entryDescriptors) :
    (descriptor.entryDescriptors.find? fun other => other.id = entry.id) = some entry := by
  cases found : descriptor.entryDescriptors.find? fun other => other.id = entry.id with
  | none =>
    have := find?_eq_none.mp found entry mem
    simp at this
  | some other =>
    have same : other.id = entry.id := by simpa using find?_some found
    rw [inj_on_of_nodup_map valid.distinct (mem_of_find?_eq_some found) mem same]

theorem lived_submits (lived : Lived run) (mem : record ∈ run.host.records) (ready : record.context.state = .Ready)
    (present : entry ∈ record.plugin.descriptor.entryDescriptors) (declared : TASK_SCOPED ∈ record.context.declaredCapabilities)
    (granted : TASK_SCOPED ∈ record.context.grantedCapabilities)
    (room : record.context.tasks.live.length < MAX_PLUGIN_TASKS) {input : List UInt8}
    (fits : input.length ≤ entry.input.maxBytes) (budget : PluginTaskBudget) (adapter : Except PluginOperationError Unit) :
    (∃ execution, (run.host.executeEntry record.context.pluginId.value entry.id input budget adapter).2 =
      .ok execution) ↔ byteLen entry.id ≤ 122 ∧ adapter = .ok () := by
  have sane := lived.sane record mem
  obtain ⟨index, _, found⟩ := position_record lived mem
  have valid := sane.valid.each entry present
  obtain ⟨taskBudget, affordable⟩ := entry_budget valid budget
  have admits : record.context.tasks.registry.admits (entryTaskName entry.id) ↔ byteLen entry.id ≤ 122 := by
    rw [TaskRegistry.PluginTaskRegistry.admits, entryTaskName_valid valid]
    refine ⟨fun all => all.1, fun short => ⟨short, sane.open_ (.inr ready), ?_⟩⟩
    exact (TaskRegistry.tasks_le_live sane.tasks.consistent).trans_lt room
  have started := startTask_ready ready declared granted (entryTaskName entry.id)
  simp only [StaticPluginHost.executeEntry, found, ready, ne_eq, not_true_eq_false, ↓reduceIte,
    find_entry sane.valid present, gt_iff_lt, Nat.not_lt.mpr fits, affordable]
  cases outcome : record.context.startTask (entryTaskName entry.id) with
  | error error =>
    rw [outcome] at started
    have long : ¬ byteLen entry.id ≤ 122 := by
      rw [← admits, ← started]
      rintro ⟨_, no⟩
      cases no
    exact ⟨fun ⟨_, no⟩ => (by cases no), fun all => absurd all.1 long⟩
  | ok result =>
    have short : byteLen entry.id ≤ 122 := admits.mp (started.mp ⟨result, outcome⟩)
    cases adapter with
    | error error => exact ⟨fun ⟨_, no⟩ => (by cases no), fun all => (by cases all.2)⟩
    | ok => exact ⟨fun _ => ⟨short, rfl⟩, fun _ => ⟨_, rfl⟩⟩

/-- In a host that was reached by any calls, an entry of a ready plugin is
    submitted exactly when its id leaves room for the name of the task and the
    plugin adapts the entry. -/
theorem executeEntry_submits_iff (registry : Registry) (permissionPolicy : List (PluginId × PluginCapability))
    (storage : Bool) (ops : List PluginHost.Op) (record : PluginRecord)
    (mem : record ∈ (runFrom (created registry permissionPolicy storage) ops).host.records)
    (ready : record.context.state = .Ready) (entry : PluginEntryDescriptor) (present : entry ∈ record.plugin.descriptor.entryDescriptors)
    (declared : TASK_SCOPED ∈ record.context.declaredCapabilities) (granted : TASK_SCOPED ∈ record.context.grantedCapabilities)
    (room : record.context.tasks.live.length < MAX_PLUGIN_TASKS) (input : List UInt8)
    (fits : input.length ≤ entry.input.maxBytes) (budget : PluginTaskBudget) (adapter : Except PluginOperationError Unit) :
    (∃ execution, ((runFrom (created registry permissionPolicy storage) ops).host.executeEntry
      record.context.pluginId.value entry.id input budget adapter).2 = .ok execution) ↔ byteLen entry.id ≤ 122 ∧ adapter = .ok () :=
  lived_submits (runFrom_lived (created_lived registry permissionPolicy storage) ops) mem ready present declared
    granted room fits budget adapter

/-- A plugin whose only entry runs tasks. -/
def taskPlugin (entryId : Text) : StaticPlugin :=
  let descriptor := { PluginDescriptor.new ⟨"jobs"⟩ "Jobs" entryId with
    capabilities := [⟨"ui.entry"⟩, TASK_SCOPED] }
  ⟨descriptor, [⟨entryId, "Jobs", []⟩], StaticPlugin.defaultCatalogEntries descriptor⟩

/-- The plugin is registered, is granted its tasks and comes up. -/
def readied (entryId : Text) : Run :=
  runFrom (created [] [(⟨"jobs"⟩, TASK_SCOPED)] false)
    [.registerPlugin (taskPlugin entryId), .initializeAll (fun _ => .ok ()) fun _ => {}]

def oneSecond : PluginTaskBudget := ⟨10 ^ 9, 1024, by decide, by decide⟩

/-- The plugin is ready, and all that its entry needs is there. -/
def Prepared (run : Run) (entryId : Text) : Prop :=
  ∃ record ∈ run.host.records, record.context.state = .Ready ∧ TASK_SCOPED ∈ record.context.declaredCapabilities ∧
    TASK_SCOPED ∈ record.context.grantedCapabilities ∧ record.context.tasks.live.length < MAX_PLUGIN_TASKS ∧
    ∃ entry ∈ record.plugin.descriptor.entryDescriptors, entry.id = entryId ∧ 0 < entry.input.maxBytes

instance (run : Run) (entryId : Text) : Decidable (Prepared run entryId) := by unfold Prepared; infer_instance

theorem executeEntry_submits_iff_jobs : ∃ record ∈ (readied "jobs").host.records, ∃ execution,
    ((readied "jobs").host.executeEntry record.context.pluginId.value "jobs" [] oneSecond (.ok ())).2 = .ok execution := by
  have prepared : Prepared (readied "jobs") "jobs" := by decide
  obtain ⟨record, mem, ready, declared, granted, room, entry, present, named, _⟩ := prepared
  have submitted := (executeEntry_submits_iff _ _ _ _ record mem ready entry present declared granted room []
    (Nat.zero_le _) oneSecond (.ok ())).mpr ⟨by rw [named]; decide, rfl⟩
  rw [named] at submitted
  exact ⟨record, mem, submitted⟩

set_option maxRecDepth 20000 in
theorem executeEntry_submits_iff_long : ¬ ∀ record ∈ (readied (List.replicate 123 'a')).host.records,
    record.context.state = .Ready → TASK_SCOPED ∈ record.context.declaredCapabilities →
    TASK_SCOPED ∈ record.context.grantedCapabilities → record.context.tasks.live.length < MAX_PLUGIN_TASKS →
    ∀ entry ∈ record.plugin.descriptor.entryDescriptors, ∀ input : List UInt8, input.length ≤ entry.input.maxBytes →
    ∃ execution, ((readied (List.replicate 123 'a')).host.executeEntry record.context.pluginId.value entry.id input
      oneSecond (.ok ())).2 = .ok execution := by
  intro submits
  have prepared : Prepared (readied (List.replicate 123 'a')) (List.replicate 123 'a') := by decide
  obtain ⟨record, mem, ready, declared, granted, room, entry, present, named, _⟩ := prepared
  have submitted := submits record mem ready declared granted room entry present [] (Nat.zero_le _)
  have lived := runFrom_lived (created_lived [] [(⟨"jobs"⟩, TASK_SCOPED)] false)
    [.registerPlugin (taskPlugin (List.replicate 123 'a')), .initializeAll (fun _ => .ok ()) fun _ => {}]
  have short := ((lived_submits lived mem ready present declared granted room (Nat.zero_le _) oneSecond
    (.ok ())).mp submitted).1
  rw [named] at short
  revert short
  decide

end Ramag.HostRuns
