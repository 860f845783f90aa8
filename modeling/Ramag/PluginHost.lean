import Ramag.TaskRegistry
import Ramag.ToolRegistry

/-!
The host of the static plugins. It keeps four things in step: the life of each
plugin, the tool registry, the catalog of entries and the tasks of each plugin.
Registration, initialisation and shutdown hold one lock, so a sequence of calls
is a list of operations. What the hooks of a plugin do is given with the call:
the tasks they start and end, and whether they succeed.
-/
namespace Ramag.PluginHost
open Strings Domain Plugin ToolRegistry Placement
open TaskRegistry (Scope PluginTaskHandle PluginTaskError PluginTaskBudget PluginTaskBudgetError)

inductive PluginState
  | Registered
  | Initializing
  | Ready
  | ShuttingDown
  | Failed
  | Unloaded
  deriving DecidableEq

/-- The context that a plugin keeps: its capabilities, its state and its tasks. -/
structure PluginContext where
  pluginId : PluginId
  declaredCapabilities : List PluginCapability
  grantedCapabilities : List PluginCapability
  tasks : Scope := {}
  state : PluginState := .Registered

inductive PluginContextError
  | Unavailable (pluginId : PluginId) (state : PluginState)
  | CapabilityNotDeclared (pluginId : PluginId) (capability : Text)
  | CapabilityNotGranted (pluginId : PluginId) (capability : Text)
  | TaskUnavailable (pluginId : PluginId) (source : PluginTaskError)

variable (context : PluginContext)

namespace PluginContext

def ensureAvailable : Except PluginContextError Unit :=
  match context.state with
  | .Initializing | .Ready | .ShuttingDown => .ok ()
  | state => .error (.Unavailable context.pluginId state)

def requireCapability (capability : Text) : Except PluginContextError Unit := do
  context.ensureAvailable
  refuse (⟨capability⟩ ∉ context.declaredCapabilities) (.CapabilityNotDeclared context.pluginId capability)
  refuse (⟨capability⟩ ∉ context.grantedCapabilities) (.CapabilityNotGranted context.pluginId capability)

def startTask (name : Text) :
    Except PluginContextError (PluginTaskHandle × PluginContext) := do
  context.requireCapability "task.scoped"
  refuse (context.state = .ShuttingDown) (.TaskUnavailable context.pluginId .NotAccepting)
  let (handle, registry) ← (context.tasks.registry.start name).mapError (.TaskUnavailable context.pluginId)
  .ok (handle, { context with tasks := ⟨registry, context.tasks.live ++ [handle]⟩ })

/-- A compare-and-exchange of the state. -/
def transition (before after : PluginState) : PluginContext :=
  if context.state = before then { context with state := after } else context

def stopTasks : PluginContext := { context with tasks := context.tasks.step .cancelAll }

def markUnloaded : PluginContext := { context.stopTasks with state := .Unloaded }

/-- What plugin code does with its context. -/
inductive Act
  | start (name : Text)
  | drop (index : Nat)
  | requestCancel (index : Nat)

def act : Act → PluginContext
  | .start name =>
    match context.startTask name with
    | .ok (_, after) => after
    | .error _ => context
  | .drop index => { context with tasks := context.tasks.step (.drop index) }
  | .requestCancel index => { context with tasks := context.tasks.step (.requestCancel index) }

def acts (script : List Act) : PluginContext := script.foldl act context

end PluginContext

def MAX_PLUGIN_CATALOG_ENTRIES : Nat := 256

structure PluginCatalogEntry where
  pluginId : PluginId
  entryId : Text
  name : Text
  apiVersion : PluginApiVersion
  desktop : Bool
  web : Bool
  capabilities : List PluginCapability

def PluginCatalogEntry.desktopOnly (descriptor : PluginDescriptor) (entry : PluginEntryDescriptor) : PluginCatalogEntry where
  pluginId := descriptor.id
  entryId := entry.id
  name := entry.name
  apiVersion := descriptor.apiVersion
  desktop := true
  web := false
  capabilities := descriptor.capabilities

inductive PluginCatalogError
  | TooManyEntries (max : Nat)
  | DuplicateEntry (pluginId : PluginId) (entryId : Text)

def PluginCatalogError.message : PluginCatalogError → Text
  | .TooManyEntries max => "第一方目录入口超过 " ++ natText max ++ " 项"
  | .DuplicateEntry pluginId entryId => "第一方目录入口重复：插件 `" ++ pluginId.value ++ "` / 入口 `" ++ entryId ++ "`"

abbrev PluginCatalog := List PluginCatalogEntry

namespace PluginCatalog

def register (catalog : PluginCatalog) (entries : List PluginCatalogEntry) :
    Except PluginCatalogError PluginCatalog := do
  refuse (catalog.length + entries.length > MAX_PLUGIN_CATALOG_ENTRIES) (.TooManyEntries MAX_PLUGIN_CATALOG_ENTRIES)
  let _ ← checkEach (fun _ => .ok ()) (fun entry => (entry.pluginId, entry.entryId))
    (fun key => .DuplicateEntry key.1 key.2) (catalog.map fun entry => (entry.pluginId, entry.entryId)) entries
  .ok (catalog ++ entries)

def removePlugin (catalog : PluginCatalog) (pluginId : Text) : PluginCatalog :=
  catalog.filter fun entry => entry.pluginId.value ≠ pluginId

end PluginCatalog

/-! ### The host -/

/-- A plugin: what its methods return when the host registers it. -/
structure StaticPlugin where
  descriptor : PluginDescriptor
  tools : List Tool
  catalogEntries : List PluginCatalogEntry

/-- The entries of a plugin that does not override them. -/
def StaticPlugin.defaultCatalogEntries (descriptor : PluginDescriptor) : List PluginCatalogEntry :=
  descriptor.entryDescriptors.map (.desktopOnly descriptor)

def MAX_PLUGIN_OPERATION_ERROR_BYTES : Nat := 512

def boundedMessage (message : Text) : Text :=
  if byteLen message ≤ MAX_PLUGIN_OPERATION_ERROR_BYTES then message
  else takeBytes (MAX_PLUGIN_OPERATION_ERROR_BYTES - 3) message ++ "..."

/-- An error of a hook, with a message of bounded length. -/
structure PluginOperationError where
  message : Text

def PluginOperationError.new (message : Text) : PluginOperationError := ⟨boundedMessage message⟩

inductive PluginLifecycleStage
  | Registration
  | Initialize
  | Shutdown

structure PluginDiagnosticFailure where
  stage : PluginLifecycleStage
  message : Text

structure PluginDiagnostic where
  descriptor : PluginDescriptor
  state : PluginState
  failure : Option PluginDiagnosticFailure

structure PluginLifecycleFailure where
  pluginId : PluginId
  stage : PluginLifecycleStage
  error : PluginOperationError

structure PluginLifecycleReport where
  succeeded : List PluginId := []
  failures : List PluginLifecycleFailure := []

inductive HostPhase
  | Registering
  | Running
  | ShuttingDown
  | Stopped
  deriving DecidableEq

structure PluginRecord where
  plugin : StaticPlugin
  context : PluginContext

/-- What the records share. -/
structure Shared where
  registry : Registry := []
  catalog : PluginCatalog := []
  failures : AList fun _ : PluginId => PluginDiagnosticFailure := ∅

structure StaticPluginHost where
  shared : Shared := {}
  records : List PluginRecord := []
  phase : HostPhase := .Registering
  /-- The capabilities that the policy grants, each to a plugin. -/
  permissionPolicy : List (PluginId × PluginCapability) := []
  /-- A storage is configured. -/
  storage : Bool := false
  registrationFailures : List PluginDiagnostic := []

inductive PluginHostError
  | Registration (pluginId : PluginId) (source : PluginRegistrationError)
  | RegistrationClosed (pluginId : PluginId)
  | Catalog (pluginId : PluginId) (source : PluginCatalogError)

def PluginHostError.closedMessage (pluginId : PluginId) : Text :=
  "插件宿主已开始生命周期处理，不能注册插件 `" ++ pluginId.value ++ "`"

/-- The run of a hook: what it does with the context, and its outcome. -/
structure Hook where
  script : List PluginContext.Act := []
  outcome : Except PluginOperationError Unit := .ok ()

/-- A hook that the host called. -/
inductive HookCall
  | Initialize (pluginId : PluginId) (succeeded : Bool)
  | Shutdown (pluginId : PluginId) (succeeded : Bool)

/-- The shared state, the report and the hooks called so far in a pass over the
    records. -/
structure Pass where
  shared : Shared
  report : PluginLifecycleReport := {}
  calls : List HookCall := []

def Hook.succeeded (hook : Hook) : Bool :=
  match hook.outcome with
  | .ok _ => true
  | .error _ => false

/-- A pass over the records, each of which is left behind changed. -/
def sweep (visit : Pass → PluginRecord → Pass × PluginRecord) : Pass → List PluginRecord → Pass × List PluginRecord
  | pass, [] => (pass, [])
  | pass, record :: records =>
    let visited := visit pass record
    let rest := sweep visit visited.1 records
    (rest.1, visited.2 :: rest.2)

variable (host : StaticPluginHost)

namespace StaticPluginHost

def grantsFor (pluginId : PluginId) : List PluginCapability :=
  host.permissionPolicy.filterMap fun grant => if grant.1 = pluginId then some grant.2 else none

def recordRegistrationFailure (descriptor : PluginDescriptor) (message : Text) : StaticPluginHost :=
  { host with
    registrationFailures := host.registrationFailures ++
      [⟨descriptor, .Failed, some ⟨.Registration, boundedMessage message⟩⟩] }

def registerPlugin (plugin : StaticPlugin) : StaticPluginHost × Except PluginHostError Unit :=
  let descriptor := plugin.descriptor
  let pluginId := descriptor.id
  if host.phase ≠ .Registering then
    (host.recordRegistrationFailure descriptor (PluginHostError.closedMessage pluginId), .error (.RegistrationClosed pluginId))
  else
    match registerPluginEntries host.shared.registry descriptor plugin.tools with
    | .error source => (host.recordRegistrationFailure descriptor source.message, .error (.Registration pluginId source))
    | .ok registry =>
      match host.shared.catalog.register plugin.catalogEntries with
      | .error source =>
        ({ host with shared := { host.shared with
              registry := (unregisterPlugin registry pluginId.value).1 } }.recordRegistrationFailure descriptor
            source.message,
          .error (.Catalog pluginId source))
      | .ok catalog =>
        ({ host with
            shared := { host.shared with registry, catalog }
            records := host.records ++
              [⟨plugin, ⟨pluginId, descriptor.capabilities, host.grantsFor pluginId, {}, .Registered⟩⟩] },
          .ok ())

/-- Whether the snapshots of the plugin can be installed; `load` is the outcome
    of reading them from the storage. -/
def prepareContext (load : Except PluginOperationError Unit) (record : PluginRecord) : Except PluginOperationError Unit :=
  if host.storage = false then
    if record.plugin.descriptor.settings = [] then .ok ()
    else .error (.new "插件声明了设置，但宿主没有配置插件存储")
  else load

/-- A plugin that could not be prepared or initialised. -/
def failInitialization (pass : Pass) (record : PluginRecord) (error : PluginOperationError) : Pass × PluginRecord :=
  let pluginId := record.context.pluginId
  ({ pass with
      shared := { pass.shared with
        registry := (unregisterPlugin pass.shared.registry pluginId.value).1
        failures := pass.shared.failures.insert pluginId ⟨.Initialize, error.message⟩ }
      report := { pass.report with failures := pass.report.failures ++ [⟨pluginId, .Initialize, error⟩] } },
    { record with context := record.context.stopTasks.transition .Initializing .Failed })

def initializeRecord (load : PluginId → Except PluginOperationError Unit)
    (onInitialize : PluginId → Hook) (pass : Pass) (record : PluginRecord) : Pass × PluginRecord :=
  let pluginId := record.context.pluginId
  if record.context.state ≠ .Registered then (pass, record)
  else
    let record := { record with context := record.context.transition .Registered .Initializing }
    match host.prepareContext (load pluginId) record with
    | .error error => failInitialization pass record error
    | .ok () =>
      let hook := onInitialize pluginId
      let record := { record with context := record.context.acts hook.script }
      let pass : Pass := { pass with calls := pass.calls ++ [.Initialize pluginId hook.succeeded] }
      match hook.outcome with
      | .ok () =>
        ({ pass with report := { pass.report with succeeded := pass.report.succeeded ++ [pluginId] } },
          { record with context := record.context.transition .Initializing .Ready })
      | .error error => failInitialization pass record error

def initializeAll (load : PluginId → Except PluginOperationError Unit)
    (onInitialize : PluginId → Hook) : StaticPluginHost × PluginLifecycleReport × List HookCall :=
  if host.phase ≠ .Registering then (host, {}, [])
  else
    let swept := sweep (host.initializeRecord load onInitialize) { shared := host.shared } host.records
    ({ host with phase := .Running, shared := swept.1.shared, records := swept.2 }, swept.1.report, swept.1.calls)

/-- The end of a plugin, whether its hook succeeded or not. -/
def unloadRecord (pass : Pass) (record : PluginRecord) : Pass × PluginRecord :=
  let pluginId := record.context.pluginId
  ({ pass with shared := { pass.shared with
      registry := (unregisterPlugin pass.shared.registry pluginId.value).1
      catalog := pass.shared.catalog.removePlugin pluginId.value } },
    { record with context := record.context.markUnloaded })

def shutdownRecord (onShutdown : PluginId → Hook) (pass : Pass) (record : PluginRecord) : Pass × PluginRecord :=
  let pluginId := record.context.pluginId
  if record.context.state ≠ .Ready then unloadRecord pass record
  else
    let hook := onShutdown pluginId
    let context := ((record.context.transition .Ready .ShuttingDown).stopTasks).acts hook.script
    let pass : Pass := { pass with calls := pass.calls ++ [.Shutdown pluginId hook.succeeded] }
    match hook.outcome with
    | .ok () =>
      unloadRecord { pass with report := { pass.report with succeeded := pass.report.succeeded ++ [pluginId] } }
        { record with context }
    | .error error =>
      unloadRecord
        { pass with
          shared := { pass.shared with
            failures := pass.shared.failures.insert pluginId ⟨.Shutdown, error.message⟩ }
          report := { pass.report with failures := pass.report.failures ++ [⟨pluginId, .Shutdown, error⟩] } }
        { record with context }

/-- The records are visited in reverse order; the phase `ShuttingDown` is seen
    by nobody else, since registration and initialisation wait for the lock. -/
def shutdownAll (onShutdown : PluginId → Hook) : StaticPluginHost × PluginLifecycleReport × List HookCall :=
  if host.phase = .ShuttingDown ∨ host.phase = .Stopped then (host, {}, [])
  else
    let swept := sweep (shutdownRecord onShutdown) { shared := host.shared } host.records.reverse
    ({ host with phase := .Stopped, shared := swept.1.shared, records := swept.2.reverse }, swept.1.report, swept.1.calls)

end StaticPluginHost

inductive PluginEntryExecutionError
  | PluginNotFound (pluginId : Text)
  | NotReady (pluginId : Text) (state : PluginState)
  | EntryNotFound (pluginId entryId : Text)
  | InputTooLarge (entryId : Text) (actual max : Nat)
  | InvalidBudget (source : PluginTaskBudgetError)
  | TaskUnavailable (source : PluginContextError)
  | Operation (source : PluginOperationError)

/-- A task that was submitted, with the budget it runs under. -/
structure PluginTaskExecution where
  handle : PluginTaskHandle
  budget : PluginTaskBudget

def entryTaskName (entryId : Text) : Text := "entry:" ++ entryId

namespace StaticPluginHost

def setContext (index : Nat) (context : PluginContext) : StaticPluginHost :=
  { host with records := host.records.modify index fun record => { record with context } }

/-- `adapter` is what the `execute` method of the plugin returns. When it fails,
    the handle is dropped on the way out. -/
def executeEntry (pluginId entryId : Text) (input : List UInt8) (budget : PluginTaskBudget)
    (adapter : Except PluginOperationError Unit) : StaticPluginHost × Except PluginEntryExecutionError PluginTaskExecution :=
  match position host.records fun record => record.context.pluginId.value = pluginId with
  | none => (host, .error (.PluginNotFound pluginId))
  | some (index, record) =>
    if record.context.state ≠ .Ready then (host, .error (.NotReady pluginId record.context.state))
    else
      match record.plugin.descriptor.entryDescriptors.find? fun entry => entry.id = entryId with
      | none => (host, .error (.EntryNotFound pluginId entryId))
      | some entry =>
        if input.length > entry.input.maxBytes then
          (host, .error (.InputTooLarge entry.id input.length entry.input.maxBytes))
        else
          match PluginTaskBudget.new budget.timeout (min budget.maxResultBytes entry.output.maxBytes) with
          | .error source => (host, .error (.InvalidBudget source))
          | .ok taskBudget =>
            match record.context.startTask (entryTaskName entryId) with
            | .error source => (host, .error (.TaskUnavailable source))
            | .ok (handle, context) =>
              match adapter with
              | .error source =>
                (host.setContext index
                    { context with tasks := context.tasks.step (.drop record.context.tasks.live.length) },
                  .error (.Operation source))
              | .ok () => (host.setContext index context, .ok ⟨handle, taskBudget⟩)

end StaticPluginHost

/-- One call of the host, or plugin code that runs between the calls. -/
inductive Op
  | registerPlugin (plugin : StaticPlugin)
  | initializeAll (load : PluginId → Except PluginOperationError Unit) (onInitialize : PluginId → Hook)
  | shutdownAll (onShutdown : PluginId → Hook)
  | executeEntry (pluginId entryId : Text) (input : List UInt8) (budget : PluginTaskBudget)
    (adapter : Except PluginOperationError Unit)
  | act (pluginId : PluginId) (script : List PluginContext.Act)

/-- The host, and the hooks that it has called. -/
structure Run where
  host : StaticPluginHost
  calls : List HookCall := []

def Run.step (run : Run) : Op → Run
  | .registerPlugin plugin => { run with host := (run.host.registerPlugin plugin).1 }
  | .initializeAll load onInitialize =>
    let (host, _, calls) := run.host.initializeAll load onInitialize
    ⟨host, run.calls ++ calls⟩
  | .shutdownAll onShutdown =>
    let (host, _, calls) := run.host.shutdownAll onShutdown
    ⟨host, run.calls ++ calls⟩
  | .executeEntry pluginId entryId input budget adapter =>
    { run with host := (run.host.executeEntry pluginId entryId input budget adapter).1 }
  | .act pluginId script =>
    match position run.host.records fun record => record.context.pluginId = pluginId with
    | none => run
    | some (index, record) => { run with host := run.host.setContext index (record.context.acts script) }

/-- A host that is created over a registry, which may hold tools already. -/
def created (registry : Registry) (permissionPolicy : List (PluginId × PluginCapability)) (storage : Bool) : Run where
  host := { shared := { registry }, permissionPolicy, storage }

def runFrom (start : Run) (ops : List Op) : Run := ops.foldl Run.step start

end Ramag.PluginHost
