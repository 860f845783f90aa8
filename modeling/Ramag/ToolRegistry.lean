import Ramag.Plugin
import Ramag.Placement

/-!
The tools in the order of the layout. Plain tools and the entries of plugins are
registered under ids that stay unique; hidden tools keep their places while the
shown ones are moved around them.
-/
namespace Ramag.ToolRegistry
open Strings Domain Plugin Placement List

/-- A tool, of which the registry reads the metadata. -/
structure Tool where
  id : Text
  name : Text
  description : Text

structure ToolEntry where
  tool : Tool
  enabled : Bool
  homeVisible : Bool
  sidebarVisible : Bool
  plugin : Option PluginDescriptor

abbrev Registry := List ToolEntry

/-- An entry as it is registered. -/
def ToolEntry.new (tool : Tool) (plugin : Option PluginDescriptor) : ToolEntry :=
  ⟨tool, true, true, true, plugin⟩

def ToolEntry.id (entry : ToolEntry) : Text := entry.tool.id

def ToolEntry.belongsTo (entry : ToolEntry) (id : PluginId) : Bool := entry.plugin.any fun plugin => plugin.id = id

def register (registry : Registry) (tool : Tool) : Registry :=
  if registry.any fun entry => entry.id = tool.id then registry else registry ++ [.new tool none]

/-- The tools in the order of the manifest. -/
def orderedTools (entries : List PluginEntryDescriptor) (pluginTools : List Tool) : List Tool :=
  entries.filterMap fun entry => pluginTools.find? fun tool => tool.id = entry.id

def registerPluginEntries (registry : Registry) (descriptor : PluginDescriptor) (pluginTools : List Tool) :
    Except PluginRegistrationError Registry := do
  descriptor.validate
  let entries := descriptor.entryDescriptors
  refuse (entries.length ≠ pluginTools.length)
    (.EntryCountMismatch descriptor.id entries.length pluginTools.length)
  let entryIds := entries.map (·.id)
  let toolIds ← checkEach
    (fun tool => refuse (tool.id ∉ entryIds) (.EntryIdMismatch descriptor.id descriptor.entryId tool.id))
    Tool.id .DuplicateEntryId [] pluginTools
  entries.forM fun entry => refuse (entry.id ∉ toolIds) (.MissingToolEntry descriptor.id entry.id)
  refuse (registry.any fun entry => entry.belongsTo descriptor.id) (.DuplicatePluginId descriptor.id)
  match registry.find? fun entry => entry.id ∈ entryIds with
  | some duplicate => .error (.DuplicateEntryId duplicate.id)
  | none => .ok ((orderedTools entries pluginTools).foldl (fun tools tool => tools ++ [.new tool (some descriptor)]) registry)

def registerPlugin (registry : Registry) (descriptor : PluginDescriptor) (tool : Tool) : Except PluginRegistrationError Registry :=
  registerPluginEntries registry descriptor [tool]

def registerBuiltin (registry : Registry) (tool : Tool) : Except PluginRegistrationError Registry := do
  validateIdentifier "插件 ID" tool.id MAX_PLUGIN_ID_BYTES
  registerPlugin registry
    { PluginDescriptor.new ⟨tool.id⟩ tool.name tool.id with
      description := tool.description
      capabilities := [⟨"ui.entry"⟩] } tool

def unregisterPlugin (registry : Registry) (pluginId : Text) : Registry × Bool :=
  let after := registry.filter fun entry => !entry.belongsTo ⟨pluginId⟩
  (after, registry.length ≠ after.length)

/-- Sets a flag of the first entry with the id, and tells whether it changed. -/
def setFlag (get : ToolEntry → Bool) (set : Bool → ToolEntry → ToolEntry) (registry : Registry)
    (id : Text) (value : Bool) : Registry × Bool :=
  match registry.find? fun entry => entry.id = id with
  | none => (registry, false)
  | some entry =>
    if get entry = value then (registry, false)
    else (registry.modify (registry.findIdx fun entry => entry.id = id) (set value), true)

def setEnabled : Registry → Text → Bool → Registry × Bool :=
  setFlag (·.enabled) fun enabled entry => { entry with enabled }

def setHomeVisible : Registry → Text → Bool → Registry × Bool :=
  setFlag (·.homeVisible) fun homeVisible entry => { entry with homeVisible }

def setSidebarVisible : Registry → Text → Bool → Registry × Bool :=
  setFlag (·.sidebarVisible) fun sidebarVisible entry => { entry with sidebarVisible }

def order (registry : Registry) : List Text := registry.map (·.id)

/-- The rank of an id: its last index in the order, or the end. -/
def rank (ids : List Text) (id : Text) : Nat :=
  (ids.zipIdx.reverse.find? fun item => item.1 = id).elim ids.length (·.2)

def applyOrder (registry : Registry) (ids : List Text) : Registry × Bool :=
  if ids = [] then (registry, false)
  else
    let after := registry.mergeSort fun a b => rank ids a.id ≤ rank ids b.id
    (after, order registry ≠ order after)

def isEnabled (id : Text) (entry : ToolEntry) : Bool := entry.enabled && entry.id = id

def reorder (registry : Registry) (draggedId targetId : Text) (before : Bool) : Registry × Bool :=
  if draggedId = targetId then (registry, false)
  else
    match position registry (isEnabled draggedId) with
    | none => (registry, false)
    | some (draggedIndex, dragged) =>
      if registry.any (isEnabled targetId) = false then (registry, false)
      else
        let rest := registry.eraseIdx draggedIndex
        match rest.findIdx? (isEnabled targetId) with
        | none => (rest.insertIdx (min draggedIndex rest.length) dragged, false)
        | some targetIndex =>
          let insertIndex := if before then targetIndex else targetIndex + 1
          let after := rest.insertIdx (min insertIndex rest.length) dragged
          (after, order registry ≠ order after)

def reorderToTarget (registry : Registry) (draggedId targetId : Text) : Registry × Bool :=
  if draggedId = targetId then (registry, false)
  else
    match registry.findIdx? (isEnabled draggedId), registry.findIdx? (isEnabled targetId) with
    | some draggedIndex, some targetIndex => reorder registry draggedId targetId (draggedIndex > targetIndex)
    | _, _ => (registry, false)

def reorderToIndexWhere (registry : Registry) (draggedId : Text) (visibleIndex : Nat) (isVisible : ToolEntry → Bool) : Registry × Bool :=
  match position registry fun entry => isVisible entry && entry.id = draggedId with
  | none => (registry, false)
  | some (draggedIndex, dragged) =>
    let rest := registry.eraseIdx draggedIndex
    let remainingVisibleCount := (rest.filter isVisible).length
    let targetIndex := min visibleIndex remainingVisibleCount
    let insertIndex :=
      if targetIndex = remainingVisibleCount then rest.length
      else (rest.zipIdx.filter fun item => isVisible item.1)[targetIndex]?.elim rest.length (·.2)
    let after := rest.insertIdx insertIndex dragged
    (after, order registry ≠ order after)

def reorderToIndex (registry : Registry) (draggedId : Text) (visibleIndex : Nat) : Registry × Bool :=
  reorderToIndexWhere registry draggedId visibleIndex fun entry => entry.enabled

def reorderHomeToIndex (registry : Registry) (draggedId : Text) (visibleIndex : Nat) : Registry × Bool :=
  reorderToIndexWhere registry draggedId visibleIndex fun entry => entry.enabled && entry.homeVisible

def reorderSidebarToIndex (registry : Registry) (draggedId : Text) (visibleIndex : Nat) : Registry × Bool :=
  reorderToIndexWhere registry draggedId visibleIndex fun entry => entry.enabled && entry.sidebarVisible

def moveToEnd (registry : Registry) (draggedId : Text) : Registry × Bool :=
  match registry.reverse.find? fun entry => entry.enabled with
  | none => (registry, false)
  | some target => reorder registry draggedId target.id false

/-! ### Rearrangements -/

/-- The tools are the same; those that are not named keep their order; and the
    result tells whether the order is another one. -/
structure Rearranged (named : List Text) (before : Registry) (result : Registry × Bool) : Prop where
  perm : result.1.Perm before
  kept : result.1.filter (fun entry => entry.id ∉ named) = before.filter fun entry => entry.id ∉ named
  changed : result.2 = true ↔ order result.1 ≠ order before

theorem rearranged_same (named : List Text) (registry : Registry) : Rearranged named registry (registry, false) :=
  ⟨.refl _, rfl, by simp⟩

variable {registry : Registry}

theorem move_rearranged {entry : ToolEntry} {i j : Nat} (here : registry[i]? = some entry) (inside : j ≤ (registry.eraseIdx i).length) :
    Rearranged [entry.id] registry ((registry.eraseIdx i).insertIdx j entry,
      order registry ≠ order ((registry.eraseIdx i).insertIdx j entry)) := by
  refine ⟨perm_move here inside, filter_move here (by simp) j, ?_⟩
  simp [ne_comm]

theorem isEnabled_id {id : Text} {entry : ToolEntry} (shown : isEnabled id entry = true) : entry.id = id := by
  simpa using (Bool.and_eq_true_iff.mp shown).2

theorem reorder_rearranged (registry : Registry) (draggedId targetId : Text) (before : Bool) :
    Rearranged [draggedId] registry (reorder registry draggedId targetId before) := by
  unfold reorder
  by_cases self : draggedId = targetId
  · rw [if_pos self]
    exact rearranged_same _ _
  rw [if_neg self]
  cases found : position registry (isEnabled draggedId) with
  | none => exact rearranged_same _ _
  | some place =>
    obtain ⟨draggedIndex, dragged⟩ := place
    obtain ⟨here, shown⟩ := position_some found
    obtain rfl := isEnabled_id shown
    cases targeted : registry.any (isEnabled targetId) with
    | false => exact rearranged_same _ _
    | true =>
    simp only [Bool.true_eq_false, ↓reduceIte]
    split
    · -- The target is another entry, so it is still there.
      rename_i gone
      obtain ⟨target, mem, aimed⟩ := any_eq_true.mp targeted
      obtain ⟨index, inside, rfl⟩ := getElem_of_mem mem
      have elsewhere : index ≠ draggedIndex := by
        rintro rfl
        rw [getElem?_eq_getElem inside, Option.some_inj] at here
        exact self (by rw [← isEnabled_id aimed, here])
      have remains : registry[index] ∈ registry.eraseIdx draggedIndex :=
        mem_eraseIdx_iff_getElem?.mpr ⟨index, elsewhere, getElem?_eq_getElem inside⟩
      have := findIdx?_eq_none_iff.mp gone _ remains
      simp [aimed] at this
    · exact move_rearranged here (Nat.min_le_right _ _)

theorem reorderToTarget_rearranged (registry : Registry) (draggedId targetId : Text) :
    Rearranged [draggedId] registry (reorderToTarget registry draggedId targetId) := by
  unfold reorderToTarget
  split_ifs with self
  · exact rearranged_same _ _
  split
  · exact reorder_rearranged _ _ _ _
  · exact rearranged_same _ _

theorem moveToEnd_rearranged (registry : Registry) (draggedId : Text) : Rearranged [draggedId] registry (moveToEnd registry draggedId) := by
  unfold moveToEnd
  split
  · exact rearranged_same _ _
  · exact reorder_rearranged _ _ _ _

theorem applyOrder_rearranged (registry : Registry) (ids : List Text) : Rearranged ids registry (applyOrder registry ids) := by
  unfold applyOrder
  split_ifs with empty
  · exact rearranged_same _ _
  have perm := mergeSort_perm registry fun a b => decide (rank ids a.id ≤ rank ids b.id)
  refine ⟨perm, ?_, by simp [ne_comm]⟩
  -- The sort is stable, and the entries that are not named have one rank.
  have last {entry : ToolEntry} (unnamed : entry.id ∉ ids) : rank ids entry.id = ids.length := by
    have missing : ids.zipIdx.reverse.find? (fun item => item.1 = entry.id) = none := by
      rw [find?_eq_none]
      rintro ⟨id, index⟩ mem same
      obtain rfl : id = entry.id := by simpa using same
      exact unnamed (fst_mem_of_mem_zipIdx (mem_reverse.mp mem))
    rw [rank, missing]
    rfl
  have level : (registry.filter fun entry => entry.id ∉ ids).Pairwise
      fun a b => decide (rank ids a.id ≤ rank ids b.id) = true := by
    refine pairwise_of_forall_sublist fun {a b} pair => ?_
    have first := (mem_filter.mp (pair.subset mem_cons_self)).2
    have second := (mem_filter.mp (pair.subset (mem_cons_of_mem _ mem_cons_self))).2
    rw [decide_eq_true_eq, last (of_decide_eq_true first), last (of_decide_eq_true second)]
  have kept := (sublist_mergeSort (by simp only [decide_eq_true_eq]; omega)
    (by simp only [Bool.or_eq_true, decide_eq_true_eq]; omega) level filter_sublist).filter
      fun entry => decide (entry.id ∉ ids)
  simp only [filter_filter, Bool.and_self] at kept
  exact (kept.eq_of_length (perm.filter _).length_eq.symm).symm

theorem insertIndex_eq (shown : ToolEntry → Bool) (rest : Registry) (n : Nat) :
    (if min n (rest.filter shown).length = (rest.filter shown).length then rest.length
      else (rest.zipIdx.filter fun item => shown item.1)[min n (rest.filter shown).length]?.elim rest.length (·.2)) =
      slot shown rest n := by
  rcases Nat.lt_or_ge n (rest.filter shown).length with inside | beyond
  · rw [Nat.min_eq_left (Nat.le_of_lt inside), if_neg (Nat.ne_of_lt inside)]
    simpa using zipIdx_slot shown rest n 0
  · rw [Nat.min_eq_right beyond, if_pos rfl, slot_end beyond]

theorem reorderToIndexWhere_rearranged (registry : Registry) (draggedId : Text) (n : Nat) (shown : ToolEntry → Bool) :
    Rearranged [draggedId] registry (reorderToIndexWhere registry draggedId n shown) := by
  unfold reorderToIndexWhere
  cases found : position registry fun entry => shown entry && entry.id = draggedId with
  | none => exact rearranged_same _ _
  | some place =>
    obtain ⟨here, kind⟩ := position_some found
    obtain rfl : place.2.id = draggedId := by simpa using (Bool.and_eq_true_iff.mp kind).2
    simp only [insertIndex_eq]
    exact move_rearranged here (slot_le _ _ _)

/-- The tool is shown at the index, or behind the others when they are fewer. -/
def Placed (shown : ToolEntry → Bool) (before after : Registry) (draggedId : Text) (n : Nat) : Prop :=
  (order (after.filter shown))[min n (before.filter fun entry => shown entry && entry.id ≠ draggedId).length]? = some draggedId

theorem reorderToIndexWhere_placed (unique : (order registry).Nodup) {draggedId : Text}
    {shown : ToolEntry → Bool} (there : ∃ entry ∈ registry, shown entry = true ∧ entry.id = draggedId) (n : Nat) :
    Placed shown registry (reorderToIndexWhere registry draggedId n shown).1 draggedId n := by
  unfold reorderToIndexWhere
  cases found : position registry fun entry => shown entry && entry.id = draggedId with
  | none =>
    obtain ⟨entry, mem, shows, same⟩ := there
    have := position_none found entry mem
    simp [shows, same] at this
  | some place =>
    obtain ⟨here, kind⟩ := position_some found
    obtain ⟨shows, same⟩ := Bool.and_eq_true_iff.mp kind
    obtain rfl : place.2.id = draggedId := by simpa using same
    simp only [insertIndex_eq]
    rw [Placed, filter_insertIdx_slot shows, eraseIdx_eq_filter unique here, filter_filter]
    rw [order, getElem?_map, getElem?_insertIdx_self, if_pos (Nat.min_le_right _ _)]
    rfl

/-- All entries of the plugin are registered behind the others, in the order of
    its manifest. -/
structure Added (before : Registry) (descriptor : PluginDescriptor) (after : Registry) : Prop where
  valid : descriptor.Valid
  unclaimed : ∀ entry ∈ before, entry.belongsTo descriptor.id = false
  fresh : ∀ entry ∈ before, entry.id ∉ descriptor.entryDescriptors.map (·.id)
  appended : ∃ tools : List Tool, tools.map (·.id) = descriptor.entryDescriptors.map (·.id) ∧
    after = before ++ tools.map fun tool => .new tool (some descriptor)

theorem foldl_push (descriptor : PluginDescriptor) (tools : List Tool) (registry : Registry) :
    tools.foldl (fun registry tool => registry ++ [.new tool (some descriptor)]) registry =
      registry ++ tools.map fun tool => .new tool (some descriptor) := by
  induction tools generalizing registry with
  | nil => simp
  | cons tool tools ih => rw [foldl_cons, ih, map_cons, append_assoc, singleton_append]

theorem orderedTools_ids {entries : List PluginEntryDescriptor} {tools : List Tool}
    (served : ∀ entry ∈ entries, entry.id ∈ tools.map (·.id)) : (orderedTools entries tools).map (·.id) = entries.map (·.id) := by
  induction entries with
  | nil => rfl
  | cons entry entries ih =>
    obtain ⟨tool, mem, same⟩ := mem_map.mp (served entry mem_cons_self)
    have rest := ih fun other later => served other (mem_cons_of_mem _ later)
    cases found : tools.find? fun tool => tool.id = entry.id with
    | none =>
      have := find?_eq_none.mp found tool mem
      simp [same] at this
    | some first =>
      have named : first.id = entry.id := by simpa using find?_some found
      rw [orderedTools, filterMap_cons, found, map_cons, map_cons, named, ← rest, orderedTools]

theorem forM_ok {α ε : Type} {check : α → Except ε Unit} {items : List α} {value : Unit}
    (done : items.forM check = .ok value) : ∀ item ∈ items, check item = .ok () := by
  induction items with
  | nil => simp
  | cons item items ih =>
    obtain ⟨⟨⟩, first, rest⟩ := bind_ok (by simpa using done)
    simpa [first] using ih rest

variable {after : Registry} {descriptor : PluginDescriptor}

theorem registerPluginEntries_added {pluginTools : List Tool}
    (done : registerPluginEntries registry descriptor pluginTools = .ok after) : Added registry descriptor after := by
  obtain ⟨⟨⟩, valid, done⟩ := bind_ok done
  obtain ⟨⟨⟩, _, done⟩ := bind_ok done
  obtain ⟨toolIds, checked, done⟩ := bind_ok done
  obtain ⟨⟨⟩, served, done⟩ := bind_ok done
  obtain ⟨⟨⟩, unclaimed, done⟩ := bind_ok done
  obtain ⟨_, _, _, all⟩ := checkEach_ok checked
  split at done
  · cases done
  rename_i fresh
  cases done
  refine ⟨PluginDescriptor.validate_ok valid, ?_, ?_, _, orderedTools_ids ?_, foldl_push _ _ _⟩
  · simpa using refuse_ok unclaimed
  · simpa using find?_eq_none.mp fresh
  · intro entry mem
    have present := refuse_ok (forM_ok served entry mem)
    simpa using (all entry.id).mp (not_not.mp present)

theorem added_order {before : Registry} (added : Added before descriptor after) :
    order after = order before ++ descriptor.entryDescriptors.map (·.id) := by
  obtain ⟨tools, named, rfl⟩ := added.appended
  rw [order, map_append, map_map, ← named]
  rfl

theorem added_unique {before : Registry} (added : Added before descriptor after) (unique : (order before).Nodup) : (order after).Nodup := by
  rw [added_order added, nodup_append]
  refine ⟨unique, added.valid.distinct, ?_⟩
  rintro id old _ new rfl
  obtain ⟨entry, mem, rfl⟩ := mem_map.mp old
  exact added.fresh entry mem new

/-- The list in which a tool is placed. -/
inductive Surface
  | all
  | home
  | sidebar

def Surface.shows : Surface → ToolEntry → Bool
  | .all, entry => entry.enabled
  | .home, entry => entry.enabled && entry.homeVisible
  | .sidebar, entry => entry.enabled && entry.sidebarVisible

def Surface.reorder : Surface → Registry → Text → Nat → Registry × Bool
  | .all => reorderToIndex
  | .home => reorderHomeToIndex
  | .sidebar => reorderSidebarToIndex

inductive Op
  | register (tool : Tool)
  | registerBuiltin (tool : Tool)
  | registerPlugin (descriptor : PluginDescriptor) (tool : Tool)
  | registerPluginEntries (descriptor : PluginDescriptor) (tools : List Tool)
  | unregisterPlugin (pluginId : Text)
  | setEnabled (id : Text) (enabled : Bool)
  | setHomeVisible (id : Text) (visible : Bool)
  | setSidebarVisible (id : Text) (visible : Bool)
  | applyOrder (ids : List Text)
  | reorder (draggedId targetId : Text) (before : Bool)
  | reorderToTarget (draggedId targetId : Text)
  | moveToIndex (surface : Surface) (draggedId : Text) (visibleIndex : Nat)
  | moveToEnd (draggedId : Text)

/-- A registration that fails leaves the tools alone. -/
def settle (registry : Registry) : Except PluginRegistrationError Registry → Registry × Bool
  | .ok after => (after, true)
  | .error _ => (registry, false)

/-- The tools after a call, and what the call tells. -/
def apply (registry : Registry) : Op → Registry × Bool
  | .register tool => (register registry tool, true)
  | .registerBuiltin tool => settle registry (registerBuiltin registry tool)
  | .registerPlugin descriptor tool => settle registry (registerPlugin registry descriptor tool)
  | .registerPluginEntries descriptor tools => settle registry (registerPluginEntries registry descriptor tools)
  | .unregisterPlugin pluginId => unregisterPlugin registry pluginId
  | .setEnabled id enabled => setEnabled registry id enabled
  | .setHomeVisible id visible => setHomeVisible registry id visible
  | .setSidebarVisible id visible => setSidebarVisible registry id visible
  | .applyOrder ids => applyOrder registry ids
  | .reorder draggedId targetId before => reorder registry draggedId targetId before
  | .reorderToTarget draggedId targetId => reorderToTarget registry draggedId targetId
  | .moveToIndex surface draggedId visibleIndex => surface.reorder registry draggedId visibleIndex
  | .moveToEnd draggedId => moveToEnd registry draggedId

/-- The tools that a reordering call names. -/
def Op.named : Op → Option (List Text)
  | .applyOrder ids => some ids
  | .reorder draggedId _ _ | .reorderToTarget draggedId _ | .moveToIndex _ draggedId _ | .moveToEnd draggedId => some [draggedId]
  | _ => none

def run (ops : List Op) : Registry := ops.foldl (fun registry op => (apply registry op).1) []

theorem run_concat (ops : List Op) (op : Op) : run (ops ++ [op]) = (apply (run ops) op).1 := by simp [run]

theorem surface_reorder (surface : Surface) (registry : Registry) (draggedId : Text) (n : Nat) :
    surface.reorder registry draggedId n = reorderToIndexWhere registry draggedId n surface.shows := by
  cases surface <;> rfl

theorem apply_rearranged (registry : Registry) {op : Op} {named : List Text} (reorders : op.named = some named) :
    Rearranged named registry (apply registry op) := by
  cases op with
  | applyOrder ids => cases reorders; exact applyOrder_rearranged registry _
  | reorder draggedId targetId before => cases reorders; exact reorder_rearranged _ _ _ _
  | reorderToTarget draggedId targetId => cases reorders; exact reorderToTarget_rearranged _ _ _
  | moveToIndex surface draggedId visibleIndex =>
    cases reorders
    rw [apply, surface_reorder]
    exact reorderToIndexWhere_rearranged _ _ _ _
  | moveToEnd draggedId => cases reorders; exact moveToEnd_rearranged _ _
  | _ => cases reorders

theorem settle_added (registry : Registry) (descriptor : PluginDescriptor) (tools : List Tool) :
    (settle registry (registerPluginEntries registry descriptor tools)).1 = registry ∨
      Added registry descriptor (settle registry (registerPluginEntries registry descriptor tools)).1 := by
  cases done : registerPluginEntries registry descriptor tools with
  | error error => exact .inl rfl
  | ok after => exact .inr (registerPluginEntries_added done)

theorem settle_unique (unique : (order registry).Nodup) (descriptor : PluginDescriptor)
    (tools : List Tool) : (order (settle registry (registerPluginEntries registry descriptor tools)).1).Nodup := by
  rcases settle_added registry descriptor tools with same | added
  · rwa [same]
  · exact added_unique added unique

theorem setFlag_order {get : ToolEntry → Bool} {set : Bool → ToolEntry → ToolEntry}
    (same : ∀ value entry, (set value entry).id = entry.id) (registry : Registry) (id : Text) (value : Bool) :
    order (setFlag get set registry id value).1 = order registry := by
  unfold setFlag
  split
  · rfl
  split_ifs
  · rfl
  rw [order, order]
  refine ext_getElem? fun index => ?_
  simp only [getElem?_map, getElem?_modify]
  cases registry[index]? with
  | none => rfl
  | some entry =>
    split_ifs
    · exact congrArg some (same value entry)
    · rfl

theorem apply_unique (unique : (order registry).Nodup) (op : Op) : (order (apply registry op).1).Nodup := by
  have moved {named : List Text} (reorders : op.named = some named) : (order (apply registry op).1).Nodup :=
    ((apply_rearranged registry reorders).perm.map _).nodup_iff.mpr unique
  cases op with
  | register tool =>
    show (order (register registry tool)).Nodup
    unfold register
    split_ifs with known
    · exact unique
    have fresh : tool.id ∉ order registry := by
      intro old
      obtain ⟨entry, mem, same⟩ := mem_map.mp old
      exact known (any_eq_true.mpr ⟨entry, mem, by simpa using same⟩)
    rw [order, map_append, nodup_append]
    refine ⟨unique, nodup_cons.mpr ⟨not_mem_nil, nodup_nil⟩, ?_⟩
    rintro id old _ new rfl
    rw [mem_singleton.mp new] at old
    exact fresh old
  | registerBuiltin tool =>
    show (order (settle registry (registerBuiltin registry tool)).1).Nodup
    unfold registerBuiltin
    cases validateIdentifier "插件 ID" tool.id MAX_PLUGIN_ID_BYTES with
    | error error => exact unique
    | ok => exact settle_unique unique _ _
  | registerPlugin descriptor tool | registerPluginEntries descriptor tools => exact settle_unique unique _ _

  | unregisterPlugin pluginId => exact unique.sublist (filter_sublist.map _)
  | setEnabled id enabled =>
    have kept : order (apply registry (.setEnabled id enabled)).1 = order registry :=
      setFlag_order (by intro _ _; rfl) registry id enabled
    rwa [kept]
  | setHomeVisible id visible =>
    have kept : order (apply registry (.setHomeVisible id visible)).1 = order registry :=
      setFlag_order (by intro _ _; rfl) registry id visible
    rwa [kept]
  | setSidebarVisible id visible =>
    have kept : order (apply registry (.setSidebarVisible id visible)).1 = order registry :=
      setFlag_order (by intro _ _; rfl) registry id visible
    rwa [kept]
  | applyOrder ids | reorder draggedId targetId before | reorderToTarget draggedId targetId
  | moveToIndex surface draggedId visibleIndex | moveToEnd draggedId => exact moved rfl

theorem run_unique (ops : List Op) : (order (run ops)).Nodup := by
  induction ops using List.reverseRecOn with
  | nil => exact nodup_nil
  | append_singleton ops op ih =>
    rw [run_concat]
    exact apply_unique ih op

/-- What every call finds in a registry, and does to it. -/
structure Sound (registry : Registry) : Prop where
  unique : (order registry).Nodup
  atomic : ∀ descriptor tools, (apply registry (.registerPluginEntries descriptor tools)).1 = registry ∨
    Added registry descriptor (apply registry (.registerPluginEntries descriptor tools)).1
  rearranged : ∀ op named, op.named = some named → Rearranged named registry (apply registry op)
  placed : ∀ (surface : Surface) draggedId n, (∃ entry ∈ registry, surface.shows entry = true ∧ entry.id = draggedId) →
    Placed surface.shows registry (apply registry (.moveToIndex surface draggedId n)).1 draggedId n

/-- The registry is sound after every sequence of calls. -/
theorem run_sound (ops : List Op) : Sound (run ops) where
  unique := run_unique ops
  atomic := settle_added (run ops)
  rearranged _ _ reorders := apply_rearranged (run ops) reorders
  placed surface draggedId n there := by
    rw [apply, surface_reorder]
    exact reorderToIndexWhere_placed (run_unique ops) there n

end Ramag.ToolRegistry
