import Ramag.SshTunnels

/-!
The promises of the SSH tunnels (`Sound`), and that every run of allowed steps
keeps them. Without `Allowed` an `evict` between the fetch and the lock of a
slot leaves a process that nobody stops (`orphan_after_evict`).
-/
namespace Ramag.SshTunnels
open Strings Domain Uuids ConnectionRepo Runs List Option

namespace TunnelState

/-- Everything that a run keeps. -/
structure Safe (s : TunnelState) : Prop where
  kept : s.Kept
  locked : s.Locked
  held : s.Held
  reachable : s.Reachable

variable {s s' : TunnelState} {i : Nat} {old new : Call}

theorem Reachable.next (reachable : s.Reachable) (place : s.calls[i]? = some old) (calls : s'.calls = s.calls.set i new)
    (stored : ∀ slot tunnel, s'.current slot = some tunnel → s.current slot = some tunnel ∨ s'.IsReached slot)
    (registry : ∀ entry ∈ s.registry, entry ∈ s'.registry ∨ s'.current entry.2 = none ∨ entry.2 ∈ new.closes)
    (closes : ∀ slot ∈ old.closes, slot ∈ new.closes ∨ s'.current slot = none) : s'.Reachable := by
  have newly : ∀ slot ∈ new.closes, s'.IsReached slot := fun slot mine => by
    unfold IsReached
    rw [calls]
    exact .inr (set_exists_new place mine)
  intro slot tunnel there
  rcases stored slot tunnel there with before | reached
  · rcases reachable slot tunnel before with ⟨entry, mem, rfl⟩ | closed
    · rcases registry entry mem with kept | none | mine
      · exact .inl ⟨entry, kept, rfl⟩
      · simp [there] at none
      · exact newly entry.2 mine
    rcases set_exists place closed with mine | other
    · rcases closes slot mine with goesOn | none
      · exact newly slot goesOn
      · simp [there] at none
    · refine .inr ?_
      rw [calls]
      exact other
  · exact reached

theorem Reachable.goOn (reachable : s.Reachable) (place : s.calls[i]? = some old)
    (closes : ∀ slot ∈ old.closes, slot ∈ new.closes ∨ s.current slot = none) : (s.goOn i new).Reachable :=
  reachable.next place rfl (fun _ _ there => .inl there) (fun _ mem => .inl mem) closes

theorem Reachable.arrive (reachable : s.Reachable) (call : Call) : Reachable { s with calls := s.calls ++ [call] } :=
  fun slot tunnel there => (reachable slot tunnel there).imp_right fun ⟨other, mem, closes⟩ => ⟨other, mem_append_left _ mem, closes⟩

/-! ### The steps -/

theorem Safe.goOn (safe : s.Safe) (place : s.calls[i]? = some old) (without : old.tunnel = none) (none : new.tunnel = none)
    (locks : ∀ slot, new.locks = some slot → s.current slot = .none ∧ (old.locks = some slot ∨ s.isFree slot = true))
    (references : new.references ⊆ old.references) (closes : ∀ slot ∈ old.closes, slot ∈ new.closes ∨ s.current slot = .none)
    (answers : s.Answers new) : (s.goOn i new).Safe where
  kept := safe.kept.goesOn place references
  locked := safe.locked.goOn place fun slot mine => (locks slot mine).2
  held := safe.held.goOn place without none (fun slot mine => (locks slot mine).1) answers
  reachable := safe.reachable.goOn place closes

theorem Safe.arrive (safe : s.Safe) (tunnel : new.tunnel = none) (locks : new.locks = none) (references : new.references = [])
    (unanswered : ∀ config host port, new ≠ .returned config (.ok (some (host, port)))) : Safe { s with calls := s.calls ++ [new] } where
  kept := safe.kept.arrive references
  locked := safe.locked.arrive locks
  held := safe.held.arrive tunnel locks unanswered
  reachable := safe.reachable.arrive new

/-- The state with a new and empty slot in the registry. -/
def register (s : TunnelState) (id : Uuid) : TunnelState :=
  { s with registry := s.registry ++ [(id, s.slots.length)], slots := s.slots ++ [none] }

theorem current_register (id : Uuid) (slot : Nat) : (s.register id).current slot = s.current slot := by
  show (s.slots ++ [none])[slot]?.join = s.slots[slot]?.join
  rcases Nat.lt_trichotomy slot s.slots.length with inside | rfl | outside
  · rw [getElem?_append_left inside]
  · simp
  · rw [getElem?_eq_none (by rw [length_append, length_singleton]; omega), getElem?_eq_none (by omega)]

theorem Kept.register (kept : s.Kept) {id : Uuid} (missing : s.registered id = none) (room : s.registry.length < MAX_ACTIVE_TUNNELS) :
    (s.register id).Kept := by
  have more : ∀ {slot}, slot < s.slots.length → slot < (s.slots ++ [none]).length := by
    rw [length_append]
    omega
  refine ⟨?_, ?_, ?_, ?_⟩
  · show ((s.registry ++ [(id, s.slots.length)]).map Prod.fst).Nodup
    rw [map_append, nodup_append]
    refine ⟨kept.keys, nodup_singleton _, fun key there other same => ?_⟩
    rw [mem_singleton.mp same]
    rintro rfl
    exact registered_none missing there
  · show (s.registry ++ [_]).length ≤ MAX_ACTIVE_TUNNELS
    rw [length_append, length_singleton]
    omega
  · intro entry mem
    rcases mem_append.mp mem with there | same
    · exact more (kept.inside entry there)
    rw [mem_singleton.mp same]
    show s.slots.length < (s.slots ++ [none]).length
    rw [length_append, length_singleton]
    omega
  · exact fun call mem slot mine => more (kept.references call mem slot mine)

variable {config : ConnectionConfig} {slot : Nat}

theorem Safe.slotFor (safe : s.Safe) (place : s.calls[i]? = some (.ensuring config))
    {fetched : TunnelState} (done : s.slotFor config.id = .ok (slot, fetched)) : (fetched.goOn i (.fetched config slot)).Safe := by
  have locked : (s.goOn i (.fetched config slot)).Locked := safe.locked.goOn place nofun
  have held : (s.goOn i (.fetched config slot)).Held := safe.held.goOn place rfl rfl nofun (answers_of_running rfl)
  rcases slotFor_cases done with ⟨found, rfl⟩ | ⟨missing, room, rfl, rfl⟩
  · refine ⟨safe.kept.goOn fun other mine => ?_, locked, held, safe.reachable.goOn place nofun⟩
    rw [mem_singleton.mp mine]
    exact safe.kept.inside _ (registered_some found)
  have kept : (s.register config.id).Kept := safe.kept.register missing room
  refine ⟨kept.goOn fun other mine => ?_, locked.same rfl, held.same rfl rfl (funext fun slot => current_register config.id slot),
    safe.reachable.next place rfl ?_ ?_ nofun⟩
  · rw [mem_singleton.mp mine]
    exact kept.inside (config.id, s.slots.length) (mem_append_right _ (mem_singleton.mpr rfl))
  · exact fun other tunnel there => .inl ((current_register config.id other).symm.trans there)
  · exact fun entry mem => .inl (mem_append_left _ mem)

section
variable (safe : s.Safe) (place : s.calls[i]? = some old)
include safe place

theorem Safe.take (without : old.tunnel = none) {slot : Nat} {tunnel : Tunnel}
    (free : s.isFree slot = true) (full : s.current slot = some tunnel) (has : new.tunnel = some (slot, tunnel))
    (unprobed : ∀ config slot tunnel, new ≠ .probing config slot tunnel) (references : new.references ⊆ old.references)
    (closes : ∀ other ∈ old.closes, other ∈ new.closes ∨ other = slot) : ((s.put slot none).goOn i new).Safe where
  kept := (safe.kept.put slot none).goesOn place references
  locked := by
    have locked : (s.goOn i new).Locked := safe.locked.goOn place fun other mine => by
      rw [Call.locks_of_tunnel has, some_inj] at mine
      exact .inr (mine ▸ free)
    exact locked.same rfl
  held := safe.held.take place without full has unprobed
  reachable := by
    have current : ∀ other, ((s.put slot none).goOn i new).current other = if other = slot then none else s.current other :=
      fun other => current_put (inside_of_current full)
    refine safe.reachable.next place rfl (fun other tunnel' there => ?_) (fun entry mem => .inl mem) fun other mine => ?_
    · rw [current] at there
      split_ifs at there
      exact .inl there
    · refine (closes other mine).imp_right fun same => ?_
      rw [current, if_pos same]

theorem Safe.giveUp {tunnel : Tunnel}
    (has : old.tunnel = some (slot, tunnel)) (none : new.tunnel = none) (locks : ∀ slot, new.locks = some slot → old.locks = some slot)
    (references : new.references ⊆ old.references) (closes : ∀ slot ∈ old.closes, slot ∈ new.closes)
    (unanswered : new.hasReturned = false) : ((s.stop tunnel.child).goOn i new).Safe where
  kept := (safe.kept.processes _).goesOn place references
  locked := by
    have locked : (s.goOn i new).Locked := safe.locked.goOn place fun slot mine => .inl (locks slot mine)
    exact locked.same rfl
  held := safe.held.giveUp place has none locks fun config host port same => by
    subst same
    cases unanswered
  reachable := safe.reachable.next place rfl (fun _ _ there => .inl there) (fun _ mem => .inl mem)
    fun slot mine => .inl (closes slot mine)

theorem Safe.unregister {registry : List (Uuid × Nat)}
    (fewer : registry.Sublist s.registry) (without : old.tunnel = none) (none : new.tunnel = none) (locks : new.locks = .none)
    (inside : ∀ slot ∈ new.references, slot ∈ old.references ∨ ∃ entry ∈ s.registry, entry.2 = slot) (closes : old.closes = [])
    (gone : ∀ entry ∈ s.registry, entry ∈ registry ∨ s.current entry.2 = .none ∨ entry.2 ∈ new.closes)
    (answers : s.Answers new) : ({ s with registry := registry }.goOn i new).Safe where
  kept := by
    have kept : Kept { s with registry := registry } := ⟨safe.kept.keys.sublist (fewer.map _), Nat.le_trans fewer.length_le safe.kept.bound,
        fun entry mem => safe.kept.inside entry (fewer.subset mem), safe.kept.references⟩
    refine kept.goOn fun slot mine => ?_
    rcases inside slot mine with own | ⟨entry, mem, rfl⟩
    · exact safe.kept.references old (mem_of_getElem? place) slot own
    · exact safe.kept.inside entry mem
  locked := by
    have locked : (s.goOn i new).Locked := safe.locked.goOn place fun slot mine => by rw [locks] at mine; cases mine
    exact locked.same rfl
  held := by
    have held : (s.goOn i new).Held :=
      safe.held.goOn place without none (fun slot mine => by rw [locks] at mine; cases mine) answers
    exact held.same rfl rfl rfl
  reachable := by
    refine safe.reachable.next place rfl (fun _ _ there => .inl there) gone fun slot mine => ?_
    simp [closes] at mine

end

theorem removeUnusedSlot_cases (id : Uuid) (slot : Nat) : s.removeUnusedSlot id slot = s ∨
    (s.registered id = some slot ∧ s.strongCount slot = 2 ∧ s.current slot = none ∧ s.removeUnusedSlot id slot = s.remove id) := by
  unfold removeUnusedSlot
  split_ifs with unused
  · exact .inr ⟨unused.1, unused.2.1, unused.2.2, rfl⟩
  · exact .inl rfl

theorem Kept.removed (kept : s.Kept) {id : Uuid} {entry : Uuid × Nat} (mem : entry ∈ s.registry) (gone : entry ∉ (s.remove id).registry) :
    s.registered id = some entry.2 := by
  have same : entry.1 = id := by
    by_contra other
    exact gone (mem_filter.mpr ⟨mem, decide_eq_true other⟩)
  cases found : s.registered id with
  | none => exact absurd (mem_map.mpr ⟨entry, mem, same⟩) (registered_none found)
  | some slot => rw [kept.registered_unique found mem same]

section
variable (safe : s.Safe)
include safe

theorem Safe.removeUnusedSlot {error : DomainError} (place : s.calls[i]? = some (.cleaning config slot error)) :
    ((s.removeUnusedSlot config.id slot).goOn i (.returned config (.error error))).Safe := by
  have answers : s.Answers (.returned config (.error error)) := answers_of_none fun _ _ _ same => by cases same
  rcases removeUnusedSlot_cases (s := s) config.id slot with same | ⟨found, -, empty, same⟩
  · rw [same]
    exact safe.goOn place rfl rfl nofun nofun nofun answers
  rw [same]
  refine safe.unregister place filter_sublist rfl rfl rfl nofun rfl (fun entry mem => ?_) answers
  by_cases kept : entry ∈ (s.remove config.id).registry
  · exact .inl kept
  · rw [safe.kept.removed mem kept, some_inj] at found
    exact .inr (.inl (found ▸ empty))

theorem Safe.evict {id : Uuid} (place : s.calls[i]? = some (.evicting id)) :
    ((s.remove id).goOn i (.closing (s.registered id).toList)).Safe := by
  refine safe.unregister place filter_sublist rfl rfl rfl (fun slot mine => .inr ?_) rfl (fun entry mem => ?_)
    (answers_of_running rfl)
  · exact ⟨(id, slot), registered_some (mem_toList.mp mine), rfl⟩
  · by_cases kept : entry ∈ (s.remove id).registry
    · exact .inl kept
    · exact .inr (.inr (mem_toList.mpr (safe.kept.removed mem kept)))

theorem Safe.drain (place : s.calls[i]? = some .shuttingDown) {slots : List Nat}
    (all : slots.Perm (s.registry.map Prod.snd)) : ({ s with registry := [] }.goOn i (.closing slots)).Safe := by
  refine safe.unregister place (nil_sublist _) rfl rfl rfl (fun slot mine => .inr ?_) rfl (fun entry mem => .inr (.inr ?_))
    (answers_of_running rfl)
  · exact mem_map.mp (all.mem_iff.mp mine)
  · exact all.mem_iff.mpr (mem_map.mpr ⟨entry, mem, rfl⟩)

theorem move_safe (place : s.calls[i]? = some old) (moved : s.move i old = some s') : s'.Safe := by
  have quiet : ∀ {config answer}, old = .ensuring config → (∀ host port, answer ≠ .ok (some (host, port))) →
      (s.goOn i (.returned config answer)).Safe := by
    rintro config answer rfl other
    refine safe.goOn place rfl rfl nofun nofun nofun (answers_of_none fun config' host port same => ?_)
    cases same
    exact other host port rfl
  cases old with
  | ensuring config =>
    simp only [TunnelState.move] at moved
    cases valid : validate config with
    | error message =>
      rw [valid] at moved
      cases moved
      exact quiet rfl nofun
    | ok _ =>
      rw [valid] at moved
      cases target : targetOf config with
      | none =>
        rw [target] at moved
        cases moved
        exact quiet rfl nofun
      | some _ =>
        rw [target] at moved
        cases fetched : s.slotFor config.id with
        | error error =>
          rw [fetched] at moved
          cases moved
          exact quiet rfl nofun
        | ok found =>
          rw [fetched] at moved
          cases moved
          exact safe.slotFor place fetched
  | replacing config slot stale =>
    cases moved
    exact safe.giveUp place rfl rfl (fun _ mine => mine) (List.Subset.refl _) nofun rfl
  | cleaning config slot error =>
    simp only [TunnelState.move] at moved
    split at moved
    · cases moved
      exact safe.removeUnusedSlot place
    · cases moved
  | evicting id =>
    cases moved
    exact safe.evict place
  | closing slots =>
    cases slots with
    | nil =>
      cases moved
      exact safe.goOn place rfl rfl nofun nofun nofun (answers_of_none fun _ _ _ same => by cases same)
    | cons slot rest =>
      simp only [TunnelState.move] at moved
      split at moved
      · rename_i free
        cases held : s.current slot with
        | none =>
          rw [held] at moved
          cases moved
          refine safe.goOn place rfl rfl nofun (subset_cons_self _ _) (fun other mine => ?_) (answers_of_running rfl)
          rcases mem_cons.mp mine with rfl | later
          · exact .inr held
          · exact .inl later
        | some tunnel =>
          rw [held] at moved
          cases moved
          refine safe.take place rfl free held rfl (fun _ _ _ same => by cases same) ?_ fun other mine => ?_
          · exact List.Subset.refl (slot :: rest)
          · exact (mem_cons.mp mine).symm
      · cases moved
  | stopping slot tunnel rest =>
    cases moved
    exact safe.giveUp place rfl rfl nofun (subset_cons_self _ _) (fun _ mine => mine) rfl
  | fetched => cases moved
  | building => cases moved
  | probing => cases moved
  | shuttingDown => cases moved
  | returned => cases moved
  | finished => cases moved

theorem Safe.look {known : Bool}
    (place : s.calls[i]? = some (.fetched config slot)) (free : s.isFree slot = true) (allowed : s.Allowed (.lock i known)) :
    (s.look i config slot known).Safe := by
  unfold TunnelState.look
  cases held : s.current slot with
  | none =>
    refine safe.goOn place rfl rfl (fun other mine => ?_) (List.Subset.refl [slot]) nofun (answers_of_running rfl)
    cases mine
    exact ⟨held, .inr free⟩
  | some tunnel =>
    obtain ⟨process, there, -, print, started⟩ := safe.held.stored slot tunnel held
    show TunnelState.Safe (ite _ _ _)
    split_ifs with usable
    · obtain ⟨asked, runs, same⟩ := usable
      have alive : process.running = true := by
        rw [isRunning, there] at runs
        exact runs
      have equal := allowed config slot tunnel process place held there asked alive (print.symm.trans same)
      refine safe.goOn place rfl rfl nofun (nil_subset _) nofun fun config' host port answer => ?_
      obtain ⟨rfl, rfl, rfl⟩ := answer
      exact ⟨rfl, process, mem_of_getElem? there, started.trans (sshArguments_eq equal _)⟩
    · exact safe.take place rfl free held rfl (fun _ _ _ same => by cases same) (List.Subset.refl [slot]) nofun

theorem Safe.spawn (place : s.calls[i]? = some (.building config slot)) (port : Fin (2 ^ 16)) :
    ((s.start config slot port).goOn i (.probing config slot ⟨s.processes.length, port, fingerprint config⟩)).Safe where
  kept := (safe.kept.processes _).goesOn place (List.Subset.refl [slot])
  locked := by
    have locked : (s.goOn i (.probing config slot ⟨s.processes.length, port, fingerprint config⟩)).Locked :=
      safe.locked.goOn place fun other mine => .inl mine
    exact locked.same rfl
  held := safe.held.start place port
  reachable := safe.reachable.next place rfl (fun _ _ there => .inl there) (fun _ mem => .inl mem) nofun

theorem Safe.store {tunnel : Tunnel} (place : s.calls[i]? = some (.probing config slot tunnel)) (reached : s.IsReached slot) :
    ((s.put slot (some tunnel)).goOn i (.returned config (.ok (some ("127.0.0.1".toList, tunnel.localPort))))).Safe where
  kept := (safe.kept.put slot _).goesOn place (nil_subset _)
  locked := by
    have locked : (s.goOn i (.returned config (.ok (some ("127.0.0.1".toList, tunnel.localPort))))).Locked := safe.locked.goOn place nofun
    exact locked.same rfl
  held := safe.held.store safe.locked place (safe.kept.references _ (mem_of_getElem? place) slot (mem_singleton.mpr rfl))
  reachable := by
    have inside := safe.kept.references _ (mem_of_getElem? place) slot (mem_singleton.mpr rfl)
    refine safe.reachable.next place rfl (fun other tunnel' there => ?_) (fun _ mem => .inl mem) nofun
    change (s.put slot (some tunnel)).current other = some tunnel' at there
    rw [current_put inside] at there
    split_ifs at there with same
    · subst same
      rcases reached with registered | closed
      · exact .inr (.inl registered)
      · rcases set_exists (i := i) place closed with mine | later
        · cases mine
        · exact .inr (.inr later)
    · exact .inl there

theorem step_safe {act : Act} (allowed : s.Allowed act) (stepped : s.step act = some s') : s'.Safe := by
  cases act with
  | ensure config | evict id | shutdownAll =>
    cases stepped
    exact safe.arrive rfl rfl rfl (fun _ _ _ same => by cases same)
  | move i =>
    obtain ⟨old, place, moved⟩ := bind_eq_some_iff.mp stepped
    exact move_safe safe place moved
  | lock i known =>
    simp only [step] at stepped
    split at stepped
    · rename_i config slot place
      split at stepped
      · rename_i free
        cases stepped
        exact safe.look place free allowed
      · cases stepped
    · cases stepped
  | drain i slots =>
    simp only [step] at stepped
    split at stepped
    · rename_i place
      split at stepped
      · rename_i all
        cases stepped
        exact safe.drain place all
      · cases stepped
    · cases stepped
  | spawn i answer =>
    simp only [step] at stepped
    split at stepped
    · rename_i config slot place
      cases answer with
      | ok port =>
        cases stepped
        exact safe.spawn place port
      | error error =>
        cases stepped
        exact safe.goOn place rfl rfl nofun (List.Subset.refl [slot]) nofun (answers_of_running rfl)
    · cases stepped
  | probe i answer =>
    simp only [step] at stepped
    split at stepped
    · rename_i config slot tunnel place
      cases answer with
      | ok _ =>
        cases stepped
        exact safe.store place (allowed config slot tunnel place)
      | error error =>
        cases stepped
        exact safe.giveUp place rfl rfl nofun (List.Subset.refl [slot]) nofun rfl
    · cases stepped
  | exit process =>
    cases stepped
    exact ⟨safe.kept.processes _, safe.locked.same rfl, safe.held.stop process, safe.reachable⟩

end

theorem start_safe : Safe {} where
  kept := ⟨nodup_nil, Nat.zero_le _, fun _ => nofun, fun _ => nofun⟩
  locked := fun _ => Nat.zero_le _
  held := ⟨fun _ => nofun, fun _ _ => nofun, fun _ => nofun, fun _ _ _ => nofun, fun _ _ => nofun, fun _ => nofun⟩
  reachable := fun _ _ => nofun

def Quiet (s : TunnelState) : Prop := ∀ call ∈ s.calls, call.hasReturned = true

/-- What the tunnels promise in a state. -/
structure Sound (s : TunnelState) : Prop where
  /-- At most one process runs for a slot. -/
  single : ∀ (i j : Nat) (first second : Process), s.processes[i]? = some first → s.processes[j]? = some second →
    first.running = true → second.running = true → first.slot = second.slot → i = j
  bound : s.registry.length ≤ MAX_ACTIVE_TUNNELS ∧ (s.registry.map Prod.fst).Nodup
  /-- After all calls each process that runs is held by a slot of the registry. -/
  owned : s.Quiet → ∀ i process, s.processes[i]? = some process → process.running = true →
    ∃ entry ∈ s.registry, ∃ tunnel, s.current entry.2 = some tunnel ∧ tunnel.child = i
  /-- The port that `ensure` returns belongs to a tunnel with the arguments of its configuration. -/
  answers : ∀ config host port, .returned config (.ok (some (host, port))) ∈ s.calls → host = "127.0.0.1".toList ∧
    ∃ process ∈ s.processes, process.arguments = sshArguments config port
  /-- After a failed setup only the slot itself is removed, and only if no other call refers to it. -/
  cleanup : ∀ i config slot error s', s.calls[i]? = some (.cleaning config slot error) → s.step (.move i) = some s' →
    ∀ entry ∈ s.registry, entry ∉ s'.registry → entry.2 = slot ∧ ∀ j call, j ≠ i → s.calls[j]? = some call → slot ∉ call.references

theorem Safe.single (safe : s.Safe) {i j : Nat} {first second : Process} (there : s.processes[i]? = some first)
    (there' : s.processes[j]? = some second) (runs : first.running = true) (runs' : second.running = true)
    (same : first.slot = second.slot) : i = j := by
  have apart : ∀ {slot tunnel call taken}, s.current slot = some tunnel → call ∈ s.calls → call.tunnel = some (slot, taken) → False := by
    intro slot tunnel call taken stored mem has
    have empty := safe.held.empty call mem slot (Call.locks_of_tunnel has)
    simp [stored] at empty
  rcases safe.held.running i first there runs with ⟨tunnel, stored, rfl⟩ | ⟨call, mem, tunnel, has, rfl⟩ <;>
    rcases safe.held.running j second there' runs' with ⟨tunnel', stored', rfl⟩ | ⟨call', mem', tunnel', has', rfl⟩
  · rw [same, stored', some_inj] at stored
    rw [stored]
  · exact (apart (same ▸ stored) mem' has').elim
  · exact (apart stored' mem (same ▸ has)).elim
  rw [same] at has
  have one := safe.locked.unique mem mem' (Call.locks_of_tunnel has) (Call.locks_of_tunnel has')
  rw [one, has'] at has
  cases has
  rfl

theorem Safe.cleanup (safe : s.Safe) {error : DomainError}
    (place : s.calls[i]? = some (.cleaning config slot error)) (stepped : s.step (.move i) = some s') {entry : Uuid × Nat}
    (mem : entry ∈ s.registry) (gone : entry ∉ s'.registry) :
    entry.2 = slot ∧ ∀ j call, j ≠ i → s.calls[j]? = some call → slot ∉ call.references := by
  simp only [step, place, bind_some, TunnelState.move] at stepped
  split at stepped
  · cases stepped
    rcases removeUnusedSlot_cases (s := s) config.id slot with same | ⟨found, count, -, same⟩
    · rw [same] at gone
      exact absurd mem gone
    rw [same] at gone
    have own : entry.2 = slot := by
      rw [safe.kept.removed mem gone, some_inj] at found
      exact found
    refine ⟨own, fun j call other second mine => ?_⟩
    have two := count_flatMap_two Call.references slot other place second
    have listed : 0 < (s.registry.map Prod.snd).count slot := count_pos_iff.mpr (mem_map.mpr ⟨entry, mem, own⟩)
    have held : 0 < call.references.count slot := count_pos_iff.mpr mine
    have self : (Call.cleaning config slot error).references.count slot = 1 := by simp [Call.references]
    unfold strongCount at count
    omega
  · cases stepped

theorem Safe.sound (safe : s.Safe) : s.Sound where
  single := fun i j first second there there' runs runs' same => safe.single there there' runs runs' same
  bound := ⟨safe.kept.bound, safe.kept.keys⟩
  owned := by
    intro quiet i process there runs
    have ended : ∀ call ∈ s.calls, call.tunnel = none ∧ call.closes = [] := by
      intro call mem
      have returned := quiet call mem
      cases call <;> first | exact ⟨rfl, rfl⟩ | cases returned
    rcases safe.held.running i process there runs with ⟨tunnel, stored, own⟩ | ⟨call, mem, tunnel, has, -⟩
    · rcases safe.reachable process.slot tunnel stored with ⟨entry, mem, same⟩ | ⟨call, mem, closes⟩
      · exact ⟨entry, mem, tunnel, same ▸ stored, own⟩
      · simp [(ended call mem).2] at closes
    · simp [(ended call mem).1] at has
  answers := fun config host port mem => safe.held.answers _ mem config host port rfl
  cleanup := fun i config slot error s' place stepped entry mem gone => safe.cleanup place stepped mem gone

end TunnelState

open TunnelState

/-- Every state of a run of allowed steps keeps the promises. -/
theorem tunnels_sound {s : TunnelState} (reached : Reached step Allowed {} s) : s.Sound :=
  (reached.keeps start_safe fun _ _ _ safe allowed stepped => step_safe safe allowed stepped).sound

def behindBastion : ConnectionConfig where
  id := ⟨0, Uuids.zero_small⟩
  name := "db".toList
  driver := .Mysql
  host := "db.internal".toList
  port := 3306
  username := "root".toList
  password := []
  database := none
  authSource := none
  remark := none
  environment := none
  production := false
  tls := false
  tlsVerify := .None
  caCertPath := none
  sshTarget := some "ops@bastion".toList
  sshPort := none

/-- `ensure` brings a tunnel up, which `evict` closes. -/
theorem tunnels_sound_evicted : ∃ s : TunnelState, (s.processes.map Process.running = [false] ∧ s.Quiet) ∧ s.Sound := by
  have follows : ∃ s, (s.processes.map Process.running = [false] ∧ s.Quiet) ∧ Follows step Allowed {}
      [.ensure behindBastion, .move 0, .lock 0 true, .spawn 0 (.ok 50000), .probe 0 (.ok ()), .evict behindBastion.id, .move 1, .move 1, .move 1,
        .move 1] s := by
    refine ⟨_, ?_, trivial, _, rfl, trivial, _, rfl, ?_, _, rfl, trivial, _, rfl, ?_, _, rfl, trivial, _, rfl, trivial, _, rfl,
      trivial, _, rfl, trivial, _, rfl, trivial, _, rfl, rfl⟩
    · exact ⟨rfl, all_eq_true.mp rfl⟩
    · intro config slot tunnel process place held
      cases place
      cases held
    · intro config slot tunnel place
      cases place
      exact .inl ⟨_, mem_singleton.mpr rfl, rfl⟩
  obtain ⟨s, shape, follows⟩ := follows
  exact ⟨s, shape, tunnels_sound (Reached.start.follows follows)⟩

/-- `evict` removes and closes the slot after `ensure` has fetched it and before
    `ensure` has its lock. -/
theorem orphan_after_evict : ¬ ∀ s : TunnelState, Reached step (fun _ _ => True) {} s → s.Sound := by
  intro law
  have follows : ∃ s : TunnelState, (s.registry = [] ∧ s.Quiet ∧ ∃ process, s.processes = [process] ∧ process.running = true) ∧
      Follows step (fun _ _ => True) {} [.ensure behindBastion, .move 0, .evict behindBastion.id, .move 1, .move 1, .move 1,
        .lock 0 true, .spawn 0 (.ok 50000), .probe 0 (.ok ())] s := by
    refine ⟨_, ?_, trivial, _, rfl, trivial, _, rfl, trivial, _, rfl, trivial, _, rfl, trivial, _, rfl, trivial, _, rfl,
      trivial, _, rfl, trivial, _, rfl, trivial, _, rfl, rfl⟩
    exact ⟨rfl, all_eq_true.mp rfl, _, rfl, rfl⟩
  obtain ⟨s, ⟨empty, quiet, process, only, runs⟩, follows⟩ := follows
  obtain ⟨entry, mem, -⟩ := (law s (Reached.start.follows follows)).owned quiet 0 process (by rw [only]; rfl) runs
  simp [empty] at mem

end Ramag.SshTunnels
