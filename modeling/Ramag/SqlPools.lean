import Mathlib.Algebra.Order.Ring.Nat
import Ramag.Runs

/-!
The pools of the SQL connections. `get_pool` and `evict` run side by side on one
`PoolCache`; each operation on an entry of a map is one step, and every step of
a call is taken by `PoolState.move`. The events of a run are kept in a log, the
latest first.
-/
namespace Ramag.SqlPools
open Runs

variable {κ Pool : Type}

structure CachedPool (Pool : Type) where
  generation : Nat
  pool : Pool

/-- The maps of the cache. A build lock is named by its place in `PoolState.locks`. -/
structure PoolCache (κ Pool : Type) where
  pools : κ → Option (CachedPool Pool) := fun _ => none
  buildLocks : κ × Nat → Option Nat := fun _ => none
  generations : κ → Option Nat := fun _ => none
  generationClock : Nat := 0

/-- The counter goes round at `2 ^ 64` and zero is passed over. It is left at
    the number that is returned. -/
def nextGeneration (generationClock : Nat) : Nat :=
  let generation := (generationClock + 1) % 2 ^ 64
  if generation ≠ 0 then generation else generation + 1

namespace PoolCache

def get (cache : PoolCache κ Pool) (id : κ) (generation : Nat) : Option Pool :=
  (cache.pools id).bind fun entry => if entry.generation = generation then some entry.pool else none

def isCurrentGeneration (cache : PoolCache κ Pool) (id : κ) (generation : Nat) : Bool :=
  (cache.generations id).any (· == generation)

variable [DecidableEq κ]

def generationForRequest (cache : PoolCache κ Pool) (id : κ) : Nat × PoolCache κ Pool :=
  match cache.generations id with
  | some generation => (generation, cache)
  | none =>
    let generation := nextGeneration cache.generationClock
    (generation, { cache with
      generations := Function.update cache.generations id (some generation)
      generationClock := generation })

/-- The lock under the key, or else the lock `fresh`. -/
def buildLock (cache : PoolCache κ Pool) (id : κ) (generation fresh : Nat) : Nat × PoolCache κ Pool :=
  match cache.buildLocks (id, generation) with
  | some lock => (lock, cache)
  | none => (fresh, { cache with buildLocks := Function.update cache.buildLocks (id, generation) (some fresh) })

/-- The write of `insert`. A pool of a later generation is not replaced, and
    the insert then ends. -/
def writePool (cache : PoolCache κ Pool) (id : κ) (generation : Nat) (pool : Pool) : Option (PoolCache κ Pool) :=
  match cache.pools id with
  | some entry =>
    if entry.generation > generation then none
    else some { cache with pools := Function.update cache.pools id (some ⟨generation, pool⟩) }
  | none => some { cache with pools := Function.update cache.pools id (some ⟨generation, pool⟩) }

/-- The last step of `evict`, and of an `insert` that finds its generation invalidated. -/
def removePool (cache : PoolCache κ Pool) (id : κ) (generation : Nat) : PoolCache κ Pool :=
  match cache.pools id with
  | some entry => if entry.generation = generation then { cache with pools := Function.update cache.pools id none } else cache
  | none => cache

/-- The first step of `evict`, with the generation that it invalidates. -/
def invalidate (cache : PoolCache κ Pool) (id : κ) : Option (Nat × PoolCache κ Pool) :=
  (cache.generations id).map fun generation => (generation, { cache with generations := Function.update cache.generations id none })

/-- The second step of `evict`. -/
def releaseLocks (cache : PoolCache κ Pool) (id : κ) (generation : Nat) : PoolCache κ Pool :=
  { cache with buildLocks := fun key => if key.1 ≠ id ∨ key.2 ≠ generation then cache.buildLocks key else none }

end PoolCache

/-! ### Calls -/

inductive Call (κ Pool : Type)
  /-- `generation_for_request` -/
  | requested (id : κ)
  /-- The first `get`. -/
  | numbered (id : κ) (generation : Nat)
  /-- `build_lock` -/
  | missed (id : κ) (generation : Nat)
  /-- `lock().await` -/
  | waiting (id : κ) (generation lock : Nat)
  /-- `is_current_generation` under the lock. -/
  | locked (id : κ) (generation lock : Nat)
  /-- The second `get`. -/
  | valid (id : κ) (generation lock : Nat)
  /-- `build_pool` for a generation that is no longer current. -/
  | buildingAlone (lock : Nat)
  /-- `build_pool` for the cache. -/
  | building (id : κ) (generation lock : Nat)
  /-- The first check of `insert`. -/
  | built (id : κ) (generation lock : Nat) (pool : Pool)
  /-- The write of `insert`. -/
  | writing (id : κ) (generation lock : Nat) (pool : Pool)
  /-- The second check of `insert`. -/
  | written (id : κ) (generation lock : Nat) (pool : Pool)
  /-- The removal of `insert`. -/
  | undoing (id : κ) (generation lock : Nat) (pool : Pool)
  /-- The removal of the generation by `evict`. -/
  | evicting (id : κ)
  /-- The removal of the build locks by `evict`. -/
  | unlocking (id : κ) (generation : Nat)
  /-- The removal of the pool by `evict`. -/
  | removing (id : κ) (generation : Nat)
  | finished (answer : Option Pool)

inductive Event (κ Pool : Type)
  /-- A request got a generation that no request had. -/
  | issued (id : κ) (generation : Nat)
  | inserted (id : κ) (generation : Nat) (pool : Pool)
  /-- The cache gave a pool to a request of the generation. -/
  | returned (id : κ) (generation : Nat) (pool : Pool)
  /-- The call to `evict` took the generation of the connection. -/
  | evicting (call : Nat) (id : κ)
  | evicted (call : Nat)

structure PoolState (κ Pool : Type) where
  cache : PoolCache κ Pool := {}
  /-- Which of the build locks are held. -/
  locks : List Bool := []
  calls : List (Call κ Pool) := []
  log : List (Event κ Pool) := []

inductive Act (κ Pool : Type)
  /-- A request with a configuration that is valid; any other does not come to the cache. -/
  | getPool (id : κ)
  | evict (id : κ)
  /-- The next step of a call. -/
  | move (call : Nat)
  /-- `build_pool` ends, with a pool or an error. -/
  | build (call : Nat) (answer : Option Pool)
  /-- A request that waits is dropped. -/
  | drop (call : Nat)

namespace PoolState

def goOn (s : PoolState κ Pool) (call : Nat) (next : Call κ Pool) : PoolState κ Pool :=
  { s with calls := s.calls.set call next }

def endWith (s : PoolState κ Pool) (call lock : Nat) (answer : Option Pool) : PoolState κ Pool :=
  { s.goOn call (.finished answer) with locks := s.locks.set lock false }

variable [DecidableEq κ]

def move (s : PoolState κ Pool) (call : Nat) : Call κ Pool → Option (PoolState κ Pool)
  | .requested id =>
    let (generation, cache) := s.cache.generationForRequest id
    let log := if (s.cache.generations id).isNone then .issued id generation :: s.log else s.log
    some { s.goOn call (.numbered id generation) with cache, log }
  | .numbered id generation =>
    match s.cache.get id generation with
    | some pool => some { s.goOn call (.finished (some pool)) with log := .returned id generation pool :: s.log }
    | none => some (s.goOn call (.missed id generation))
  | .missed id generation =>
    let (lock, cache) := s.cache.buildLock id generation s.locks.length
    let locks := if lock < s.locks.length then s.locks else s.locks ++ [false]
    some { s.goOn call (.waiting id generation lock) with cache, locks }
  | .waiting id generation lock =>
    if s.locks[lock]? = some false then
      some { s.goOn call (.locked id generation lock) with locks := s.locks.set lock true }
    else none
  | .locked id generation lock =>
    if s.cache.isCurrentGeneration id generation then some (s.goOn call (.valid id generation lock))
    else some (s.goOn call (.buildingAlone lock))
  | .valid id generation lock =>
    match s.cache.get id generation with
    | some pool => some { s.endWith call lock (some pool) with log := .returned id generation pool :: s.log }
    | none => some (s.goOn call (.building id generation lock))
  | .built id generation lock pool =>
    if s.cache.isCurrentGeneration id generation then some (s.goOn call (.writing id generation lock pool))
    else some (s.endWith call lock (some pool))
  | .writing id generation lock pool =>
    match s.cache.writePool id generation pool with
    | some cache => some { s.goOn call (.written id generation lock pool) with cache, log := .inserted id generation pool :: s.log }
    | none => some (s.endWith call lock (some pool))
  | .written id generation lock pool =>
    if s.cache.isCurrentGeneration id generation then some (s.endWith call lock (some pool))
    else some (s.goOn call (.undoing id generation lock pool))
  | .undoing id generation lock pool => some { s.endWith call lock (some pool) with cache := s.cache.removePool id generation }
  | .evicting id =>
    match s.cache.invalidate id with
    | some (invalidated, cache) => some { s.goOn call (.unlocking id invalidated) with cache, log := .evicting call id :: s.log }
    | none => some { s.goOn call (.finished none) with log := .evicted call :: .evicting call id :: s.log }
  | .unlocking id invalidated => some { s.goOn call (.removing id invalidated) with cache := s.cache.releaseLocks id invalidated }
  | .removing id invalidated =>
    some { s.goOn call (.finished none) with
      cache := s.cache.removePool id invalidated
      log := .evicted call :: s.log }
  | .buildingAlone _ | .building .. | .finished _ => none

def step (s : PoolState κ Pool) : Act κ Pool → Option (PoolState κ Pool)
  | .getPool id => some { s with calls := s.calls ++ [.requested id] }
  | .evict id => some { s with calls := s.calls ++ [.evicting id] }
  | .move call => s.calls[call]?.bind (s.move call)
  | .build call answer =>
    match s.calls[call]? with
    | some (.buildingAlone lock) => some (s.endWith call lock answer)
    | some (.building id generation lock) =>
      match answer with
      | some pool => some (s.goOn call (.built id generation lock pool))
      | none => some (s.endWith call lock none)
    | _ => none
  | .drop call =>
    match s.calls[call]? with
    | some (.waiting _ _ _) => some (s.goOn call (.finished none))
    | some (.buildingAlone lock) => some (s.endWith call lock none)
    | some (.building _ _ lock) => some (s.endWith call lock none)
    | _ => none

end PoolState

/-! ### What holds over every run -/

open List Function Option

variable {κ Pool : Type}

def Event.number : Event κ Pool → Option Nat
  | .issued _ gen => some gen
  | _ => none

/-- The generations that were issued, of all connections. -/
def numbers (log : List (Event κ Pool)) : List Nat := log.filterMap Event.number

/-- An evict took the generation of the connection after this one was issued. -/
def Invalidated (log : List (Event κ Pool)) (id : κ) (gen : Nat) : Prop :=
  ∃ call, [.evicting call id, .issued id gen].Sublist log

/-- Such an evict has finished: the generation is an earlier one. -/
def Earlier (log : List (Event κ Pool)) (id : κ) (gen : Nat) : Prop :=
  ∃ call, [.evicted call, .evicting call id, .issued id gen].Sublist log

variable {log : List (Event κ Pool)} {gen : Nat}

variable {id : κ}

theorem Earlier.invalidated (earlier : Earlier log id gen) : Invalidated log id gen := by
  obtain ⟨call, inOrder⟩ := earlier
  exact ⟨call, (sublist_cons_self _ _).trans inOrder⟩

theorem mem_numbers (issued : .issued id gen ∈ log) : gen ∈ numbers log :=
  mem_filterMap.mpr ⟨_, issued, rfl⟩

theorem Invalidated.number (ended : Invalidated log id gen) : gen ∈ numbers log := by
  obtain ⟨call, inOrder⟩ := ended
  exact mem_numbers (inOrder.subset (mem_cons_of_mem _ mem_cons_self))

theorem invalidated_cons {event : Event κ Pool} (other : ∀ call, event ≠ .evicting call id) :
    Invalidated (event :: log) id gen ↔ Invalidated log id gen := by
  constructor
  · rintro ⟨call, inOrder⟩
    cases inOrder with
    | cons _ before => exact ⟨call, before⟩
    | cons_cons _ _ => exact absurd rfl (other call)
  · rintro ⟨call, inOrder⟩
    exact ⟨call, inOrder.cons _⟩

/-- The call still has to look whether a pool of this generation is to be removed. -/
def Call.Removes (id : κ) (gen : Nat) : Call κ Pool → Prop
  | .written id' gen' _ _ | .undoing id' gen' _ _ | .unlocking id' gen' | .removing id' gen' =>
    id' = id ∧ gen' = gen
  | _ => False

/-- The call still has to remove the build lock of this generation. -/
def Call.Unlocks (id : κ) (gen : Nat) : Call κ Pool → Prop
  | .unlocking id' gen' => id' = id ∧ gen' = gen
  | _ => False

namespace PoolState

def Removing (s : PoolState κ Pool) (id : κ) (gen : Nat) : Prop :=
  ∃ call ∈ s.calls, call.Removes id gen

def Unlocking (s : PoolState κ Pool) (id : κ) (gen : Nat) : Prop :=
  ∃ call ∈ s.calls, call.Unlocks id gen

/-- A lookup may not find a pool of an earlier generation while a call still
    has to remove it. -/
def LooksUp (s : PoolState κ Pool) (id : κ) (gen : Nat) : Prop :=
  ¬ (Earlier s.log id gen ∧ s.Removing id gen ∧ ∃ entry, s.cache.pools id = some entry ∧ entry.generation = gen)

/-- A build lock is taken for the current generation, or before the evict
    removes the locks. -/
def Locks (s : PoolState κ Pool) (id : κ) (gen : Nat) : Prop :=
  s.cache.generations id = some gen ∨ s.Unlocking id gen

def Fair (s : PoolState κ Pool) : Act κ Pool → Prop
  | .move call =>
    match s.calls[call]? with
    | some (.numbered id gen) | some (.valid id gen _) => s.LooksUp id gen
    | some (.missed id gen) => s.Locks id gen
    | _ => True
  | _ => True

/-- What is known in every state of a fair run. -/
structure Kept (s : PoolState κ Pool) : Prop where
  counted : s.cache.generationClock = (numbers s.log).length
  low : ∀ number ∈ numbers s.log, number ≤ s.cache.generationClock
  distinct : (numbers s.log).Nodup
  current : ∀ id gen, s.cache.generations id = some gen → ¬ Invalidated s.log id gen
  pools : ∀ id entry, s.cache.pools id = some entry → .inserted id entry.generation entry.pool ∈ s.log ∧
    (s.cache.generations id = some entry.generation ∨ s.Removing id entry.generation)
  locks : ∀ id gen, s.cache.buildLocks (id, gen) ≠ none → s.Locks id gen
  own : ∀ id gen pool before, (.returned id gen pool :: before) <:+ s.log →
    .inserted id gen pool ∈ before ∧ ¬ Earlier before id gen

end PoolState

variable {cache : PoolCache κ Pool}

theorem get_some {pool : Pool} (hit : cache.get id gen = some pool) : cache.pools id = some ⟨gen, pool⟩ := by
  rw [PoolCache.get, bind_eq_some_iff] at hit
  obtain ⟨entry, found, same⟩ := hit
  split at same
  case isTrue own =>
    cases same
    rw [found, ← own]
  case isFalse => cases same

theorem isCurrent_iff : cache.isCurrentGeneration id gen = true ↔ cache.generations id = some gen := by
  cases held : cache.generations id <;> simp [PoolCache.isCurrentGeneration, held]

section
variable [DecidableEq κ]

variable {cache : PoolCache κ Pool}

theorem removePool_pools {id other : κ} {gen : Nat} {entry : CachedPool Pool} : (cache.removePool id gen).pools other = some entry ↔
      cache.pools other = some entry ∧ ¬ (other = id ∧ entry.generation = gen) := by
  unfold PoolCache.removePool
  split
  case h_1 old held =>
    split
    case isTrue own =>
      by_cases same : other = id
      · subst same
        simp only [update_self, held, reduceCtorEq, true_and, false_iff, not_and, not_not]
        rintro ⟨rfl⟩
        exact own
      · simp [same]
    case isFalse differs =>
      refine ⟨fun found => ⟨found, ?_⟩, And.left⟩
      rintro ⟨rfl, own⟩
      rw [held] at found
      cases found
      exact differs own
  case h_2 empty =>
    refine ⟨fun found => ⟨found, ?_⟩, And.left⟩
    rintro ⟨rfl, -⟩
    simp [empty] at found

@[simp] theorem removePool_generations (cache : PoolCache κ Pool) (id : κ) (gen : Nat) :
    (cache.removePool id gen).generations = cache.generations := by
  unfold PoolCache.removePool
  split
  · split <;> rfl
  · rfl

@[simp] theorem removePool_buildLocks (cache : PoolCache κ Pool) (id : κ) (gen : Nat) : (cache.removePool id gen).buildLocks = cache.buildLocks := by
  unfold PoolCache.removePool
  split
  · split <;> rfl
  · rfl

@[simp] theorem removePool_clock (cache : PoolCache κ Pool) (id : κ) (gen : Nat) :
    (cache.removePool id gen).generationClock = cache.generationClock := by
  unfold PoolCache.removePool
  split
  · split <;> rfl
  · rfl

theorem writePool_some {cache' : PoolCache κ Pool} {id : κ} {gen : Nat} {pool : Pool} (wrote : cache.writePool id gen pool = some cache') :
    cache' = { cache with pools := update cache.pools id (some ⟨gen, pool⟩) } := by
  unfold PoolCache.writePool at wrote
  split at wrote
  · split at wrote
    · cases wrote
    · exact (Option.some.inj wrote).symm
  · exact (Option.some.inj wrote).symm

end

/-! ### Each step -/

namespace PoolState

variable {s s' : PoolState κ Pool} {i : Nat} {old new : Call κ Pool}

variable {id : κ} {gen : Nat}

theorem removing_next (place : s.calls[i]? = some old) (calls : s'.calls = s.calls.set i new) (removing : s.Removing id gen) :
    old.Removes id gen ∨ s'.Removing id gen := by
  unfold Removing
  rw [calls]
  exact set_exists place removing

theorem unlocking_next (place : s.calls[i]? = some old) (calls : s'.calls = s.calls.set i new) (unlocking : s.Unlocking id gen) :
    old.Unlocks id gen ∨ s'.Unlocking id gen := by
  unfold Unlocking
  rw [calls]
  exact set_exists place unlocking

theorem removing_new (place : s.calls[i]? = some old) (calls : s'.calls = s.calls.set i new) (removes : new.Removes id gen) : s'.Removing id gen := by
  unfold Removing
  rw [calls]
  exact set_exists_new place removes

theorem unlocking_new (place : s.calls[i]? = some old) (calls : s'.calls = s.calls.set i new)
    (unlocks : new.Unlocks id gen) : s'.Unlocking id gen := by
  unfold Unlocking
  rw [calls]
  exact set_exists_new place unlocks

theorem Kept.quiet (kept : s.Kept) (place : s.calls[i]? = some old) (calls : s'.calls = s.calls.set i new) (cache : s'.cache = s.cache)
    (log : s'.log = s.log) (removes : ∀ id gen, old.Removes id gen → new.Removes id gen ∨ s.cache.generations id = some gen)
    (unlocks : ∀ id gen, old.Unlocks id gen → new.Unlocks id gen) : s'.Kept where
  counted := by rw [cache, log]; exact kept.counted
  low := by rw [cache, log]; exact kept.low
  distinct := by rw [log]; exact kept.distinct
  current := by rw [cache, log]; exact kept.current
  pools := by
    rw [cache, log]
    intro id entry found
    obtain ⟨inserted, there⟩ := kept.pools id entry found
    refine ⟨inserted, ?_⟩
    rcases there with current | removing
    · exact .inl current
    · rcases removing_next place calls removing with moved | other
      · exact (removes id _ moved).symm.imp_right (removing_new place calls)
      · exact .inr other
  locks := by
    intro id gen held
    rw [cache] at held
    rcases kept.locks id gen held with current | unlocking
    · exact .inl (by rw [cache]; exact current)
    · rcases unlocking_next place calls unlocking with moved | other
      · exact .inr (unlocking_new place calls (unlocks id gen moved))
      · exact .inr other
  own := by rw [log]; exact kept.own

theorem Kept.still {locks : List Bool} (kept : s.Kept) (place : s.calls[i]? = some old)
    (idle : ∀ id gen, ¬ old.Removes id gen ∧ ¬ old.Unlocks id gen) : Kept { s with locks, calls := s.calls.set i new } :=
  kept.quiet place rfl rfl rfl (fun id gen moved => absurd moved (idle id gen).1) fun id gen moved => absurd moved (idle id gen).2

theorem Kept.note (kept : s.Kept) {event : Event κ Pool} (unnumbered : event.number = none)
    (evicts : ∀ call id, event = .evicting call id → s.cache.generations id = none)
    (own : ∀ id gen pool, event = .returned id gen pool → .inserted id gen pool ∈ s.log ∧ ¬ Earlier s.log id gen) :
    Kept { s with log := event :: s.log } := by
  have same : numbers (event :: s.log) = numbers s.log := by simp [numbers, unnumbered]
  constructor
  case counted => rw [same]; exact kept.counted
  case low => rw [same]; exact kept.low
  case distinct => rw [same]; exact kept.distinct
  case current =>
    intro id gen held
    rw [invalidated_cons]
    · exact kept.current id gen held
    · intro call evicting
      simp [evicts call id evicting] at held
  case pools =>
    intro id entry found
    obtain ⟨inserted, there⟩ := kept.pools id entry found
    exact ⟨mem_cons_of_mem _ inserted, there⟩
  case locks => exact kept.locks
  case own =>
    intro id gen pool before ends
    rcases suffix_cons_iff.mp ends with same | earlier
    · cases same
      exact own id gen pool rfl
    · exact kept.own id gen pool before earlier

section
variable [DecidableEq κ]

theorem nextGeneration_succ {clock : Nat} (below : clock + 1 < 2 ^ 64) : nextGeneration clock = clock + 1 := by
  rw [nextGeneration, Nat.mod_eq_of_lt below, if_pos (Nat.succ_ne_zero clock)]

variable {gen : Nat}

variable {id : κ}

theorem Kept.issue (kept : s.Kept) (place : s.calls[i]? = some (.requested id))
    (absent : s.cache.generations id = none) (next : gen = s.cache.generationClock + 1) : Kept { s with
      cache := { s.cache with
        generations := update s.cache.generations id (some gen)
        generationClock := gen }
      calls := s.calls.set i (.numbered id gen)
      log := .issued id gen :: s.log } := by
  have fresh : gen ∉ numbers s.log := by
    intro there
    have := kept.low gen there
    omega
  have same : numbers (.issued id gen :: s.log) = gen :: numbers s.log := rfl
  have held : ∀ other number, s.cache.generations other = some number →
      update s.cache.generations id (some gen) other = some number := by
    intro other number held
    rw [update_of_ne, held]
    rintro rfl
    simp [absent] at held
  constructor
  case counted =>
    rw [same, length_cons, ← kept.counted, next]
  case low =>
    intro number mem
    show number ≤ gen
    rcases mem_cons.mp (same ▸ mem) with own | earlier
    · exact Nat.le_of_eq own
    · have := kept.low number earlier
      omega
  case distinct =>
    exact nodup_cons.mpr ⟨fresh, kept.distinct⟩
  case current =>
    intro other number current
    rw [invalidated_cons (by rintro call ⟨⟩)]
    change update s.cache.generations id (some gen) other = some number at current
    by_cases own : other = id
    · subst own
      rw [update_self, some_inj] at current
      intro invalidated
      exact fresh (current ▸ invalidated.number)
    · rw [update_of_ne own] at current
      exact kept.current other number current
  case pools =>
    intro other entry found
    obtain ⟨inserted, there⟩ := kept.pools other entry found
    refine ⟨mem_cons_of_mem _ inserted, ?_⟩
    rcases there with current | removing
    · exact .inl (held _ _ current)
    · exact .inr ((removing_next place rfl removing).resolve_left False.elim)
  case locks =>
    intro other number locked
    rcases kept.locks other number locked with current | unlocking
    · exact .inl (held _ _ current)
    · exact .inr ((unlocking_next place rfl unlocking).resolve_left False.elim)
  case own =>
    intro other number pool before ends
    rcases suffix_cons_iff.mp ends with same | earlier
    · cases same
    · exact kept.own other number pool before earlier

variable {locks : List Bool}

theorem Kept.lock (kept : s.Kept) {gen lock : Nat} (place : s.calls[i]? = some (.missed id gen)) (allowed : s.Locks id gen) : Kept { s with
      cache := (s.cache.buildLock id gen lock).2
      locks
      calls := s.calls.set i (.waiting id gen (s.cache.buildLock id gen lock).1) } := by
  have moved : Kept { s with locks, calls := s.calls.set i (.waiting id gen (s.cache.buildLock id gen lock).1) } :=
    kept.quiet place rfl rfl rfl (fun _ _ => False.elim) fun _ _ => False.elim
  have stays : Locks { s with locks, calls := s.calls.set i (.waiting id gen (s.cache.buildLock id gen lock).1) } id gen :=
    allowed.imp_right fun unlocking => (unlocking_next place rfl unlocking).resolve_left False.elim
  unfold PoolCache.buildLock at moved stays ⊢
  split
  case h_1 held =>
    rw [held] at moved
    exact moved
  case h_2 empty =>
    rw [empty] at moved stays
    refine { moved with locks := ?_ }
    intro other number locked
    by_cases own : (other, number) = (id, gen)
    · cases own
      exact stays
    · change update s.cache.buildLocks (id, gen) (some lock) (other, number) ≠ none at locked
      rw [update_of_ne own] at locked
      exact moved.locks other number locked

theorem Kept.write (kept : s.Kept) {gen lock : Nat} {pool : Pool}
    (place : s.calls[i]? = some (.writing id gen lock pool)) (inserted : .inserted id gen pool ∈ s.log) : Kept { s with
      cache := { s.cache with pools := update s.cache.pools id (some ⟨gen, pool⟩) }
      calls := s.calls.set i (.written id gen lock pool) } := by
  have moved : Kept { s with calls := s.calls.set i (.written id gen lock pool) } :=
    kept.quiet place rfl rfl rfl (fun _ _ => False.elim) fun _ _ => False.elim
  refine { moved with pools := ?_ }
  intro other entry found
  change update s.cache.pools id (some ⟨gen, pool⟩) other = some entry at found
  by_cases own : other = id
  · subst own
    rw [update_self, some_inj] at found
    subst found
    have removes : Call.Removes other gen (.written other gen lock pool) := ⟨rfl, rfl⟩
    exact ⟨inserted, .inr (removing_new place rfl removes)⟩
  · rw [update_of_ne own] at found
    exact moved.pools other entry found

theorem Kept.remove (kept : s.Kept) {answer : Option Pool} (place : s.calls[i]? = some old)
    (removes : ∀ other number, old.Removes other number → other = id ∧ number = gen)
    (unlocks : ∀ other number, ¬ old.Unlocks other number) :
    Kept { s with
      cache := s.cache.removePool id gen
      locks
      calls := s.calls.set i (.finished answer) } := by
  constructor
  case counted => simpa using kept.counted
  case low => simpa using kept.low
  case distinct => exact kept.distinct
  case current => simpa using kept.current
  case pools =>
    intro other entry found
    obtain ⟨found, apart⟩ := removePool_pools.mp found
    obtain ⟨inserted, there⟩ := kept.pools other entry found
    refine ⟨inserted, ?_⟩
    rcases there with current | removing
    · exact .inl (by simpa using current)
    · refine .inr ((removing_next place rfl removing).resolve_left fun moved => apart ?_)
      exact removes other entry.generation moved
  case locks =>
    intro other number locked
    rw [removePool_buildLocks] at locked
    rcases kept.locks other number locked with current | unlocking
    · exact .inl (by simpa using current)
    · exact .inr ((unlocking_next place rfl unlocking).resolve_left (unlocks other number))
  case own => exact kept.own

theorem Kept.invalidate (kept : s.Kept) (place : s.calls[i]? = some (.evicting id)) (current : s.cache.generations id = some gen) : Kept { s with
      cache := { s.cache with generations := update s.cache.generations id none }
      calls := s.calls.set i (.unlocking id gen) } := by
  have others : ∀ other number, s.cache.generations other = some number →
      update s.cache.generations id none other = some number ∨ other = id ∧ number = gen := by
    intro other number held
    by_cases own : other = id
    · subst own
      rw [current, some_inj] at held
      exact .inr ⟨rfl, held.symm⟩
    · exact .inl (by rw [update_of_ne own, held])
  constructor
  case counted => exact kept.counted
  case low => exact kept.low
  case distinct => exact kept.distinct
  case current =>
    intro other number held
    change update s.cache.generations id none other = some number at held
    by_cases own : other = id
    · subst own
      simp [update_self] at held
    · rw [update_of_ne own] at held
      exact kept.current other number held
  case pools =>
    intro other entry found
    obtain ⟨inserted, there⟩ := kept.pools other entry found
    refine ⟨inserted, ?_⟩
    rcases there with held | removing
    · refine (others other entry.generation held).imp_right ?_
      rintro ⟨rfl, same⟩
      have removes : (Call.unlocking other gen : Call κ Pool).Removes other entry.generation := ⟨rfl, same.symm⟩
      exact removing_new place rfl removes
    · exact .inr ((removing_next place rfl removing).resolve_left False.elim)
  case locks =>
    intro other number locked
    rcases kept.locks other number locked with held | unlocking
    · refine (others other number held).imp_right ?_
      rintro ⟨rfl, same⟩
      have unlocks : (Call.unlocking other gen : Call κ Pool).Unlocks other number := ⟨rfl, same.symm⟩
      exact unlocking_new place rfl unlocks
    · exact .inr ((unlocking_next place rfl unlocking).resolve_left False.elim)
  case own => exact kept.own

theorem Kept.release (kept : s.Kept) (place : s.calls[i]? = some (.unlocking id gen)) : Kept { s with
      cache := s.cache.releaseLocks id gen
      calls := s.calls.set i (.removing id gen) } := by
  refine { kept with pools := ?_, locks := ?_ }
  · intro other entry found
    obtain ⟨inserted, there⟩ := kept.pools other entry found
    refine ⟨inserted, there.imp_right fun removing => ?_⟩
    refine (or_iff_right_of_imp ?_).mp (removing_next place rfl removing)
    intro moved
    have removes : (Call.removing id gen : Call κ Pool).Removes other entry.generation := moved
    exact removing_new place rfl removes
  · intro other number locked
    have apart : (other ≠ id ∨ number ≠ gen) ∧ s.cache.buildLocks (other, number) ≠ none := by
      by_cases differs : other ≠ id ∨ number ≠ gen
      · exact ⟨differs, by simpa [PoolCache.releaseLocks, differs] using locked⟩
      · exact absurd (if_neg differs) locked
    refine (kept.locks other number apart.2).imp_right fun unlocking => ?_
    refine (unlocking_next place rfl unlocking).resolve_left ?_
    rintro ⟨rfl, rfl⟩
    simp at apart

omit [DecidableEq κ] in
theorem Kept.arrive (kept : s.Kept) (call : Call κ Pool) : Kept { s with calls := s.calls ++ [call] } := by
  refine { kept with pools := ?_, locks := ?_ }
  · intro id entry found
    obtain ⟨inserted, there⟩ := kept.pools id entry found
    refine ⟨inserted, there.imp_right ?_⟩
    rintro ⟨other, mem, removes⟩
    exact ⟨other, mem_append_left _ mem, removes⟩
  · intro id gen locked
    refine (kept.locks id gen locked).imp_right ?_
    rintro ⟨other, mem, unlocks⟩
    exact ⟨other, mem_append_left _ mem, unlocks⟩

omit [DecidableEq κ] in
theorem Kept.hit (kept : s.Kept) {pool : Pool} (place : s.calls[i]? = some old) (allowed : s.LooksUp id gen) (hit : s.cache.get id gen = some pool)
    (idle : ∀ other number, ¬ old.Removes other number ∧ ¬ old.Unlocks other number) :
    Kept { s with
      calls := s.calls.set i (.finished (some pool))
      locks
      log := .returned id gen pool :: s.log } := by
  have found := get_some hit
  obtain ⟨inserted, there⟩ := kept.pools id _ found
  have late : ¬ Earlier s.log id gen := by
    intro earlier
    rcases there with current | removing
    · exact kept.current id gen current earlier.invalidated
    · exact allowed ⟨earlier, removing, _, found, rfl⟩
  have noted : Kept { s with log := .returned id gen pool :: s.log } := by
    refine kept.note rfl (by rintro _ _ ⟨⟩) ?_
    rintro other number given ⟨⟩
    exact ⟨inserted, late⟩
  exact noted.quiet place rfl rfl rfl (fun other number moved => absurd moved (idle other number).1)
    (fun other number moved => absurd moved (idle other number).2)

variable {call : Call κ Pool}

theorem move_kept (kept : s.Kept) (place : s.calls[i]? = some call)
    (fair : s.Fair (.move i)) (moved : s.move i call = some s') (below : (numbers s'.log).length < 2 ^ 64) : s'.Kept := by
  cases call with
  | requested id =>
    simp only [move, PoolCache.generationForRequest] at moved
    cases held : s.cache.generations id with
    | some gen =>
      simp only [held, isNone_some, Bool.false_eq_true, if_false, some_inj] at moved
      subst moved
      exact kept.still place fun _ _ => ⟨not_false, not_false⟩
    | none =>
      simp only [held, isNone_none, if_true, some_inj] at moved
      subst moved
      refine kept.issue place held (nextGeneration_succ ?_)
      rw [kept.counted]
      exact below
  | numbered id gen | valid id gen lock =>
    simp only [Fair, place] at fair
    simp only [move] at moved
    split at moved
    case h_1 pool hit =>
      cases moved
      exact kept.hit place fair hit fun _ _ => ⟨not_false, not_false⟩
    case h_2 =>
      cases moved
      exact kept.still place fun _ _ => ⟨not_false, not_false⟩
  | missed id gen =>
    simp only [Fair, place] at fair
    cases moved
    exact kept.lock place fair
  | waiting id gen lock =>
    simp only [move] at moved
    split at moved
    · cases moved
      exact kept.still place fun _ _ => ⟨not_false, not_false⟩
    · cases moved
  | locked id gen lock | built id gen lock pool =>
    simp only [move] at moved
    split at moved <;> cases moved <;>
      exact kept.still place fun _ _ => ⟨not_false, not_false⟩
  | writing id gen lock pool =>
    simp only [move] at moved
    split at moved
    case h_1 cache wrote =>
      cases moved
      have noted : Kept { s with log := .inserted id gen pool :: s.log } :=
        kept.note rfl nofun nofun
      rw [writePool_some wrote]
      exact noted.write place mem_cons_self
    case h_2 =>
      cases moved
      exact kept.still place fun _ _ => ⟨not_false, not_false⟩
  | written id gen lock pool =>
    simp only [move] at moved
    split at moved
    case isTrue current =>
      cases moved
      refine kept.quiet place rfl rfl rfl ?_ fun _ _ => False.elim
      rintro other number ⟨rfl, rfl⟩
      exact .inr (isCurrent_iff.mp current)
    case isFalse =>
      cases moved
      exact kept.quiet place rfl rfl rfl (fun _ _ => .inl) fun _ _ => False.elim
  | undoing id gen lock pool =>
    cases moved
    exact kept.remove place (fun other number same => ⟨same.1.symm, same.2.symm⟩) fun _ _ => not_false
  | evicting id =>
    simp only [move, PoolCache.invalidate] at moved
    cases held : s.cache.generations id with
    | some gen =>
      simp only [held, map_some, some_inj] at moved
      subst moved
      refine (kept.invalidate place held).note rfl ?_ nofun
      rintro call other ⟨⟩
      exact update_self _ _ _
    | none =>
      simp only [held, map_none, some_inj] at moved
      subst moved
      have noted : Kept { s with log := .evicting i id :: s.log } := by
        refine kept.note rfl ?_ nofun
        rintro call other ⟨⟩
        exact held
      have evicted : Kept { s with log := .evicted i :: .evicting i id :: s.log } := noted.note rfl nofun nofun
      exact evicted.still place fun _ _ => ⟨not_false, not_false⟩
  | unlocking id gen =>
    cases moved
    exact kept.release place
  | removing id gen =>
    cases moved
    have removed : Kept { s with cache := s.cache.removePool id gen, calls := s.calls.set i (.finished none) } :=
      kept.remove place (fun other number same => ⟨same.1.symm, same.2.symm⟩) fun _ _ => not_false
    exact removed.note rfl nofun nofun
  | buildingAlone lock => cases moved
  | building id gen lock => cases moved
  | finished answer => cases moved

variable {act : Act κ Pool}

theorem step_kept (kept : s.Kept) (fair : s.Fair act) (stepped : s.step act = some s') (below : (numbers s'.log).length < 2 ^ 64) : s'.Kept := by
  cases act with
  | getPool id | evict id =>
    cases stepped
    exact kept.arrive _
  | move i =>
    obtain ⟨call, place, moved⟩ := bind_eq_some_iff.mp stepped
    exact move_kept kept place fair moved below
  | build i answer =>
    simp only [step] at stepped
    split at stepped
    case h_1 lock place =>
      cases stepped
      exact kept.still place fun _ _ => ⟨not_false, not_false⟩
    case h_2 id gen lock place =>
      split at stepped <;> cases stepped <;>
        exact kept.still place fun _ _ => ⟨not_false, not_false⟩
    case h_3 => cases stepped
  | drop i =>
    simp only [step] at stepped
    split at stepped
    case h_4 => cases stepped
    all_goals
      rename_i place
      cases stepped
      exact kept.still place fun _ _ => ⟨not_false, not_false⟩

theorem move_log (moved : s.move i call = some s') : s.log <:+ s'.log := by
  cases call with
  | requested id =>
    cases moved
    dsimp only
    split
    · exact suffix_cons _ _
    · exact suffix_rfl
  | numbered id gen | valid id gen lock | writing id gen lock pool =>
    simp only [move] at moved
    split at moved <;> cases moved
    · exact suffix_cons _ _
    · exact suffix_rfl
  | evicting id =>
    simp only [move] at moved
    split at moved <;> cases moved
    · exact suffix_cons _ _
    · exact (suffix_cons _ _).trans (suffix_cons _ _)
  | waiting id gen lock | locked id gen lock | built id gen lock pool
  | written id gen lock pool =>
    simp only [move] at moved
    split at moved <;> cases moved <;> exact suffix_rfl
  | missed id gen | undoing id gen lock pool | unlocking id gen =>
    cases moved
    exact suffix_rfl
  | removing id gen =>
    cases moved
    exact suffix_cons _ _
  | buildingAlone lock => cases moved
  | building id gen lock => cases moved
  | finished answer => cases moved

theorem step_log (stepped : s.step act = some s') : s.log <:+ s'.log := by
  cases act with
  | getPool id | evict id =>
    cases stepped
    exact suffix_rfl
  | move i =>
    obtain ⟨call, place, moved⟩ := bind_eq_some_iff.mp stepped
    exact move_log moved
  | build i answer =>
    simp only [step] at stepped
    split at stepped
    case h_1 => cases stepped; exact suffix_rfl
    case h_2 => split at stepped <;> cases stepped <;> exact suffix_rfl
    case h_3 => cases stepped
  | drop i =>
    simp only [step] at stepped
    split at stepped <;> cases stepped <;> exact suffix_rfl

end

def Quiet (s : PoolState κ Pool) : Prop := ∀ call ∈ s.calls, ∃ answer, call = .finished answer

/-- What is promised in a state of a run. -/
structure Sound (s : PoolState κ Pool) : Prop where
  /-- No two generations have one number. -/
  distinct : (numbers s.log).Nodup
  /-- A cached pool is given only to the generation that inserted it. -/
  own : ∀ id gen pool before, (.returned id gen pool :: before) <:+ s.log → .inserted id gen pool ∈ before
  /-- After an evict no pool of an earlier generation is given. -/
  late : ∀ id gen pool before, (.returned id gen pool :: before) <:+ s.log → ¬ Earlier before id gen
  /-- After all calls only the current generation has a pool, and it is not an earlier one. -/
  pools : s.Quiet → ∀ id entry, s.cache.pools id = some entry →
    s.cache.generations id = some entry.generation ∧ ¬ Earlier s.log id entry.generation
  /-- After all calls only the current generation has a build lock. -/
  locks : s.Quiet → ∀ id gen lock, s.cache.buildLocks (id, gen) = some lock → s.cache.generations id = some gen

theorem Kept.sound (kept : s.Kept) : s.Sound where
  distinct := kept.distinct
  own := fun id gen pool before ends => (kept.own id gen pool before ends).1
  late := fun id gen pool before ends => (kept.own id gen pool before ends).2
  pools := by
    intro quiet id entry found
    have current : s.cache.generations id = some entry.generation := by
      refine (kept.pools id entry found).2.resolve_right ?_
      rintro ⟨call, mem, removes⟩
      obtain ⟨answer, rfl⟩ := quiet call mem
      exact removes
    exact ⟨current, fun earlier => kept.current id _ current earlier.invalidated⟩
  locks := by
    intro quiet id gen lock found
    refine (kept.locks id gen (by rw [found]; exact some_ne_none lock)).resolve_right ?_
    rintro ⟨call, mem, unlocks⟩
    obtain ⟨answer, rfl⟩ := quiet call mem
    exact unlocks

theorem start_kept : Kept ({} : PoolState κ Pool) where
  counted := rfl
  low := fun _ => nofun
  distinct := nodup_nil
  current := fun _ _ => nofun
  pools := fun _ _ => nofun
  locks := fun _ _ held => absurd rfl held
  own := by
    intro id gen pool before ends
    cases suffix_nil.mp ends

section
variable [DecidableEq κ]

theorem reached_kept (reached : Reached step Fair ({} : PoolState κ Pool) s) (below : (numbers s.log).length < 2 ^ 64) : s.Kept := by
  refine reached.keeps (P := fun s => (numbers s.log).length < 2 ^ 64 → s.Kept) (fun _ => start_kept) ?_ below
  intro s s' act kept fair stepped below
  have fewer : (numbers s.log).length ≤ (numbers s'.log).length := ((step_log stepped).sublist.filterMap _).length_le
  exact step_kept (kept (by omega)) fair stepped below

end

end PoolState

open PoolState

variable [DecidableEq κ]

theorem pools_sound {s : PoolState κ Pool} (reached : Reached step Fair {} s) (below : (numbers s.log).length < 2 ^ 64) : s.Sound :=
  (reached_kept reached below).sound

omit [DecidableEq κ] in
theorem looksUp_of_unfinished {s : PoolState κ Pool} (unfinished : ∀ call, .evicted call ∉ s.log) (id : κ) (gen : Nat) : s.LooksUp id gen := by
  rintro ⟨⟨call, inOrder⟩, -⟩
  exact unfinished call (inOrder.subset mem_cons_self)

/-- A pool is built and cached, and then evicted. -/
theorem pools_sound_evicted : ∃ s : PoolState Nat Nat, s.log = [.evicted 1, .evicting 1 0, .inserted 0 1 7, .issued 0 1] ∧ s.Sound := by
  have lookup : ∀ s : PoolState Nat Nat, s.log = [.issued 0 1] → s.LooksUp 0 1 := by
    intro s log
    exact looksUp_of_unfinished (by simp [log]) 0 1
  have follows : ∃ s, s.log = [.evicted 1, .evicting 1 0, .inserted 0 1 7, .issued 0 1] ∧ Follows step Fair ({} : PoolState Nat Nat)
      [.getPool 0, .move 0, .move 0, .move 0, .move 0, .move 0, .move 0, .build 0 (some 7), .move 0, .move 0, .move 0,
        .evict 0, .move 1, .move 1, .move 1] s :=
    ⟨_, rfl, trivial, _, rfl, trivial, _, rfl, lookup _ rfl, _, rfl, .inl rfl, _, rfl, trivial, _, rfl, trivial, _, rfl,
      lookup _ rfl, _, rfl, trivial, _, rfl, trivial, _, rfl, trivial, _, rfl, trivial, _, rfl, trivial, _, rfl,
      trivial, _, rfl, trivial, _, rfl, trivial, _, rfl, rfl⟩
  obtain ⟨s, log, follows⟩ := follows
  exact ⟨s, log, pools_sound (Reached.start.follows follows) (by rw [log]; decide)⟩

/-- A request takes its build lock after its generation was evicted. -/
theorem lock_after_evict : ¬ ∀ s : PoolState Nat Nat, Reached step (fun _ _ => True) {} s → (numbers s.log).length < 2 ^ 64 → s.Sound := by
  intro law
  have follows : ∃ s, s.log = [.evicted 1, .evicting 1 0, .issued 0 1] ∧ s.Quiet ∧
      s.cache.buildLocks (0, 1) = some 0 ∧ s.cache.generations 0 = none ∧
      Follows step (fun _ _ => True) ({} : PoolState Nat Nat)
        [.getPool 0, .move 0, .move 0, .evict 0, .move 1, .move 1, .move 1, .move 0, .move 0, .move 0, .build 0 (some 7)] s := by
    refine ⟨_, ?_, ?_, ?_, ?_, trivial, _, rfl, trivial, _, rfl, trivial, _, rfl, trivial, _, rfl, trivial, _, rfl, trivial, _, rfl,
      trivial, _, rfl, trivial, _, rfl, trivial, _, rfl, trivial, _, rfl, trivial, _, rfl, rfl⟩
    · rfl
    · intro call mem
      rcases mem_cons.mp mem with rfl | mem
      · exact ⟨_, rfl⟩
      · exact ⟨_, mem_singleton.mp mem⟩
    · rfl
    · rfl
  obtain ⟨s, log, quiet, locked, none, follows⟩ := follows
  have current := (law s (Reached.start.follows follows) (by rw [log]; decide)).locks quiet 0 1 0 locked
  simp [none] at current

end Ramag.SqlPools
