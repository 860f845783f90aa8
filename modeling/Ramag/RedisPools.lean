import Mathlib.Algebra.Order.Ring.Int
import Mathlib.Algebra.Order.Ring.Nat
import Mathlib.Data.List.FinRange
import Mathlib.Data.List.Sort
import Ramag.Runs

/-!
The connection managers of Redis, one for each connection and database.
`get_or_create` and `evict_all_dbs` run side by side on one `PoolCache`; each
operation on a map is one step, also the ones that go through all its entries,
and every step of a call is taken by `PoolState.move`. The events of a run are
kept in a log, the latest first.
-/
namespace Ramag.RedisPools
open Runs

def MAX_CACHED_DBS_PER_CONNECTION : Nat := 8

/-- A connection with one of its databases, which are numbered by a `u8`. -/
structure PoolKey (κ : Type) where
  connId : κ
  db : Fin 256
  deriving DecidableEq

variable {κ μ : Type}

structure CachedManager (μ : Type) where
  generation : Nat
  lastUsed : Nat
  manager : μ

/-- The maps of the cache. A build lock is named by its place in `PoolState.locks`. -/
structure PoolCache (κ μ : Type) where
  pools : PoolKey κ → Option (CachedManager μ) := fun _ => none
  buildLocks : PoolKey κ × Nat → Option Nat := fun _ => none
  generations : κ → Option Nat := fun _ => none
  generationClock : Nat := 0
  accessClock : Nat := 0

/-- The counter goes round at `2 ^ 64` and zero is passed over. It is left at
    the number that is returned. -/
def nextGeneration (generationClock : Nat) : Nat :=
  let generation := (generationClock + 1) % 2 ^ 64
  if generation ≠ 0 then generation else generation + 1

/-- The order in which the entries are evicted: the longest unused first. -/
def usedBefore (a b : PoolKey κ × Nat) : Prop := a.2 < b.2 ∨ a.2 = b.2 ∧ a.1.db ≤ b.1.db

instance (a b : PoolKey κ × Nat) : Decidable (usedBefore a b) :=
  inferInstanceAs (Decidable (_ ∨ _))

def lruEvictionCandidates [DecidableEq κ] (entries : List (PoolKey κ × Nat)) (keep : PoolKey κ)
    (maxEntries : Nat) : List (PoolKey κ × Nat) :=
  let removeCount := entries.length - maxEntries
  if removeCount = 0 then []
  else ((entries.filter fun entry => entry.1 ≠ keep).insertionSort usedBefore).take removeCount

namespace PoolCache

def isCurrentGeneration (cache : PoolCache κ μ) (id : κ) (generation : Nat) : Bool :=
  (cache.generations id).any (· == generation)

/-- What `enforce_pool_limit` reads: the entries of the connection and the
    generation, with the times of their last use. -/
def entriesOf (cache : PoolCache κ μ) (id : κ) (generation : Nat) : List (PoolKey κ × Nat) :=
  (List.finRange 256).filterMap fun db =>
    (cache.pools ⟨id, db⟩).bind fun entry => if entry.generation = generation then some (⟨id, db⟩, entry.lastUsed) else none

variable [DecidableEq κ]

def generationForRequest (cache : PoolCache κ μ) (id : κ) : Nat × PoolCache κ μ :=
  match cache.generations id with
  | some generation => (generation, cache)
  | none =>
    let generation := nextGeneration cache.generationClock
    (generation, { cache with
      generations := Function.update cache.generations id (some generation)
      generationClock := generation })

/-- An entry gets a new value that is used now. `next_access` goes round at `2 ^ 64`. -/
def use (cache : PoolCache κ μ) (key : PoolKey κ) (generation : Nat) (manager : μ) : PoolCache κ μ :=
  { cache with
    pools := Function.update cache.pools key (some ⟨generation, cache.accessClock, manager⟩)
    accessClock := (cache.accessClock + 1) % 2 ^ 64 }

/-- A hit changes the time of the last use. -/
def getCached (cache : PoolCache κ μ) (key : PoolKey κ) (generation : Nat) : Option (μ × PoolCache κ μ) :=
  match cache.pools key with
  | some entry => if entry.generation = generation then some (entry.manager, cache.use key generation entry.manager) else none
  | none => none

/-- The first step of `build_lock`: a lock that only the map holds is taken out. -/
def sweepLocks (cache : PoolCache κ μ) (held : Nat → Bool) : PoolCache κ μ :=
  { cache with buildLocks := fun key => (cache.buildLocks key).filter held }

/-- The second step of `build_lock`: the lock under the key, or else the lock `fresh`. -/
def buildLock (cache : PoolCache κ μ) (key : PoolKey κ) (generation fresh : Nat) : Nat × PoolCache κ μ :=
  match cache.buildLocks (key, generation) with
  | some lock => (lock, cache)
  | none => (fresh, { cache with buildLocks := Function.update cache.buildLocks (key, generation) (some fresh) })

/-- The write of `cache_if_current`. A manager of a later generation is not
    replaced. -/
def writeManager (cache : PoolCache κ μ) (key : PoolKey κ) (generation : Nat) (manager : μ) : Option (PoolCache κ μ) :=
  match cache.pools key with
  | some entry => if entry.generation > generation then none else some (cache.use key generation manager)
  | none => some (cache.use key generation manager)

/-- The removal of a `cache_if_current` that finds its generation invalidated. -/
def removePool (cache : PoolCache κ μ) (key : PoolKey κ) (generation : Nat) : PoolCache κ μ :=
  match cache.pools key with
  | some entry => if entry.generation = generation then { cache with pools := Function.update cache.pools key none } else cache
  | none => cache

/-- The removal of one candidate by `enforce_pool_limit`; nothing when the entry
    is another one by now. -/
def trim (cache : PoolCache κ μ) (generation : Nat) (candidate : PoolKey κ × Nat) : Option (PoolCache κ μ) :=
  match cache.pools candidate.1 with
  | some entry =>
    if entry.generation = generation ∧ entry.lastUsed = candidate.2 then
      some { cache with pools := Function.update cache.pools candidate.1 none }
    else none
  | none => none

/-- The first step of `evict_all_dbs`, with the generation that it invalidates. -/
def invalidate (cache : PoolCache κ μ) (id : κ) : Option (Nat × PoolCache κ μ) :=
  (cache.generations id).map fun generation => (generation, { cache with generations := Function.update cache.generations id none })

/-- The second step of `evict_all_dbs`. -/
def releaseLocks (cache : PoolCache κ μ) (id : κ) (generation : Nat) : PoolCache κ μ :=
  { cache with buildLocks := fun key => if key.1.connId ≠ id ∨ key.2 ≠ generation then cache.buildLocks key else none }

/-- The last step of `evict_all_dbs`. -/
def removePools (cache : PoolCache κ μ) (id : κ) (generation : Nat) : PoolCache κ μ :=
  { cache with pools := fun key => (cache.pools key).filter fun entry => ¬ (key.connId = id ∧ entry.generation = generation) }

end PoolCache

/-! ### Calls -/

/-- What a call is about to do. -/
inductive Call (κ μ : Type)
  /-- `generation_for_request` -/
  | requested (key : PoolKey κ)
  /-- The first `get_cached`. -/
  | numbered (key : PoolKey κ) (generation : Nat)
  /-- The sweep of `build_lock`. -/
  | missed (key : PoolKey κ) (generation : Nat)
  /-- The entry of `build_lock`. -/
  | swept (key : PoolKey κ) (generation : Nat)
  /-- `lock().await` -/
  | waiting (key : PoolKey κ) (generation lock : Nat)
  /-- `is_current_generation` under the lock. -/
  | locked (key : PoolKey κ) (generation lock : Nat)
  /-- The second `get_cached`. -/
  | valid (key : PoolKey κ) (generation lock : Nat)
  /-- `build_connection_manager` for a generation that is no longer current. -/
  | buildingAlone (key : PoolKey κ) (generation lock : Nat)
  /-- `build_connection_manager` for the cache. -/
  | building (key : PoolKey κ) (generation lock : Nat)
  /-- The first check of `cache_if_current`. -/
  | built (key : PoolKey κ) (generation lock : Nat) (manager : μ)
  /-- The write of `cache_if_current`. -/
  | writing (key : PoolKey κ) (generation lock : Nat) (manager : μ)
  /-- The second check of `cache_if_current`. -/
  | written (key : PoolKey κ) (generation lock : Nat) (manager : μ)
  /-- The removal of `cache_if_current`. -/
  | undoing (key : PoolKey κ) (generation lock : Nat) (manager : μ)
  /-- The iteration of `enforce_pool_limit`, under a build lock or not. -/
  | enforcing (key : PoolKey κ) (generation : Nat) (lock : Option Nat) (manager : μ)
  /-- The removals of `enforce_pool_limit` that are left. -/
  | trimming (key : PoolKey κ) (generation : Nat) (lock : Option Nat) (manager : μ)
      (candidates : List (PoolKey κ × Nat))
  /-- The removal of the generation by `evict_all_dbs`. -/
  | evicting (id : κ)
  /-- The removal of the build locks by `evict_all_dbs`. -/
  | unlocking (id : κ) (generation : Nat)
  /-- The removal of the managers by `evict_all_dbs`. -/
  | removing (id : κ) (generation : Nat)
  | finished (answer : Option μ)

/-- The build lock that the call has a reference to. -/
def Call.lock : Call κ μ → Option Nat
  | .waiting _ _ lock | .locked _ _ lock | .valid _ _ lock | .buildingAlone _ _ lock | .building _ _ lock
  | .built _ _ lock _ | .writing _ _ lock _ | .written _ _ lock _ | .undoing _ _ lock _ => some lock
  | .enforcing _ _ lock _ | .trimming _ _ lock _ _ => lock
  | _ => none

inductive Event (κ μ : Type)
  /-- A request got a generation that no request had. -/
  | issued (id : κ) (generation : Nat)
  | inserted (key : PoolKey κ) (generation : Nat) (manager : μ)
  /-- The cache gave a manager to a request of the generation. -/
  | returned (key : PoolKey κ) (generation : Nat) (manager : μ)
  /-- The call took its snapshot of the entries, for a request with this key. -/
  | snapshot (call : Nat) (keep : PoolKey κ)
  /-- The call evicted an entry of its snapshot. -/
  | trimmed (call : Nat) (key : PoolKey κ)
  /-- The call to `evict_all_dbs` took the generation of the connection. -/
  | evicting (call : Nat) (id : κ)
  | evicted (call : Nat)

structure PoolState (κ μ : Type) where
  cache : PoolCache κ μ := {}
  /-- Which of the build locks are held. -/
  locks : List Bool := []
  calls : List (Call κ μ) := []
  log : List (Event κ μ) := []

inductive Act (κ μ : Type)
  /-- A request with a configuration that is valid; any other does not come to the cache. -/
  | getOrCreate (key : PoolKey κ)
  | evictAllDbs (id : κ)
  /-- The next step of a call. -/
  | move (call : Nat)
  /-- `build_connection_manager` ends, with a manager or an error. -/
  | build (call : Nat) (answer : Option μ)
  /-- A request that waits is dropped. -/
  | drop (call : Nat)

variable (s : PoolState κ μ)

namespace PoolState

def goOn (call : Nat) (next : Call κ μ) : PoolState κ μ :=
  { s with calls := s.calls.set call next }

def release : Option Nat → PoolState κ μ
  | some lock => { s with locks := s.locks.set lock false }
  | none => s

/-- The call ends and its lock is free. -/
def endWith (call : Nat) (lock : Option Nat) (answer : Option μ) : PoolState κ μ :=
  (s.goOn call (.finished answer)).release lock

/-- Whether a call has a reference to the lock. -/
def lockHeld (lock : Nat) : Bool := s.calls.any fun call => call.lock = some lock

def write (cache : PoolCache κ μ) (event : Event κ μ) : PoolState κ μ :=
  { s with cache, log := event :: s.log }

variable [DecidableEq κ]

def move (s : PoolState κ μ) (call : Nat) : Call κ μ → Option (PoolState κ μ)
  | .requested key =>
    let (generation, cache) := s.cache.generationForRequest key.connId
    let log := if (s.cache.generations key.connId).isNone then .issued key.connId generation :: s.log else s.log
    some ({ s with cache, log }.goOn call (.numbered key generation))
  | .numbered key generation =>
    match s.cache.getCached key generation with
    | some (manager, cache) => some ((s.write cache (.returned key generation manager)).goOn call (.enforcing key generation none manager))
    | none => some (s.goOn call (.missed key generation))
  | .missed key generation => some ({ s with cache := s.cache.sweepLocks s.lockHeld }.goOn call (.swept key generation))
  | .swept key generation =>
    let (lock, cache) := s.cache.buildLock key generation s.locks.length
    let locks := if lock < s.locks.length then s.locks else s.locks ++ [false]
    some ({ s with cache, locks }.goOn call (.waiting key generation lock))
  | .waiting key generation lock =>
    if s.locks[lock]? = some false then
      some ({ s with locks := s.locks.set lock true }.goOn call (.locked key generation lock))
    else none
  | .locked key generation lock =>
    if s.cache.isCurrentGeneration key.connId generation then some (s.goOn call (.valid key generation lock))
    else some (s.goOn call (.buildingAlone key generation lock))
  | .valid key generation lock =>
    match s.cache.getCached key generation with
    | some (manager, cache) =>
      some ((s.write cache (.returned key generation manager)).goOn call (.enforcing key generation (some lock) manager))
    | none => some (s.goOn call (.building key generation lock))
  | .built key generation lock manager =>
    if s.cache.isCurrentGeneration key.connId generation then some (s.goOn call (.writing key generation lock manager))
    else some (s.endWith call (some lock) (some manager))
  | .writing key generation lock manager =>
    match s.cache.writeManager key generation manager with
    | some cache => some ((s.write cache (.inserted key generation manager)).goOn call (.written key generation lock manager))
    | none => some (s.endWith call (some lock) (some manager))
  | .written key generation lock manager =>
    if s.cache.isCurrentGeneration key.connId generation then
      some (s.goOn call (.enforcing key generation (some lock) manager))
    else some (s.goOn call (.undoing key generation lock manager))
  | .undoing key generation lock manager =>
    some ({ s with cache := s.cache.removePool key generation }.endWith call (some lock) (some manager))
  | .enforcing key generation lock manager =>
    let candidates := lruEvictionCandidates (s.cache.entriesOf key.connId generation) key MAX_CACHED_DBS_PER_CONNECTION
    some ((s.write s.cache (.snapshot call key)).goOn call (.trimming key generation lock manager candidates))
  | .trimming _ _ lock manager [] => some (s.endWith call lock (some manager))
  | .trimming key generation lock manager (candidate :: candidates) =>
    match s.cache.trim generation candidate with
    | some cache => some ((s.write cache (.trimmed call candidate.1)).goOn call (.trimming key generation lock manager candidates))
    | none => some (s.goOn call (.trimming key generation lock manager candidates))
  | .evicting id =>
    match s.cache.invalidate id with
    | some (invalidated, cache) => some ((s.write cache (.evicting call id)).goOn call (.unlocking id invalidated))
    | none => some { s.goOn call (.finished none) with log := .evicted call :: .evicting call id :: s.log }
  | .unlocking id invalidated => some ({ s with cache := s.cache.releaseLocks id invalidated }.goOn call (.removing id invalidated))
  | .removing id invalidated => some ((s.write (s.cache.removePools id invalidated) (.evicted call)).goOn call (.finished none))
  | .buildingAlone .. | .building .. | .finished _ => none

def step (s : PoolState κ μ) : Act κ μ → Option (PoolState κ μ)
  | .getOrCreate key => some { s with calls := s.calls ++ [.requested key] }
  | .evictAllDbs id => some { s with calls := s.calls ++ [.evicting id] }
  | .move call => s.calls[call]?.bind (s.move call)
  | .build call answer =>
    match s.calls[call]? with
    | some (.buildingAlone _ _ lock) => some (s.endWith call (some lock) answer)
    | some (.building key generation lock) =>
      match answer with
      | some manager => some (s.goOn call (.built key generation lock manager))
      | none => some (s.endWith call (some lock) none)
    | _ => none
  | .drop call =>
    match s.calls[call]? with
    | some (.waiting _ _ _) => some (s.goOn call (.finished none))
    | some (.buildingAlone _ _ lock) => some (s.endWith call (some lock) none)
    | some (.building _ _ lock) => some (s.endWith call (some lock) none)
    | _ => none

end PoolState

/-! ### The generations, and what is served of the cache -/

open List Function

variable {κ μ : Type}

def Event.number : Event κ μ → Option Nat
  | .issued _ gen => some gen
  | _ => none

/-- The generations that were issued, of all connections. -/
def numbers (log : List (Event κ μ)) : List Nat := log.filterMap Event.number

/-- A call took the generation of the connection after this one was issued. -/
def Invalidated (log : List (Event κ μ)) (id : κ) (gen : Nat) : Prop :=
  ∃ call, [.evicting call id, .issued id gen].Sublist log

/-- Such a call has finished: the generation is an earlier one. -/
def Earlier (log : List (Event κ μ)) (id : κ) (gen : Nat) : Prop :=
  ∃ call, [.evicted call, .evicting call id, .issued id gen].Sublist log

variable {log : List (Event κ μ)} {id : κ} {gen : Nat}

theorem Earlier.invalidated (earlier : Earlier log id gen) : Invalidated log id gen := by
  obtain ⟨call, inOrder⟩ := earlier
  exact ⟨call, (sublist_cons_self _ _).trans inOrder⟩

theorem Invalidated.cons (ended : Invalidated log id gen) (event : Event κ μ) : Invalidated (event :: log) id gen := by
  obtain ⟨call, inOrder⟩ := ended
  exact ⟨call, inOrder.cons _⟩

theorem mem_numbers (issued : .issued id gen ∈ log) : gen ∈ numbers log :=
  mem_filterMap.mpr ⟨_, issued, rfl⟩

theorem Invalidated.number (ended : Invalidated log id gen) : gen ∈ numbers log := by
  obtain ⟨call, inOrder⟩ := ended
  exact mem_numbers (inOrder.subset (mem_cons_of_mem _ mem_cons_self))

theorem invalidated_cons {event : Event κ μ} (other : ∀ call, event ≠ .evicting call id) :
    Invalidated (event :: log) id gen ↔ Invalidated log id gen := by
  constructor
  · rintro ⟨call, inOrder⟩
    cases inOrder with
    | cons _ before => exact ⟨call, before⟩
    | cons_cons _ _ => exact absurd rfl (other call)
  · exact fun ended => ended.cons event

@[simp] theorem numbers_cons_none {event : Event κ μ} (unnumbered : event.number = none) : numbers (event :: log) = numbers log := by
  simp [numbers, unnumbered]

@[simp] theorem numbers_issued : numbers (.issued id gen :: log) = gen :: numbers log := rfl

/-! ### What a call has to do with a generation -/

/-- The generation that the call works for. -/
def Call.worksFor : Call κ μ → Option Nat
  | .numbered _ gen | .missed _ gen | .swept _ gen | .waiting _ gen _ | .locked _ gen _
  | .valid _ gen _ | .buildingAlone _ gen _ | .building _ gen _ | .built _ gen _ _
  | .writing _ gen _ _ | .written _ gen _ _ | .undoing _ gen _ _ | .enforcing _ gen _ _
  | .trimming _ gen _ _ _ | .unlocking _ gen | .removing _ gen => some gen
  | _ => none

/-- The call still has to look whether a manager of this generation is to be removed. -/
def Call.Removes (key : PoolKey κ) (gen : Nat) : Call κ μ → Prop
  | .written key' gen' _ _ | .undoing key' gen' _ _ => key' = key ∧ gen' = gen
  | .unlocking id gen' | .removing id gen' => id = key.connId ∧ gen' = gen
  | _ => False

/-- The call has taken this generation from the connection. -/
def Call.Ends (id : κ) (gen : Nat) : Call κ μ → Prop
  | .unlocking id' gen' | .removing id' gen' => id' = id ∧ gen' = gen
  | _ => False

namespace PoolState

def Removing (s : PoolState κ μ) (key : PoolKey κ) (gen : Nat) : Prop :=
  ∃ call ∈ s.calls, call.Removes key gen

/-- A lookup may not find a manager of an earlier generation while a call still
    has to remove it. -/
def LooksUp (s : PoolState κ μ) (key : PoolKey κ) (gen : Nat) : Prop :=
  ¬ (Earlier s.log key.connId gen ∧ s.Removing key gen ∧
    ∃ entry, s.cache.pools key = some entry ∧ entry.generation = gen)

/-- What is known of the generations and of what is served. -/
structure Served (s : PoolState κ μ) : Prop where
  counted : s.cache.generationClock = (numbers s.log).length
  low : ∀ number ∈ numbers s.log, number ≤ s.cache.generationClock
  distinct : (numbers s.log).Nodup
  known : ∀ id gen, s.cache.generations id = some gen → .issued id gen ∈ s.log
  current : ∀ id gen, s.cache.generations id = some gen → ¬ Invalidated s.log id gen
  calls : ∀ call ∈ s.calls, ∀ gen, call.worksFor = some gen → gen ∈ numbers s.log
  ended : ∀ call ∈ s.calls, ∀ id gen, call.Ends id gen → Invalidated s.log id gen
  inserted : ∀ key entry, s.cache.pools key = some entry →
    .inserted key entry.generation entry.manager ∈ s.log ∧ entry.generation ∈ numbers s.log
  pools : ∀ key entry, s.cache.pools key = some entry →
    s.cache.generations key.connId = some entry.generation ∨ s.Removing key entry.generation
  own : ∀ key gen manager before, (.returned key gen manager :: before) <:+ s.log →
    .inserted key gen manager ∈ before ∧ ¬ Earlier before key.connId gen

variable {s s' : PoolState κ μ} {i : Nat} {old new : Call κ μ}

theorem removing_new (place : s.calls[i]? = some old) {key : PoolKey κ} {gen : Nat}
    (removes : new.Removes key gen) : (s.goOn i new).Removing key gen :=
  set_exists_new place removes

section
variable (served : s.Served)
include served

theorem Served.not_current (place : s.calls[i]? = some old) (ends : old.Ends id gen) : s.cache.generations id ≠ some gen :=
  fun held => served.current id gen held (served.ended old (mem_of_getElem? place) id gen ends)

theorem Served.goOn (place : s.calls[i]? = some old) (gen : ∀ gen, new.worksFor = some gen → gen ∈ numbers s.log)
    (removes : ∀ key entry, s.cache.pools key = some entry → old.Removes key entry.generation →
      new.Removes key entry.generation ∨ s.cache.generations key.connId = some entry.generation := by
        first | exact fun _ _ _ => False.elim | exact fun _ _ _ => .inl)
    (ends : ∀ id gen, new.Ends id gen → Invalidated s.log id gen := by exact fun _ _ => False.elim) : (s.goOn i new).Served where
  counted := served.counted
  low := served.low
  distinct := served.distinct
  known := served.known
  current := served.current
  calls := set_forall served.calls gen
  ended := set_forall served.ended ends
  inserted := served.inserted
  pools := by
    intro key entry found
    rcases served.pools key entry found with current | removing
    · exact .inl current
    rcases set_exists place removing with moved | other
    · exact (removes key entry found moved).symm.imp_right (removing_new place)
    · exact .inr other
  own := served.own

theorem Served.goesOn (place : s.calls[i]? = some old)
    (same : ∀ gen, new.worksFor = some gen → old.worksFor = some gen := by first | exact fun _ => id | exact nofun)
    (idle : ∀ key gen, ¬ old.Removes key gen := by exact fun _ _ => not_false)
    (ends : ∀ id gen, ¬ new.Ends id gen := by exact fun _ _ => not_false) : (s.goOn i new).Served :=
  served.goOn place (fun gen own => served.calls old (mem_of_getElem? place) gen (same gen own))
    (fun key entry _ moved => absurd moved (idle key entry.generation)) (fun id gen moved => absurd moved (ends id gen))

theorem Served.relock (locks : List Bool) (buildLocks : PoolKey κ × Nat → Option Nat) :
    Served { s with locks, cache := { s.cache with buildLocks } } :=
  { served with }

theorem Served.keep (pools : PoolKey κ → Option (CachedManager μ)) (accessClock : Nat) (kept : ∀ key entry, pools key = some entry →
      ∃ old, s.cache.pools key = some old ∧ old.generation = entry.generation ∧ old.manager = entry.manager) :
    Served { s with cache := { s.cache with pools, accessClock } } where
  counted := served.counted
  low := served.low
  distinct := served.distinct
  known := served.known
  current := served.current
  calls := served.calls
  ended := served.ended
  inserted := by
    intro key entry found
    obtain ⟨old, there, gen, manager⟩ := kept key entry found
    exact gen ▸ manager ▸ served.inserted key old there
  pools := by
    intro key entry found
    obtain ⟨old, there, gen, -⟩ := kept key entry found
    exact gen ▸ served.pools key old there
  own := served.own

theorem Served.note {event : Event κ μ} (unnumbered : event.number = none)
    (evicts : ∀ call id, event = .evicting call id → s.cache.generations id = none) (own : ∀ key gen manager, event = .returned key gen manager →
      .inserted key gen manager ∈ s.log ∧ ¬ Earlier s.log key.connId gen := by rintro _ _ _ ⟨⟩) : Served { s with log := event :: s.log } where
  counted := by rw [numbers_cons_none unnumbered]; exact served.counted
  low := by rw [numbers_cons_none unnumbered]; exact served.low
  distinct := by rw [numbers_cons_none unnumbered]; exact served.distinct
  known := fun id gen held => mem_cons_of_mem _ (served.known id gen held)
  current := by
    intro id gen held
    rw [invalidated_cons]
    · exact served.current id gen held
    · intro call evicting
      simp [evicts call id evicting] at held
  calls := by rw [numbers_cons_none unnumbered]; exact served.calls
  ended := fun call mem id gen ends => (served.ended call mem id gen ends).cons event
  inserted := by
    intro key entry found
    rw [numbers_cons_none unnumbered]
    exact (served.inserted key entry found).imp_left (mem_cons_of_mem _)
  pools := served.pools
  own := by
    intro key gen manager before ends
    rcases suffix_cons_iff.mp ends with same | earlier
    · cases same
      exact own key gen manager rfl
    · exact served.own key gen manager before earlier

theorem Served.noteQuiet {event : Event κ μ} (unnumbered : event.number = none) (evicts : ∀ call id, event ≠ .evicting call id := by rintro _ _ ⟨⟩)
    (returns : ∀ key gen manager, event ≠ .returned key gen manager := by rintro _ _ _ ⟨⟩) :
    Served { s with log := event :: s.log } :=
  served.note unnumbered (fun call id same => absurd same (evicts call id))
    (fun key gen manager same => absurd same (returns key gen manager))

theorem Served.arrive {call : Call κ μ} (fresh : call.worksFor = none)
    (ends : ∀ id gen, ¬ call.Ends id gen) : Served { s with calls := s.calls ++ [call] } where
  counted := served.counted
  low := served.low
  distinct := served.distinct
  known := served.known
  current := served.current
  calls := by
    intro other mem gen own
    rcases mem_append.mp mem with there | same
    · exact served.calls other there gen own
    · simp [mem_singleton.mp same, fresh] at own
  ended := by
    intro other mem id gen own
    rcases mem_append.mp mem with there | same
    · exact served.ended other there id gen own
    · exact absurd (mem_singleton.mp same ▸ own) (ends id gen)
  inserted := served.inserted
  pools := by
    intro key entry found
    refine (served.pools key entry found).imp_right ?_
    rintro ⟨other, mem, removes⟩
    exact ⟨other, mem_append_left _ mem, removes⟩
  own := served.own

end

theorem nextGeneration_succ {clock : Nat} (below : clock + 1 < 2 ^ 64) : nextGeneration clock = clock + 1 := by
  rw [nextGeneration, Nat.mod_eq_of_lt below, if_pos (Nat.succ_ne_zero clock)]

section
variable [DecidableEq κ]

theorem Served.issue (served : s.Served) {id : κ} (absent : s.cache.generations id = none) : Served { s with
      cache := { s.cache with
        generations := update s.cache.generations id (some (s.cache.generationClock + 1))
        generationClock := s.cache.generationClock + 1 }
      log := .issued id (s.cache.generationClock + 1) :: s.log } := by
  have fresh : s.cache.generationClock + 1 ∉ numbers s.log := by
    intro there
    have := served.low _ there
    omega
  have held : ∀ other number, s.cache.generations other = some number →
      update s.cache.generations id (some (s.cache.generationClock + 1)) other = some number := by
    intro other number held
    rw [update_of_ne, held]
    rintro rfl
    simp [absent] at held
  constructor
  case counted =>
    rw [numbers_issued, length_cons, ← served.counted]
  case low =>
    intro number mem
    rcases mem_cons.mp mem with own | earlier
    · exact Nat.le_of_eq own
    · exact Nat.le_succ_of_le (served.low number earlier)
  case distinct => exact nodup_cons.mpr ⟨fresh, served.distinct⟩
  case known =>
    intro other number current
    change update s.cache.generations id (some (s.cache.generationClock + 1)) other = some number at current
    by_cases own : other = id
    · rw [own, update_self, Option.some_inj] at current
      rw [own, ← current]
      exact mem_cons_self
    · rw [update_of_ne own] at current
      exact mem_cons_of_mem _ (served.known other number current)
  case current =>
    intro other number current
    rw [invalidated_cons (by rintro call ⟨⟩)]
    change update s.cache.generations id (some (s.cache.generationClock + 1)) other = some number at current
    by_cases own : other = id
    · subst own
      rw [update_self, Option.some_inj] at current
      intro invalidated
      exact fresh (current ▸ invalidated.number)
    · rw [update_of_ne own] at current
      exact served.current other number current
  case calls => exact fun call mem number own => mem_cons_of_mem _ (served.calls call mem number own)
  case ended => exact fun call mem other number ends => (served.ended call mem other number ends).cons _
  case inserted =>
    intro key entry found
    obtain ⟨inserted, issued⟩ := served.inserted key entry found
    exact ⟨mem_cons_of_mem _ inserted, mem_cons_of_mem _ issued⟩
  case pools => exact fun key entry found => (served.pools key entry found).imp_left (held _ _)
  case own =>
    intro key number manager before ends
    rcases suffix_cons_iff.mp ends with same | earlier
    · cases same
    · exact served.own key number manager before earlier

theorem Served.write (served : s.Served) {key : PoolKey κ} {manager : μ}
    (inserted : .inserted key gen manager ∈ s.log) (issued : gen ∈ numbers s.log) (removing : s.Removing key gen) :
    Served { s with cache := s.cache.use key gen manager } := by
  refine { served with inserted := ?_, pools := ?_ }
  · intro other entry found
    change update s.cache.pools key _ other = some entry at found
    by_cases own : other = key
    · rw [own, update_self, Option.some_inj] at found
      rw [own, ← found]
      exact ⟨inserted, issued⟩
    · rw [update_of_ne own] at found
      exact served.inserted other entry found
  · intro other entry found
    change update s.cache.pools key _ other = some entry at found
    by_cases own : other = key
    · rw [own, update_self, Option.some_inj] at found
      rw [own, ← found]
      exact .inr removing
    · rw [update_of_ne own] at found
      exact served.pools other entry found

theorem Served.invalidate (served : s.Served) {id : κ} {gen : Nat}
    (place : s.calls[i]? = some (.evicting id)) (current : s.cache.generations id = some gen) : Served { s with
      cache := { s.cache with generations := update s.cache.generations id none }
      calls := s.calls.set i (.unlocking id gen)
      log := .evicting i id :: s.log } := by
  have issued := served.known id gen current
  have ended : Invalidated (.evicting i id :: s.log) id gen := ⟨i, (singleton_sublist.mpr issued).cons_cons _⟩
  have others : ∀ {other number}, update s.cache.generations id none other = some number →
      other ≠ id ∧ s.cache.generations other = some number := by
    intro other number held
    by_cases own : other = id
    · simp [own, update_self] at held
    · rw [update_of_ne own] at held
      exact ⟨own, held⟩
  have numbered : numbers (.evicting i id :: s.log) = numbers s.log := numbers_cons_none rfl
  constructor
  case counted => exact served.counted
  case low => exact served.low
  case distinct => exact served.distinct
  case known => exact fun other number held => mem_cons_of_mem _ (served.known other number (others held).2)
  case current =>
    intro other number held
    obtain ⟨apart, held⟩ := others held
    rw [invalidated_cons]
    · exact served.current other number held
    · rintro call ⟨⟩
      exact apart rfl
  case calls =>
    rw [numbered]
    exact set_forall served.calls fun number own => Option.some.inj own ▸ mem_numbers issued
  case ended =>
    refine set_forall (fun call mem other number ends => (served.ended call mem other number ends).cons _) ?_
    rintro other number ⟨rfl, rfl⟩
    exact ended
  case inserted =>
    intro key entry found
    exact (served.inserted key entry found).imp_left (mem_cons_of_mem _)
  case pools =>
    intro key entry found
    rcases served.pools key entry found with held | removing
    · by_cases own : key.connId = id
      · rw [own, current, Option.some_inj] at held
        exact .inr (set_exists_new place ⟨own.symm, held⟩)
      · exact .inl ((update_of_ne own _ _).trans held)
    · exact .inr ((set_exists place removing).resolve_left not_false)
  case own =>
    intro key number manager before ends
    rcases suffix_cons_iff.mp ends with same | earlier
    · cases same
    · exact served.own key number manager before earlier

end

end PoolState

end Ramag.RedisPools
