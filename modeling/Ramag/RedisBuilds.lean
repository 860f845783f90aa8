import Ramag.RedisPools

/-!
The build locks of the Redis connections: the requests of one key and the
current generation share one lock, although unused locks are taken out of the
map all the time (`Locked`), so that at most one of them builds (`one_build`).
-/
namespace Ramag.RedisPools
open Runs List Function

variable {κ μ : Type}

/-- The key and the generation of a request that has a reference to the lock. -/
def Call.Shares (key : PoolKey κ) (gen lock : Nat) : Call κ μ → Prop
  | .waiting key' gen' lock' | .locked key' gen' lock' | .valid key' gen' lock'
  | .buildingAlone key' gen' lock' | .building key' gen' lock' | .built key' gen' lock' _
  | .writing key' gen' lock' _ | .written key' gen' lock' _ | .undoing key' gen' lock' _ =>
    key' = key ∧ gen' = gen ∧ lock' = lock
  | .enforcing key' gen' lock' _ | .trimming key' gen' lock' _ _ => key' = key ∧ gen' = gen ∧ lock' = some lock
  | _ => False

/-- The lock that the request holds. -/
def Call.guard : Call κ μ → Option Nat
  | .waiting .. => none
  | call => call.lock

/-- The request is building for this key and generation. -/
def Call.builds [DecidableEq κ] (key : PoolKey κ) (gen : Nat) : Call κ μ → Bool
  | .buildingAlone key' gen' _ | .building key' gen' _ => key' = key ∧ gen' = gen
  | _ => false

variable {key : PoolKey κ} {gen : Nat} {call : Call κ μ}

theorem Call.Shares.lock_eq {lock : Nat} (shares : call.Shares key gen lock) : call.lock = some lock := by
  cases call <;> first | exact shares.elim | exact congrArg some shares.2.2 | exact shares.2.2

theorem Call.Shares.worksFor_eq {lock : Nat} (shares : call.Shares key gen lock) : call.worksFor = some gen := by
  cases call <;> first | exact shares.elim | exact congrArg some shares.2.1

theorem Call.builds_shares [DecidableEq κ] (builds : call.builds key gen = true) : ∃ lock, call.Shares key gen lock ∧ call.guard = some lock := by
  cases call with
  | buildingAlone key' gen' lock | building key' gen' lock =>
    obtain ⟨rfl, rfl⟩ := of_decide_eq_true builds
    exact ⟨lock, ⟨rfl, rfl, rfl⟩, rfl⟩
  | _ => cases builds

namespace PoolState

/-- What is known of the build locks. -/
structure Locked (s : PoolState κ μ) : Prop where
  /-- The requests of the current generation have the lock that is in the map. -/
  shared : ∀ call ∈ s.calls, ∀ key gen lock, call.Shares key gen lock →
    s.cache.generations key.connId = some gen → s.cache.buildLocks (key, gen) = some lock
  low : ∀ call ∈ s.calls, ∀ lock, call.lock = some lock → lock < s.locks.length
  mapped : ∀ key lock, s.cache.buildLocks key = some lock → lock < s.locks.length
  /-- A lock is held by one call at most, and only while it is taken. -/
  single : ∀ lock, (s.calls.countP fun call => call.guard = some lock) ≤ if s.locks[lock]? = some true then 1 else 0

variable {s s' : PoolState κ μ} {i : Nat} {old new : Call κ μ}

theorem Locked.goOn (locked : s.Locked) (place : s.calls[i]? = some old)
    (shares : ∀ key gen lock, new.Shares key gen lock → old.Shares key gen lock := by
      first | exact fun _ _ _ => id | exact fun _ _ _ => False.elim)
    (lock : ∀ lock, new.lock = some lock → old.lock = some lock := by first | exact fun _ => id | exact nofun)
    (guard : ∀ lock, new.guard = some lock → old.guard = some lock := by first | exact fun _ => id | exact nofun) :
    (s.goOn i new).Locked where
  shared := set_forall locked.shared fun key gen lock own =>
    locked.shared old (mem_of_getElem? place) key gen lock (shares key gen lock own)
  low := set_forall locked.low fun number own => locked.low old (mem_of_getElem? place) number (lock number own)
  mapped := locked.mapped
  single := by
    intro number
    have moved := countP_set_add (fun call => decide (call.guard = some number)) new place
    refine Nat.le_trans ?_ (locked.single number)
    by_cases taken : new.guard = some number
    · simp only [taken, guard number taken, decide_true, if_true] at moved
      exact (Nat.add_right_cancel moved).le
    · simp only [taken, decide_false, Bool.false_eq_true, if_false] at moved
      show List.countP _ (s.calls.set i new) ≤ _
      omega

theorem Locked.endWith (locked : s.Locked) (place : s.calls[i]? = some old) (answer : Option μ) : (s.endWith i old.guard answer).Locked := by
  have gone : (s.goOn i (.finished answer)).Locked :=
    locked.goOn place (fun _ _ _ => False.elim) nofun nofun
  cases own : old.guard with
  | none => exact gone
  | some lock =>
    refine ⟨gone.shared, ?_, ?_, fun number => ?_⟩
    · intro call mem number held
      show number < (s.locks.set lock false).length
      rw [length_set]
      exact gone.low call mem number held
    · intro key number held
      show number < (s.locks.set lock false).length
      rw [length_set]
      exact gone.mapped key number held
    · show List.countP _ (s.calls.set i (.finished answer)) ≤ if (s.locks.set lock false)[number]? = some true then 1 else 0
      by_cases same : number = lock
      · subst same
        have moved := countP_set_add (fun call => decide (call.guard = some number)) (.finished answer) place
        have before := locked.single number
        have free : (Call.finished answer : Call κ μ).guard = none := rfl
        simp only [own, free, decide_true, if_true, reduceCtorEq, decide_false, Bool.false_eq_true, if_false] at moved
        split at before <;> omega
      · rw [getElem?_set_ne (Ne.symm same)]
        exact gone.single number

variable {key : PoolKey κ} {gen : Nat}

section
variable (locked : s.Locked)
include locked

theorem Locked.take {lock : Nat} (place : s.calls[i]? = some (.waiting key gen lock)) (free : s.locks[lock]? = some false) :
    ({ s with locks := s.locks.set lock true }.goOn i (.locked key gen lock)).Locked where
  shared := set_forall locked.shared fun key' gen' lock' own => locked.shared _ (mem_of_getElem? place) key' gen' lock' own
  low := by
    show ∀ call ∈ s.calls.set i _, ∀ number, _ → number < (s.locks.set lock true).length
    rw [length_set]
    exact set_forall locked.low fun number own => locked.low _ (mem_of_getElem? place) number own
  mapped := by
    intro key number held
    show number < (s.locks.set lock true).length
    rw [length_set]
    exact locked.mapped key number held
  single := by
    intro number
    show List.countP _ (s.calls.set i (.locked key gen lock)) ≤ if (s.locks.set lock true)[number]? = some true then 1 else 0
    have moved := countP_set_add (fun call => decide (call.guard = some number)) (.locked key gen lock) place
    have before := locked.single number
    have waits : (Call.waiting key gen lock : Call κ μ).guard = none := rfl
    have holds : (Call.locked key gen lock : Call κ μ).guard = some lock := rfl
    simp only [waits, holds, reduceCtorEq, decide_false, Bool.false_eq_true, if_false, Option.some.injEq, Nat.add_zero] at moved
    by_cases same : number = lock
    · subst same
      obtain ⟨inside, -⟩ := List.getElem?_eq_some_iff.mp free
      rw [free] at before
      rw [List.getElem?_set_self inside, if_pos rfl]
      simp only [Option.some.injEq, Bool.false_eq_true, if_false] at before
      simp only [decide_true, if_true] at moved
      omega
    · rw [getElem?_set_ne (Ne.symm same)]
      simp only [Ne.symm same, decide_false, Bool.false_eq_true, if_false] at moved
      omega

theorem Locked.same (generations : ∀ id gen, s'.cache.generations id = some gen →
      s.cache.generations id = some gen ∨ ∀ call ∈ s.calls, call.worksFor ≠ some gen := by exact fun _ _ => .inl)
    (calls : s'.calls = s.calls := by rfl) (locks : s'.locks = s.locks := by rfl)
    (buildLocks : s'.cache.buildLocks = s.cache.buildLocks := by rfl) : s'.Locked where
  shared := by
    rw [calls, buildLocks]
    intro call mem key gen lock shares current
    rcases generations key.connId gen current with before | unused
    · exact locked.shared call mem key gen lock shares before
    · exact absurd shares.worksFor_eq (unused call mem)
  low := by
    rw [calls, locks]
    exact locked.low
  mapped := by
    rw [buildLocks, locks]
    exact locked.mapped
  single := by
    rw [calls, locks]
    exact locked.single

theorem Locked.arrive {call : Call κ μ} (free : call.lock = none) (guard : call.guard = none)
    (unshared : ∀ key gen lock, ¬ call.Shares key gen lock) : Locked { s with calls := s.calls ++ [call] } where
  shared := by
    intro other mem key gen lock shares
    rcases mem_append.mp mem with there | same
    · exact locked.shared other there key gen lock shares
    · exact absurd (mem_singleton.mp same ▸ shares) (unshared key gen lock)
  low := by
    intro other mem lock own
    rcases mem_append.mp mem with there | same
    · exact locked.low other there lock own
    · simp [mem_singleton.mp same, free] at own
  mapped := locked.mapped
  single := by
    intro lock
    simp only [countP_append, countP_singleton, guard, reduceCtorEq, decide_false, Bool.false_eq_true, if_false, Nat.add_zero]
    exact locked.single lock

theorem Locked.sweep : Locked { s with cache := s.cache.sweepLocks s.lockHeld } where
  shared := by
    intro call mem key gen lock shares current
    show (s.cache.buildLocks (key, gen)).filter s.lockHeld = some lock
    have used : s.lockHeld lock = true := any_eq_true.mpr ⟨call, mem, decide_eq_true shares.lock_eq⟩
    rw [locked.shared call mem key gen lock shares current, Option.filter_some_pos used]
  low := locked.low
  mapped := by
    intro key lock held
    exact locked.mapped key lock (Option.filter_eq_some_iff.mp held).1
  single := locked.single

theorem Locked.releaseLocks {id : κ} [DecidableEq κ]
    (ended : s.cache.generations id ≠ some gen) : Locked { s with cache := s.cache.releaseLocks id gen } where
  shared := by
    intro call mem key number lock shares current
    have apart : key.connId ≠ id ∨ number ≠ gen := by
      by_cases same : key.connId = id
      · refine .inr ?_
        rintro rfl
        exact ended (same ▸ current)
      · exact .inl same
    exact (if_pos apart).trans (locked.shared call mem key number lock shares current)
  low := locked.low
  mapped := by
    intro key lock held
    by_cases apart : key.1.connId ≠ id ∨ key.2 ≠ gen
    · exact locked.mapped key lock ((if_pos apart).symm.trans held)
    · cases (if_neg apart).symm.trans held
  single := locked.single

theorem Locked.wait {lock : Nat} (place : s.calls[i]? = some old) (mapped : s.cache.buildLocks (key, gen) = some lock) :
    (s.goOn i (.waiting key gen lock)).Locked where
  shared := by
    refine set_forall locked.shared ?_
    rintro key' gen' lock' ⟨rfl, rfl, rfl⟩ -
    exact mapped
  low := by
    refine set_forall locked.low ?_
    rintro number ⟨⟩
    exact locked.mapped _ _ mapped
  mapped := locked.mapped
  single := by
    intro number
    have moved := countP_set_add (fun call => decide (call.guard = some number)) (.waiting key gen lock) place
    have waits : (Call.waiting key gen lock : Call κ μ).guard = none := rfl
    simp only [waits, reduceCtorEq, decide_false, Bool.false_eq_true, if_false, Nat.add_zero] at moved
    exact Nat.le_trans (moved ▸ Nat.le_add_right ..) (locked.single number)

theorem Locked.addLock {key : PoolKey κ × Nat} [DecidableEq κ] (empty : s.cache.buildLocks key = none) : Locked { s with
      cache := { s.cache with buildLocks := update s.cache.buildLocks key (some s.locks.length) }
      locks := s.locks ++ [false] } where
  shared := by
    intro call mem key' gen lock shares current
    have before := locked.shared call mem key' gen lock shares current
    have other : (key', gen) ≠ key := by
      rintro rfl
      simp [empty] at before
    exact (update_of_ne other ..).trans before
  low := by
    intro call mem lock own
    rw [length_append]
    exact Nat.lt_succ_of_lt (locked.low call mem lock own)
  mapped := by
    intro key' lock held
    change update s.cache.buildLocks key (some s.locks.length) key' = some lock at held
    rw [length_append]
    by_cases same : key' = key
    · rw [same, update_self, Option.some_inj] at held
      exact held ▸ Nat.lt_succ_self _
    · rw [update_of_ne same] at held
      exact Nat.lt_succ_of_lt (locked.mapped key' lock held)
  single := by
    intro lock
    refine Nat.le_trans (locked.single lock) ?_
    by_cases taken : s.locks[lock]? = some true
    · obtain ⟨inside, -⟩ := List.getElem?_eq_some_iff.mp taken
      have stays : (s.locks ++ [false])[lock]? = some true := by rw [List.getElem?_append_left inside, taken]
      rw [if_pos taken, if_pos stays]
    · rw [if_neg taken]
      exact Nat.zero_le _

theorem Locked.join [DecidableEq κ] (place : s.calls[i]? = some old) : Locked ({ s with
      cache := (s.cache.buildLock key gen s.locks.length).2
      locks := if (s.cache.buildLock key gen s.locks.length).1 < s.locks.length then s.locks else s.locks ++ [false] }.goOn i
        (.waiting key gen (s.cache.buildLock key gen s.locks.length).1)) := by
  unfold PoolCache.buildLock
  split
  case h_1 lock held =>
    rw [if_pos (locked.mapped _ _ held)]
    exact locked.wait place held
  case h_2 empty =>
    rw [if_neg (Nat.lt_irrefl _)]
    exact (locked.addLock empty).wait place (update_self ..)

/-- At most one request of the current generation builds for a key. -/
theorem Locked.one_build [DecidableEq κ] (current : s.cache.generations key.connId = some gen) : s.calls.countP (·.builds key gen) ≤ 1 := by
  by_cases idle : ∃ call ∈ s.calls, call.builds key gen = true
  · obtain ⟨call, mem, builds⟩ := idle
    obtain ⟨lock, shares, -⟩ := Call.builds_shares builds
    have mapped := locked.shared call mem key gen lock shares current
    have under : s.calls.countP (·.builds key gen) ≤ s.calls.countP fun call => call.guard = some lock := by
      refine countP_mono_left fun other mem builds => ?_
      obtain ⟨lock', shares, guard⟩ := Call.builds_shares builds
      have mapped' := locked.shared other mem key gen lock' shares current
      rw [mapped, Option.some_inj] at mapped'
      exact decide_eq_true (mapped' ▸ guard)
    have one := locked.single lock
    split at one <;> omega
  · have none : s.calls.countP (·.builds key gen) = 0 := countP_eq_zero.mpr fun call mem builds => idle ⟨call, mem, builds⟩
    omega

end

end PoolState

/-! ### The bound on the cached databases -/

/-- The event is a use of the entry: a lookup that found it, or its write. -/
def Event.Uses (key : PoolKey κ) : Event κ μ → Prop
  | .inserted key' _ _ | .returned key' _ _ => key' = key
  | _ => False

/-- The call will still take a snapshot of the entries of this generation. -/
def Call.Enforces (id : κ) (gen : Nat) : Call κ μ → Prop
  | .written key gen' _ _ | .enforcing key gen' _ _ => key.connId = id ∧ gen' = gen
  | _ => False

/-- The call still removes these entries of its snapshot. -/
def Call.Trims (id : κ) (gen : Nat) (candidates : List (PoolKey κ × Nat)) : Call κ μ → Prop
  | .trimming key gen' _ _ candidates' => key.connId = id ∧ gen' = gen ∧ candidates' = candidates
  | _ => False

section
variable [DecidableEq κ]

/-- An entry of the generation that the candidates do not name. -/
def PoolCache.spares (cache : PoolCache κ μ) (id : κ) (gen : Nat) (candidates : List (PoolKey κ × Nat)) (db : Fin 256) : Bool :=
  (cache.pools ⟨id, db⟩).any fun entry => entry.generation = gen ∧ (⟨id, db⟩, entry.lastUsed) ∉ candidates

/-- How many entries there will be when the candidates are removed. -/
def PoolCache.spared (cache : PoolCache κ μ) (id : κ) (gen : Nat) (candidates : List (PoolKey κ × Nat)) : Nat :=
  (List.finRange 256).countP (cache.spares id gen candidates)

variable {cache cache' : PoolCache κ μ} {id : κ} {gen : Nat} {keep : PoolKey κ}

theorem spares_iff {candidates : List (PoolKey κ × Nat)} {db : Fin 256} : cache.spares id gen candidates db = true ↔
    ∃ entry, cache.pools ⟨id, db⟩ = some entry ∧ entry.generation = gen ∧ (⟨id, db⟩, entry.lastUsed) ∉ candidates := by
  unfold PoolCache.spares
  cases cache.pools ⟨id, db⟩ <;> simp

variable {entry : PoolKey κ × Nat}

omit [DecidableEq κ] in
theorem mem_entriesOf : entry ∈ cache.entriesOf id gen ↔
    entry.1.connId = id ∧ ∃ cached, cache.pools entry.1 = some cached ∧ cached.generation = gen ∧ cached.lastUsed = entry.2 := by
  obtain ⟨⟨own, db⟩, used⟩ := entry
  simp only [PoolCache.entriesOf, mem_filterMap, mem_finRange, true_and, Option.bind_eq_some_iff]
  constructor
  · rintro ⟨db', cached, found, held⟩
    split at held
    case isTrue same =>
      cases held
      exact ⟨rfl, cached, found, same, rfl⟩
    case isFalse => cases held
  · rintro ⟨rfl, cached, found, same, rfl⟩
    exact ⟨db, cached, found, if_pos same⟩

omit [DecidableEq κ] in
theorem entriesOf_keys : ((cache.entriesOf id gen).map Prod.fst).Nodup := by
  unfold PoolCache.entriesOf
  rw [map_filterMap]
  refine List.Nodup.filterMap ?_ (nodup_finRange 256)
  intro a b key inA inB
  simp only [Option.mem_def, Option.map_eq_some_iff, Option.bind_eq_some_iff] at inA inB
  obtain ⟨_, ⟨_, -, heldA⟩, rfl⟩ := inA
  obtain ⟨_, ⟨_, -, heldB⟩, same⟩ := inB
  split at heldA <;> cases heldA
  split at heldB <;> cases heldB
  exact (PoolKey.mk.inj same).2.symm

variable {entries : List (PoolKey κ × Nat)} {maxEntries : Nat}

theorem candidates_sub (mem : entry ∈ lruEvictionCandidates entries keep maxEntries) : entry ∈ entries ∧ entry.1 ≠ keep := by
  unfold lruEvictionCandidates at mem
  dsimp only at mem
  split at mem
  · cases mem
  · have sorted := (mem_insertionSort usedBefore).mp (mem_of_mem_take mem)
    obtain ⟨there, other⟩ := mem_filter.mp sorted
    exact ⟨there, of_decide_eq_true other⟩

theorem candidates_length (keys : (entries.map Prod.fst).Nodup)
    (held : 0 < maxEntries) : (lruEvictionCandidates entries keep maxEntries).length = entries.length - maxEntries := by
  unfold lruEvictionCandidates
  dsimp only
  split
  case isTrue none => rw [none, length_nil]
  case isFalse =>
    rw [length_take, length_insertionSort]
    have once : entries.countP (fun entry => decide (entry.1 = keep)) ≤ 1 := by
      have one := nodup_iff_count_le_one.mp keys keep
      rw [List.count, countP_map] at one
      refine Nat.le_trans (Nat.le_of_eq (countP_congr fun entry _ => ?_)) one
      simp
    have parts := length_eq_countP_add_countP (fun entry : PoolKey κ × Nat => decide (entry.1 = keep)) (l := entries)
    have rest : entries.countP (fun entry => decide ¬ decide (entry.1 = keep) = true) =
        (entries.filter fun entry => entry.1 ≠ keep).length := by
      rw [countP_eq_length_filter]
      simp
    omega

theorem candidates_nodup (keys : (entries.map Prod.fst).Nodup) : (lruEvictionCandidates entries keep maxEntries).Nodup := by
  have own : entries.Nodup := List.Nodup.of_map _ keys
  unfold lruEvictionCandidates
  dsimp only
  split
  · exact nodup_nil
  · have sorted := (perm_insertionSort usedBefore (entries.filter fun entry => entry.1 ≠ keep)).nodup_iff.mpr (own.filter _)
    exact sorted.sublist (take_sublist _ _)

theorem spared_snapshot : cache.spared id gen
    (lruEvictionCandidates (cache.entriesOf id gen) keep MAX_CACHED_DBS_PER_CONNECTION) ≤ MAX_CACHED_DBS_PER_CONNECTION := by
  have keys : ((cache.entriesOf id gen).map Prod.fst).Nodup := entriesOf_keys
  have length : (lruEvictionCandidates (cache.entriesOf id gen) keep MAX_CACHED_DBS_PER_CONNECTION).length = _ :=
    candidates_length keys (by decide)
  generalize named : lruEvictionCandidates (cache.entriesOf id gen) keep MAX_CACHED_DBS_PER_CONNECTION = candidates at length ⊢
  have counted : cache.spared id gen candidates = (cache.entriesOf id gen).countP fun entry => decide (entry ∉ candidates) := by
    unfold PoolCache.spared PoolCache.entriesOf
    rw [countP_filterMap]
    refine countP_congr fun db _ => ?_
    rw [spares_iff]
    cases cache.pools ⟨id, db⟩ with
    | none => simp
    | some entry => by_cases same : entry.generation = gen <;> simp [same]
  have inside : candidates.length ≤ (cache.entriesOf id gen).countP fun entry => decide (entry ∈ candidates) := by
    rw [countP_eq_length_filter]
    refine (subperm_of_subset (named ▸ candidates_nodup keys) fun entry mem => ?_).length_le
    exact mem_filter.mpr ⟨(candidates_sub (named ▸ mem)).1, decide_eq_true mem⟩
  have parts := length_eq_countP_add_countP (fun entry => decide (entry ∈ candidates)) (l := cache.entriesOf id gen)
  have rest : (cache.entriesOf id gen).countP (fun entry => decide ¬ decide (entry ∈ candidates) = true) =
      (cache.entriesOf id gen).countP fun entry => decide (entry ∉ candidates) := by
    simp
  omega

end

/-! ### Each step -/

namespace PoolState
variable [DecidableEq κ]

/-- A snapshot is still to come, or the last one is carried out. -/
def Bounded (s : PoolState κ μ) (id : κ) (gen : Nat) : Prop :=
  (∃ call ∈ s.calls, call.Enforces id gen) ∨
    ∃ candidates, (candidates = [] ∨ ∃ call ∈ s.calls, call.Trims id gen candidates) ∧
      s.cache.spared id gen candidates ≤ MAX_CACHED_DBS_PER_CONNECTION

omit [DecidableEq κ] in
/-- What `enforce_pool_limit` evicts is not the entry of the request, and was not
    used since the snapshot. -/
def Unused (log : List (Event κ μ)) (call : Nat) (key : PoolKey κ) : Prop :=
  ∃ keep after earlier, log = after ++ .snapshot call keep :: earlier ∧ key ≠ keep ∧ ∀ event ∈ after, ¬ event.Uses key

structure Limited (s : PoolState κ μ) : Prop where
  stamps : ∀ key entry, s.cache.pools key = some entry → entry.lastUsed < s.cache.accessClock
  /-- A candidate that was used since the snapshot has another time of use by now. -/
  trims : ∀ i key gen lock manager candidates, s.calls[i]? = some (.trimming key gen lock manager candidates) →
    ∃ after earlier, s.log = after ++ .snapshot i key :: earlier ∧ ∀ candidate ∈ candidates, candidate.1 ≠ key ∧
      candidate.2 < s.cache.accessClock ∧ ∀ event ∈ after, event.Uses candidate.1 →
        ∀ entry, s.cache.pools candidate.1 = some entry → candidate.2 < entry.lastUsed
  past : ∀ call key before, (.trimmed call key :: before) <:+ s.log → Unused before call key
  bound : ∀ id gen, s.cache.generations id = some gen → s.Bounded id gen

variable {s s' : PoolState κ μ} {i : Nat} {old new : Call κ μ} {id : κ} {gen : Nat}

variable {candidates : List (PoolKey κ × Nat)}

theorem spared_mono {cache cache' : PoolCache κ μ} {candidates' : List (PoolKey κ × Nat)}
    (fewer : ∀ db, cache'.spares id gen candidates' db = true → cache.spares id gen candidates db = true) :
    cache'.spared id gen candidates' ≤ cache.spared id gen candidates :=
  countP_mono_left fun db _ => fewer db

theorem Bounded.shrink (bounded : s.Bounded id gen) (calls : s'.calls = s.calls)
    (fewer : ∀ db entry, s'.cache.pools ⟨id, db⟩ = some entry → entry.generation = gen → s.cache.pools ⟨id, db⟩ = some entry) :
    s'.Bounded id gen := by
  unfold Bounded
  rw [calls]
  refine bounded.imp_right ?_
  rintro ⟨candidates, trims, few⟩
  refine ⟨candidates, trims, Nat.le_trans (spared_mono fun db spares => ?_) few⟩
  obtain ⟨entry, found, same, spared⟩ := spares_iff.mp spares
  exact spares_iff.mpr ⟨entry, fewer db entry found same, same, spared⟩

theorem Bounded.goOn (bounded : s.Bounded id gen) (place : s.calls[i]? = some old) (enforces : old.Enforces id gen → new.Enforces id gen)
    (trims : ∀ candidates, old.Trims id gen candidates → candidates = []) : (s.goOn i new).Bounded id gen := by
  rcases bounded with pending | ⟨candidates, trimming, few⟩
  · refine .inl ?_
    rcases set_exists place pending with own | other
    · exact set_exists_new place (enforces own)
    · exact other
  refine .inr ⟨candidates, ?_, few⟩
  rcases trimming with none | some
  · exact .inl none
  · rcases set_exists place some with own | other
    · exact .inl (trims candidates own)
    · exact .inr other

theorem Limited.goOn (limited : s.Limited) (place : s.calls[i]? = some old)
    (enforces : ∀ id gen, s.cache.generations id = some gen → old.Enforces id gen → new.Enforces id gen := by
      first | exact fun _ _ _ => id | exact fun _ _ _ => False.elim)
    (trims : ∀ id gen candidates, old.Trims id gen candidates → candidates = [] := by exact fun _ _ _ => False.elim)
    (ends : ∀ id gen candidates, ¬ new.Trims id gen candidates := by exact fun _ _ _ => not_false) : (s.goOn i new).Limited where
  stamps := limited.stamps
  trims := by
    intro j key gen lock manager candidates there
    by_cases same : i = j
    · subst same
      obtain ⟨inside, -⟩ := List.getElem?_eq_some_iff.mp place
      have own : (s.calls.set i new)[i]? = some new := List.getElem?_set_self inside
      cases own.symm.trans there
      exact absurd ⟨rfl, rfl, rfl⟩ (ends key.connId gen candidates)
    · refine limited.trims j key gen lock manager candidates ?_
      exact (getElem?_set_ne same).symm.trans there
  past := limited.past
  bound := fun id gen current => (limited.bound id gen current).goOn place (enforces id gen current) (trims id gen)

variable {event : Event κ μ}

theorem Limited.note (limited : s.Limited) (unused : ∀ key, ¬ event.Uses key := by exact fun _ => not_false)
    (untrimmed : ∀ call key, event ≠ .trimmed call key := by rintro _ _ ⟨⟩) : Limited { s with log := event :: s.log } where
  stamps := limited.stamps
  trims := by
    intro j key gen lock manager candidates there
    obtain ⟨after, earlier, split, each⟩ := limited.trims j key gen lock manager candidates there
    refine ⟨event :: after, earlier, congrArg (event :: ·) split, fun candidate mem => ?_⟩
    obtain ⟨other, old, used⟩ := each candidate mem
    refine ⟨other, old, fun event' mem => ?_⟩
    rcases mem_cons.mp mem with rfl | before
    · exact fun uses => absurd uses (unused _)
    · exact used event' before
  past := by
    intro call key before ends
    rcases suffix_cons_iff.mp ends with same | earlier
    · exact absurd (List.cons.inj same).1.symm (untrimmed call key)
    · exact limited.past call key before earlier
  bound := limited.bound

theorem Limited.relock (limited : s.Limited) (locks : List Bool) (buildLocks : PoolKey κ × Nat → Option Nat) :
    Limited { s with locks, cache := { s.cache with buildLocks } } :=
  { limited with }

theorem Limited.arrive (limited : s.Limited) {call : Call κ μ}
    (fresh : ∀ id gen candidates, ¬ call.Trims id gen candidates) : Limited { s with calls := s.calls ++ [call] } where
  stamps := limited.stamps
  trims := by
    intro j key gen lock manager candidates there
    by_cases inside : j < s.calls.length
    · rw [getElem?_append_left inside] at there
      exact limited.trims j key gen lock manager candidates there
    · rw [getElem?_append_right (not_lt.mp inside)] at there
      have new := mem_singleton.mp (mem_of_getElem? there)
      exact absurd ⟨rfl, rfl, rfl⟩ (new ▸ fresh key.connId gen candidates)
  past := limited.past
  bound := by
    intro id gen current
    rcases limited.bound id gen current with ⟨other, mem, enforces⟩ | ⟨candidates, trimming, few⟩
    · exact .inl ⟨other, mem_append_left _ mem, enforces⟩
    · refine .inr ⟨candidates, trimming.imp_right ?_, few⟩
      rintro ⟨other, mem, trims⟩
      exact ⟨other, mem_append_left _ mem, trims⟩

theorem Limited.shrink (limited : s.Limited) (pools : PoolKey κ → Option (CachedManager μ))
    (fewer : ∀ key entry, pools key = some entry → s.cache.pools key = some entry) : Limited { s with cache := { s.cache with pools } } where
  stamps := fun key entry found => limited.stamps key entry (fewer key entry found)
  trims := by
    intro j key gen lock manager candidates there
    obtain ⟨after, earlier, split, each⟩ := limited.trims j key gen lock manager candidates there
    refine ⟨after, earlier, split, fun candidate mem => ?_⟩
    obtain ⟨other, old, used⟩ := each candidate mem
    exact ⟨other, old, fun event inside uses entry found => used event inside uses entry (fewer _ entry found)⟩
  past := limited.past
  bound := fun id gen current => (limited.bound id gen current).shrink rfl fun db entry found _ => fewer ⟨id, db⟩ entry found

variable {key : PoolKey κ} {manager : μ}

theorem Limited.use (limited : s.Limited) (below : s.cache.accessClock + 1 < 2 ^ 64) (uses : ∀ other, event.Uses other → other = key)
    (untrimmed : ∀ call other, event ≠ .trimmed call other) (pending : ∃ call ∈ s.calls, call.Enforces key.connId gen) :
    (s.write (s.cache.use key gen manager) event).Limited := by
  have clock : (s.cache.accessClock + 1) % 2 ^ 64 = s.cache.accessClock + 1 := Nat.mod_eq_of_lt below
  have entries : ∀ {other entry}, (s.cache.use key gen manager).pools other = some entry →
      other = key ∧ entry = ⟨gen, s.cache.accessClock, manager⟩ ∨ other ≠ key ∧ s.cache.pools other = some entry := by
    intro other entry found
    change Function.update s.cache.pools key _ other = some entry at found
    by_cases own : other = key
    · rw [own, Function.update_self, Option.some_inj] at found
      exact .inl ⟨own, found.symm⟩
    · rw [Function.update_of_ne own] at found
      exact .inr ⟨own, found⟩
  constructor
  case stamps =>
    intro other entry found
    show entry.lastUsed < (s.cache.accessClock + 1) % 2 ^ 64
    rw [clock]
    rcases entries found with ⟨-, rfl⟩ | ⟨-, before⟩
    · exact Nat.lt_succ_self _
    · exact Nat.lt_succ_of_lt (limited.stamps other entry before)
  case trims =>
    intro j keep number lock manager' candidates there
    obtain ⟨after, earlier, split, each⟩ := limited.trims j keep number lock manager' candidates there
    refine ⟨event :: after, earlier, congrArg (event :: ·) split, fun candidate mem => ?_⟩
    obtain ⟨other, old, used⟩ := each candidate mem
    refine ⟨other, ?_, fun event' mem' uses' entry found => ?_⟩
    · show candidate.2 < (s.cache.accessClock + 1) % 2 ^ 64
      rw [clock]
      exact Nat.lt_succ_of_lt old
    rcases entries found with ⟨-, rfl⟩ | ⟨apart, before⟩
    · exact old
    · rcases mem_cons.mp mem' with rfl | inside
      · exact absurd (uses _ uses') apart
      · exact used event' inside uses' entry before
  case past =>
    intro call other before ends
    rcases suffix_cons_iff.mp ends with same | earlier
    · exact absurd (List.cons.inj same).1.symm (untrimmed call other)
    · exact limited.past call other before earlier
  case bound =>
    intro id number current
    by_cases own : id = key.connId ∧ number = gen
    · obtain ⟨rfl, rfl⟩ := own
      exact .inl pending
    refine (limited.bound id number current).shrink rfl fun db entry found same => ?_
    rcases entries found with ⟨rfl, rfl⟩ | ⟨-, before⟩
    · exact absurd ⟨rfl, same.symm⟩ own
    · exact before

theorem Limited.takeSnapshot (limited : s.Limited) {lock : Option Nat} (place : s.calls[i]? = some (.enforcing key gen lock manager)) :
    ((s.write s.cache (.snapshot i key)).goOn i (.trimming key gen lock manager
      (lruEvictionCandidates (s.cache.entriesOf key.connId gen) key MAX_CACHED_DBS_PER_CONNECTION))).Limited := by
  have noted : (s.write s.cache (.snapshot i key)).Limited := limited.note (fun _ => not_false) nofun
  refine { noted with trims := ?_, bound := ?_ }
  · intro j keep number lock' manager' candidates there
    by_cases same : i = j
    · subst same
      obtain ⟨inside, -⟩ := List.getElem?_eq_some_iff.mp place
      have own := List.getElem?_set_self (l := s.calls) (a := .trimming key gen lock manager
        (lruEvictionCandidates (s.cache.entriesOf key.connId gen) key MAX_CACHED_DBS_PER_CONNECTION)) inside
      cases own.symm.trans there
      refine ⟨[], s.log, rfl, fun candidate mem => ?_⟩
      obtain ⟨listed, other⟩ := candidates_sub mem
      obtain ⟨-, entry, found, -, stamp⟩ := mem_entriesOf.mp listed
      exact ⟨other, stamp ▸ limited.stamps _ entry found, fun _ none => nomatch none⟩
    · exact noted.trims j keep number lock' manager' candidates ((getElem?_set_ne same).symm.trans there)
  · intro id number current
    by_cases own : key.connId = id ∧ gen = number
    · obtain ⟨rfl, rfl⟩ := own
      exact .inr ⟨_, .inr (set_exists_new place ⟨rfl, rfl, rfl⟩), spared_snapshot⟩
    · exact (noted.bound id number current).goOn place (fun enforces => absurd enforces own) fun _ => False.elim

theorem Limited.skip (limited : s.Limited) {lock : Option Nat} {candidate : PoolKey κ × Nat}
    (place : s.calls[i]? = some (.trimming key gen lock manager (candidate :: candidates)))
    (gone : ∀ entry, s.cache.pools candidate.1 = some entry → entry.generation = gen → entry.lastUsed ≠ candidate.2) :
    (s.goOn i (.trimming key gen lock manager candidates)).Limited := by
  refine { limited with trims := ?_, bound := ?_ }
  · intro j keep number lock' manager' left there
    by_cases same : i = j
    · subst same
      obtain ⟨inside, -⟩ := List.getElem?_eq_some_iff.mp place
      have own := List.getElem?_set_self (l := s.calls) (a := .trimming key gen lock manager candidates) inside
      cases own.symm.trans there
      obtain ⟨after, earlier, split, each⟩ := limited.trims i _ _ _ _ _ place
      exact ⟨after, earlier, split, fun other mem => each other (mem_cons_of_mem _ mem)⟩
    · exact limited.trims j keep number lock' manager' left ((getElem?_set_ne same).symm.trans there)
  · intro id number current
    by_cases own : key.connId = id ∧ gen = number
    · obtain ⟨rfl, rfl⟩ := own
      rcases limited.bound _ _ current with pending | ⟨left, trimming, few⟩
      · exact .inl ((set_exists place pending).resolve_left not_false)
      rcases trimming with none | some
      · exact .inr ⟨left, .inl none, few⟩
      rcases set_exists place some with ⟨-, -, same⟩ | other
      · subst same
        refine .inr ⟨candidates, .inr (set_exists_new place ⟨rfl, rfl, rfl⟩), Nat.le_trans (spared_mono fun db spares => ?_) few⟩
        obtain ⟨entry, found, same, spared⟩ := spares_iff.mp spares
        refine spares_iff.mpr ⟨entry, found, same, fun mem => ?_⟩
        rcases mem_cons.mp mem with first | later
        · exact gone entry (first ▸ found) same (congrArg Prod.snd first)
        · exact spared later
      · exact .inr ⟨left, .inr other, few⟩
    · refine (limited.bound id number current).goOn place not_false.elim fun left trims => ?_
      exact absurd ⟨trims.1, trims.2.1⟩ own

end PoolState

end Ramag.RedisPools
