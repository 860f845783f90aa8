import Ramag.RedisBuilds

/-!
What holds of the connection managers of Redis over every run in which requests
and evictions interleave (`managers_sound`). A lookup while a call still has to
remove a manager of an earlier generation breaks it, and `Fair` leaves it out.
-/
namespace Ramag.RedisPools
open Runs List Function Option

variable {κ μ : Type} [DecidableEq κ]

namespace PoolState

/-- The counter of the uses does not go round. -/
def Counts (s : PoolState κ μ) : Prop := s.cache.accessClock + 1 < 2 ^ 64

def Fair (s : PoolState κ μ) : Act κ μ → Prop
  | .move call =>
    match s.calls[call]? with
    | some (.numbered key generation) | some (.valid key generation _) => s.LooksUp key generation ∧ s.Counts
    | some (.writing _ _ _ _) => s.Counts
    | _ => True
  | _ => True

/-- What is known in every state of a fair run. -/
structure Kept (s : PoolState κ μ) : Prop where
  served : s.Served
  locked : s.Locked
  limited : s.Limited

variable {s s' : PoolState κ μ} {i : Nat} {old new : Call κ μ}

variable {cache : PoolCache κ μ} {gen : Nat}

omit [DecidableEq κ] in
theorem isCurrent_iff {id : κ} : cache.isCurrentGeneration id gen = true ↔ cache.generations id = some gen := by
  cases held : cache.generations id <;> simp [PoolCache.isCurrentGeneration, held]

variable {key : PoolKey κ}

variable {cache cache' : PoolCache κ μ} {manager : μ}

theorem getCached_some (hit : cache.getCached key gen = some (manager, cache')) :
    (∃ entry, cache.pools key = some entry ∧ entry.generation = gen ∧ entry.manager = manager) ∧ cache' = cache.use key gen manager := by
  unfold PoolCache.getCached at hit
  split at hit
  case h_1 entry found =>
    split at hit
    case isTrue same =>
      cases hit
      exact ⟨⟨entry, found, same, rfl⟩, rfl⟩
    case isFalse => cases hit
  case h_2 => cases hit

theorem writeManager_some (wrote : cache.writeManager key gen manager = some cache') : cache' = cache.use key gen manager := by
  unfold PoolCache.writeManager at wrote
  split at wrote
  · split at wrote
    · cases wrote
    · exact (Option.some.inj wrote).symm
  · exact (Option.some.inj wrote).symm

variable {lock : Option Nat}

/-- A lookup that finds a manager; the call goes on to the limit. -/
theorem Kept.hit (kept : s.Kept) (place : s.calls[i]? = some old) (allowed : s.LooksUp key gen) (counts : s.Counts)
    (works : old.worksFor = some gen) (locks : old.lock = lock) (guard : old.guard = lock)
    (shares : ∀ key' gen' lock', lock = some lock' → key = key' ∧ gen = gen' → old.Shares key' gen' lock')
    (hit : s.cache.getCached key gen = some (manager, cache)) (idle : ∀ key gen, ¬ old.Removes key gen := by exact fun _ _ => not_false)
    (enforces : ∀ id gen, ¬ old.Enforces id gen := by exact fun _ _ => not_false)
    (trims : ∀ id gen candidates, ¬ old.Trims id gen candidates := by exact fun _ _ _ => not_false) :
    ((s.write cache (.returned key gen manager)).goOn i (.enforcing key gen lock manager)).Kept := by
  obtain ⟨⟨entry, found, same, own⟩, rfl⟩ := getCached_some hit
  obtain ⟨inserted, issued⟩ := kept.served.inserted key entry found
  rw [same, own] at inserted
  have late : ¬ Earlier s.log key.connId gen := by
    intro earlier
    rcases kept.served.pools key entry found with current | removing
    · exact kept.served.current _ _ current (same ▸ earlier.invalidated)
    · exact allowed ⟨earlier, same ▸ removing, entry, found, same⟩
  refine ⟨?_, ?_, ?_⟩
  · have noted : Served { s with log := .returned key gen manager :: s.log } := by
      refine kept.served.note rfl (by rintro call id ⟨⟩) ?_
      rintro key' gen' manager' ⟨⟩
      exact ⟨inserted, late⟩
    have used : Served (s.write (s.cache.use key gen manager) (.returned key gen manager)) := by
      refine noted.keep _ _ fun other entry' there => ?_
      by_cases at' : other = key
      · rw [at', update_self, some_inj] at there
        exact ⟨entry, at' ▸ found, by rw [same, ← there], by rw [own, ← there]⟩
      · rw [update_of_ne at'] at there
        exact ⟨entry', there, rfl, rfl⟩
    refine used.goesOn place ?_ idle fun _ _ => not_false
    rintro number ⟨⟩
    exact works
  · have used : Locked (s.write (s.cache.use key gen manager) (.returned key gen manager)) :=
      kept.locked.same (fun _ _ => .inl) rfl rfl rfl
    refine used.goOn place ?_ ?_ ?_
    · rintro key' gen' lock' ⟨rfl, rfl, same⟩
      exact shares key gen lock' same ⟨rfl, rfl⟩
    · exact fun number own => locks.trans own
    · exact fun number own => guard.trans own
  · have pending : (s.goOn i (.enforcing key gen lock manager)).Limited :=
      kept.limited.goOn place (fun id number _ moved => absurd moved (enforces id number))
        (fun id number candidates moved => absurd moved (trims id number candidates)) fun _ _ _ => not_false
    exact pending.use counts (fun other uses => uses.symm) (by rintro call other ⟨⟩) (set_exists_new place ⟨rfl, rfl⟩)

omit [DecidableEq κ] in
theorem Served.release (served : s.Served) (lock : Option Nat) : (s.release lock).Served := by
  cases lock with
  | none => exact served
  | some lock => exact served.relock _ _

theorem Limited.release (limited : s.Limited) (lock : Option Nat) : (s.release lock).Limited := by
  cases lock with
  | none => exact limited
  | some lock => exact limited.relock _ _

theorem Kept.goesOn (kept : s.Kept) (place : s.calls[i]? = some old) (idle : ∀ key gen, ¬ old.Removes key gen := by exact fun _ _ => not_false)
    (works : ∀ gen, new.worksFor = some gen → old.worksFor = some gen := by first | exact fun _ => id | exact nofun)
    (ends : ∀ id gen, ¬ new.Ends id gen := by exact fun _ _ => not_false)
    (shares : ∀ key gen lock, new.Shares key gen lock → old.Shares key gen lock := by
      first | exact fun _ _ _ => id | exact fun _ _ _ => False.elim)
    (locks : ∀ lock, new.lock = some lock → old.lock = some lock := by first | exact fun _ => id | exact nofun)
    (guard : ∀ lock, new.guard = some lock → old.guard = some lock := by first | exact fun _ => id | exact nofun)
    (enforces : ∀ id gen, ¬ old.Enforces id gen := by exact fun _ _ => not_false)
    (trims : ∀ id gen candidates, ¬ old.Trims id gen candidates := by exact fun _ _ _ => not_false)
    (later : ∀ id gen candidates, ¬ new.Trims id gen candidates := by exact fun _ _ _ => not_false) : (s.goOn i new).Kept where
  served := kept.served.goesOn place works idle ends
  locked := kept.locked.goOn place shares locks guard
  limited := kept.limited.goOn place (fun id gen _ moved => absurd moved (enforces id gen))
    (fun id gen candidates moved => absurd moved (trims id gen candidates)) later

theorem Kept.endWith (kept : s.Kept) (place : s.calls[i]? = some old) (answer : Option μ) (guard : old.guard = lock)
    (removes : ∀ key entry, s.cache.pools key = some entry → old.Removes key entry.generation →
      s.cache.generations key.connId = some entry.generation := by exact fun _ _ _ => False.elim)
    (trims : ∀ id gen candidates, old.Trims id gen candidates → candidates = [] := by exact fun _ _ _ => False.elim)
    (enforces : ∀ id gen, s.cache.generations id = some gen → ¬ old.Enforces id gen := by exact fun _ _ _ => not_false) :
    (s.endWith i lock answer).Kept where
  served := by
    refine Served.release ?_ lock
    exact kept.served.goOn place nofun (fun key entry found moved => .inr (removes key entry found moved)) fun _ _ => False.elim
  locked := guard ▸ kept.locked.endWith place answer
  limited := by
    refine Limited.release ?_ lock
    exact kept.limited.goOn place (fun id gen current moved => absurd moved (enforces id gen current)) trims fun _ _ _ => not_false

variable {entry : CachedManager μ}

theorem removePool_pools {key other : PoolKey κ} (found : (cache.removePool key gen).pools other = some entry) :
    cache.pools other = some entry ∧ ¬ (other = key ∧ entry.generation = gen) := by
  unfold PoolCache.removePool at found
  split at found
  case h_1 old held =>
    split at found
    case isTrue same =>
      change update cache.pools key none other = some entry at found
      by_cases own : other = key
      · simp [own, update_self] at found
      · rw [update_of_ne own] at found
        exact ⟨found, fun both => own both.1⟩
    case isFalse differs =>
      refine ⟨found, ?_⟩
      rintro ⟨rfl, same⟩
      rw [held, some_inj] at found
      exact differs (found ▸ same)
  case h_2 empty =>
    refine ⟨found, ?_⟩
    rintro ⟨rfl, -⟩
    simp [empty] at found

theorem removePool_eq (cache : PoolCache κ μ) (key : PoolKey κ) (gen : Nat) :
    cache.removePool key gen = { cache with pools := (cache.removePool key gen).pools } := by
  unfold PoolCache.removePool
  split
  · split <;> rfl
  · rfl

variable {candidate : PoolKey κ × Nat}

theorem trim_some (removed : cache.trim gen candidate = some cache') :
    (∃ entry, cache.pools candidate.1 = some entry ∧ entry.lastUsed = candidate.2) ∧
      cache' = { cache with pools := update cache.pools candidate.1 none } := by
  unfold PoolCache.trim at removed
  split at removed
  case h_1 entry found =>
    split at removed
    case isTrue same => exact ⟨⟨entry, found, same.2⟩, (Option.some.inj removed).symm⟩
    case isFalse => cases removed
  case h_2 => cases removed

theorem trim_none (stays : cache.trim gen candidate = none) :
    ∀ entry, cache.pools candidate.1 = some entry → entry.generation = gen → entry.lastUsed ≠ candidate.2 := by
  intro entry found same used
  unfold PoolCache.trim at stays
  rw [found] at stays
  simp only [same, used, and_self, if_true, reduceCtorEq] at stays

theorem Kept.shrink (kept : s.Kept) (pools : PoolKey κ → Option (CachedManager μ))
    (fewer : ∀ key entry, pools key = some entry → s.cache.pools key = some entry) : Kept { s with cache := { s.cache with pools } } where
  served := kept.served.keep pools s.cache.accessClock fun key entry found => ⟨entry, fewer key entry found, rfl, rfl⟩
  locked := kept.locked.same (fun _ _ => .inl) rfl rfl rfl
  limited := kept.limited.shrink pools fewer

theorem Kept.trimmed (kept : s.Kept) {candidates : List (PoolKey κ × Nat)}
    (place : s.calls[i]? = some (.trimming key gen lock manager (candidate :: candidates))) (removed : s.cache.trim gen candidate = some cache) :
    ((s.write cache (.trimmed i candidate.1)).goOn i (.trimming key gen lock manager candidates)).Kept := by
  obtain ⟨⟨entry, found, stamp⟩, rfl⟩ := trim_some removed
  have fewer : ∀ other entry, update s.cache.pools candidate.1 none other = some entry → s.cache.pools other = some entry := by
    intro other entry there
    by_cases own : other = candidate.1
    · simp [own, update_self] at there
    · rwa [update_of_ne own] at there
  have shrunk := kept.shrink _ fewer
  have unused : Unused s.log i candidate.1 := by
    obtain ⟨after, earlier, split, each⟩ := kept.limited.trims i _ _ _ _ _ place
    obtain ⟨other, -, used⟩ := each candidate mem_cons_self
    refine ⟨key, after, earlier, split, other, fun event inside uses => ?_⟩
    have := used event inside uses entry found
    omega
  have noted : Kept { s with
      cache := { s.cache with pools := update s.cache.pools candidate.1 none }
      log := .trimmed i candidate.1 :: s.log } := by
    refine ⟨shrunk.served.noteQuiet rfl nofun nofun, shrunk.locked.same (fun _ _ => .inl) rfl rfl rfl, ?_⟩
    refine { shrunk.limited with trims := ?_, past := ?_ }
    · intro j keep number lock' manager' left there
      obtain ⟨after, earlier, split, each⟩ := shrunk.limited.trims j keep number lock' manager' left there
      refine ⟨.trimmed i candidate.1 :: after, earlier, congrArg (_ :: ·) split, fun other mem => ?_⟩
      obtain ⟨apart, old, used⟩ := each other mem
      refine ⟨apart, old, fun event inside => ?_⟩
      rcases mem_cons.mp inside with rfl | before
      · exact False.elim
      · exact used event before
    · intro call other before ends
      rcases suffix_cons_iff.mp ends with same | earlier
      · cases same
        exact unused
      · exact shrunk.limited.past call other before earlier
  refine ⟨noted.served.goesOn place (fun _ => id) (fun _ _ => not_false) fun _ _ => not_false,
    noted.locked.goOn place (fun _ _ _ => id) (fun _ => id) fun _ => id, noted.limited.skip place fun other there => ?_⟩
  change update s.cache.pools candidate.1 none candidate.1 = some other at there
  simp [update_self] at there

theorem buildLock_eq (cache : PoolCache κ μ) (key : PoolKey κ) (gen fresh : Nat) :
    (cache.buildLock key gen fresh).2 = { cache with buildLocks := (cache.buildLock key gen fresh).2.buildLocks } := by
  unfold PoolCache.buildLock
  split <;> rfl

theorem Kept.issue (kept : s.Kept) {id : κ} (absent : s.cache.generations id = none) : Kept { s with
      cache := { s.cache with
        generations := update s.cache.generations id (some (s.cache.generationClock + 1))
        generationClock := s.cache.generationClock + 1 }
      log := .issued id (s.cache.generationClock + 1) :: s.log } := by
  have fresh : s.cache.generationClock + 1 ∉ numbers s.log := by
    intro there
    have := kept.served.low _ there
    omega
  have held : ∀ {other number}, update s.cache.generations id (some (s.cache.generationClock + 1)) other = some number →
      s.cache.generations other = some number ∨ number = s.cache.generationClock + 1 := by
    intro other number current
    by_cases own : other = id
    · rw [own, update_self, some_inj] at current
      exact .inr current.symm
    · rw [update_of_ne own] at current
      exact .inl current
  have noted : Limited { s with log := .issued id (s.cache.generationClock + 1) :: s.log } :=
    kept.limited.note (fun _ => not_false) nofun
  refine ⟨kept.served.issue absent, kept.locked.same (fun other number current => ?_) rfl rfl rfl, { noted with bound := ?_ }⟩
  · refine (held current).imp_right ?_
    rintro rfl call mem works
    exact fresh (kept.served.calls call mem _ works)
  intro other number current
  rcases held current with before | rfl
  · exact noted.bound other number before
  refine .inr ⟨[], .inl rfl, ?_⟩
  have none : s.cache.spared other (s.cache.generationClock + 1) [] = 0 := by
    refine countP_eq_zero.mpr fun db _ spares => ?_
    obtain ⟨entry, found, same, -⟩ := spares_iff.mp spares
    exact fresh (same ▸ (kept.served.inserted _ entry found).2)
  exact Nat.le_trans (Nat.le_of_eq none) (Nat.zero_le _)

variable {call : Call κ μ}

theorem move_kept (kept : s.Kept) (place : s.calls[i]? = some call)
    (fair : s.Fair (.move i)) (moved : s.move i call = some s') (below : (numbers s'.log).length < 2 ^ 64) : s'.Kept := by
  cases call with
  | requested key =>
    simp only [move, PoolCache.generationForRequest] at moved
    cases held : s.cache.generations key.connId with
    | some gen =>
      simp only [held, isNone_some, Bool.false_eq_true, if_false, some_inj] at moved
      subst moved
      refine ⟨kept.served.goOn place ?_, kept.locked.goOn place, kept.limited.goOn place⟩
      rintro number ⟨⟩
      exact mem_numbers (kept.served.known _ _ held)
    | none =>
      simp only [held, isNone_none, if_true, some_inj] at moved
      subst moved
      have next : nextGeneration s.cache.generationClock = s.cache.generationClock + 1 := by
        refine nextGeneration_succ ?_
        rw [kept.served.counted]
        exact below
      rw [next]
      have issued := kept.issue held
      refine ⟨issued.served.goOn place ?_, issued.locked.goOn place, issued.limited.goOn place⟩
      rintro number ⟨⟩
      exact mem_cons_self
  | numbered key gen =>
    simp only [Fair, place] at fair
    simp only [move] at moved
    split at moved
    case h_1 manager cache hit =>
      cases moved
      exact kept.hit place fair.1 fair.2 rfl rfl rfl nofun hit
    case h_2 =>
      cases moved
      exact kept.goesOn place
  | missed key gen =>
    cases moved
    have swept : Kept { s with cache := s.cache.sweepLocks s.lockHeld } :=
      ⟨kept.served.relock _ _, kept.locked.sweep, kept.limited.relock _ _⟩
    exact swept.goesOn place
  | swept key gen =>
    cases moved
    have served : ∀ cache locks lock, cache = { s.cache with buildLocks := cache.buildLocks } →
        ({ s with cache, locks }.goOn i (.waiting key gen lock)).Served := by
      intro cache locks lock same
      rw [same]
      exact (kept.served.relock _ _).goesOn place
    have limited : ∀ cache locks lock, cache = { s.cache with buildLocks := cache.buildLocks } →
        ({ s with cache, locks }.goOn i (.waiting key gen lock)).Limited := by
      intro cache locks lock same
      rw [same]
      exact (kept.limited.relock _ _).goOn place
    have same := buildLock_eq s.cache key gen s.locks.length
    exact ⟨served _ _ _ same, kept.locked.join place, limited _ _ _ same⟩
  | waiting key gen lock =>
    simp only [move] at moved
    split at moved
    case isTrue free =>
      cases moved
      refine ⟨?_, kept.locked.take place free, ?_⟩
      · exact (kept.served.relock _ _).goesOn place
      · exact (kept.limited.relock _ _).goOn place
    case isFalse => cases moved
  | locked key gen lock =>
    simp only [move] at moved
    split at moved <;> cases moved <;> exact kept.goesOn place
  | valid key gen lock =>
    simp only [Fair, place] at fair
    simp only [move] at moved
    split at moved
    case h_1 manager cache hit =>
      cases moved
      refine kept.hit place fair.1 fair.2 rfl rfl rfl ?_ hit
      rintro _ _ _ ⟨⟩ ⟨rfl, rfl⟩
      exact ⟨rfl, rfl, rfl⟩
    case h_2 =>
      cases moved
      exact kept.goesOn place
  | built key gen lock manager =>
    simp only [move] at moved
    split at moved
    · cases moved
      exact kept.goesOn place
    · cases moved
      exact kept.endWith place _ rfl
  | writing key gen lock manager =>
    simp only [Fair, place] at fair
    simp only [move] at moved
    split at moved
    case h_1 cache wrote =>
      cases moved
      rw [writeManager_some wrote]
      refine ⟨?_, ?_, ?_⟩
      · have noted : Served { s with log := .inserted key gen manager :: s.log } := kept.served.noteQuiet rfl
        have gone : ({ s with log := .inserted key gen manager :: s.log }.goOn i (.written key gen lock manager)).Served :=
          noted.goesOn place
        have removes : (Call.written key gen lock manager).Removes key gen := ⟨rfl, rfl⟩
        exact gone.write mem_cons_self (noted.calls _ (mem_of_getElem? place) _ rfl) (removing_new place removes)
      · have used : Locked (s.write (s.cache.use key gen manager) (.inserted key gen manager)) := kept.locked.same
        exact used.goOn place
      · have pending : (s.goOn i (.written key gen lock manager)).Limited := kept.limited.goOn place
        exact pending.use fair (fun other uses => uses.symm) (by rintro call other ⟨⟩) (set_exists_new place ⟨rfl, rfl⟩)
    case h_2 =>
      cases moved
      exact kept.endWith place _ rfl
  | written key gen lock manager =>
    simp only [move] at moved
    have known := kept.served.calls _ (mem_of_getElem? place) gen rfl
    split at moved
    case isTrue current =>
      cases moved
      refine ⟨kept.served.goOn place ?_ ?_, kept.locked.goOn place ?_, kept.limited.goOn place⟩
      · rintro number ⟨⟩
        exact known
      · rintro other entry found ⟨rfl, rfl⟩
        exact .inr (isCurrent_iff.mp current)
      · rintro key' gen' lock' ⟨rfl, rfl, same⟩
        exact ⟨rfl, rfl, Option.some.inj same⟩
    case isFalse stale =>
      cases moved
      refine ⟨kept.served.goOn place ?_, kept.locked.goOn place, kept.limited.goOn place ?_⟩
      · rintro number ⟨⟩
        exact known
      · rintro id number current ⟨rfl, rfl⟩
        exact absurd (isCurrent_iff.mpr current) stale
  | undoing key gen lock manager =>
    cases moved
    rw [removePool_eq]
    refine (kept.shrink _ fun other entry found => (removePool_pools found).1).endWith place _ rfl ?_
    rintro other entry found ⟨rfl, same⟩
    exact absurd ⟨rfl, same.symm⟩ (removePool_pools found).2
  | enforcing key gen lock manager =>
    cases moved
    refine ⟨?_, ?_, kept.limited.takeSnapshot place⟩
    · have noted : (s.write s.cache (.snapshot i key)).Served := kept.served.noteQuiet rfl
      exact noted.goesOn place
    · have noted : (s.write s.cache (.snapshot i key)).Locked := kept.locked.same
      exact noted.goOn place
  | trimming key gen lock manager candidates =>
    cases candidates with
    | nil =>
      cases moved
      refine kept.endWith place _ rfl (fun _ _ _ => False.elim) ?_
      rintro id number left ⟨-, -, same⟩
      exact same.symm
    | cons candidate candidates =>
      simp only [move] at moved
      split at moved
      case h_1 cache removed =>
        cases moved
        exact kept.trimmed place removed
      case h_2 stays =>
        cases moved
        exact ⟨kept.served.goesOn place, kept.locked.goOn place, kept.limited.skip place (trim_none stays)⟩
  | evicting id =>
    simp only [move, PoolCache.invalidate] at moved
    cases held : s.cache.generations id with
    | some gen =>
      simp only [held, map_some, some_inj] at moved
      subst moved
      have fewer : ∀ other number, update s.cache.generations id none other = some number →
          s.cache.generations other = some number := by
        intro other number current
        by_cases own : other = id
        · simp [own, update_self] at current
        · rwa [update_of_ne own] at current
      have noted : (s.write s.cache (.evicting i id)).Limited := kept.limited.note
      refine ⟨kept.served.invalidate place held, ?_, ?_⟩
      · have ended : Locked (s.write { s.cache with generations := update s.cache.generations id none } (.evicting i id)) :=
          kept.locked.same fun other number current => .inl (fewer other number current)
        exact ended.goOn place
      · have ended : Limited (s.write { s.cache with generations := update s.cache.generations id none } (.evicting i id)) :=
          { noted with bound := fun other number current => noted.bound other number (fewer other number current) }
        exact ended.goOn place
    | none =>
      simp only [held, map_none, some_inj] at moved
      subst moved
      have evicting : Kept { s with log := .evicting i id :: s.log } := by
        refine ⟨kept.served.note rfl ?_, kept.locked.same, kept.limited.note⟩
        rintro call other ⟨⟩
        exact held
      have evicted : Kept { s with log := .evicted i :: .evicting i id :: s.log } :=
        ⟨evicting.served.noteQuiet rfl,
          evicting.locked.same, evicting.limited.note⟩
      exact evicted.goesOn place
  | unlocking id gen =>
    cases moved
    have ended := kept.served.ended _ (mem_of_getElem? place)
    refine ⟨(kept.served.relock _ _).goOn place ?_ (fun _ _ _ => .inl) ended,
      (kept.locked.releaseLocks (kept.served.not_current place ⟨rfl, rfl⟩)).goOn place,
      (kept.limited.relock _ _).goOn place⟩
    rintro number ⟨⟩
    exact kept.served.calls _ (mem_of_getElem? place) gen rfl
  | removing id gen =>
    cases moved
    have stays : ∀ {key entry}, (s.cache.removePools id gen).pools key = some entry →
        s.cache.pools key = some entry ∧ ¬ (key.connId = id ∧ entry.generation = gen) := by
      intro key entry found
      obtain ⟨there, apart⟩ := filter_eq_some_iff.mp found
      exact ⟨there, of_decide_eq_true apart⟩
    have removed := kept.shrink (s.cache.removePools id gen).pools fun key entry found => (stays found).1
    have noted : Kept (s.write (s.cache.removePools id gen) (.evicted i)) :=
      ⟨removed.served.noteQuiet rfl, removed.locked.same, removed.limited.note⟩
    refine ⟨noted.served.goOn place nofun ?_, noted.locked.goOn place, noted.limited.goOn place⟩
    rintro key entry found ⟨own, same⟩
    exact absurd ⟨own.symm, same.symm⟩ (stays found).2
  | buildingAlone key gen lock => cases moved
  | building key gen lock => cases moved
  | finished answer => cases moved

variable {act : Act κ μ}

theorem step_kept (kept : s.Kept) (fair : s.Fair act) (stepped : s.step act = some s') (below : (numbers s'.log).length < 2 ^ 64) : s'.Kept := by
  have arrive : ∀ call : Call κ μ, call.worksFor = none → call.lock = none → call.guard = none →
      (∀ key gen lock, ¬ call.Shares key gen lock) → (∀ id gen, ¬ call.Ends id gen) →
      (∀ id gen candidates, ¬ call.Trims id gen candidates) → Kept { s with calls := s.calls ++ [call] } := by
    intro call works free guard shares ends trims
    exact ⟨kept.served.arrive works ends, kept.locked.arrive free guard shares, kept.limited.arrive trims⟩
  cases act with
  | getOrCreate key | evictAllDbs id =>
    cases stepped
    exact arrive _ rfl rfl rfl (fun _ _ _ => not_false) (fun _ _ => not_false) fun _ _ _ => not_false
  | move i =>
    obtain ⟨call, place, moved⟩ := bind_eq_some_iff.mp stepped
    exact move_kept kept place fair moved below
  | build i answer =>
    simp only [step] at stepped
    split at stepped
    case h_1 key gen lock place =>
      cases stepped
      exact kept.endWith place _ rfl
    case h_2 key gen lock place =>
      split at stepped
      · cases stepped
        exact kept.goesOn place
      · cases stepped
        exact kept.endWith place _ rfl
    case h_3 => cases stepped
  | drop i =>
    simp only [step] at stepped
    split at stepped
    case h_1 key gen lock place =>
      cases stepped
      exact kept.goesOn place
    case h_2 key gen lock place =>
      cases stepped
      exact kept.endWith place _ rfl
    case h_3 key gen lock place =>
      cases stepped
      exact kept.endWith place _ rfl
    case h_4 => cases stepped

omit [DecidableEq κ] in
theorem endWith_log (s : PoolState κ μ) (call : Nat) (lock : Option Nat) (answer : Option μ) : s.log <:+ (s.endWith call lock answer).log := by
  cases lock <;> exact suffix_rfl

theorem move_log (moved : s.move i call = some s') : s.log <:+ s'.log := by
  cases call with
  | requested key =>
    cases moved
    dsimp only [goOn]
    split
    · exact suffix_cons _ _
    · exact suffix_rfl
  | numbered key gen | valid key gen lock =>
    simp only [move] at moved
    split at moved <;> cases moved
    · exact suffix_cons _ _
    · exact suffix_rfl
  | writing key gen lock manager =>
    simp only [move] at moved
    split at moved <;> cases moved
    · exact suffix_cons _ _
    · exact endWith_log ..
  | evicting id =>
    simp only [move] at moved
    split at moved <;> cases moved
    · exact suffix_cons _ _
    · exact (suffix_cons _ _).trans (suffix_cons _ _)
  | built key gen lock manager =>
    simp only [move] at moved
    split at moved <;> cases moved
    · exact suffix_rfl
    · exact endWith_log ..
  | waiting key gen lock | locked key gen lock | written key gen lock manager =>
    simp only [move] at moved
    split at moved <;> cases moved <;> exact suffix_rfl
  | missed key gen | swept key gen | unlocking id gen =>
    cases moved
    exact suffix_rfl
  | undoing key gen lock manager =>
    cases moved
    exact endWith_log { s with cache := s.cache.removePool key gen } ..
  | enforcing key gen lock manager | removing id gen =>
    cases moved
    exact suffix_cons _ _
  | trimming key gen lock manager candidates =>
    cases candidates with
    | nil =>
      cases moved
      exact endWith_log ..
    | cons candidate candidates =>
      simp only [move] at moved
      split at moved <;> cases moved
      · exact suffix_cons _ _
      · exact suffix_rfl
  | buildingAlone key gen lock => cases moved
  | building key gen lock => cases moved
  | finished answer => cases moved

theorem step_log (stepped : s.step act = some s') : s.log <:+ s'.log := by
  cases act with
  | getOrCreate key | evictAllDbs id =>
    cases stepped
    exact suffix_rfl
  | move i =>
    obtain ⟨call, place, moved⟩ := bind_eq_some_iff.mp stepped
    exact move_log moved
  | build i answer =>
    simp only [step] at stepped
    split at stepped
    case h_1 => cases stepped; exact suffix_rfl
    case h_2 => split at stepped <;> cases stepped <;> exact suffix_rfl
    case h_3 => cases stepped
  | drop i =>
    simp only [step] at stepped
    split at stepped <;> cases stepped <;> exact suffix_rfl

omit [DecidableEq κ] in
/-- All calls have ended. -/
def Quiet (s : PoolState κ μ) : Prop := ∀ call ∈ s.calls, ∃ answer, call = .finished answer

omit [DecidableEq κ] in
/-- How many databases of the connection are cached. -/
def cachedDbs (s : PoolState κ μ) (id : κ) : Nat :=
  (List.finRange 256).countP fun db => (s.cache.pools ⟨id, db⟩).isSome

/-- What is promised in a state of a run. -/
structure Sound (s : PoolState κ μ) : Prop where
  /-- Requests of the current generation build one after the other. -/
  builds : ∀ key generation, s.cache.generations key.connId = some generation → s.calls.countP (·.builds key generation) ≤ 1
  /-- A cached manager is given only to the generation that inserted it. -/
  own : ∀ key generation manager before, (.returned key generation manager :: before) <:+ s.log → .inserted key generation manager ∈ before
  /-- No two generations have one number. -/
  distinct : (numbers s.log).Nodup
  /-- After an eviction no manager of an earlier generation is given. -/
  late : ∀ key generation manager before, (.returned key generation manager :: before) <:+ s.log → ¬ Earlier before key.connId generation
  /-- After all calls only the current generation has managers, and it is not an earlier one. -/
  pools : s.Quiet → ∀ key entry, s.cache.pools key = some entry →
    s.cache.generations key.connId = some entry.generation ∧ ¬ Earlier s.log key.connId entry.generation
  bound : s.Quiet → ∀ id, s.cachedDbs id ≤ MAX_CACHED_DBS_PER_CONNECTION
  /-- The limit evicts neither the entry of the request nor one used since the snapshot. -/
  trims : ∀ call key before, (.trimmed call key :: before) <:+ s.log → Unused before call key

theorem Kept.current (kept : s.Kept) (quiet : s.Quiet)
    (found : s.cache.pools key = some entry) : s.cache.generations key.connId = some entry.generation := by
  refine (kept.served.pools key entry found).resolve_right ?_
  rintro ⟨call, mem, removes⟩
  obtain ⟨answer, rfl⟩ := quiet call mem
  exact removes

theorem Kept.sound (kept : s.Kept) : s.Sound where
  builds := fun key gen => kept.locked.one_build
  own := fun key gen manager before ends => (kept.served.own key gen manager before ends).1
  distinct := kept.served.distinct
  late := fun key gen manager before ends => (kept.served.own key gen manager before ends).2
  pools := by
    intro quiet key entry found
    have current := kept.current quiet found
    exact ⟨current, fun earlier => kept.served.current _ _ current earlier.invalidated⟩
  bound := by
    intro quiet id
    cases held : s.cache.generations id with
    | none =>
      have none : s.cachedDbs id = 0 := by
        refine countP_eq_zero.mpr fun db _ some => ?_
        obtain ⟨entry, found⟩ := isSome_iff_exists.mp some
        have current := kept.current quiet found
        simp [held] at current
      omega
    | some gen =>
      have all : s.cachedDbs id ≤ s.cache.spared id gen [] := by
        refine countP_mono_left fun db _ some => ?_
        obtain ⟨entry, found⟩ := isSome_iff_exists.mp some
        have current := kept.current quiet found
        rw [held, some_inj] at current
        exact spares_iff.mpr ⟨entry, found, current.symm, not_mem_nil⟩
      refine Nat.le_trans all ?_
      rcases kept.limited.bound id gen held with ⟨call, mem, enforces⟩ | ⟨candidates, none | ⟨call, mem, trims⟩, few⟩
      · obtain ⟨answer, rfl⟩ := quiet call mem
        exact enforces.elim
      · exact none ▸ few
      · obtain ⟨answer, rfl⟩ := quiet call mem
        exact trims.elim
  trims := kept.limited.past

theorem start_kept : Kept ({} : PoolState κ μ) where
  served :=
    { counted := rfl
      low := fun _ => nofun
      distinct := nodup_nil
      known := fun _ _ => nofun
      current := fun _ _ => nofun
      calls := fun _ => nofun
      ended := fun _ => nofun
      inserted := fun _ _ => nofun
      pools := fun _ _ => nofun
      own := by
        intro key gen manager before ends
        cases suffix_nil.mp ends }
  locked :=
    { shared := fun _ => nofun
      low := fun _ => nofun
      mapped := fun _ _ => nofun
      single := fun _ => Nat.zero_le _ }
  limited :=
    { stamps := fun _ _ => nofun
      trims := fun _ _ _ _ _ _ => nofun
      past := by
        intro call key before ends
        cases suffix_nil.mp ends
      bound := fun _ _ => nofun }

theorem reached_kept (reached : Reached step Fair ({} : PoolState κ μ) s) (below : (numbers s.log).length < 2 ^ 64) : s.Kept := by
  refine reached.keeps (P := fun s => (numbers s.log).length < 2 ^ 64 → s.Kept) (fun _ => start_kept) ?_ below
  intro s s' act kept fair stepped below
  have fewer : (numbers s.log).length ≤ (numbers s'.log).length := ((step_log stepped).sublist.filterMap _).length_le
  exact step_kept (kept (by omega)) fair stepped below

end PoolState

open PoolState

/-- Every state of a run whose steps are fair keeps the promises of the cache. -/
theorem managers_sound {s : PoolState κ μ} (reached : Reached step Fair {} s) (below : (numbers s.log).length < 2 ^ 64) : s.Sound :=
  (reached_kept reached below).sound

omit [DecidableEq κ] in
theorem looksUp_of_unfinished {s : PoolState κ μ} (unfinished : ∀ call, .evicted call ∉ s.log) (key : PoolKey κ) (gen : Nat) : s.LooksUp key gen := by
  rintro ⟨⟨call, inOrder⟩, -⟩
  exact unfinished call (inOrder.subset mem_cons_self)

/-- A manager is built and cached, and then evicted. -/
theorem managers_sound_evicted : ∃ s : PoolState Nat Nat,
    s.log = [.evicted 1, .evicting 1 0, .snapshot 0 ⟨0, 3⟩, .inserted ⟨0, 3⟩ 1 7, .issued 0 1] ∧ s.Sound := by
  have lookup : ∀ s : PoolState Nat Nat, s.log = [.issued 0 1] → s.cache.accessClock = 0 → s.LooksUp ⟨0, 3⟩ 1 ∧ s.Counts := by
    intro s log clock
    refine ⟨looksUp_of_unfinished (by simp [log]) _ 1, ?_⟩
    rw [Counts, clock]
    decide
  have follows : ∃ s, s.log = [.evicted 1, .evicting 1 0, .snapshot 0 ⟨0, 3⟩, .inserted ⟨0, 3⟩ 1 7, .issued 0 1] ∧
      Follows step Fair ({} : PoolState Nat Nat)
        [.getOrCreate ⟨0, 3⟩, .move 0, .move 0, .move 0, .move 0, .move 0, .move 0, .move 0, .build 0 (some 7), .move 0, .move 0,
          .move 0, .move 0, .move 0, .evictAllDbs 0, .move 1, .move 1, .move 1] s :=
    ⟨_, rfl, trivial, _, rfl, trivial, _, rfl, lookup _ rfl rfl, _, rfl, trivial, _, rfl, trivial, _, rfl, trivial, _, rfl,
      trivial, _, rfl, lookup _ rfl rfl, _, rfl, trivial, _, rfl, trivial, _, rfl, (by decide : (0 : Nat) + 1 < 2 ^ 64), _, rfl,
      trivial, _, rfl, trivial, _, rfl, trivial, _, rfl, trivial, _, rfl, trivial, _, rfl, trivial, _, rfl, trivial, _, rfl, rfl⟩
  obtain ⟨s, log, follows⟩ := follows
  exact ⟨s, log, managers_sound (Reached.start.follows follows) (by rw [log]; decide)⟩

/-- A request looks up between the write of `cache_if_current` and its second check. -/
theorem manager_after_evict : ¬ ∀ s : PoolState Nat Nat, Reached step (fun _ _ => True) {} s → (numbers s.log).length < 2 ^ 64 → s.Sound := by
  intro law
  have follows : ∃ s, s.log = [.returned ⟨0, 3⟩ 1 7, .inserted ⟨0, 3⟩ 1 7, .evicted 2, .evicting 2 0, .issued 0 1] ∧
      Follows step (fun _ _ => True) ({} : PoolState Nat Nat)
        [.getOrCreate ⟨0, 3⟩, .move 0, .move 0, .move 0, .move 0, .move 0, .move 0, .move 0, .build 0 (some 7), .move 0,
          .getOrCreate ⟨0, 3⟩, .move 1, .evictAllDbs 0, .move 2, .move 2, .move 2, .move 0, .move 1] s :=
    ⟨_, rfl, trivial, _, rfl, trivial, _, rfl, trivial, _, rfl, trivial, _, rfl, trivial, _, rfl, trivial, _, rfl, trivial, _, rfl,
      trivial, _, rfl, trivial, _, rfl, trivial, _, rfl, trivial, _, rfl, trivial, _, rfl, trivial, _, rfl, trivial, _, rfl,
      trivial, _, rfl, trivial, _, rfl, trivial, _, rfl, trivial, _, rfl, rfl⟩
  obtain ⟨s, log, follows⟩ := follows
  have sound := law s (Reached.start.follows follows) (by rw [log]; decide)
  exact sound.late ⟨0, 3⟩ 1 7 [.inserted ⟨0, 3⟩ 1 7, .evicted 2, .evicting 2 0, .issued 0 1] ⟨[], log.symm⟩
    ⟨2, sublist_cons_self _ _⟩

end Ramag.RedisPools
