import Ramag.ClipIndex

/-!
The search filters of an old database are built in the background, in batches
that follow the recency keys, while other threads write. Each transaction is one
step. A transaction of a writer is, for the filters, an edit that the rest of
the store fixes (`run_edits`). So the filters built so far stay part of those
of the stored clips, and up to the cursor none of them is missing.
-/
namespace Ramag.IndexMigration
open Strings Domain Fields ClipFilter OrderedTables ClipStore ClipIndex List
open DataSyncGate (saturatingAdd)

def SEARCH_INDEX_MIGRATION_BATCH : Nat := 10000

section
variable {ρ : Type} (cipher : Cipher ρ)

/-- The entries whose keys are behind the last one. -/
def entriesAfter (byTime : Table Text Text) : Option Text → List (Text × Text)
  | none => byTime.entries
  | some lastKey => byTime.entries.filter fun entry => decide (lastKey < entry.1)

def nextBatch (byTime : Table Text Text) (lastKey : Option Text) : List (Text × Text) :=
  (entriesAfter byTime lastKey).take SEARCH_INDEX_MIGRATION_BATCH

/-- Writes the filters of the entries that still stand as they were read. -/
def indexBatch (store : ClipTables ρ) (migrated : Nat) : List (Text × Text) → Result (ClipTables ρ × Nat)
  | [] => .ok (store, migrated)
  | (recencyKey, uuid) :: batch =>
    if store.byTime.get recencyKey = some uuid then do
      let item ← loadIndexedClip cipher store.clips recencyKey uuid
      indexBatch { store with searchFilters := store.searchFilters.insert recencyKey (cipher.filter item) }
        (saturatingAdd migrated 1) batch
    else indexBatch store migrated batch

/-- Where the rebuild is, between its transactions. -/
inductive Phase
  /-- `initialize_index` is called. -/
  | start
  | notReady
  | empty
  /-- `rebuild_index` is called. -/
  | reset
  | walking (lastKey : Option Text) (migrated : Nat)
  | writing (batch : List (Text × Text)) (lastKey : Text) (migrated : Nat)
  | finishing (migrated : Nat)
  /-- `initialize_index` returned and no thread was started. -/
  | settled
  /-- `rebuild_index` returned. -/
  | rebuilt (result : Result Nat)

structure Index (ρ : Type) where
  store : ClipTables ρ
  phase : Phase

/-- The next transaction of the rebuild. -/
def rebuildNext (index : Index ρ) : Index ρ :=
  let store := index.store
  match index.phase with
  | .start => { index with phase := if store.searchReady then .settled else .notReady }
  | .notReady => { index with phase := if store.byTime.entries.isEmpty then .empty else .reset }
  | .empty => ⟨{ store with searchReady := true }, .settled⟩
  | .reset => ⟨{ store with searchFilters := .empty, searchReady := false }, .walking none 0⟩
  | .walking lastKey migrated =>
    let batch := nextBatch store.byTime lastKey
    match batch.getLast? with
    | none => { index with phase := .finishing migrated }
    | some (nextLast, _) => { index with phase := .writing batch nextLast migrated }
  | .writing batch lastKey migrated =>
    match indexBatch cipher store migrated batch with
    | .ok (store, migrated) => ⟨store, .walking (some lastKey) migrated⟩
    | .error error => { index with phase := .rebuilt (.error error) }
  | .finishing migrated =>
    let expected := store.byTime.entries.length
    let actual := store.searchFilters.entries.length
    if actual ≠ expected then
      { index with phase := .rebuilt (.error (.Storage ("剪贴搜索索引迁移数量不一致：" ++ natText actual ++
        " / " ++ natText expected))) }
    else ⟨{ store with searchReady := true }, .rebuilt (.ok migrated)⟩
  | .settled | .rebuilt _ => index

/-- A step: a transaction of a writer or of the rebuild, or the program is started again. -/
inductive Act (ρ : Type)
  | write (op : Op ρ)
  | rebuild
  | restart

def Act.next (index : Index ρ) : Act ρ → Index ρ
  | .write op => { index with store := op.next cipher index.store }
  | .rebuild => rebuildNext cipher index
  | .restart => { index with phase := .start }

/-- A database from before there were search filters. -/
def oldDatabase (ops : List (Op ρ)) : Index ρ :=
  ⟨{ ops.foldl (fun store op => op.next cipher store) (.empty true) with searchFilters := .empty, searchReady := false }, .start⟩

def run (index : Index ρ) (acts : List (Act ρ)) : Index ρ := acts.foldl (Act.next cipher) index

def withFilters (store : ClipTables ρ) (filters : Table Text Filter) : ClipTables ρ :=
  { store with searchFilters := filters }

/-- A transaction edits the filters, in a way that does not depend on them. What it says of their being ready
    stays, or it writes them all. -/
def Edits (run : ClipTables ρ → Result (ClipTables ρ)) (store : ClipTables ρ) : Prop :=
  (∃ error, ∀ filters, run (withFilters store filters) = .error error) ∨ ∃ (next : ClipTables ρ) (edit : Edit Text Filter),
      (next.searchReady = store.searchReady ∨ next.searchReady = true ∧ ∀ key, edit.stays key = false) ∧
        ∀ filters, run (withFilters store filters) = .ok (withFilters next (edit.apply filters))

variable {store : ClipTables ρ}

theorem Edits.bind {α : Type} {run : ClipTables ρ → Result (ClipTables ρ)}
    (first : Result α) (rest : α → ClipTables ρ → Result (ClipTables ρ))
    (split : ∀ filters, run (withFilters store filters) = first >>= fun a => rest a (withFilters store filters))
    (each : ∀ a, Edits (rest a) store) : Edits run store := by
  cases first with
  | error error => exact .inl ⟨error, split⟩
  | ok a =>
    rcases each a with ⟨error, failed⟩ | ⟨next, edit, ready, done⟩
    · exact .inl ⟨error, fun filters => (split filters).trans (failed filters)⟩
    · exact .inr ⟨next, edit, ready, fun filters => (split filters).trans (done filters)⟩

theorem Edits.after {run rest : ClipTables ρ → Result (ClipTables ρ)}
    (next : ClipTables ρ) (edit : Edit Text Filter) (ready : next.searchReady = store.searchReady)
    (split : ∀ filters, run (withFilters store filters) = rest (withFilters next (edit.apply filters)))
    (others : Edits rest next) : Edits run store := by
  rcases others with ⟨error, failed⟩ | ⟨last, later, stays, done⟩
  · exact .inl ⟨error, fun filters => (split filters).trans (failed _)⟩
  refine .inr ⟨last, edit.andThen later, ?_, fun filters => (split filters).trans (done _)⟩
  rw [← ready]
  refine stays.imp id fun all => ⟨all.1, fun key => ?_⟩
  change (later.stays key && edit.stays key) = false
  rw [all.2, Bool.false_and]

theorem Edits.once {run : ClipTables ρ → Result (ClipTables ρ)}
    (next : ClipTables ρ) (edit : Edit Text Filter) (ready : next.searchReady = store.searchReady)
    (done : ∀ filters, run (withFilters store filters) = .ok (withFilters next (edit.apply filters))) : Edits run store :=
  .inr ⟨next, edit, .inl ready, done⟩

/-- The tables without what they say of a clip, its record aside. -/
def withoutOld (item : ClipItem) (oldMeta : Option (Text × Text)) (store : ClipTables ρ) : ClipTables ρ :=
  match oldMeta with
  | some (oldRk, oldHash) =>
    { store with
      byTime := store.byTime.remove oldRk
      searchFilters := store.searchFilters.remove oldRk
      byHash := if oldHash ≠ item.contentHash then removeHashIfOwned store.byHash oldHash item.id.text else store.byHash }
  | none => store

theorem save_edits (item : ClipItem) (store : ClipTables ρ) : Edits (save cipher item) store := by
  refine .bind (cipher.encode item) (fun enc store => storedMeta store item.id.text "拒绝覆盖" >>= fun oldMeta =>
    .ok (putEntry cipher item enc (withoutOld item oldMeta store))) (fun _ => rfl) fun enc => ?_
  refine .bind (storedMeta store item.id.text "拒绝覆盖")
    (fun oldMeta store => .ok (putEntry cipher item enc (withoutOld item oldMeta store))) (fun _ => rfl) fun oldMeta => ?_
  rcases oldMeta with _ | ⟨oldRk, oldHash⟩
  · exact .once (putEntry cipher item enc store) (.put (itemKey item) (cipher.filter item)) rfl fun _ => rfl
  · exact .once (putEntry cipher item enc (withoutOld item (some (oldRk, oldHash)) store))
      ((Edit.drop oldRk).andThen (.put (itemKey item) (cipher.filter item))) rfl fun _ => rfl

theorem delete_edits (id : Text) (store : ClipTables ρ) : Edits (delete id) store := by
  refine .bind (storedMeta store id "拒绝不完整删除") (fun found store => match found with
    | some (rk, hash) => .ok (removeEntry id rk hash store)
    | none => .ok { store with uuidMeta := store.uuidMeta.remove id, clips := store.clips.remove id }) (fun _ => rfl) fun found => ?_
  rcases found with _ | ⟨rk, hash⟩
  · exact .once { store with uuidMeta := store.uuidMeta.remove id, clips := store.clips.remove id } .nothing rfl fun _ => rfl
  · exact .once (removeEntry id rk hash store) (.drop rk) rfl fun _ => rfl

theorem removeDoomed_edits (doomed : List Text) (store : ClipTables ρ) : Edits (fun store => removeDoomed store doomed) store := by
  induction doomed generalizing store with
  | nil => exact .once store .nothing rfl fun _ => rfl
  | cons uuid doomed ih =>
    cases held : store.uuidMeta.get uuid with
    | none =>
      refine .inl ⟨.Storage ("待清理剪贴条目 " ++ uuid ++ " 缺少索引元数据"), fun filters => ?_⟩
      change removeDoomed (withFilters store filters) (uuid :: doomed) = _
      rw [removeDoomed, withFilters, held]
    | some value =>
      refine .bind (decodeMeta uuid value) (fun found store => removeDoomed (removeEntry uuid found.1 found.2 store) doomed)
        (fun filters => ?_) fun found => ?_
      · rw [removeDoomed, withFilters, held]
      · exact .after (removeEntry uuid found.1 found.2 store) (.drop found.1) rfl (fun _ => rfl) (ih _)

theorem prune_edits (maxItems : Nat) (cutoff : Int) (seen shown store : ClipTables ρ) :
    Edits (fun store => (prune cipher maxItems cutoff seen shown store).map (·.1)) store := by
  refine .bind (selectPruneCandidates seen.byTime maxItems cutoff) (fun doomed store =>
    if doomed.isEmpty then .ok store
    else doomedImages cipher shown.clips ([], 0) doomed >>= fun _ => removeDoomed store doomed) (fun filters => ?_) fun doomed => ?_
  · rw [prune]
    cases selectPruneCandidates seen.byTime maxItems cutoff with
    | error error => rfl
    | ok doomed =>
      change (if doomed.isEmpty = true then _ else _ : Except _ _).map _ = if doomed.isEmpty = true then _ else _
      split_ifs
      · rfl
      cases doomedImages cipher shown.clips ([], 0) doomed with
      | error error => rfl
      | ok images =>
        cases removeDoomed (withFilters store filters) doomed <;> rfl
  · cases doomed.isEmpty with
    | true => exact .once store .nothing rfl fun _ => rfl
    | false =>
      exact .bind (doomedImages cipher shown.clips ([], 0) doomed) (fun _ store => removeDoomed store doomed) (fun _ => rfl)
        fun _ => removeDoomed_edits doomed store

theorem migrateIndexes_edits (seen store : ClipTables ρ) : Edits (migrateIndexes cipher seen) store := by
  by_cases needed : needsMigration seen = true
  · refine .bind (migrateEntries cipher { store with searchFilters := .empty } store.clips.entries)
      (fun built _ => .ok { built with searchReady := true }) (fun filters => ?_) fun built => ?_
    · rw [migrateIndexes, if_pos needed]
      rfl
    · exact .inr ⟨{ built with searchReady := true }, .become built.searchFilters, .inr ⟨rfl, fun _ => rfl⟩, fun _ => rfl⟩
  · refine .once store .nothing rfl fun filters => ?_
    rw [migrateIndexes, if_neg needed]
    rfl

theorem run_edits (op : Op ρ) (store : ClipTables ρ) : Edits (fun store => op.run cipher store) store := by
  cases op with
  | save item => exact save_edits cipher item store
  | delete id => exact delete_edits id store
  | prune maxItems cutoff seen shown => exact prune_edits cipher maxItems cutoff seen shown store
  | clear => exact .inr ⟨ClipStore.clear, .become .empty, .inr ⟨rfl, fun _ => rfl⟩, fun _ => rfl⟩
  | migrateIndexes seen => exact migrateIndexes_edits cipher seen store

theorem next_edits (op : Op ρ) (store : ClipTables ρ) :
    (∀ filters, op.next cipher (withFilters store filters) = withFilters store filters) ∨ ∃ (next : ClipTables ρ) (edit : Edit Text Filter),
        (next.searchReady = store.searchReady ∨ next.searchReady = true ∧ ∀ key, edit.stays key = false) ∧
          ∀ filters, op.next cipher (withFilters store filters) = withFilters next (edit.apply filters) := by
  rcases run_edits cipher op store with ⟨error, failed⟩ | ⟨next, edit, ready, done⟩
  · refine .inl fun filters => ?_
    have failed : op.run cipher (withFilters store filters) = .error error := failed filters
    rw [Op.next, failed]
  · refine .inr ⟨next, edit, ready, fun filters => ?_⟩
    have done : op.run cipher (withFilters store filters) = .ok (withFilters next (edit.apply filters)) := done filters
    rw [Op.next, done]

/-- The filter of an entry may be missing. -/
def Phase.MayLack (recencyKey uuid : Text) : Phase → Prop
  | .empty | .finishing _ => False
  | .walking (some lastKey) _ => lastKey < recencyKey
  | .writing batch lastKey _ => lastKey < recencyKey ∨ (recencyKey, uuid) ∈ batch
  | _ => True

def Phase.finished : Phase → Bool
  | .settled | .rebuilt _ => true
  | _ => false

/-- The store with all filters represents the history. Of these the index has a part, and an entry that lacks
    its filter is still ahead of the rebuild. -/
structure Indexed (cipher : Cipher ρ) (index : Index ρ) (history : History) (full : Table Text Filter) : Prop where
  represents : Represents cipher (withFilters index.store full) history
  partOf : PartOf index.store.searchFilters full
  lacks : ∀ recencyKey uuid, index.store.byTime.get recencyKey = some uuid → index.store.searchFilters.get recencyKey = none →
    index.store.searchReady = false ∧ index.phase.MayLack recencyKey uuid
  marked : index.phase.finished = true → index.store.searchReady = true

variable {cipher} {index : Index ρ} {history : History} {full : Table Text Filter}

section
variable (inv : Indexed cipher index history full)
include inv

theorem Indexed.whole (all : ∀ rk uuid, index.store.byTime.get rk = some uuid →
      index.store.searchFilters.get rk = none → False) : index.store.searchFilters = full := by
  refine Table.ext_get fun key => ?_
  cases found : index.store.searchFilters.get key with
  | some filter => exact (inv.partOf key filter found).symm
  | none =>
    cases there : full.get key with
    | none => rfl
    | some filter =>
      obtain ⟨uuid, item, held, same, -⟩ := (inv.represents.filters key filter).mp there
      have time : index.store.byTime.get key = some uuid := (inv.represents.times key uuid).mpr ⟨item, held, same⟩
      exact (all key uuid time found).elim

theorem Indexed.ready (ready : index.store.searchReady = true) :
    index.store.searchFilters = full :=
  inv.whole fun rk uuid time missing => by simp [(inv.lacks rk uuid time missing).1] at ready

theorem Indexed.phase {phase : Phase} (unmarked : phase.finished = false)
    (lacks : ∀ rk uuid, index.store.byTime.get rk = some uuid →
      index.store.searchFilters.get rk = none → index.phase.MayLack rk uuid → phase.MayLack rk uuid) :
    Indexed cipher { index with phase := phase } history full where
  represents := inv.represents
  partOf := inv.partOf
  lacks rk uuid time missing := have before := inv.lacks rk uuid time missing
    ⟨before.1, lacks rk uuid time missing before.2⟩
  marked done := by
    rw [show ({ index with phase := phase } : Index ρ).phase.finished = phase.finished from rfl, unmarked] at done
    cases done

end

theorem entry_uuid {store later : ClipTables ρ} {history later' : History} (rep : Represents cipher store history)
    (rep' : Represents cipher later later') {rk uuid other : Text} (time : store.byTime.get rk = some uuid)
    (time' : later.byTime.get rk = some other) : uuid = other := by
  obtain ⟨item, held, key⟩ := (rep.times rk uuid).mp time
  obtain ⟨clip, held', key'⟩ := (rep'.times rk other).mp time'
  rw [← rep.named held, ← rep'.named held']
  exact recencyKey_inj (key.trans key'.symm)

theorem write_indexed (inv : Indexed cipher index history full) (op : Op ρ) :
    ∃ history full, Indexed cipher ((Act.write op).next cipher index) history full := by
  rw [Act.next]
  obtain ⟨later, rep⟩ := next_represents inv.represents op
  rcases next_edits cipher op index.store with same | ⟨next, edit, ready, done⟩
  · have unchanged : op.next cipher index.store = index.store := same index.store.searchFilters
    rw [unchanged]
    exact ⟨history, full, inv⟩
  have now : op.next cipher index.store = withFilters next (edit.apply index.store.searchFilters) := done _
  rw [now]
  rw [done] at rep
  refine ⟨later, edit.apply full, rep, edit.partOf inv.partOf, fun rk uuid time missing => ?_, fun beyond => ?_⟩
  · have gone : ((edit.apply index.store.searchFilters).get rk).isSome = false := by
      rw [show (edit.apply index.store.searchFilters).get rk = none from missing]
      rfl
    have there : ((edit.apply full).get rk).isSome = true := by
      obtain ⟨item, held, key⟩ := (rep.times rk uuid).mp time
      rw [show (edit.apply full).get rk = some (cipher.filter item) from
        (rep.filters rk _).mpr ⟨uuid, item, held, key, rfl⟩]
      rfl
    have before : (full.get rk).isSome = true ∧ index.store.searchFilters.get rk = none := by
      by_contra stays
      rw [edit.isSome_apply (fun whole => ?_) there] at gone
      · cases gone
      · cases found : index.store.searchFilters.get rk with
        | none => exact (stays ⟨whole, found⟩).elim
        | some _ => rfl
    have stays : edit.stays rk ≠ false := by
      intro given
      have same : (edit.apply full).get rk = (edit.apply index.store.searchFilters).get rk := by
        rw [edit.get_apply, edit.get_apply, given]
        rfl
      simp [same, gone] at there
    obtain ⟨filter, found⟩ := Option.isSome_iff_exists.mp before.1
    obtain ⟨old, item, held, key, -⟩ := (inv.represents.filters rk filter).mp found
    have old_time := (inv.represents.times rk old).mpr ⟨item, held, key⟩
    have same : old = uuid := entry_uuid inv.represents rep old_time time
    obtain ⟨unready, allowed⟩ := inv.lacks rk old old_time before.2
    refine ⟨?_, same ▸ allowed⟩
    rcases ready with kept | ⟨-, all⟩
    · exact kept.trans unready
    · exact (stays (all rk)).elim
  · rcases ready with kept | ⟨all, -⟩
    · exact kept.trans (inv.marked beyond)
    · exact all

/-! ### Batches -/

theorem indexBatch_spec (rep : Represents cipher (withFilters store full) history)
    (batch : List (Text × Text)) (filters : Table Text Filter) (migrated : Nat) (within : PartOf filters full) :
    ∃ later count, indexBatch cipher (withFilters store filters) migrated batch = .ok (withFilters store later, count) ∧
      PartOf later full ∧ (∀ key, later.get key = none → filters.get key = none) ∧
      ∀ entry ∈ batch, store.byTime.get entry.1 = some entry.2 → later.get entry.1 ≠ none := by
  induction batch generalizing filters migrated with
  | nil => exact ⟨filters, migrated, rfl, within, fun _ missing => missing, fun entry mem => absurd mem not_mem_nil⟩
  | cons entry batch ih =>
    obtain ⟨key, uuid⟩ := entry
    by_cases stands : store.byTime.get key = some uuid
    · obtain ⟨item, held, same⟩ := (rep.times key uuid).mp stands
      have filter : full.get key = some (cipher.filter item) := (rep.filters key _).mpr ⟨uuid, item, held, same, rfl⟩
      have more : PartOf (filters.insert key (cipher.filter item)) full := by
        intro other value found
        rw [Table.get_insert] at found
        split_ifs at found with own
        · rw [own, filter]
          exact found
        · exact within other value found
      obtain ⟨later, count, done, part, kept, each⟩ := ih (filters.insert key (cipher.filter item)) (saturatingAdd migrated 1) more
      have lost (other : Text) (missing : later.get other = none) : other ≠ key ∧ filters.get other = none := by
        have := kept other missing
        rw [Table.get_insert] at this
        split_ifs at this with own
        exact ⟨own, this⟩
      refine ⟨later, count, ?_, part, fun other missing => (lost other missing).2, ?_⟩
      · have loaded : loadIndexedClip cipher store.clips key uuid = .ok item := loadIndexedClip_held rep held key
        have times : (withFilters store filters).byTime = store.byTime := rfl
        have clips : (withFilters store filters).clips = store.clips := rfl
        rw [indexBatch, times, if_pos stands, clips, loaded]
        exact done
      · exact forall_mem_cons.mpr ⟨fun _ missing => (lost key missing).1 rfl, each⟩
    · obtain ⟨later, count, done, part, kept, each⟩ := ih filters migrated within
      refine ⟨later, count, ?_, part, kept, forall_mem_cons.mpr ⟨fun now => absurd now stands, each⟩⟩
      have times : (withFilters store filters).byTime = store.byTime := rfl
      rw [indexBatch, times, if_neg stands]
      exact done

variable {byTime : Table Text Text} {lastKey : Option Text}

theorem mem_entriesAfter {rk uuid : Text} : (rk, uuid) ∈ entriesAfter byTime lastKey ↔
      byTime.get rk = some uuid ∧ ∀ last ∈ lastKey, last < rk := by
  cases lastKey with
  | none | some last => simp [entriesAfter, Table.get_eq_some]

theorem entriesAfter_ordered (byTime : Table Text Text) (lastKey : Option Text) : (entriesAfter byTime lastKey).Pairwise (·.1 < ·.1) := by
  cases lastKey with
  | none => exact byTime.ordered
  | some last => exact byTime.ordered.filter _

theorem nextBatch_reaches {last : Text × Text}
    (found : (nextBatch byTime lastKey).getLast? = some last) {entry : Text × Text} (mem : entry ∈ entriesAfter byTime lastKey) :
    last.1 < entry.1 ∨ entry ∈ nextBatch byTime lastKey := by
  rw [← take_append_drop SEARCH_INDEX_MIGRATION_BATCH (entriesAfter byTime lastKey), mem_append] at mem
  rcases mem with inside | behind
  · exact .inr inside
  · have ordered := entriesAfter_ordered byTime lastKey
    rw [← take_append_drop SEARCH_INDEX_MIGRATION_BATCH (entriesAfter byTime lastKey), pairwise_append] at ordered
    exact .inl (ordered.2.2 last (mem_of_getLast? found) entry behind)

theorem nextBatch_none (found : (nextBatch byTime lastKey).getLast? = none) : entriesAfter byTime lastKey = [] := by
  have none' := getLast?_eq_none_iff.mp found
  rw [nextBatch, take_eq_nil_iff] at none'
  exact none'.resolve_left (by decide)

theorem represents_marked (rep : Represents cipher store history) (ready : Bool) :
    Represents cipher { store with searchReady := ready } history :=
  ⟨rep.named, rep.clips, rep.metas, rep.times, rep.filters, rep.owners⟩

section
variable (inv : Indexed cipher index history full)
include inv

theorem rebuild_indexed : Indexed cipher (rebuildNext cipher index) history full := by
  obtain ⟨store, phase⟩ := index
  cases phase with
  | start =>
    rw [rebuildNext]
    dsimp only
    split_ifs with ready
    · exact ⟨inv.represents, inv.partOf, fun rk uuid time missing => ⟨(inv.lacks rk uuid time missing).1, trivial⟩,
        fun _ => ready⟩
    · exact inv.phase rfl fun _ _ _ _ _ => trivial
  | notReady =>
    rw [rebuildNext]
    dsimp only
    split_ifs with none'
    · refine inv.phase rfl fun rk uuid time _ _ => ?_
      simp [Table.get_eq_some, isEmpty_iff.mp none'] at time
    · exact inv.phase rfl fun _ _ _ _ _ => trivial
  | empty =>
    refine ⟨represents_marked inv.represents true, inv.partOf, fun rk uuid time missing => ?_, fun _ => rfl⟩
    exact (inv.lacks rk uuid time missing).2.elim
  | reset =>
    refine ⟨represents_marked inv.represents false, fun key value found => ?_, fun _ _ _ _ => ⟨rfl, trivial⟩, fun beyond => ?_⟩
    · cases found
    · cases beyond
  | walking lastKey migrated =>
    rw [rebuildNext]
    dsimp only
    have ahead {rk uuid : Text} (time : store.byTime.get rk = some uuid)
        (allowed : (Phase.walking lastKey migrated).MayLack rk uuid) : (rk, uuid) ∈ entriesAfter store.byTime lastKey := by
      refine mem_entriesAfter.mpr ⟨time, fun last own => ?_⟩
      cases own
      exact allowed
    cases found : (nextBatch store.byTime lastKey).getLast? with
    | none =>
      refine inv.phase rfl fun rk uuid time _ allowed => ?_
      have mem := ahead time allowed
      simp [nextBatch_none found] at mem
    | some last => exact inv.phase rfl fun rk uuid time _ allowed => nextBatch_reaches found (ahead time allowed)
  | writing batch lastKey migrated =>
    obtain ⟨later, count, done, part, kept, each⟩ := indexBatch_spec inv.represents batch store.searchFilters migrated inv.partOf
    have done : indexBatch cipher store migrated batch = .ok (withFilters store later, count) := done
    rw [rebuildNext]
    dsimp only
    rw [done]
    refine ⟨inv.represents, part, fun rk uuid time missing => ?_, fun beyond => (nomatch beyond)⟩
    obtain ⟨unready, allowed⟩ := inv.lacks rk uuid time (kept rk missing)
    exact ⟨unready, allowed.resolve_right fun mem => each _ mem time missing⟩
  | finishing migrated =>
    have whole : store.searchFilters = full := inv.whole fun rk uuid time missing => (inv.lacks rk uuid time missing).2
    have many : store.searchFilters.entries.length = store.byTime.entries.length := by
      have keys : full.keys = store.byTime.keys := filters_keys inv.represents
      have lengths := congrArg List.length keys
      rw [Table.keys, Table.keys, length_map, length_map] at lengths
      rw [whole, lengths]
    rw [rebuildNext]
    dsimp only
    rw [if_neg (not_not.mpr many)]
    refine ⟨represents_marked inv.represents true, inv.partOf, fun rk uuid time missing => ?_, fun _ => rfl⟩
    exact (inv.lacks rk uuid time missing).2.elim
  | settled => exact inv
  | rebuilt result => exact inv

theorem next_indexed (act : Act ρ) :
    ∃ history full, Indexed cipher (act.next cipher index) history full := by
  cases act with
  | write op => exact write_indexed inv op
  | rebuild => exact ⟨history, full, rebuild_indexed inv⟩
  | restart => exact ⟨history, full, inv.phase rfl fun _ _ _ _ _ => trivial⟩

theorem run_indexed (acts : List (Act ρ)) :
    ∃ history full, Indexed cipher (run cipher index acts) history full := by
  induction acts generalizing index history full with
  | nil => exact ⟨history, full, inv⟩
  | cons act acts ih =>
    obtain ⟨history, full, inv⟩ := next_indexed inv act
    exact ih inv

end

theorem oldDatabase_indexed (cipher : Cipher ρ) (ops : List (Op ρ)) :
    ∃ history full, Indexed cipher (oldDatabase cipher ops) history full := by
  obtain ⟨history, rep⟩ := foldl_represents (@represents_empty _ cipher true) ops
  refine ⟨history, _, represents_marked rep false, fun key value found => ?_, fun _ _ _ _ => ⟨rfl, trivial⟩, fun beyond => ?_⟩
  · cases found
  · cases beyond

/-- When nobody writes, the rebuild comes to its end. -/
def Ends (cipher : Cipher ρ) (index : Index ρ) : Prop :=
  ∃ n, (run cipher index (List.replicate n .rebuild)).phase.finished = true

theorem Ends.now (done : index.phase.finished = true) : Ends cipher index := ⟨0, done⟩

theorem Ends.step (ends : Ends cipher (rebuildNext cipher index)) : Ends cipher index := by
  obtain ⟨n, done⟩ := ends
  exact ⟨n + 1, done⟩

theorem finishing_ends (store : ClipTables ρ) (migrated : Nat) : Ends cipher ⟨store, .finishing migrated⟩ := by
  refine .step (.now ?_)
  rw [rebuildNext]
  dsimp only
  split_ifs <;> rfl

theorem indexBatch_byTime {store later : ClipTables ρ} {migrated count : Nat} {batch : List (Text × Text)}
    (done : indexBatch cipher store migrated batch = .ok (later, count)) : later.byTime = store.byTime := by
  induction batch generalizing store migrated with
  | nil =>
    cases done
    rfl
  | cons entry batch ih =>
    rw [indexBatch] at done
    split_ifs at done
    · obtain ⟨item, -, done⟩ := bind_ok done
      have same := ih done
      exact same
    · exact ih done

theorem entriesAfter_less {last : Text × Text} (found : (nextBatch byTime lastKey).getLast? = some last) :
    (entriesAfter byTime (some last.1)).length < (entriesAfter byTime lastKey).length := by
  have mem : last ∈ entriesAfter byTime lastKey := mem_of_mem_take (mem_of_getLast? found)
  have further := (mem_entriesAfter.mp mem).2
  have rest : entriesAfter byTime (some last.1) = (entriesAfter byTime lastKey).filter fun entry => decide (last.1 < entry.1) := by
    cases lastKey with
    | none => rfl
    | some before =>
      have behind : before < last.1 := further before rfl
      rw [entriesAfter, entriesAfter, filter_filter]
      refine filter_congr fun entry _ => ?_
      by_cases after : last.1 < entry.1
      · simp [behind.trans after]
      · simp [after]
  rw [rest]
  refine length_filter_lt_length_iff_exists.mpr ⟨last, mem, ?_⟩
  simp

theorem walking_ends (n : Nat) : ∀ (store : ClipTables ρ) (lastKey : Option Text) (migrated : Nat),
    (entriesAfter store.byTime lastKey).length ≤ n → Ends cipher ⟨store, .walking lastKey migrated⟩ := by
  induction n with
  | zero =>
    intro store lastKey migrated none'
    refine .step ?_
    rw [rebuildNext]
    dsimp only
    rw [nextBatch, eq_nil_of_length_eq_zero (Nat.le_zero.mp none')]
    exact finishing_ends store migrated
  | succ n ih =>
    intro store lastKey migrated few
    refine .step ?_
    rw [rebuildNext]
    dsimp only
    cases found : (nextBatch store.byTime lastKey).getLast? with
    | none => exact finishing_ends store migrated
    | some last =>
      have less := entriesAfter_less found
      refine .step ?_
      rw [rebuildNext]
      dsimp only
      cases written : indexBatch cipher store migrated (nextBatch store.byTime lastKey) with
      | error error => exact .now rfl
      | ok done =>
        obtain ⟨later, count⟩ := done
        refine ih later (some last.1) count ?_
        rw [indexBatch_byTime written]
        omega

theorem rebuild_ends (cipher : Cipher ρ) (index : Index ρ) : Ends cipher index := by
  obtain ⟨store, phase⟩ := index
  have reset (store : ClipTables ρ) : Ends cipher ⟨store, .reset⟩ := .step (walking_ends _ _ _ _ le_rfl)
  have notReady : Ends cipher ⟨store, .notReady⟩ := by
    refine .step ?_
    rw [rebuildNext]
    dsimp only
    split_ifs
    · exact .step (.now rfl)
    · exact reset store
  cases phase with
  | start =>
    refine .step ?_
    rw [rebuildNext]
    dsimp only
    split_ifs
    · exact .now rfl
    · exact notReady
  | notReady => exact notReady
  | empty => exact .step (.now rfl)
  | reset => exact reset store
  | walking lastKey migrated => exact walking_ends _ _ _ _ le_rfl
  | writing batch lastKey migrated =>
    refine .step ?_
    rw [rebuildNext]
    dsimp only
    cases indexBatch cipher store migrated batch with
    | error error => exact .now rfl
    | ok done => exact walking_ends _ _ _ _ le_rfl
  | finishing migrated => exact finishing_ends store migrated
  | settled | rebuilt result => exact .now rfl

/-- Every entry by time has one filter, that of its clip, and there are no others. -/
structure Exact (cipher : Cipher ρ) (store : ClipTables ρ) : Prop where
  keys : store.searchFilters.keys = store.byTime.keys
  filters : ∀ recencyKey uuid, store.byTime.get recencyKey = some uuid → ∃ record item, store.clips.get uuid = some record ∧
    cipher.decodeRecord uuid record = .ok item ∧ store.searchFilters.get recencyKey = some (buildFilter cipher.unicode cipher.searchTokenHash item)

theorem represents_exact (rep : Represents cipher store history) : Exact cipher store where
  keys := filters_keys rep
  filters rk uuid time := by
    obtain ⟨item, held, key⟩ := (rep.times rk uuid).mp time
    have filter := (rep.filters rk (cipher.filter item)).mpr ⟨uuid, item, held, key, rfl⟩
    have both := rep.clips uuid
    rw [held] at both
    generalize stored : store.clips.get uuid = record at both
    cases both with
    | @some record _ encoded => exact ⟨record, item, rfl, cipher.readsBack item record encoded uuid, filter⟩

/-- The rebuild is over and the filters are ready. -/
def Index.Complete (index : Index ρ) : Prop := index.phase.finished = true ∧ index.store.searchReady = true

/-- Whenever the filters of an old database are marked ready, they are those of the stored clips, whatever
    the writers do in between; and once they stop, the rebuild ends and the filters are ready. -/
theorem rebuild_exact (cipher : Cipher ρ) (ops : List (Op ρ)) (acts : List (Act ρ)) :
    ((run cipher (oldDatabase cipher ops) acts).store.searchReady = true → Exact cipher (run cipher (oldDatabase cipher ops) acts).store) ∧
      ∃ n, (run cipher (oldDatabase cipher ops) (acts ++ List.replicate n .rebuild)).Complete := by
  obtain ⟨history, full, start⟩ := oldDatabase_indexed cipher ops
  obtain ⟨history, full, inv⟩ := run_indexed start acts
  constructor
  · intro ready
    have whole : withFilters (run cipher (oldDatabase cipher ops) acts).store full = (run cipher (oldDatabase cipher ops) acts).store := by
      rw [← inv.ready ready]
      rfl
    have rep := inv.represents
    rw [whole] at rep
    exact represents_exact rep
  · obtain ⟨n, done⟩ := rebuild_ends cipher (run cipher (oldDatabase cipher ops) acts)
    obtain ⟨history, full, inv⟩ := run_indexed inv (List.replicate n .rebuild)
    refine ⟨n, ?_⟩
    rw [run, foldl_append]
    exact ⟨done, inv.marked done⟩

end

/-- A clip is saved while another is read for its filter. -/
theorem rebuild_exact_saved : Exact plainCipher (run plainCipher (oldDatabase plainCipher [.save firstSample])
    [.rebuild, .rebuild, .rebuild, .rebuild, .write (.save secondSample), .rebuild, .rebuild, .rebuild, .rebuild, .rebuild]).store :=
  (rebuild_exact plainCipher [.save firstSample]
    [.rebuild, .rebuild, .rebuild, .rebuild, .write (.save secondSample), .rebuild, .rebuild, .rebuild, .rebuild, .rebuild]).1 rfl

end Ramag.IndexMigration
