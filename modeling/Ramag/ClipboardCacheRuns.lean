import Ramag.ClipboardCache

/-!
The list that the clipboard service keeps is the beginning of the store's order,
in every run where an item that goes to the front of the list is the newest one
there is, and what leaves the list or the store is older than what stays. The
operations do not see to that: an item that is restored goes to the front
wherever it stands in the store.
-/
namespace Ramag.ClipboardCacheRuns
open Strings Domain ClipFilter OrderedTables ClipStore ClipboardService ClipboardRuns List
open ClipboardCache RankedLists Runs ClipIndex
open ClipboardService.Service (newItem)
open DataSyncGate (saturatingAdd)

variable {p : Platform} {s s' : Cached} {service service' : Service} {faults : Faults} {clock : DateTime}

/-- Every item stands under its own id. -/
def Named (s : Service) : Prop := ∀ {id item}, s.clips.get id = some item → item.id.text = id

theorem mem_recency (named : Named service) (item : Clip) : item ∈ recency service ↔ Stored service item := by
  rw [recency, mem_insertionSort, mem_map, Stored, Table.get_eq_some]
  constructor
  · rintro ⟨⟨id, other⟩, mem, rfl⟩
    have own := named (Table.get_eq_some.mpr mem)
    rwa [own]
  · intro mem
    exact ⟨_, mem, rfl⟩

theorem recency_ranked (named : Named service) : Ranked clipKey (recency service) := by
  refine ranked_insertionSort (pairwise_map.mpr ?_)
  refine service.clips.ordered.imp_of_mem fun {first second} one other less same => ?_
  have named₁ := named (Table.get_eq_some.mpr one)
  have named₂ := named (Table.get_eq_some.mpr other)
  rw [← named₁, ← named₂, recencyKey_inj same] at less
  exact absurd less (lt_irrefl _)

theorem begins_recency (named : Named service) {cache : List Clip} : cache <+: recency service ↔
    Ranked clipKey cache ∧ (∀ item ∈ cache, Stored service item) ∧ Downward clipKey cache (Stored service) := by
  have members := mem_recency named
  constructor
  · intro begins
    obtain ⟨ranked, within, down⟩ := (recency_ranked named).of_begins begins
    exact ⟨ranked, fun item mem => (members item).mp (within item mem), fun a mem b there less => down a mem b ((members b).mpr there) less⟩
  · rintro ⟨ranked, within, down⟩
    exact ranked.begins (recency_ranked named) (fun item mem => (members item).mpr (within item mem))
      fun a mem b there less => down a mem b ((members b).mp there) less

variable {ρ : Type} {cipher : Cipher ρ} {store : ClipTables ρ}

section
variable (mirrors : Mirrors cipher store service)
include mirrors

theorem mirrors_named : Named service :=
  fun held => mirrors.items.named (congrArg (Option.map Clip.toClipItem) held)

theorem recency_entries :
    store.byTime.entries = (recency service).map fun item => (clipKey item, item.id.text) := by
  have named : Named service := mirrors_named mirrors
  have ranked : Ranked Prod.fst ((recency service).map fun item => (clipKey item, item.id.text)) := pairwise_map.mpr (recency_ranked named)
  refine Ranked.unique store.byTime.ordered ranked fun entry => ?_
  obtain ⟨rk, id⟩ := entry
  rw [← Table.get_eq_some, mirrors.items.times, mem_map]
  constructor
  · rintro ⟨item, held, same⟩
    obtain ⟨clip, there, rfl⟩ := Option.map_eq_some_iff.mp held
    have own := named there
    refine ⟨clip, (mem_recency named clip).mpr ?_, Prod.ext same own⟩
    rwa [Stored, own]
  · rintro ⟨clip, mem, same⟩
    obtain ⟨rfl, rfl⟩ := Prod.mk.inj same
    have there : service.clips.get clip.id.text = some clip := (mem_recency named clip).mp mem
    exact ⟨clip.toClipItem, by rw [there]; rfl, rfl⟩

theorem listEntries_listBounded
    (maxInlineBytes total : Nat) (out items : List Clip) (stored : ∀ item ∈ items, Stored service item) :
    listEntries cipher store.clips maxInlineBytes (out.map Clip.toClipItem) total (items.map fun item => (clipKey item, item.id.text)) =
      .ok ((listBounded maxInlineBytes out total items).map Clip.toClipItem) := by
  induction items generalizing out total with
  | nil => rfl
  | cons item items ih =>
    obtain ⟨held, rest⟩ := forall_mem_cons.mp stored
    have loaded := loadIndexedClip_held mirrors.items (congrArg (Option.map Clip.toClipItem) held) (clipKey item)
    have more := ih (min (total + inlinePayloadBytes item.toClipItem) U64_MAX) (out ++ [item]) rest
    rw [map_append, map_singleton] at more
    rw [map_cons, listEntries, loaded, listBounded]
    simp only [bind, Except.bind, isEmpty_map]
    split_ifs
    · rfl
    · rw [map_append, map_singleton]
    · exact more

theorem listRecentBounded_eq (limit maxInlineBytes : Nat) : listRecentBounded cipher store limit maxInlineBytes =
      (clipListRecentBounded service limit maxInlineBytes noFaults).map (·.map Clip.toClipItem) := by
  rw [listRecentBounded, clipListRecentBounded, noFaults, if_neg Bool.false_ne_true, recency_entries mirrors, ← map_take]
  split_ifs
  · rfl
  · have stored : ∀ item ∈ (recency service).take limit, Stored service item := fun item mem =>
      (mem_recency (mirrors_named mirrors) item).mp (mem_of_mem_take mem)
    exact listEntries_listBounded mirrors maxInlineBytes 0 [] _ stored

theorem findByHash_eq (hash : Text) : findByHash cipher store hash = (service.clipFindByHash hash noFaults).map (·.map Clip.toClipItem) := by
  rw [findByHash, Service.clipFindByHash, noFaults, if_neg Bool.false_ne_true, mirrors.hashes]
  cases service.byHash.get hash with
  | none => rfl
  | some id =>
    have entry := mirrors.items.clips id
    dsimp only
    generalize store.clips.get id = record at entry ⊢
    generalize service.clips.get id = found at entry ⊢
    cases found with
    | none =>
      cases entry
      rfl
    | some item =>
      cases entry with
      | some encoded => exact congrArg (·.map some) (cipher.readsBack _ _ encoded id)

/-! ### The tables under the service -/

/-- A transaction of the store; a pruning removes the items that it chose. -/
inductive Write
  | save (item : Clip)
  | delete (id : Text)
  | removeDoomed (doomed : List Text)
  | clear

def Write.tables (cipher : Cipher ρ) (store : ClipTables ρ) : Write → Result (ClipTables ρ)
  | .save item => ClipStore.save cipher item.toClipItem store
  | .delete id => ClipStore.delete id store
  | .removeDoomed doomed => ClipStore.removeDoomed store doomed
  | .clear => .ok ClipStore.clear

def Write.items (service : Service) : Write → Service
  | .save item => service.clipSave item
  | .delete id => service.clipDelete id
  | .removeDoomed doomed => (service.clipRemoveDoomed doomed).getD service
  | .clear => { service with clips := .empty, byHash := .empty }

/-- A transaction that fails is not committed. -/
def Write.run (cipher : Cipher ρ) (both : ClipTables ρ × Service) (write : Write) : ClipTables ρ × Service :=
  match write.tables cipher both.1 with
  | .ok store => (store, write.items both.2)
  | .error _ => both

theorem run_mirrors (write : Write) : Mirrors cipher (write.run cipher (store, service)).1 (write.run cipher (store, service)).2 := by
  rw [Write.run]
  split
  case h_2 => exact mirrors
  case h_1 next done =>
    cases write with
    | save item => exact save_mirrors mirrors done
    | delete id => exact delete_mirrors mirrors done
    | removeDoomed doomed =>
      obtain ⟨left, removed, mirrors⟩ := removeDoomed_mirrors mirrors doomed done
      simpa [Write.items, removed] using mirrors
    | clear =>
      cases done
      exact clear_mirrors service

theorem runs_mirror (writes : List Write) :
    Mirrors cipher (writes.foldl (Write.run cipher) (store, service)).1 (writes.foldl (Write.run cipher) (store, service)).2 := by
  induction writes generalizing store service with
  | nil => exact mirrors
  | cons write writes ih => exact ih (run_mirrors mirrors write)

end

/-- After any transactions the tables answer as the items of the service do. -/
theorem tables_refine (cipher : Cipher ρ) (ready : Bool) (writes : List Write) (limit maxInlineBytes : Nat) (hash : Text) :
    let both := writes.foldl (Write.run cipher) (.empty ready, .empty)
    listRecentBounded cipher both.1 limit maxInlineBytes =
        (clipListRecentBounded both.2 limit maxInlineBytes noFaults).map (·.map Clip.toClipItem) ∧
      findByHash cipher both.1 hash = (both.2.clipFindByHash hash noFaults).map (·.map Clip.toClipItem) := by
  intro both
  have mirrors := runs_mirror (@mirrors_empty ρ cipher ready) writes
  exact ⟨listRecentBounded_eq mirrors limit maxInlineBytes, findByHash_eq mirrors hash⟩

theorem truncateCache_begins (cache : List Clip) (maxItems maxInlineBytes : Nat) :
    truncateCache cache maxItems maxInlineBytes <+: cache := by
  unfold truncateCache
  split_ifs
  · exact nil_prefix
  · exact ( take_prefix _ _).trans ( take_prefix _ _)

theorem listBounded_begins (maxInlineBytes total : Nat) (out items : List Clip) :
    ∃ n, listBounded maxInlineBytes out total items = out ++ items.take n := by
  induction items generalizing out total with
  | nil => exact ⟨0, by simp [listBounded]⟩
  | cons item items ih =>
    rw [listBounded]
    split_ifs
    · exact ⟨0, by simp⟩
    · exact ⟨1, by simp⟩
    · obtain ⟨n, listed⟩ := ih (min (total + inlinePayloadBytes item.toClipItem) U64_MAX) (out ++ [item])
      exact ⟨n + 1, by simp [listed]⟩

theorem clipListRecentBounded_begins {limit maxInlineBytes : Nat} {items : List Clip}
    (listed : clipListRecentBounded service limit maxInlineBytes faults = .ok items) : items <+: recency service := by
  unfold clipListRecentBounded at listed
  split_ifs at listed
  · cases listed
    exact nil_prefix
  cases listed
  obtain ⟨n, taken⟩ := listBounded_begins maxInlineBytes 0 [] ((recency service).take limit)
  rw [taken, nil_append]
  exact ( take_prefix _ _).trans ( take_prefix _ _)

/-- The item that a recording puts to the front, with what the store then prunes. -/
def recorded (p : Platform) (s : Service) (captured : CapturedClip) (kind : ClipKind) (hash : Text) (tick : CaptureTick)
    (faults : Faults) : Option (Clip × List Text) :=
  if faults.save then none
  else
    match s.resolve p captured kind hash faults with
    | .error _ => none
    | .ok (.inl existing) => some (touched existing tick, [])
    | .ok (.inr contentHash) =>
      match (s.stageMedia p captured contentHash tick.settings faults).1 with
      | .ok (some paths) => some (newItem p captured kind contentHash tick paths, tick.doomed)
      | _ => none

/-- The item that a restore puts to the front: the one that is there, one that shares its content, or itself. -/
def restored (s : Service) (item : Clip) (faults : Faults) : Option Clip :=
  if faults.find then none
  else
    match s.clips.get item.id.text with
    | some existing => some existing
    | none =>
      match s.clipFindByHash item.contentHash faults with
      | .error _ => none
      | .ok duplicate =>
        if (item.imagePath.isSome || item.thumbPath.isSome) && (s.pending.get item.id.text).isNone then none
        else
          match duplicate.filter fun existing => existing.id ≠ item.id && Service.clipItemsSharePayload existing item with
          | some existing => some existing
          | none => if faults.save then none else some item

/-- The item that a step puts to the front, with what the store then prunes. -/
def putBy (p : Platform) (s : Service) (faults : Faults) : Step → Option (Clip × List Text)
  | .act (.capture (some captured) tick) =>
    if tick.settings.enabled then
      match decideCapture p captured tick.settings with
      | .Record hash kind => recorded p s captured kind hash tick faults
      | .Skip _ => none
    else none
  | .act (.copy id now) =>
    if faults.find || faults.write || faults.save then none
    else (s.clips.get id).map fun current => ({ current with lastUsedAt := now }, [])
  | .act (.restore item) => (restored s item faults).map fun item => (item, [])
  | _ => none

/-- The item comes into the store, and the doomed ones are pruned from it, or none if this fails. -/
def Put (s : Service) (item : Clip) (doomed : List Text) (s' : Service) : Prop :=
  ∃ gone, (gone = doomed ∨ gone = []) ∧ ∀ id, s'.clips.get id =
    if id ∈ gone then none else if id = item.id.text then some item else s.clips.get id

/-- An item is put into the store and to the front of the list, or both stay. -/
def Edited (clock : DateTime) (s : Cached) (put : Option (Clip × List Text)) (s' : Cached) : Prop :=
  match put with
  | none => s'.service.clips = s.service.clips ∧ s'.cache = s.cache
  | some (item, doomed) => Put s.service item doomed s'.service ∧ s'.cache = cacheUpsert clock item s.cache

theorem Edited.none {put : Option (Clip × List Text)} (absent : put = none)
    (clips : s'.service.clips = s.service.clips) (cache : s'.cache = s.cache) : Edited clock s put s' := by
  subst absent
  exact ⟨clips, cache⟩

theorem clipSave_get (s : Service) (item : Clip) (id : Text) :
    (s.clipSave item).clips.get id = if id = item.id.text then some item else s.clips.get id := by
  rw [Service.clipSave, Table.get_insert]
  split_ifs <;> rfl

theorem clipDelete_get (s : Service) (id other : Text) :
    (s.clipDelete id).clips.get other = if other = id then none else s.clips.get other := by
  rw [Service.clipDelete]
  cases held : s.clips.get id with
  | none =>
    split_ifs with same
    · exact same ▸ held
    · rfl
  | some old =>
    rw [Table.get_remove]
    split_ifs <;> rfl

theorem removeDoomed_get (doomed : List Text) (removed : service.clipRemoveDoomed doomed = some service') (id : Text) :
    service'.clips.get id = if id ∈ doomed then none else service.clips.get id := by
  induction doomed generalizing service with
  | nil =>
    cases removed
    simp
  | cons first doomed ih =>
    rw [Service.clipRemoveDoomed] at removed
    split_ifs at removed
    rw [ih removed, clipDelete_get]
    by_cases later : id ∈ doomed
    · simp [later]
    · by_cases same : id = first <;> simp [same]

theorem prune_get (s : Service) (doomed : List Text) (faults : Faults) : ∃ gone, (gone = doomed ∨ gone = []) ∧
    ∀ id, (s.prune doomed faults).clips.get id = if id ∈ gone then none else s.clips.get id := by
  rw [Service.prune]
  cases removed : s.clipRemoveDoomed doomed with
  | none => exact ⟨[], .inr rfl, fun id => by simp⟩
  | some pruned =>
    have clips := (cleanupMedia_same pruned (doomed.flatMap fun id => ((s.clips.get id).map Clip.media).getD []) faults).1.1
    refine ⟨doomed, .inl rfl, fun id => ?_⟩
    rw [clips]
    exact removeDoomed_get doomed removed id

theorem put_save (s : Service) (item : Clip) (doomed : List Text) : Put s item doomed (s.clipSave item) :=
  ⟨[], .inr rfl, fun id => by simp [clipSave_get]⟩

variable {item : Clip}

theorem put_there (there : Stored service item) (same : service'.clips = service.clips) : Put service item [] service' := by
  refine ⟨[], .inl rfl, fun id => ?_⟩
  rw [same]
  split_ifs with gone own
  · exact absurd gone not_mem_nil
  · exact own ▸ there
  · rfl

theorem touchFound_edited (s : Cached) (existing : Clip) (tick : CaptureTick) (faults : Faults) (clock : DateTime) :
    Edited clock s (if faults.save then none else some (touched existing tick, [])) (s.touchFound existing tick faults clock).2 := by
  rw [Cached.touchFound, Service.touchFound]
  split_ifs with fails
  · exact ⟨rfl, rfl⟩
  · exact ⟨put_save _ _ _, rfl⟩

theorem record_edited (p : Platform) (s : Cached) (captured : CapturedClip) (kind : ClipKind) (hash : Text)
    (tick : CaptureTick) (faults : Faults) (clock : DateTime) : Edited clock s (recorded p s.service captured kind hash tick faults)
      (s.record p captured kind hash tick faults clock).2 := by
  rw [recorded, Cached.record]
  cases s.service.resolve p captured kind hash faults with
  | error error => exact .none (ite_self _) rfl rfl
  | ok found =>
    cases found with
    | inl existing => exact touchFound_edited s existing tick faults clock
    | inr contentHash =>
      have same := (stageMedia_same p s.service captured contentHash tick.settings faults).1
      dsimp only
      rw [Cached.recordNew]
      generalize s.service.stageMedia p captured contentHash tick.settings faults = result at same ⊢
      obtain ⟨outcome, staged⟩ := result
      match outcome with
      | .error error | .ok none => exact .none (ite_self _) same.1 rfl

      | .ok (some paths) =>
        dsimp only
        split_ifs with fails
        · exact ⟨(cleanupMedia_same staged _ faults).1.1.trans same.1, rfl⟩
        refine ⟨?_, rfl⟩
        set item := newItem p captured kind contentHash tick paths
        obtain ⟨gone, which, items⟩ := prune_get ((staged.clipSave item).protectItemMedia item) tick.doomed faults
        refine ⟨gone, which, fun id => ?_⟩
        rw [items]
        change (if id ∈ gone then none else (staged.clipSave item).clips.get id) = _
        rw [clipSave_get, same.1]

theorem restoreItem_edited (item : Clip) {duplicate : Option Clip}
    (there : ∀ existing, duplicate = some existing → Stored s.service existing)
    (pending : Option PendingMediaDelete) (faults : Faults) (clock : DateTime) :
    Edited clock s ((match duplicate.filter fun existing : Clip => existing.id ≠ item.id && Service.clipItemsSharePayload existing item with
        | some existing => some existing
        | none => if faults.save then none else some item).map fun item => (item, []))
      (s.restoreItem item duplicate pending faults clock).2 := by
  rw [Cached.restoreItem]
  cases shared : duplicate.filter fun existing => existing.id ≠ item.id && Service.clipItemsSharePayload existing item with
  | some existing =>
    obtain ⟨same, -⟩ := Option.filter_eq_some_iff.mp shared
    exact ⟨put_there (there existing same) rfl, rfl⟩
  | none =>
    have apart : (duplicate.any fun existing => existing.id ≠ item.id && Service.clipItemsSharePayload existing item) = false := by
      cases duplicate with
      | none => rfl
      | some existing => simpa using shared
    rw [Service.restoreItem, apart, if_neg Bool.false_ne_true]
    split_ifs with fails
    · cases pending with
      | none => exact ⟨rfl, rfl⟩
      | some held =>
        refine ⟨?_, rfl⟩
        change (s.service.putBack item.id.text held).clips = _
        rw [Service.putBack]
        split_ifs <;> rfl
    · exact ⟨put_save _ _ _, rfl⟩

theorem restore_edited (named : Named s.service) (item : Clip) (faults : Faults) (clock : DateTime) :
    Edited clock s ((restored s.service item faults).map fun item => (item, [])) (s.restore item faults clock).2 := by
  rw [restored, Cached.restore]
  by_cases unread : faults.find = true
  · rw [if_pos unread, if_pos unread]
    exact ⟨rfl, rfl⟩
  rw [if_neg unread, if_neg unread]
  cases held : s.service.clips.get item.id.text with
  | some existing =>
    have there : Stored s.service existing := by rw [Stored, named held, held]
    exact ⟨put_there there rfl, rfl⟩
  | none =>
    cases found : s.service.clipFindByHash item.contentHash faults with
    | error error => exact ⟨rfl, rfl⟩
    | ok duplicate =>
      have there : ∀ existing, duplicate = some existing → Stored s.service existing := by
        rintro existing rfl
        obtain ⟨id, stored⟩ := findByHash_stored found
        rw [Stored, named stored, stored]
      dsimp only
      by_cases media : (item.imagePath.isSome || item.thumbPath.isSome) = true
      · rw [media, Bool.true_and, if_pos rfl, Service.takeForRestore]
        cases s.service.pending.get item.id.text with
        | none => exact ⟨rfl, rfl⟩
        | some pending =>
          exact restoreItem_edited (s := ⟨{ s.service with pending := s.service.pending.remove item.id.text }, s.cache⟩)
            item there (some pending) faults clock
      · rw [if_neg media, Bool.eq_false_iff.mpr media, Bool.false_and, if_neg Bool.false_ne_true]
        exact restoreItem_edited item there none faults clock

theorem copy_edited (s : Cached) (id : Text) (now : DateTime) (faults : Faults) (clock : DateTime) :
    Edited clock s (putBy p s.service faults (.act (.copy id now))) (s.copyToClipboard id now faults clock).2 := by
  rw [putBy, Cached.copyToClipboard, Service.copyToClipboard]
  cases found : s.service.currentClip id faults with
  | error error =>
    refine .none ?_ rfl rfl
    rw [Service.currentClip] at found
    split_ifs at found with unread
    · simp [unread]
    · split at found
      · cases found
      · next absent => simp [absent]
  | ok current =>
    have reads : faults.find = false := by
      rw [Service.currentClip] at found
      split_ifs at found with unread
      simpa using unread
    rw [reads, Bool.false_or, currentClip_ok found]
    dsimp only
    split_ifs with fails
    · exact ⟨rfl, rfl⟩
    · exact ⟨put_save _ _ _, rfl⟩

theorem capture_edited (p : Platform) (s : Cached) (reading : Option CapturedClip) (tick : CaptureTick) (faults : Faults)
    (clock : DateTime) :
    Edited clock s (putBy p s.service faults (.act (.capture reading tick))) (s.captureTick p reading tick faults clock).2 := by
  unfold Cached.captureTick
  cases enabled : tick.settings.enabled with
  | false =>
    refine .none ?_ rfl rfl
    cases reading with
    | none => rfl
    | some captured => simp [putBy, enabled]
  | true =>
    cases reading with
    | none => exact ⟨rfl, rfl⟩
    | some captured =>
      rw [putBy, enabled, if_pos rfl, if_neg (by simp)]
      dsimp only
      cases decideCapture p captured tick.settings with
      | Skip reason => exact ⟨rfl, rfl⟩
      | Record hash kind => exact record_edited p s captured kind hash tick faults clock

/-! ### Keeping the beginning -/

/-- Items stand under their ids, and the list is the beginning of the store's order. -/
structure Newest (s : Cached) : Prop where
  named : Named s.service
  begins : s.cache <+: recency s.service

theorem Newest.same (newest : Newest s) (clips : s'.service.clips = s.service.clips) (cache : s'.cache = s.cache) : Newest s' := by
  constructor
  · intro id item held
    exact newest.named (clips ▸ held)
  · have order : recency s'.service = recency s.service := by rw [recency, recency, clips]
    rw [order, cache]
    exact newest.begins

/-- What lets an item go to the front: if it is not too old itself, it is newer than all others in the store; what is too
    old is older than what is not; and nothing of the list is pruned that is not too old. -/
structure Leads (clock : DateTime) (s : Cached) (item : Clip) (doomed : List Text) : Prop where
  first : cutoff clock ≤ item.lastUsedAt.nanos → ∀ other, Stored s.service other → other.id ≠ item.id → clipKey item < clipKey other
  oldest : ∀ a ∈ moveToFront item s.cache, ∀ b ∈ moveToFront item s.cache,
    a.lastUsedAt.nanos < cutoff clock → cutoff clock ≤ b.lastUsedAt.nanos → clipKey b < clipKey a
  spared : ∀ other ∈ moveToFront item s.cache, cutoff clock ≤ other.lastUsedAt.nanos → other.id.text ∉ doomed

theorem mem_moveToFront {other : Clip} {cache : List Clip} :
    other ∈ moveToFront item cache ↔ other = item ∨ other ∈ cache ∧ other.id ≠ item.id := by
  simp [moveToFront]

theorem Newest.put {doomed : List Text} (newest : Newest s) (leads : Leads clock s item doomed)
    (put : Put s.service item doomed service') : Newest ⟨service', cacheUpsert clock item s.cache⟩ := by
  obtain ⟨gone, which, items⟩ := put
  obtain ⟨ranked, stored, down⟩ := (begins_recency newest.named).mp newest.begins
  have named : Named service' := by
    intro id other held
    rw [items] at held
    split_ifs at held with removed own
    · cases held
      exact own.symm
    · exact newest.named held
  have spared : ∀ other ∈ moveToFront item s.cache, cutoff clock ≤ other.lastUsedAt.nanos → other.id.text ∉ gone := by
    intro other mem young removed
    rcases which with rfl | rfl
    · exact leads.spared other mem young removed
    · exact absurd removed not_mem_nil
  -- what the store holds now, and what of it is new
  have holds : ∀ other, Stored service' other → other = item ∨ Stored s.service other ∧ other.id ≠ item.id := by
    intro other held
    rw [Stored, items] at held
    split_ifs at held with removed own
    · exact .inl (Option.some.inj held).symm
    · exact .inr ⟨held, fun same => own (congrArg ClipId.text same)⟩
  have young : ∀ {other : Clip}, other ∈ (moveToFront item s.cache).filter (fun other => cutoff clock ≤ other.lastUsedAt.nanos) ↔
      (other = item ∨ other ∈ s.cache ∧ other.id ≠ item.id) ∧ cutoff clock ≤ other.lastUsedAt.nanos := by
    intro other
    rw [mem_filter, mem_moveToFront, decide_eq_true_eq]
  refine ⟨named, (truncateCache_begins ((moveToFront item s.cache).filter _) CACHE_WINDOW CACHE_INLINE_BYTE_BUDGET).trans ?_⟩
  refine (begins_recency named).mpr ⟨?_, fun other mem => ?_, fun a mem b held less => ?_⟩
  · rw [moveToFront, filter_cons]
    have rest : Ranked clipKey ((s.cache.filter fun other => other.id ≠ item.id).filter fun other => cutoff clock ≤ other.lastUsedAt.nanos) :=
      (ranked.filter _).filter _
    split_ifs with fresh
    · refine pairwise_cons.mpr ⟨fun other mem => ?_, rest⟩
      obtain ⟨inside, -⟩ := mem_filter.mp mem
      obtain ⟨inside, apart⟩ := mem_filter.mp inside
      exact leads.first (of_decide_eq_true fresh) other (stored other inside) (of_decide_eq_true apart)
    · exact rest
  · obtain ⟨which, fresh⟩ := young.mp mem
    have kept := spared other (mem_moveToFront.mpr which) fresh
    rw [Stored, items, if_neg kept]
    rcases which with rfl | ⟨inside, apart⟩
    · exact if_pos rfl
    · rw [if_neg fun same => apart (clipId_ext same)]
      exact stored other inside
  · obtain ⟨which, fresh⟩ := young.mp mem
    have front : a ∈ moveToFront item s.cache := mem_moveToFront.mpr which
    -- whatever ranks before an item of the list was in it, and is too old only if the item is
    have inside : b = item ∨ b ∈ s.cache ∧ b.id ≠ item.id := by
      rcases holds b held with same | ⟨there, apart⟩
      · exact .inl same
      · rcases which with rfl | ⟨inside, -⟩
        · exact absurd (less.trans (leads.first fresh b there apart)) (lt_irrefl _)
        · exact .inr ⟨down a inside b there less, apart⟩
    refine young.mpr ⟨inside, ?_⟩
    by_contra old
    have later := leads.oldest b (mem_moveToFront.mpr inside) a front (not_le.mp old) fresh
    exact absurd (less.trans later) (lt_irrefl _)

theorem Newest.edited {put : Option (Clip × List Text)} (newest : Newest s) (edited : Edited clock s put s')
    (leads : ∀ item doomed, put = some (item, doomed) → Leads clock s item doomed) : Newest s' := by
  match put with
  | none => exact newest.same edited.1 edited.2
  | some (item, doomed) =>
    have moved := newest.put (leads item doomed rfl) edited.1
    exact moved.same rfl edited.2

theorem Newest.delete (newest : Newest s) (id : Text) (faults : Faults) : Newest (s.delete id faults).2 := by
  obtain ⟨ranked, stored, down⟩ := (begins_recency newest.named).mp newest.begins
  rw [Cached.delete]
  cases found : s.service.currentClip id faults with
  | error error => exact newest
  | ok current =>
    have removed (service' : Service) (clips : service'.clips = (s.service.clipDelete current.id.text).clips) :
        Newest ⟨service', cacheRemove current.id s.cache⟩ := by
      have items (other : Text) := clipDelete_get s.service current.id.text other
      have apart : ∀ other : Clip, Stored service' other ↔ Stored s.service other ∧ other.id ≠ current.id := by
        intro other
        rw [Stored, clips, items, Stored]
        split_ifs with same
        · simp [clipId_ext same]
        · have other' : other.id ≠ current.id := fun equal => same (congrArg ClipId.text equal)
          simp [other']
      have named : Named service' := by
        intro other item held
        rw [clips, items] at held
        split_ifs at held
        exact newest.named held
      refine ⟨named, (begins_recency named).mpr ⟨ranked.filter _, fun other mem => ?_, fun a mem b held less => ?_⟩⟩
      · obtain ⟨inside, different⟩ := mem_filter.mp mem
        exact (apart other).mpr ⟨stored other inside, of_decide_eq_true different⟩
      · obtain ⟨there, different⟩ := (apart b).mp held
        exact mem_filter.mpr ⟨down a (mem_of_mem_filter mem) b there less, decide_eq_true different⟩
    rw [Service.delete, found]
    dsimp only
    split_ifs with fails bare
    · exact newest
    · exact removed _ rfl
    · exact removed _ rfl

theorem Newest.clear (newest : Newest s) (faults : Faults) : Newest (s.clear faults).2 := by
  rw [Cached.clear, Service.clear]
  by_cases fails : faults.save = true
  · rw [if_pos fails]
    exact newest.same rfl (if_pos fails)
  · rw [if_neg fails]
    have empty : Named { s.service with clips := .empty } := nofun
    exact ⟨empty, by rw [if_neg fails]; exact nil_prefix⟩

theorem Newest.preload (newest : Newest s) (faults : Faults) : Newest (s.preload faults) := by
  rw [Cached.preload]
  cases listed : clipListRecentBounded s.service CACHE_WINDOW CACHE_INLINE_BYTE_BUDGET faults with
  | error error => exact newest
  | ok items =>
    exact ⟨newest.named, (truncateCache_begins items CACHE_WINDOW CACHE_INLINE_BYTE_BUDGET).trans
      (clipListRecentBounded_begins listed)⟩

theorem run_service (p : Platform) (s : Cached) (act : Act) (faults : Faults) (clock : DateTime) :
    ((Step.act act).run p s faults clock).service = act.run p s.service faults := by
  have settled {α : Type} (result : Result α × Service) (cache : List Clip) (edit : List Clip → List Clip) :
      (settle result cache edit).2.service = result.2 := by
    obtain ⟨_ | _, service⟩ := result <;> rfl
  cases act with
  | capture reading tick =>
    change (s.captureTick p reading tick faults clock).2.service = (s.service.captureTick p reading tick faults).2
    unfold Cached.captureTick Service.captureTick
    split_ifs
    · rfl
    cases reading with
    | none => rfl
    | some captured =>
      dsimp only
      cases decideCapture p captured tick.settings with
      | Skip reason => rfl
      | Record hash kind =>
        dsimp only
        rw [Cached.record, Service.record]
        cases s.service.resolve p captured kind hash faults with
        | error error => rfl
        | ok found =>
          cases found with
          | inl existing => exact settled _ _ _
          | inr contentHash =>
            dsimp only
            rw [Cached.recordNew, Service.recordNew]
            generalize s.service.stageMedia p captured contentHash tick.settings faults = result
            obtain ⟨outcome, staged⟩ := result
            rcases outcome with error | (_ | paths)
            · rfl
            · rfl
            · split_ifs <;> rfl
  | copy id now =>
    change (s.copyToClipboard id now faults clock).2.service = (s.service.copyToClipboard id now faults).2
    rw [Cached.copyToClipboard]
    cases found : s.service.currentClip id faults with
    | error error => rw [Service.copyToClipboard, found]
    | ok current => exact settled _ _ _
  | delete id =>
    change (s.delete id faults).2.service = (s.service.delete id faults).2
    rw [Cached.delete]
    cases found : s.service.currentClip id faults with
    | error error => rw [Service.delete, found]
    | ok current => exact settled _ _ _
  | restore item =>
    have kept (s : Cached) (duplicate : Option Clip) (pending : Option PendingMediaDelete) :
        (s.restoreItem item duplicate pending faults clock).2.service = (s.service.restoreItem item duplicate pending faults).2 := by
      rw [Cached.restoreItem]
      cases shared : duplicate.filter fun existing => existing.id ≠ item.id && Service.clipItemsSharePayload existing item with
      | none => exact settled _ _ _
      | some existing =>
        obtain ⟨rfl, same⟩ := Option.filter_eq_some_iff.mp shared
        rw [Service.restoreItem, if_pos (by simpa using same)]
    change (s.restore item faults clock).2.service = (s.service.restore item faults).2
    rw [Cached.restore, Service.restore]
    by_cases unread : faults.find = true
    · rw [if_pos unread, if_pos unread]
    rw [if_neg unread, if_neg unread]
    cases held : s.service.clips.get item.id.text with
    | some existing => rfl
    | none =>
      dsimp only
      rw [Option.isSome_none, if_neg Bool.false_ne_true]
      cases s.service.clipFindByHash item.contentHash faults with
      | error error => rfl
      | ok duplicate =>
        dsimp only
        split_ifs with media
        · rw [Service.takeForRestore]
          cases s.service.pending.get item.id.text with
          | none => rfl
          | some pending => exact kept _ _ _
        · exact kept _ _ _
  | finalize id token => rfl
  | cleanupOrphans mediaPaths => rfl
  | clear => rfl

/-- A step of the service that keeps no list. -/
def plainStep (p : Platform) (service : Service) (faults : Faults) : Step → Service
  | .act act => act.run p service faults
  | .preload => service
  | .restart => { service with pending := .empty, nextToken := 0 }

def step (p : Platform) (s : Cached) (move : Step × Faults × DateTime) : Option Cached :=
  some (move.1.run p s move.2.1 move.2.2)

/-- An item that is put to the front of the list leads. -/
def Leading (p : Platform) (s : Cached) (move : Step × Faults × DateTime) : Prop :=
  ∀ item doomed, putBy p s.service move.2.1 move.1 = some (item, doomed) → Leads move.2.2 s item doomed

theorem run_newest (newest : Newest s) (move : Step × Faults × DateTime) (leading : Leading p s move) :
    Newest (move.1.run p s move.2.1 move.2.2) := by
  obtain ⟨move, faults, clock⟩ := move
  cases move with
  | preload => exact newest.preload faults
  | restart => exact ⟨newest.named, nil_prefix⟩
  | act act =>
    cases act with
    | capture reading tick => exact newest.edited (capture_edited p s reading tick faults clock) leading
    | copy id now => exact newest.edited (copy_edited s id now faults clock) leading
    | delete id => exact newest.delete id faults
    | restore item => exact newest.edited (restore_edited newest.named item faults clock) leading
    | finalize id token => exact newest.same (finalize_same s.service id token faults).1 rfl
    | cleanupOrphans mediaPaths => exact newest.same (cleanupOrphans_same s.service mediaPaths faults).1 rfl
    | clear => exact newest.clear faults

theorem leads_first (none : s.service.clips = .empty) (empty : s.cache = []) : Leads clock s item [] := by
  refine ⟨fun _ other held _ => ?_, fun a mem b inside old fresh => ?_, fun _ _ _ => not_mem_nil⟩
  · simp [Stored, none] at held
  rw [empty] at mem inside
  rw [mem_singleton.mp mem] at old
  rw [mem_singleton.mp inside] at fresh
  exact absurd fresh (not_le.mpr old)

def copied (c : Char) : CapturedClip := ⟨some [c], none, none, none, [], false⟩

def tickAt (id : ClipId) (now : DateTime) : CaptureTick := { plainTick id with now }

def firstMilli : DateTime := ⟨1000000, by decide⟩

def secondMilli : DateTime := ⟨2000000, by decide⟩

def olderClip : Clip :=
  newItem plainPlatform (copied 'x') .Text (plainHash (.text ['x'])) (tickAt (sampleId '1' isDigit_one) firstMilli) (none, none)

/-- One text is copied and then another; the first is deleted, and restored. -/
def restoredActs : List (Step × Faults × DateTime) :=
  [.act (.capture (some (copied 'x')) (tickAt (sampleId '1' isDigit_one) firstMilli)),
    .act (.capture (some (copied 'y')) (tickAt (sampleId '2' isDigit_two) secondMilli)), .act (.delete ['1']),
    .act (.restore olderClip)].map (·, noFaults, secondMilli)

def restoredRun : Cached := restoredActs.foldl (fun s move => move.1.run plainPlatform s move.2.1 move.2.2) .start

def copiedRun : Cached :=
  (Step.act (.capture (some (copied 'x')) (tickAt (sampleId '1' isDigit_one) firstMilli))).run plainPlatform .start noFaults secondMilli

end Ramag.ClipboardCacheRuns
