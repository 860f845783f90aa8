import Ramag.PruneRuns

/-!
Pruning with nothing in between takes out exactly the clips over the count or
over the age, the oldest first and as many as a batch holds; called again it
ends with the same tables whatever the batches were. A time before 1970 counts
as 1970, and the images of a batch must fit what is returned of them.
-/
namespace Ramag.PruneExact
open Strings Domain Fields ClipFilter OrderedTables ClipStore ClipIndex PruneRuns List

/-- `selectFrom` with this limit for the batch. -/
def selectUpTo (limit excess : Nat) (cutoff : Int) (oldestIndex : Nat) (doomed : List Text) : List (Text × Text) → Result (List Text)
  | [] => .ok doomed
  | (rk, uuid) :: entries => do
    let overCount := decide (oldestIndex < excess)
    let millis ← millisFromRecencyKey rk
    let overAge := decide (millis < cutoff)
    if !overCount && !overAge then .ok doomed
    else if doomed.length + 1 ≥ limit then .ok (doomed ++ [uuid])
    else selectUpTo limit excess cutoff (oldestIndex + 1) (doomed ++ [uuid]) entries

def selectCandidatesUpTo (limit : Nat) (byTime : Table Text Text) (maxItems : Nat) (cutoff : Int) :
    Result (List Text) := do
  let oldestOverAge ← match byTime.entries.getLast? with
    | some (rk, _) => (millisFromRecencyKey rk).map fun millis => decide (millis < cutoff)
    | none => .ok false
  let total := byTime.entries.length
  if total ≤ maxItems && !oldestOverAge then .ok []
  else selectUpTo limit (total - maxItems) cutoff 0 [] byTime.entries.reverse

section
variable {ρ : Type} (cipher : Cipher ρ)

/-- One call, with no other transaction in between. -/
def pruneUpTo (limit maxItems : Nat) (cutoff : Int) (store : ClipTables ρ) :
    Result (ClipTables ρ × List Text) := do
  let doomed ← selectCandidatesUpTo limit store.byTime maxItems cutoff
  if doomed.isEmpty then .ok (store, [])
  else
    let images ← doomedImages cipher store.clips ([], 0) doomed
    let store ← removeDoomed store doomed
    .ok (store, images.1)

/-- Calls one after the other, with the images that they return. -/
def pruneTimes (limit maxItems : Nat) (cutoff : Int) : Nat → ClipTables ρ → Result (ClipTables ρ × List Text)
  | 0, store => .ok (store, [])
  | calls + 1, store => do
    let (store, images) ← pruneUpTo cipher limit maxItems cutoff store
    let (store, later) ← pruneTimes limit maxItems cutoff calls store
    .ok (store, images ++ later)

theorem selectFrom_batch (excess : Nat) (cutoff : Int) (entries : List (Text × Text)) (index : Nat) (doomed : List Text) :
    selectFrom excess cutoff index doomed entries = selectUpTo MAX_CLIP_PRUNE_BATCH excess cutoff index doomed entries := by
  induction entries generalizing index doomed with
  | nil => rfl
  | cons entry entries ih => simp [selectFrom, selectUpTo, ih]

theorem prune_batch (maxItems : Nat) (cutoff : Int) (store : ClipTables ρ) :
    prune cipher maxItems cutoff store store store = pruneUpTo cipher MAX_CLIP_PRUNE_BATCH maxItems cutoff store := by
  have select : selectPruneCandidates store.byTime maxItems cutoff =
      selectCandidatesUpTo MAX_CLIP_PRUNE_BATCH store.byTime maxItems cutoff := by
    cases last : store.byTime.entries.getLast? with
    | none | some oldest => simp [selectPruneCandidates, selectCandidatesUpTo, last, selectFrom_batch]

  rw [prune, pruneUpTo, select]

end

def entryOf (item : ClipItem) : Text × Text := (itemKey item, item.id.text)

/-- The time by which a clip is compared with the cut-off. -/
def Old (cutoff : Int) (item : ClipItem) : Prop := (usedMillis item.lastUsedAt : Int) < cutoff

instance (cutoff : Int) (item : ClipItem) : Decidable (Old cutoff item) :=
  inferInstanceAs (Decidable ((usedMillis item.lastUsedAt : Int) < cutoff))

/-- What stays of the clips, newest first: no more than may, and none from the first that is over the age. -/
def staying (maxItems : Nat) (cutoff : Int) (items : List ClipItem) : List ClipItem :=
  (items.take maxItems).takeWhile fun item => !decide (Old cutoff item)

/-- What goes of the clips, oldest first. -/
def going (excess : Nat) (cutoff : Int) (index : Nat) : List ClipItem → List ClipItem
  | [] => []
  | item :: old => if index < excess ∨ Old cutoff item then item :: going excess cutoff (index + 1) old else []

theorem going_shift (excess : Nat) (cutoff : Int) (old : List ClipItem) (index : Nat) :
    going (excess + 1) cutoff (index + 1) old = going excess cutoff index old := by
  induction old generalizing index with
  | nil => rfl
  | cons item old ih => simp [going, ih]

theorem going_none (cutoff : Int) (old : List ClipItem) (index other : Nat) : going 0 cutoff index old = going 0 cutoff other old := by
  induction old generalizing index other with
  | nil => rfl
  | cons item old ih => simp [going, ih (index + 1) (other + 1)]

/-- The clips are in the order of their times, the latest first. -/
def ByRecency (items : List ClipItem) : Prop :=
  items.Pairwise fun first second => usedMillis second.lastUsedAt ≤ usedMillis first.lastUsedAt

theorem staying_length_le (maxItems : Nat) (cutoff : Int) (items : List ClipItem) : (staying maxItems cutoff items).length ≤ items.length :=
  (takeWhile_sublist _).length_le.trans (take_sublist _ _).length_le

theorem staying_prefix (maxItems : Nat) (cutoff : Int) (items : List ClipItem) : staying maxItems cutoff items <+: items :=
  ( takeWhile_prefix _).trans ( take_prefix _ _)

variable {items : List ClipItem}

theorem not_old_before {cutoff : Int} {item : ClipItem} (sorted : ByRecency (items ++ [item]))
    (young : ¬ Old cutoff item) : ∀ other ∈ items, ¬ Old cutoff other := by
  intro other mem older
  have later := (pairwise_append.mp sorted).2.2 other mem item (mem_singleton_self item)
  unfold Old at young older
  omega

theorem takeWhile_young {cutoff : Int} (young : ∀ item ∈ items, ¬ Old cutoff item) :
    items.takeWhile (fun item => !decide (Old cutoff item)) = items :=
  takeWhile_eq_self_iff.mpr fun item mem => by simp [young item mem]

theorem going_eq (sorted : ByRecency items) (maxItems : Nat) (cutoff : Int) :
    going (items.length - maxItems) cutoff 0 items.reverse = (items.drop (staying maxItems cutoff items).length).reverse := by
  induction items using List.reverseRecOn with
  | nil => simp [going]
  | append_singleton items item ih =>
    have before := ih (pairwise_append.mp sorted).1
    have short := staying_length_le maxItems cutoff items
    rw [reverse_append, reverse_singleton, singleton_append, going, length_append, length_singleton]
    by_cases many : maxItems < items.length + 1
    · have same : staying maxItems cutoff (items ++ [item]) = staying maxItems cutoff items := by
        rw [staying, take_append_of_le_length (by omega), staying]
      have excess : items.length + 1 - maxItems = items.length - maxItems + 1 := by omega
      rw [if_pos (.inl (by omega)), excess, going_shift, before, same, drop_append_of_le_length short]
      simp
    · have excess : items.length + 1 - maxItems = 0 := by omega
      have few : items.take maxItems = items := take_of_length_le (by omega)
      have all : (items ++ [item]).take maxItems = items ++ [item] :=
        take_of_length_le (by rw [length_append, length_singleton]; omega)
      have rest : items.length - maxItems = 0 := by omega
      rw [excess]
      by_cases old : Old cutoff item
      · have same : staying maxItems cutoff (items ++ [item]) = staying maxItems cutoff items := by
          rw [staying, staying, all, few, takeWhile_append]
          split
          · rename_i whole
            simp [old, List.IsPrefix.eq_of_length ( takeWhile_prefix _) whole]
          · rfl
        rw [rest] at before
        rw [if_pos (.inr old), going_none cutoff items.reverse 1 0, before, same, drop_append_of_le_length short]
        simp
      · have young := not_old_before sorted old
        have same : staying maxItems cutoff (items ++ [item]) = items ++ [item] := by
          rw [staying, all, takeWhile_young]
          simpa [or_imp, forall_and, old] using young
        rw [if_neg (by simp [old]), same]
        simp

/-! ### What a batch chooses -/

theorem selectUpTo_items (limit excess : Nat) (cutoff : Int) (old : List ClipItem) (index : Nat) (doomed : List Text) :
    selectUpTo limit excess cutoff index doomed (old.map entryOf) =
      .ok (doomed ++ ((going excess cutoff index old).take (max 1 (limit - doomed.length))).map (·.id.text)) := by
  induction old generalizing index doomed with
  | nil => simp [selectUpTo, going]
  | cons item old ih =>
    rw [map_cons, entryOf, selectUpTo, millis_itemKey]
    change (if (!decide (index < excess) && !decide (Old cutoff item)) = true then _
      else if doomed.length + 1 ≥ limit then _ else selectUpTo limit excess cutoff (index + 1) _ (old.map entryOf)) = _
    by_cases goes : index < excess ∨ Old cutoff item
    · have stops : (!decide (index < excess) && !decide (Old cutoff item)) = false := by
        rcases goes with few | older
        · simp [few]
        · simp [older]
      rw [stops, going, if_pos goes, if_neg (by decide)]
      by_cases full : doomed.length + 1 ≥ limit
      · have one : max 1 (limit - doomed.length) = 1 := by omega
        rw [if_pos full, one]
        rfl
      have more : max 1 (limit - doomed.length) = max 1 (limit - (doomed ++ [item.id.text]).length) + 1 := by
        rw [length_append, length_singleton]
        omega
      rw [if_neg full, ih, more, take_succ_cons]
      simp
    · have stops : (!decide (index < excess) && !decide (Old cutoff item)) = true := by
        simpa using goes
      rw [stops, if_pos rfl, going, if_neg goes]
      simp

/-- The clips of the store, newest first. -/
structure Newest {ρ : Type} (cipher : Cipher ρ) (store : ClipTables ρ) (items : List ClipItem) : Prop where
  entries : store.byTime.entries = items.map entryOf
  holds : ∀ item, Holds cipher store item ↔ item ∈ items

section
variable {ρ : Type} {cipher : Cipher ρ}

/-- The clips of the history are these, in the order of the times. -/
structure InOrder (cipher : Cipher ρ) (store : ClipTables ρ) (history : History) (items : List ClipItem) : Prop where
  rep : Represents cipher store history
  entries : store.byTime.entries = items.map entryOf
  held : ∀ item, history item.id.text = some item ↔ item ∈ items

theorem inOrder_exists {store : ClipTables ρ} {history : History} (rep : Represents cipher store history) :
    ∃ items, InOrder cipher store history items := by
  obtain ⟨items, listed⟩ := listed_exists rep
  have entries : store.byTime.entries = items.map entryOf := by
    generalize store.byTime.entries = entries at listed
    induction listed with
    | nil => rfl
    | @cons entry item entries items own _ ih =>
      have first : entry = entryOf item := by rw [entryOf, own.2, rep.named own.1]
      rw [map_cons, ih, first]
  refine ⟨items, rep, entries, fun item => ⟨fun held => ?_, fun mem => ?_⟩⟩
  · have own := Table.get_eq_some.mp ((rep.times (itemKey item) item.id.text).mpr ⟨item, held, rfl⟩)
    rw [entries, mem_map] at own
    obtain ⟨other, mem, same⟩ := own
    obtain ⟨uuid, kept⟩ := listed.held other mem
    have named : other.id.text = item.id.text := (Prod.mk.inj same).2
    have again := rep.self kept
    rw [named, held] at again
    rwa [Option.some.inj again]
  · obtain ⟨uuid, held⟩ := listed.held item mem
    exact rep.self held

section
variable {store : ClipTables ρ} {history : History} {items : List ClipItem}

section
variable (ordered : InOrder cipher store history items)
include ordered

theorem InOrder.newest : Newest cipher store items :=
  ⟨ordered.entries, fun item => (ordered.rep.holds item).trans (ordered.held item)⟩

theorem InOrder.keys : items.Pairwise fun first second => itemKey first < itemKey second := by
  have sorted := store.byTime.ordered
  rw [ordered.entries] at sorted
  have split := pairwise_map.mp sorted
  exact split.imp fun less => less

theorem InOrder.byRecency : ByRecency items := by
  refine ordered.keys.imp fun {first second} less => ?_
  by_contra later
  have more : itemKey second < itemKey first := recencyKey_lt (.inl (not_le.mp later))
  exact absurd (less.trans more) (lt_irrefl _)

theorem InOrder.chosen (limit maxItems : Nat) (cutoff : Int) : selectCandidatesUpTo limit store.byTime maxItems cutoff =
      .ok (((items.drop (staying maxItems cutoff items).length).reverse.take (max 1 limit)).map (·.id.text)) := by
  have all := selectUpTo_items limit (items.length - maxItems) cutoff items.reverse 0 []
  rw [going_eq ordered.byRecency] at all
  have back : items.reverse.map entryOf = store.byTime.entries.reverse := by rw [ordered.entries, map_reverse]
  have total : store.byTime.entries.length = items.length := by rw [ordered.entries, length_map]
  rw [back] at all
  unfold selectCandidatesUpTo
  obtain rfl | ⟨before, oldest, rfl⟩ := eq_nil_or_concat' items
  · have none' : store.byTime.entries = [] := ordered.entries
    rw [none']
    simp only [drop_nil, reverse_nil, take_nil, map_nil]
    change (if (decide (0 ≤ maxItems) && !false) = true then Except.ok []
      else selectUpTo limit (0 - maxItems) cutoff 0 [] []) = _
    rw [if_pos (by simp)]
  · have last : store.byTime.entries.getLast? = some (entryOf oldest) := by
      rw [ordered.entries, map_append]
      exact getLast?_concat
    rw [last, entryOf]
    dsimp only
    rw [millis_itemKey, total]
    change (if (decide _ && !decide (Old cutoff oldest)) = true then _ else _) = _
    split
    · rename_i early
      rw [Bool.and_eq_true, decide_eq_true_eq, Bool.not_eq_true', decide_eq_false_iff_not] at early
      have whole := going_eq ordered.byRecency maxItems cutoff
      rw [Nat.sub_eq_zero_of_le early.1, reverse_append, reverse_singleton, singleton_append, going,
        if_neg (by simp [early.2])] at whole
      rw [← whole, take_nil]
      rfl
    · rw [all]
      simp

end

variable {item : ClipItem}

theorem InOrder.newer {before rest : List ClipItem} (ordered : InOrder cipher store history (before ++ item :: rest)) :
    (PruneRuns.newer store.byTime (itemKey item)).length = before.length := by
  have sorted := pairwise_append.mp ordered.keys
  have front : (before.map entryOf).filter (fun entry => decide (entry.1 < itemKey item)) = before.map entryOf := by
    refine filter_eq_self.mpr fun entry mem => ?_
    obtain ⟨other, inside, rfl⟩ := mem_map.mp mem
    exact decide_eq_true (sorted.2.2 other inside item mem_cons_self)
  have back : ((item :: rest).map entryOf).filter (fun entry => decide (entry.1 < itemKey item)) = [] := by
    refine filter_eq_nil_iff.mpr fun entry mem => ?_
    obtain ⟨other, inside, rfl⟩ := mem_map.mp mem
    have notLess : ¬ itemKey other < itemKey item := by
      rcases mem_cons.mp inside with rfl | inside
      · exact lt_irrefl _
      · exact not_lt.mpr (le_of_lt ((pairwise_cons.mp sorted.2.1).1 other inside))
    exact fun less => notLess (of_decide_eq_true less)
  rw [PruneRuns.newer, ordered.entries, map_append, filter_append, front, back, append_nil, length_map]

theorem decodeMeta_held (hashed : item.contentHash ≠ []) (uuid : Text) :
    decodeMeta uuid (itemMeta item) = .ok (itemKey item, item.contentHash) := by
  have plain : '\t' ∉ itemKey item := recencyKey_plain item.lastUsedAt item.id
  have key : (itemKey item).isEmpty = false := by simp [itemKey, recencyKey]
  rw [decodeMeta, itemMeta, encodeMeta, splitOnce_part plain]
  dsimp only
  rw [key, if_neg (by simpa using hashed)]

theorem InOrder.removeEntry (ordered : InOrder cipher store history (items ++ [item])) :
    InOrder cipher (ClipStore.removeEntry item.id.text (itemKey item) item.contentHash store)
      (Function.update history item.id.text none) items := by
  have held := (ordered.held item).mpr (by simp)
  have before : ∀ other ∈ items, itemKey other < itemKey item := fun other mem =>
    (pairwise_append.mp ordered.keys).2.2 other mem item (mem_singleton_self item)
  refine ⟨removeEntry_represents ordered.rep held, ?_, fun other => ?_⟩
  · have same : (ClipStore.removeEntry item.id.text (itemKey item) item.contentHash store).byTime =
        store.byTime.remove (itemKey item) := rfl
    rw [same, Table.remove]
    dsimp only
    rw [ordered.entries, map_append, filter_append, filter_eq_self.mpr]
    · simp [entryOf]
    intro entry mem
    obtain ⟨other, inside, rfl⟩ := mem_map.mp mem
    have apart : itemKey other ≠ itemKey item := ne_of_lt (before other inside)
    rw [entryOf]
    simp [apart]
  · by_cases same : other.id.text = item.id.text
    · rw [same, Function.update_self]
      refine iff_of_false (by simp) fun mem => ?_
      have kept := (ordered.held other).mpr (mem_append_left _ mem)
      rw [same, held] at kept
      have less := before other mem
      rw [← Option.some.inj kept] at less
      exact absurd less (lt_irrefl _)
    · rw [Function.update_of_ne same, ordered.held]
      have apart : other ≠ item := fun equal => same (by rw [equal])
      simp [apart]

theorem removeDoomed_append (store : ClipTables ρ) (first second : List Text) :
    removeDoomed store (first ++ second) = removeDoomed store first >>= fun store => removeDoomed store second := by
  induction first generalizing store with
  | nil => rfl
  | cons uuid first ih =>
    rw [cons_append, removeDoomed, removeDoomed]
    cases store.uuidMeta.get uuid with
    | none => rfl
    | some value =>
      dsimp only
      cases decodeMeta uuid value with
      | error => rfl
      | ok pair => exact ih _

variable {gone : List ClipItem}

theorem InOrder.removeDoomed (hashed : ∀ item ∈ gone, item.contentHash ≠ [])
    (ordered : InOrder cipher store history (items ++ gone.reverse)) :
    ∃ next later, ClipStore.removeDoomed store (gone.map (·.id.text)) = .ok next ∧ InOrder cipher next later items := by
  induction gone generalizing store history with
  | nil => exact ⟨store, history, rfl, by simpa using ordered⟩
  | cons item gone ih =>
    have split : items ++ (item :: gone).reverse = items ++ gone.reverse ++ [item] := by simp
    rw [split] at ordered
    obtain ⟨next, later, removed, rest⟩ := ih (fun other mem => hashed other (mem_cons_of_mem _ mem)) ordered.removeEntry
    have held := (ordered.held item).mpr (by simp)
    refine ⟨next, later, ?_, rest⟩
    rw [map_cons, ClipStore.removeDoomed, ordered.rep.metas, held]
    change (decodeMeta _ (itemMeta item) >>= _) = _
    rw [decodeMeta_held (hashed item mem_cons_self)]
    exact removed

/-- The paths fit what is returned of them. -/
structure PathsFit (paths : List Text) : Prop where
  each : ∀ path ∈ paths, byteLen path ≤ MAX_CLIP_MEDIA_PATH_BYTES
  count : paths.length ≤ MAX_CLIP_MEDIA_PATHS
  total : (paths.map byteLen).sum ≤ MAX_CLIP_MEDIA_PATH_TOTAL_BYTES

theorem pushMediaPaths_append (images : List Text × Nat) (first second : List Text) :
    pushMediaPaths images (first ++ second) = pushMediaPaths images first >>= fun images => pushMediaPaths images second := by
  induction first generalizing images with
  | nil => rfl
  | cons path first ih =>
    rw [cons_append, pushMediaPaths, pushMediaPaths]
    cases pushMediaPath images.1 images.2 path with
    | error => rfl
    | ok images => exact ih images

theorem pushMediaPaths_fit {before paths : List Text} (fit : PathsFit (before ++ paths)) :
    pushMediaPaths (before, (before.map byteLen).sum) paths = .ok (before ++ paths, ((before ++ paths).map byteLen).sum) := by
  induction paths generalizing before with
  | nil => simp [pushMediaPaths]
  | cons path paths ih =>
    have whole : before ++ path :: paths = before ++ [path] ++ paths := by simp
    have size := fit.total
    have many := fit.count
    rw [map_append, sum_append, map_cons, sum_cons] at size
    rw [length_append, length_cons] at many
    have pushed : pushMediaPath before (before.map byteLen).sum path = .ok (before ++ [path], ((before ++ [path]).map byteLen).sum) := by
      rw [pushMediaPath, if_neg (Nat.not_lt.mpr (fit.each path (by simp))), if_neg (by omega), if_neg (by omega)]
      simp
    rw [pushMediaPaths, pushed]
    rw [whole] at fit ⊢
    exact ih fit

theorem InOrder.doomedImages (ordered : InOrder cipher store history items) (part : ∀ item ∈ gone, item ∈ items)
    (images : List Text × Nat) :
    ClipStore.doomedImages cipher store.clips images (gone.map (·.id.text)) = pushMediaPaths images (gone.flatMap media) := by
  induction gone generalizing images with
  | nil => rfl
  | cons item gone ih =>
    have held := (ordered.held item).mpr (part item mem_cons_self)
    have both := ordered.rep.clips item.id.text
    rw [held] at both
    rw [map_cons, ClipStore.doomedImages, flatMap_cons, pushMediaPaths_append]
    generalize store.clips.get item.id.text = record at both
    cases both with
    | some encoded =>
      dsimp only
      rw [cipher.readsBack item _ encoded]
      change (pushMediaPaths images (media item) >>= _) = _
      cases pushMediaPaths images (media item) with
      | error => rfl
      | ok images => exact ih (fun other mem => part other (mem_cons_of_mem _ mem)) images

theorem staying_short {maxItems : Nat} {cutoff : Int} {short rest : List ClipItem}
    (room : (staying maxItems cutoff (short ++ rest)).length ≤ short.length) :
    staying maxItems cutoff short = staying maxItems cutoff (short ++ rest) := by
  by_cases many : maxItems ≤ short.length
  · rw [staying, staying, take_append_of_le_length many]
  have few : short.take maxItems = short := take_of_length_le (by omega)
  rw [staying, take_append, few, takeWhile_append] at room
  rw [staying, staying, take_append, few, takeWhile_append]
  split at room
  · rename_i whole
    have all := List.IsPrefix.eq_of_length ( takeWhile_prefix _) whole
    rw [length_append] at room
    have none' := length_eq_zero_iff.mp (Nat.le_zero.mp (Nat.le_of_add_le_add_left (a := short.length) room))
    rw [if_pos whole, none', append_nil, all]
  · rename_i part
    rw [if_neg part]

/-- The images of any batch fit, and every clip that goes has a content hash. -/
structure Fits (limit : Nat) (gone : List ClipItem) : Prop where
  hashed : ∀ item ∈ gone, item.contentHash ≠ []
  images : ∀ batch, batch <:+: gone → batch.length ≤ max 1 limit → PathsFit (batch.flatMap media)

theorem Fits.drop {limit : Nat} (fits : Fits limit gone) (n : Nat) : Fits limit (gone.drop n) :=
  ⟨fun item mem => fits.hashed item (mem_of_mem_drop mem), fun batch part small =>
    fits.images batch (part.trans (drop_suffix n gone).isInfix) small⟩

section
variable {limit maxItems : Nat} {cutoff : Int} {kept gone : List ClipItem}

theorem InOrder.pruneUpTo (ordered : InOrder cipher store history (kept ++ gone.reverse))
    (stay : staying maxItems cutoff (kept ++ gone.reverse) = kept) (fits : Fits limit gone) :
    ∃ next later, ClipStore.removeDoomed store ((gone.take (max 1 limit)).map (·.id.text)) = .ok next ∧
      PruneExact.pruneUpTo cipher limit maxItems cutoff store = .ok (next, (gone.take (max 1 limit)).flatMap media) ∧
      InOrder cipher next later (kept ++ (gone.drop (max 1 limit)).reverse) := by
  have chosen := ordered.chosen limit maxItems cutoff
  rw [stay, drop_left, reverse_reverse] at chosen
  have split : kept ++ gone.reverse = kept ++ (gone.drop (max 1 limit)).reverse ++ (gone.take (max 1 limit)).reverse := by
    rw [append_assoc, ← reverse_append, take_append_drop]
  have hashed : ∀ item ∈ gone.take (max 1 limit), item.contentHash ≠ [] := fun item mem => fits.hashed item (mem_of_mem_take mem)
  have small : (gone.take (max 1 limit)).length ≤ max 1 limit := length_take_le _ _
  have fit : PathsFit ([] ++ (gone.take (max 1 limit)).flatMap media) := fits.images _ ( take_prefix _ _).isInfix small
  have part : ∀ item ∈ gone.take (max 1 limit), item ∈ kept ++ gone.reverse := fun item mem =>
    mem_append_right _ (mem_reverse.mpr (mem_of_mem_take mem))
  have looked := ordered.doomedImages part ([], 0)
  have pushed : pushMediaPaths ([], 0) ((gone.take (max 1 limit)).flatMap media) = _ := pushMediaPaths_fit fit
  rw [pushed] at looked
  have ordered' := ordered
  rw [split] at ordered'
  obtain ⟨next, later, removed, rest⟩ := ordered'.removeDoomed hashed
  refine ⟨next, later, removed, ?_, rest⟩
  unfold PruneExact.pruneUpTo
  rw [chosen]
  change (if ((gone.take (max 1 limit)).map _).isEmpty = true then _ else _) = _
  split
  · rename_i empty
    have none' : gone.take (max 1 limit) = [] := by simpa using empty
    rw [none'] at removed ⊢
    cases removed
    rfl
  · rw [looked]
    rw [removed]
    rfl

theorem InOrder.pruneTimes (calls : Nat) (ordered : InOrder cipher store history (kept ++ gone.reverse))
    (stay : staying maxItems cutoff (kept ++ gone.reverse) = kept) (fits : Fits limit gone) :
    ∃ next later, ClipStore.removeDoomed store ((gone.take (calls * max 1 limit)).map (·.id.text)) = .ok next ∧
      PruneExact.pruneTimes cipher limit maxItems cutoff calls store = .ok (next, (gone.take (calls * max 1 limit)).flatMap media) ∧
      InOrder cipher next later (kept ++ (gone.drop (calls * max 1 limit)).reverse) := by
  induction calls generalizing store history gone with
  | zero =>
    rw [Nat.zero_mul]
    exact ⟨store, history, rfl, rfl, ordered⟩
  | succ calls ih =>
    obtain ⟨middle, between, removed, first, ordered'⟩ := ordered.pruneUpTo stay fits
    have stay' : staying maxItems cutoff (kept ++ (gone.drop (max 1 limit)).reverse) = kept := by
      have split : kept ++ gone.reverse = kept ++ (gone.drop (max 1 limit)).reverse ++ (gone.take (max 1 limit)).reverse := by
        rw [append_assoc, ← reverse_append, take_append_drop]
      rw [split] at stay
      rw [staying_short (by rw [stay]; simp), stay]
    obtain ⟨next, later, removed', rest, ordered''⟩ := ih ordered' stay' (fits.drop _)
    have count : (calls + 1) * max 1 limit = max 1 limit + calls * max 1 limit := by rw [Nat.succ_mul, Nat.add_comm]
    have parts : gone.take ((calls + 1) * max 1 limit) =
        gone.take (max 1 limit) ++ (gone.drop (max 1 limit)).take (calls * max 1 limit) := by rw [count, take_add]
    refine ⟨next, later, ?_, ?_, ?_⟩
    · rw [parts, map_append, removeDoomed_append, removed]
      exact removed'
    · rw [PruneExact.pruneTimes, first]
      change (PruneExact.pruneTimes cipher limit maxItems cutoff calls middle >>= _) = _
      rw [rest, parts, flatMap_append]
      rfl
    · rw [count, ← drop_drop]
      exact ordered''

end

end

theorem InOrder.goes {store : ClipTables ρ} {history : History} {maxItems : Nat} {cutoff : Int}
    {kept gone : List ClipItem} (ordered : InOrder cipher store history (kept ++ gone))
    (stay : staying maxItems cutoff (kept ++ gone) = kept) {item : ClipItem} (mem : item ∈ kept ++ gone) :
    item ∈ gone ↔ Old cutoff item ∨ Outside maxItems store item := by
  constructor
  · intro inside
    obtain ⟨before, rest, rfl⟩ := append_of_mem inside
    by_cases many : maxItems ≤ kept.length
    · have place : kept ++ (before ++ item :: rest) = kept ++ before ++ item :: rest := by simp
      rw [place] at ordered
      rw [Outside, ordered.newer, length_append]
      omega
    obtain ⟨first, later, split⟩ : ∃ first later, before ++ item :: rest = first :: later := by
      cases before with
      | nil => exact ⟨item, rest, rfl⟩
      | cons first before => exact ⟨first, before ++ item :: rest, rfl⟩
    rw [split] at stay ordered inside
    have oldFirst : Old cutoff first := by
      by_contra young
      have youngKept : ∀ other ∈ kept, ¬ Old cutoff other := by
        intro other mem
        rw [← stay] at mem
        simpa using mem_takeWhile_imp mem
      obtain ⟨room, count⟩ : ∃ room, maxItems - kept.length = room + 1 := ⟨maxItems - kept.length - 1, by omega⟩
      have few : kept.take maxItems = kept := take_of_length_le (by omega)
      have size := congrArg List.length stay
      rw [staying, take_append, few, count, take_succ_cons, takeWhile_append_of_pos (by simpa using youngKept),
        takeWhile_cons_of_pos (by simpa using young), length_append, length_cons] at size
      omega
    left
    rcases mem_cons.mp inside with rfl | inside
    · exact oldFirst
    have later := (pairwise_append.mp ordered.byRecency).2.1
    have order := (pairwise_cons.mp later).1 item inside
    unfold Old at oldFirst ⊢
    omega
  · intro beyond
    rcases mem_append.mp mem with inside | inside
    · rcases beyond with old | outside
      · rw [← stay] at inside
        have young := mem_takeWhile_imp inside
        simp [old] at young
      have few : kept.length ≤ maxItems := by
        rw [← stay]
        exact (takeWhile_sublist _).length_le.trans (length_take_le _ _)
      obtain ⟨before, rest, rfl⟩ := append_of_mem inside
      have place : before ++ item :: rest ++ gone = before ++ item :: (rest ++ gone) := by simp
      rw [place] at ordered
      rw [Outside, ordered.newer] at outside
      rw [length_append, length_cons] at few
      omega
    · exact inside

/-- What pruning does to a store with these clips: `kept` stay, newest first, and `gone` go, oldest first. -/
structure Exact (cipher : Cipher ρ) (store : ClipTables ρ) (maxItems : Nat) (cutoff : Int) (kept gone : List ClipItem) : Prop where
  newest : Newest cipher store (kept ++ gone.reverse)
  goes : ∀ item, Holds cipher store item → (item ∈ gone ↔ Old cutoff item ∨ Outside maxItems store item)
  few : kept.length ≤ maxItems
  young : ∀ item ∈ kept, ¬ Old cutoff item
  /-- The repository's call is one with its own batch limit. -/
  batch : prune cipher maxItems cutoff store store store = pruneUpTo cipher MAX_CLIP_PRUNE_BATCH maxItems cutoff store
  /-- One call takes out the oldest of those that go, all of them unless the batch is full, and returns their media. -/
  once : ∀ limit, Fits limit gone → ∃ next, pruneUpTo cipher limit maxItems cutoff store =
    .ok (next, (gone.take (max 1 limit)).flatMap media) ∧ Newest cipher next (kept ++ (gone.drop (max 1 limit)).reverse)
  /-- Enough calls with batches of whatever size end with the same tables. -/
  again : ∃ final, ∀ limit calls, Fits limit gone → gone.length ≤ calls * max 1 limit →
    pruneTimes cipher limit maxItems cutoff calls store = .ok (final, gone.flatMap media) ∧ Newest cipher final kept

/-- In every store that is reached, pruning is exact. -/
theorem prune_exact (cipher : Cipher ρ) (ops : List (Op ρ)) (maxItems : Nat) (cutoff : Int) :
    ∃ kept gone, Exact cipher (after cipher ops) maxItems cutoff kept gone := by
  obtain ⟨history, rep⟩ := foldl_represents (@represents_empty _ cipher true) ops
  have rep : Represents cipher (after cipher ops) history := rep
  obtain ⟨items, ordered⟩ := inOrder_exists rep
  generalize after cipher ops = store at rep ordered
  obtain ⟨old, split⟩ := staying_prefix maxItems cutoff items
  obtain ⟨kept, same⟩ : ∃ kept, staying maxItems cutoff items = kept := ⟨_, rfl⟩
  obtain ⟨gone, rfl⟩ : ∃ gone, old = gone.reverse := ⟨old.reverse, by simp⟩
  rw [same] at split
  subst split
  refine ⟨kept, gone, ordered.newest, ?_, ?_, ?_, prune_batch cipher maxItems cutoff store, fun limit fits => ?_, ?_⟩
  · intro item holds
    rw [← mem_reverse]
    exact ordered.goes same ((ordered.newest.holds item).mp holds)
  · rw [← same]
    exact (takeWhile_sublist _).length_le.trans (length_take_le _ _)
  · intro item mem
    rw [← same] at mem
    simpa using mem_takeWhile_imp mem
  · obtain ⟨next, later, -, done, rest⟩ := ordered.pruneUpTo same fits
    exact ⟨next, done, rest.newest⟩
  · by_cases hashed : ∀ item ∈ gone, item.contentHash ≠ []
    · obtain ⟨final, last, removed, rest⟩ := ordered.removeDoomed hashed
      refine ⟨final, fun limit calls fits enough => ?_⟩
      obtain ⟨next, later, removed', done, -⟩ := ordered.pruneTimes calls same fits
      rw [take_of_length_le enough] at removed' done
      rw [removed, Except.ok.injEq] at removed'
      subst removed'
      exact ⟨done, rest.newest⟩
    · exact ⟨store, fun limit calls fits => absurd fits.hashed hashed⟩

end

/-- Last used before 1970. -/
def earlySample : ClipItem := { firstSample with lastUsedAt := ⟨-5000000, by decide⟩ }

def hashlessSample : ClipItem := { firstSample with contentHash := [] }

def longPath : Text := List.replicate (MAX_CLIP_MEDIA_PATH_BYTES + 1) 'a'

def imageSample : ClipItem := { firstSample with imagePath := some longPath }

/-- One call on a store with one clip, when none may stay. -/
def pruneOne (item : ClipItem) : Result (ClipTables ClipItem × List Text) :=
  prune plainCipher 0 0 (after plainCipher [.save item]) (after plainCipher [.save item]) (after plainCipher [.save item])

theorem longPath_long : MAX_CLIP_MEDIA_PATH_BYTES < byteLen longPath := by
  refine lt_of_lt_of_le ?_ (length_le_byteLen _)
  rw [longPath, length_replicate]
  exact Nat.lt_succ_self _

theorem doomedImages_long {ρ : Type} {cipher : Cipher ρ} {clips : Table Text ρ} {uuid path : Text} {record : ρ}
    {item : ClipItem} (stored : clips.get uuid = some record) (read : cipher.decodeRecord uuid record = .ok item)
    (image : item.imagePath = some path) (long : MAX_CLIP_MEDIA_PATH_BYTES < byteLen path) (images result : List Text × Nat)
    (doomed : List Text) : doomedImages cipher clips images (uuid :: doomed) ≠ .ok result := by
  intro done
  rw [doomedImages, stored] at done
  obtain ⟨again, same, done⟩ := bind_ok done
  rw [read] at same
  cases same
  obtain ⟨next, pushed, -⟩ := bind_ok done
  rw [image, Option.toList_some, singleton_append, pushMediaPaths, pushMediaPath, if_pos long] at pushed
  cases pushed

theorem pruneOne_image (result : ClipTables ClipItem × List Text) : pruneOne imageSample ≠ .ok result := by
  intro done
  have chosen : selectPruneCandidates (after plainCipher [.save imageSample]).byTime 0 0 = .ok [['1']] := rfl
  have stored : (after plainCipher [.save imageSample]).clips.get ['1'] = some imageSample := rfl
  obtain ⟨doomed, same, ⟨none', -⟩ | ⟨images, looked, -⟩⟩ := prune_ok done
  · simp [chosen, none'] at same
  · cases same
    exact doomedImages_long stored rfl rfl longPath_long _ _ _ looked

/-- A clip from before 1970 stays though it is over the age; one without a hash cannot go, nor can one whose
    image has a path that is too long. -/
theorem prune_not_exact :
    (∃ next images item, prune plainCipher 1 0 (after plainCipher [.save earlySample]) (after plainCipher [.save earlySample])
      (after plainCipher [.save earlySample]) = .ok (next, images) ∧ Holds plainCipher next item ∧ Expired 0 item) ∧
    (∀ result, pruneOne hashlessSample ≠ .ok result) ∧ ∀ result, pruneOne imageSample ≠ .ok result := by
  refine ⟨⟨after plainCipher [.save earlySample], [], earlySample, rfl, ⟨earlySample, rfl, rfl⟩, by decide⟩, ?_, ?_⟩
  · intro result done
    have refused : pruneOne hashlessSample = .error (.Storage ("剪贴索引元数据 " ++ ['1'] ++ " 格式无效")) := rfl
    simp [refused] at done
  · exact pruneOne_image

end Ramag.PruneExact
