import Ramag.ClipboardRuns
import Ramag.RankedLists

/-!
The newest items of the clipboard history, which the service keeps in memory.
Every operation edits this list by a rule of its own; only a reload takes it
from the store.
-/
namespace Ramag.ClipboardCache
open Strings Domain ClipFilter OrderedTables ClipStore ClipboardService ClipboardRuns
open RankedLists
open DataSyncGate (saturatingAdd)
open ClipboardService.Service (newItem)

def MAX_AGE_DAYS : Int := 360
def CACHE_WINDOW : Nat := 500
def CACHE_INLINE_BYTE_BUDGET : Nat := 64 * 1024 * 1024
def NANOS_PER_DAY : Int := 24 * 60 * 60 * 1000000000

def clipKey (item : Clip) : Text := recencyKey item.lastUsedAt item.id.text

/-- The stored items, the last used first. -/
def recency (s : Service) : List Clip := (s.clips.entries.map (·.2)).insertionSort fun a b => clipKey a ≤ clipKey b

/-- The first items up to a number of inline bytes, and at least one. -/
def listBounded (maxInlineBytes : Nat) (out : List Clip) (totalInlineBytes : Nat) : List Clip → List Clip
  | [] => out
  | item :: items =>
    let nextTotal := min (totalInlineBytes + inlinePayloadBytes item.toClipItem) U64_MAX
    if !out.isEmpty && decide (nextTotal > maxInlineBytes) then out
    else if nextTotal ≥ maxInlineBytes then out ++ [item]
    else listBounded maxInlineBytes (out ++ [item]) nextTotal items

def clipListRecentBounded (s : Service) (limit maxInlineBytes : Nat) (faults : Faults) : Result (List Clip) :=
  if faults.find then .error faults.error
  else if maxInlineBytes = 0 then .ok []
  else .ok (listBounded maxInlineBytes [] 0 ((recency s).take limit))

/-- How many items the bytes allow. -/
def keptItems (maxInlineBytes : Nat) (total keep : Nat) : List Clip → Nat
  | [] => keep
  | item :: items =>
    let next := saturatingAdd total (inlinePayloadBytes item.toClipItem)
    if keep > 0 ∧ next > maxInlineBytes then keep
    else if next ≥ maxInlineBytes then keep + 1
    else keptItems maxInlineBytes next (keep + 1) items

def truncateCache (cache : List Clip) (maxItems maxInlineBytes : Nat) : List Clip :=
  let cache := cache.take maxItems
  if maxInlineBytes = 0 then [] else cache.take (keptItems maxInlineBytes 0 0 cache)

def cutoff (clock : DateTime) : Int := clock.nanos - MAX_AGE_DAYS * NANOS_PER_DAY

def moveToFront (item : Clip) (cache : List Clip) : List Clip := item :: cache.filter fun other => other.id ≠ item.id

/-- The item goes to the front, and what is too old goes. -/
def cacheUpsert (clock : DateTime) (item : Clip) (cache : List Clip) : List Clip :=
  let cache := moveToFront item cache
  truncateCache (cache.filter fun other => cutoff clock ≤ other.lastUsedAt.nanos) CACHE_WINDOW CACHE_INLINE_BYTE_BUDGET

def cacheRemove (id : ClipId) (cache : List Clip) : List Clip := cache.filter fun other => other.id ≠ id

/-! ### The operations -/

/-- The service with the list it keeps. -/
structure Cached where
  service : Service
  cache : List Clip

/-- What became of the service, and the list as edited if all went well. -/
def settle {α : Type} (result : Result α × Service) (cache : List Clip) (edit : List Clip → List Clip) : Result α × Cached :=
  match result with
  | (.ok value, service) => (.ok value, ⟨service, edit cache⟩)
  | (.error error, service) => (.error error, ⟨service, cache⟩)

/-- An item that is counted as used. -/
def touched (existing : Clip) (tick : CaptureTick) : Clip :=
  { existing with lastUsedAt := tick.now, source := tick.source.or existing.source }

variable (p : Platform) (s : Cached)

namespace Cached

def preload (faults : Faults) : Cached :=
  match clipListRecentBounded s.service CACHE_WINDOW CACHE_INLINE_BYTE_BUDGET faults with
  | .ok items => { s with cache := truncateCache items CACHE_WINDOW CACHE_INLINE_BYTE_BUDGET }
  | .error _ => s

def touchFound (s : Cached) (existing : Clip) (tick : CaptureTick) (faults : Faults) (clock : DateTime) : Result Bool × Cached :=
  settle (s.service.touchFound existing tick faults) s.cache (cacheUpsert clock (touched existing tick))

def recordNew (captured : CapturedClip) (kind : ClipKind) (contentHash : Text)
    (tick : CaptureTick) (faults : Faults) (clock : DateTime) : Result Bool × Cached :=
  match s.service.stageMedia p captured contentHash tick.settings faults with
  | (.error error, service) => (.error error, { s with service })
  | (.ok none, service) => (.ok false, { s with service })
  | (.ok (some paths), service) =>
    let item := newItem p captured kind contentHash tick paths
    if faults.save then
      (.error faults.error, { s with service := service.cleanupMedia (service.unprotectedStagedMedia item.media) faults })
    else
      -- the list is edited before the store is pruned, and not after
      let cache := cacheUpsert clock item s.cache
      (.ok true, ⟨((service.clipSave item).protectItemMedia item).prune tick.doomed faults, cache⟩)

def record (captured : CapturedClip) (kind : ClipKind) (hash : Text) (tick : CaptureTick)
    (faults : Faults) (clock : DateTime) : Result Bool × Cached :=
  match s.service.resolve p captured kind hash faults with
  | .error error => (.error error, s)
  | .ok (.inl existing) => s.touchFound existing tick faults clock
  | .ok (.inr contentHash) => s.recordNew p captured kind contentHash tick faults clock

def captureTick (reading : Option CapturedClip) (tick : CaptureTick) (faults : Faults) (clock : DateTime) : Result Bool × Cached :=
  if !tick.settings.enabled then (.ok false, s)
  else
    match reading with
    | none => (.ok false, s)
    | some captured =>
      match decideCapture p captured tick.settings with
      | .Skip _ => (.ok false, s)
      | .Record hash kind => s.record p captured kind hash tick faults clock

def copyToClipboard (s : Cached) (id : Text) (now : DateTime) (faults : Faults) (clock : DateTime) : Result Unit × Cached :=
  match s.service.currentClip id faults with
  | .error error => (.error error, s)
  | .ok current => settle (s.service.copyToClipboard id now faults) s.cache (cacheUpsert clock { current with lastUsedAt := now })

def delete (s : Cached) (id : Text) (faults : Faults) : Result (Option Nat) × Cached :=
  match s.service.currentClip id faults with
  | .error error => (.error error, s)
  | .ok current => settle (s.service.delete id faults) s.cache (cacheRemove current.id)

def restoreItem (s : Cached) (item : Clip) (duplicate : Option Clip) (pending : Option PendingMediaDelete) (faults : Faults)
    (clock : DateTime) : Result Unit × Cached :=
  match duplicate.filter fun existing => existing.id ≠ item.id && Service.clipItemsSharePayload existing item with
  | some existing => (.ok (), ⟨s.service.protectItemMedia item, cacheUpsert clock existing s.cache⟩)
  | none => settle (s.service.restoreItem item duplicate pending faults) s.cache (cacheUpsert clock item)

def restore (item : Clip) (faults : Faults) (clock : DateTime) : Result Unit × Cached :=
  if faults.find then (.error faults.error, s)
  else
    match s.service.clips.get item.id.text with
    | some existing => (.ok (), { s with cache := cacheUpsert clock existing s.cache })
    | none =>
      match s.service.clipFindByHash item.contentHash faults with
      | .error error => (.error error, s)
      | .ok duplicate =>
        if item.imagePath.isSome || item.thumbPath.isSome then
          match s.service.takeForRestore item.id.text with
          | (none, service) => (.error (.Storage "图片撤销窗口已过期，媒体文件已清理"), { s with service })
          | (some pending, service) => { s with service }.restoreItem item duplicate (some pending) faults clock
        else s.restoreItem item duplicate none faults clock

/-- The list is empty as soon as the store is, whatever becomes of the files. -/
def clear (s : Cached) (faults : Faults) : Result Unit × Cached :=
  let (result, service) := s.service.clear faults
  (result, ⟨service, if faults.save then s.cache else []⟩)

end Cached

/-- What the user and the program do. A new start of the program forgets the list and the pending deletions. -/
inductive Step
  | act (act : Act)
  | preload
  | restart

def Step.run (faults : Faults) (clock : DateTime) : Step → Cached
  | .act (.capture reading tick) => (s.captureTick p reading tick faults clock).2
  | .act (.copy id now) => (s.copyToClipboard id now faults clock).2
  | .act (.delete id) => (s.delete id faults).2
  | .act (.restore item) => (s.restore item faults clock).2
  | .act (.finalize id token) => { s with service := (s.service.finalizeDeletedMedia id token faults).2 }
  | .act (.cleanupOrphans mediaPaths) => { s with service := (s.service.cleanupOrphans mediaPaths faults).2 }
  | .act .clear => (s.clear faults).2
  | .preload => s.preload faults
  | .restart => ⟨{ s.service with pending := .empty, nextToken := 0 }, []⟩

def Cached.start : Cached := ⟨.empty, []⟩

end Ramag.ClipboardCache
