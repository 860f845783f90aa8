import Ramag.ApiHistory
import Ramag.Runs
import Mathlib.Algebra.Order.BigOperators.Group.List
import Mathlib.Algebra.Order.Group.Nat

/-!
The limits of the API history over whole runs. Appending decides what to drop
with the new record among the others, and writes the new record last, whether or
not it was dropped. While each new record outlives its own trimming and is not
older than one that was trimmed before, every workspace stays within the limits,
keeps the newest of its records, and is listed (`history_kept`).
-/
namespace Ramag.ApiHistoryRuns
open Strings Domain Fields BoundedJson OrderedTables Uuids ApiHistory Runs List

variable {δ : Type} {codec : Codec δ}

variable {record : ApiHistoryRecord δ}

variable {other : Uuid}

theorem recordPrefix_key {workspaceId : Uuid} : recordPrefix other <+: key workspaceId record ↔ other = workspaceId := by
  constructor
  · rintro ⟨rest, spelled⟩
    rw [recordPrefix, key, append_assoc] at spelled
    exact text_injective (append_inj spelled (by rw [text_length, text_length])).1
  · rintro rfl
    exact ⟨record.id.text, by simp [recordPrefix, key]⟩

theorem key_inj {workspaceId : Uuid} {record record' : ApiHistoryRecord δ}
    (same : key workspaceId record = key other record') : workspaceId = other ∧ record.id = record'.id := by
  obtain ⟨left, right⟩ := append_inj same (by rw [text_length, text_length])
  exact ⟨text_injective left, text_injective (List.cons.inj right).2⟩

variable {nonce : List UInt8}

theorem decode_encode {value : Text}
    (encoded : encode codec nonce record = .ok value) (key : Text) : decode codec key value = .ok record := by
  obtain ⟨_, valid, encoded⟩ := bind_ok encoded
  obtain ⟨json, written, encoded⟩ := bind_ok encoded
  obtain ⟨small, rfl⟩ := serialize_ok.mp written
  have length := codec.encrypt_length encoded
  have fits : byteLen value ≤ MAX_API_HISTORY_RECORD_BYTES * 2 + 64 := by omega
  refine bind_ok_iff.mpr ⟨(), ensureLen_ok.mpr fits, bind_ok_iff.mpr ⟨codec.toJson record, ?_, bind_ok_iff.mpr ⟨record, ?_, ?_⟩⟩⟩
  · rw [codec.decrypt_encrypt encoded]
    rfl
  · rw [codec.fromJson_toJson]
    rfl
  · rw [mapError_ok valid]
    rfl

theorem encode_length {value : Text}
    (encoded : encode codec nonce record = .ok value) : byteLen value = (byteLen (codec.toJson record) + 28) * 2 := by
  obtain ⟨_, _, encoded⟩ := bind_ok encoded
  obtain ⟨json, written, encoded⟩ := bind_ok encoded
  obtain ⟨-, rfl⟩ := serialize_ok.mp written
  exact codec.encrypt_length encoded

/-- A record is stored in its workspace. -/
def Stored (codec : Codec δ) (table : Table Text Text) (workspaceId : Uuid) (record : ApiHistoryRecord δ) : Prop :=
  ∃ value, table.get (key workspaceId record) = some value ∧ decode codec (key workspaceId record) value = .ok record

/-- Every entry of the table is a stored record. -/
def Sound (codec : Codec δ) (table : Table Text Text) : Prop :=
  ∀ entry ∈ table.entries, ∃ workspaceId record, entry.1 = key workspaceId record ∧ decode codec entry.1 entry.2 = .ok record

/-- What `append` looks at of a stored entry. -/
def entryOf (codec : Codec δ) (entry : Text × Text) : HistoryEntry :=
  ⟨entry.1, byteLen entry.2, ((decode codec entry.1 entry.2).toOption.map ApiHistoryRecord.createdAt).getD 0⟩

theorem entryOf_decoded {key value : Text} (decoded : decode codec key value = .ok record) :
    entryOf codec (key, value) = ⟨key, byteLen value, record.createdAt⟩ := by
  rw [entryOf, decoded]
  rfl

variable {table : Table Text Text}

theorem readEntries_ok (sound : Sound codec table) (workspaceId : Uuid) :
    (workspaceEntries table workspaceId).mapM (readEntry codec) = .ok ((workspaceEntries table workspaceId).map (entryOf codec)) := by
  rw [mapM_ok_iff, forall₂_map_right_iff, forall₂_same]
  rintro ⟨key, value⟩ mem
  obtain ⟨_, record, _, decoded⟩ := sound (key, value) (mem_of_mem_filter mem)
  rw [readEntry, entryOf_decoded decoded, decoded]
  rfl

variable {workspaceId : Uuid}

theorem mem_workspaceEntries {entry : Text × Text} :
    entry ∈ workspaceEntries table workspaceId ↔ table.get entry.1 = some entry.2 ∧ recordPrefix workspaceId <+: entry.1 := by
  rw [workspaceEntries, mem_filter, decide_eq_true_iff, Table.get_eq_some]

/-- The entries are within the limits. -/
def Fits (entries : List HistoryEntry) : Prop :=
  entries.length ≤ MAX_API_HISTORY ∧ totalBytes entries ≤ MAX_API_HISTORY_LIST_BYTES

theorem Fits.sublist {entries rest : List HistoryEntry} (fits : Fits entries) (fewer : rest.Sublist entries) : Fits rest := by
  have bytes : totalBytes rest ≤ totalBytes entries := (fewer.map HistoryEntry.bytes).sum_le_sum fun _ _ => Nat.zero_le _
  exact ⟨fewer.length_le.trans fits.1, bytes.trans fits.2⟩

theorem Fits.perm {entries rest : List HistoryEntry} (fits : Fits entries) (same : entries.Perm rest) : Fits rest := by
  have bytes : totalBytes entries = totalBytes rest := (same.map HistoryEntry.bytes).sum_nat
  exact ⟨same.length_eq ▸ fits.1, bytes ▸ fits.2⟩

theorem removeKeys_spec (entries : List HistoryEntry) : ∃ dropped kept, entries = dropped ++ kept ∧
    removeKeys (totalBytes entries) entries = dropped.map HistoryEntry.key ∧ Fits kept ∧
    ∀ front rest, entries = front ++ rest → Fits rest → rest <:+ kept := by
  induction entries with
  | nil =>
    refine ⟨[], [], rfl, rfl, ⟨Nat.zero_le _, Nat.zero_le _⟩, fun front rest split _ => ?_⟩
    exact ⟨front, split.symm⟩
  | cons entry entries ih =>
    by_cases large : (entry :: entries).length > MAX_API_HISTORY ∨ totalBytes (entry :: entries) > MAX_API_HISTORY_LIST_BYTES
    · obtain ⟨dropped, kept, split, removed, fits, most⟩ := ih
      have rest : totalBytes (entry :: entries) - entry.bytes = totalBytes entries := by simp [totalBytes]
      refine ⟨entry :: dropped, kept, by rw [split]; rfl, ?_, fits, ?_⟩
      · rw [removeKeys, if_pos large, rest, removed]
        rfl
      intro front rest split fits
      cases front with
      | nil =>
        subst split
        exact absurd fits (by rw [Fits]; omega)
      | cons head front => exact most front rest (List.cons.inj split).2 fits
    · refine ⟨[], entry :: entries, rfl, by rw [removeKeys, if_neg large]; rfl, by rw [Fits]; omega, ?_⟩
      intro front rest split _
      exact ⟨front, split.symm⟩

theorem front_of_pair {α : Type} {a b : α} {front back : List α} (pair : [b, a].Sublist (front ++ a :: back)) (once : a ∉ front)
    (once' : a ∉ back) : b ∈ front := by
  obtain ⟨left, right, split, first, last⟩ := sublist_append_iff.mp pair
  rcases left with _ | ⟨c, _ | ⟨d, left⟩⟩
  · subst split
    rcases sublist_cons_iff.mp last with behind | ⟨rest, same, behind⟩
    · exact absurd (behind.subset (by simp)) once'
    · obtain ⟨-, rfl⟩ := List.cons.inj same
      exact absurd (behind.subset mem_cons_self) once'
  · obtain ⟨rfl, -⟩ := List.cons.inj split
    exact first.subset mem_cons_self
  · obtain ⟨-, more⟩ := List.cons.inj split
    obtain ⟨rfl, -⟩ := List.cons.inj more
    exact absurd (first.subset (by simp)) once

variable {others : List HistoryEntry}

theorem sorted_split {entry : HistoryEntry} (fresh : entry ∉ others) (single : others.Nodup) :
    ∃ front back, (others ++ [entry]).insertionSort (fun left right => left.createdAt ≤ right.createdAt) = front ++ entry :: back ∧
      back.Perm (others.filter fun other => decide (entry.createdAt < other.createdAt)) := by
  let le := fun left right : HistoryEntry => left.createdAt ≤ right.createdAt
  have perm := perm_insertionSort le (others ++ [entry])
  have sorted := pairwise_insertionSort le (others ++ [entry])
  have nodup : (others ++ [entry]).Nodup := by
    rw [nodup_append]
    refine ⟨single, nodup_singleton _, ?_⟩
    intro other mem found same
    exact fun eq => fresh (mem_singleton.mp same ▸ eq ▸ mem)
  obtain ⟨front, back, split⟩ := append_of_mem (perm.mem_iff.mpr (mem_append_right others (mem_singleton_self entry)))
  refine ⟨front, back, split, ?_⟩
  rw [split] at perm sorted
  have once : (front ++ entry :: back).Nodup := perm.nodup_iff.mpr nodup
  have rest : (front ++ back).Perm others := by
    have moved : (entry :: (front ++ back)).Perm (entry :: others) :=
      perm_middle.symm.trans (perm.trans (perm_append_singleton entry others))
    exact moved.cons_inv
  obtain ⟨-, behind, before⟩ := pairwise_append.mp sorted
  have later : ∀ other ∈ back, entry.createdAt < other.createdAt := by
    intro other mem
    rcases Int.lt_or_eq_of_le ((pairwise_cons.mp behind).1 other mem) with less | same
    · exact less
    -- One of the same time came first and stays first.
    have known : other ∈ others := rest.mem_iff.mp (mem_append_right front mem)
    have pair : [other, entry].Sublist (others ++ [entry]) := (singleton_sublist.mpr known).append (.refl [entry])
    have kept := pair_sublist_insertionSort (r := le) same.ge pair
    rw [split] at kept
    obtain ⟨-, tail, apart⟩ := nodup_append.mp once
    have first := front_of_pair kept (fun mem => apart _ mem _ mem_cons_self rfl) (nodup_cons.mp tail).1
    exact absurd rfl (apart _ first _ (mem_cons_of_mem _ mem))
  have none : front.filter (fun other => decide (entry.createdAt < other.createdAt)) = [] := by
    rw [filter_eq_nil_iff]
    intro other mem
    simpa using before other mem entry mem_cons_self
  have all : back.filter (fun other => decide (entry.createdAt < other.createdAt)) = back :=
    filter_eq_self.mpr fun other mem => by simpa using later other mem
  have filtered := rest.filter fun other => decide (entry.createdAt < other.createdAt)
  rwa [filter_append, none, all, nil_append] at filtered

variable {table : Table Text Text}

theorem get_removeAll (keys : List Text) (other : Text) :
    (keys.foldl Table.remove table).get other = if other ∈ keys then none else table.get other := by
  induction keys generalizing table with
  | nil => simp
  | cons key keys ih =>
    rw [foldl_cons, ih, Table.get_remove]
    by_cases same : other = key <;> simp [same]

theorem removeAll_sublist (keys : List Text) : (keys.foldl Table.remove table).entries.Sublist table.entries := by
  induction keys generalizing table with
  | nil => exact .refl _
  | cons key keys ih => exact ih.trans filter_sublist

theorem entries_nodup (table : Table Text Text) : table.entries.Nodup :=
  table.ordered.imp fun less same => absurd (same ▸ less) (lt_irrefl _)

theorem workspaceEntries_insert {left : Table Text Text} {workspaceId : Uuid} {key value : Text} {gone : List Text}
    (own : recordPrefix workspaceId <+: key) (removed : ∀ other, left.get other = if other ∈ gone then none else table.get other) :
    (workspaceEntries (left.insert key value) workspaceId).Perm
      ((workspaceEntries table workspaceId).filter (fun entry => decide (entry.1 ∉ gone ∧ entry.1 ≠ key)) ++ [(key, value)]) := by
  rw [perm_ext_iff_of_nodup]
  · intro entry
    rw [mem_workspaceEntries, mem_append, mem_filter, mem_workspaceEntries, mem_singleton, Table.get_insert, removed]
    by_cases same : entry.1 = key
    · have pair : entry = (key, value) ↔ some value = some entry.2 := by
        rw [Option.some_inj]
        exact ⟨fun eq => by rw [eq], fun eq => Prod.ext same eq.symm⟩
      simp [same, own, pair]
    have apart : entry ≠ (key, value) := fun eq => same (congrArg Prod.fst eq)
    by_cases mem : entry.1 ∈ gone
    · simp [same, apart, mem]
    · simp [same, apart, mem]
  · exact (entries_nodup _).filter _
  · rw [nodup_append]
    refine ⟨((entries_nodup _).filter _).filter _, nodup_singleton _, ?_⟩
    rintro entry mem other single rfl
    have kept := (mem_filter.mp mem).2
    rw [mem_singleton.mp single] at kept
    simp at kept

/-- The stored entries of the workspace other than the one with this key. -/
def othersOf (codec : Codec δ) (table : Table Text Text) (workspaceId : Uuid) (recordKey : Text) : List HistoryEntry :=
  ((workspaceEntries table workspaceId).map (entryOf codec)).filter fun entry => entry.key ≠ recordKey

/-- The new record outlives its own trimming: with the newer records of its workspace it is within the limits. -/
def Survives (codec : Codec δ) (table : Table Text Text) (workspaceId : Uuid) (record : ApiHistoryRecord δ) : Prop :=
  let newer := (othersOf codec table workspaceId (key workspaceId record)).filter fun entry => decide (record.createdAt < entry.createdAt)
  newer.length + 1 ≤ MAX_API_HISTORY ∧ totalBytes newer + (byteLen (codec.toJson record) + 28) * 2 ≤ MAX_API_HISTORY_LIST_BYTES

theorem removeKeys_survives {entry : HistoryEntry} (fresh : entry ∉ others) (single : others.Nodup)
    (room : Fits (entry :: others.filter fun other => decide (entry.createdAt < other.createdAt))) :
    let sorted := (others ++ [entry]).insertionSort fun left right => left.createdAt ≤ right.createdAt
    ∃ gone, removeKeys (totalBytes sorted) sorted = gone.map HistoryEntry.key ∧ gone ⊆ others ∧
      Fits (others.filter (fun other => decide (other ∉ gone)) ++ [entry]) ∧
      ∀ old ∈ gone, ∀ other ∈ others.filter (fun other => decide (other ∉ gone)) ++ [entry], old.createdAt ≤ other.createdAt := by
  intro sorted
  let le := fun left right : HistoryEntry => left.createdAt ≤ right.createdAt
  have perm : sorted.Perm (others ++ [entry]) := perm_insertionSort le (others ++ [entry])
  have ordered : sorted.Pairwise le := pairwise_insertionSort le (others ++ [entry])
  have nodup : (others ++ [entry]).Nodup := (perm_append_singleton entry others).nodup_iff.mpr (nodup_cons.mpr ⟨fresh, single⟩)
  obtain ⟨front, back, split, newer⟩ := sorted_split fresh single
  obtain ⟨gone, kept, cut, removed, fits, most⟩ := removeKeys_spec sorted
  have behind : entry :: back <:+ kept := most front (entry :: back) split (room.perm (newer.symm.cons entry))
  have apart : (gone ++ kept).Nodup := cut ▸ perm.nodup_iff.mpr nodup
  have stays : entry ∉ gone := fun mem => (nodup_append.mp apart).2.2 entry mem entry (behind.subset mem_cons_self) rfl
  -- What was kept is what was not dropped.
  have same : kept.Perm (others.filter (fun other => decide (other ∉ gone)) ++ [entry]) := by
    have filtered := perm.filter fun other => decide (other ∉ gone)
    have lost : gone.filter (fun other => decide (other ∉ gone)) = [] :=
      filter_eq_nil_iff.mpr fun other mem => by simpa using mem
    have left : kept.filter (fun other => decide (other ∉ gone)) = kept :=
      filter_eq_self.mpr fun other mem => by simpa using fun there => (nodup_append.mp apart).2.2 other there other mem rfl
    have last : [entry].filter (fun other => decide (other ∉ gone)) = [entry] := by simp [stays]
    rwa [cut, filter_append, filter_append, lost, left, last, nil_append] at filtered
  refine ⟨gone, removed, ?_, fits.perm same, ?_⟩
  · intro old mem
    have there : old ∈ others ++ [entry] := perm.mem_iff.mp (cut ▸ mem_append_left kept mem)
    rcases mem_append.mp there with known | own
    · exact known
    · exact absurd (mem_singleton.mp own ▸ mem) stays
  · intro old mem other there
    rw [cut] at ordered
    exact (pairwise_append.mp ordered).2.2 old mem other (same.mem_iff.mpr there)

theorem entryOf_keys_nodup (table : Table Text Text) (workspaceId : Uuid) :
    (((workspaceEntries table workspaceId).map (entryOf codec)).map HistoryEntry.key).Nodup := by
  have keys : ((workspaceEntries table workspaceId).map (entryOf codec)).map HistoryEntry.key = (workspaceEntries table workspaceId).map (·.1) := by
    simp [entryOf]
  rw [keys]
  exact List.Pairwise.map _ (fun _ _ less same => absurd (same ▸ less) (lt_irrefl _)) (table.ordered.filter _)

variable {next : Table Text Text}

theorem append_spec (sound : Sound codec table) (survives : Survives codec table workspaceId record)
    (done : append codec workspaceId nonce record table = .ok next) :
    ∃ (value : Text) (gone : List HistoryEntry), encode codec nonce record = .ok value ∧
      gone ⊆ othersOf codec table workspaceId (key workspaceId record) ∧
      next = ((gone.map HistoryEntry.key).foldl Table.remove table).insert (key workspaceId record) value ∧
      Fits ((workspaceEntries next workspaceId).map (entryOf codec)) ∧
      ∀ old ∈ gone, ∀ entry ∈ (workspaceEntries next workspaceId).map (entryOf codec), old.createdAt ≤ entry.createdAt := by
  obtain ⟨value, encoded, done⟩ := bind_ok done
  obtain ⟨entries, read, done⟩ := bind_ok done
  cases (readEntries_ok sound workspaceId).symm.trans read
  have own : entryOf codec (key workspaceId record, value) = ⟨key workspaceId record, byteLen value, record.createdAt⟩ :=
    entryOf_decoded (decode_encode encoded _)
  have single : (othersOf codec table workspaceId (key workspaceId record)).Nodup :=
    (List.Nodup.of_map _ (entryOf_keys_nodup table workspaceId)).filter _
  have fresh : (⟨key workspaceId record, byteLen value, record.createdAt⟩ : HistoryEntry) ∉
      othersOf codec table workspaceId (key workspaceId record) := fun mem => by simpa using (mem_filter.mp mem).2
  have room : Fits (⟨key workspaceId record, byteLen value, record.createdAt⟩ ::
      (othersOf codec table workspaceId (key workspaceId record)).filter fun other => decide (record.createdAt < other.createdAt)) := by
    obtain ⟨count, bytes⟩ := survives
    refine ⟨by simpa using count, ?_⟩
    rw [← encode_length encoded, Nat.add_comm] at bytes
    simpa [totalBytes] using bytes
  obtain ⟨gone, removed, known, fits, older⟩ := removeKeys_survives fresh single room
  have written : next = ((gone.map HistoryEntry.key).foldl Table.remove table).insert (key workspaceId record) value := by
    rw [← removed]
    exact (Except.ok.inj done).symm
  have same : ((workspaceEntries next workspaceId).map (entryOf codec)).Perm
      ((othersOf codec table workspaceId (key workspaceId record)).filter (fun other => decide (other ∉ gone)) ++
        [⟨key workspaceId record, byteLen value, record.createdAt⟩]) := by
    have prefixed : recordPrefix workspaceId <+: key workspaceId record := recordPrefix_key.mpr rfl
    rw [written]
    refine ((workspaceEntries_insert prefixed (get_removeAll _)).map (entryOf codec)).trans (.of_eq ?_)
    rw [map_append, map_singleton, own, othersOf, filter_filter, filter_map]
    congr 2
    refine filter_congr fun entry mem => ?_
    -- A key among the dropped ones is the key of a dropped entry.
    have keyed : entry.1 ∈ gone.map HistoryEntry.key ↔ entryOf codec entry ∈ gone := by
      constructor
      · intro there
        obtain ⟨old, dropped, keyed⟩ := mem_map.mp there
        have known : old ∈ (workspaceEntries table workspaceId).map (entryOf codec) := mem_of_mem_filter (known dropped)
        have mine : entryOf codec entry ∈ (workspaceEntries table workspaceId).map (entryOf codec) := mem_map_of_mem mem
        have eq := inj_on_of_nodup_map (entryOf_keys_nodup table workspaceId) known mine keyed
        exact eq ▸ dropped
      · intro dropped
        exact mem_map.mpr ⟨_, dropped, rfl⟩
    rw [Function.comp_apply, Bool.decide_and, decide_eq_decide.mpr (not_congr keyed)]
    rfl
  exact ⟨value, gone, encoded, known, written, fits.perm same.symm, fun old mem entry there => older old mem entry (same.mem_iff.mp there)⟩

/-- The store with what was appended to it: the last version of each record since its workspace was cleared. -/
structure HistoryState (δ : Type) where
  table : Table Text Text
  log : List (Uuid × ApiHistoryRecord δ)

inductive Op (δ : Type)
  | append (workspaceId : Uuid) (nonce : List UInt8) (record : ApiHistoryRecord δ)
  | clear (workspaceId : Uuid)

/-- The log with a new version of a record. -/
def logged (log : List (Uuid × ApiHistoryRecord δ)) (workspaceId : Uuid) (record : ApiHistoryRecord δ) : List (Uuid × ApiHistoryRecord δ) :=
  (workspaceId, record) :: log.filter fun entry => decide (¬(entry.1 = workspaceId ∧ entry.2.id = record.id))

/-- An operation that fails leaves the store as it is. -/
def HistoryState.step (codec : Codec δ) (s : HistoryState δ) : Op δ → Option (HistoryState δ)
  | .append workspaceId nonce record =>
    match append codec workspaceId nonce record s.table with
    | .ok table => some ⟨table, logged s.log workspaceId record⟩
    | .error _ => some s
  | .clear workspaceId => some ⟨clear workspaceId s.table, s.log.filter fun entry => decide (entry.1 ≠ workspaceId)⟩

variable {s : HistoryState δ}

theorem step_append (done : append codec workspaceId nonce record s.table = .ok next) :
    s.step codec (.append workspaceId nonce record) = some ⟨next, logged s.log workspaceId record⟩ := by
  rw [HistoryState.step, done]

/-- A new record outlives its own trimming, and none that its workspace no longer has is newer. -/
def Op.Fair (codec : Codec δ) (s : HistoryState δ) : Op δ → Prop
  | .append workspaceId _ record => Survives codec s.table workspaceId record ∧
      ∀ old, (workspaceId, old) ∈ s.log → ¬Stored codec s.table workspaceId old → old.createdAt ≤ record.createdAt
  | .clear _ => True

/-- Every workspace is within the limits, and has the newest of the records that were appended to it. -/
structure Kept (codec : Codec δ) (s : HistoryState δ) : Prop where
  sound : Sound codec s.table
  within : ∀ workspaceId, Fits ((workspaceEntries s.table workspaceId).map (entryOf codec))
  known : ∀ {workspaceId record}, Stored codec s.table workspaceId record → (workspaceId, record) ∈ s.log
  newest : ∀ {workspaceId old record}, (workspaceId, old) ∈ s.log → ¬Stored codec s.table workspaceId old →
    Stored codec s.table workspaceId record → old.createdAt ≤ record.createdAt

theorem kept_empty : Kept codec ⟨.empty, []⟩ where
  sound := nofun
  within _ := by simp [workspaceEntries, Table.empty, Fits, totalBytes]
  known := by
    rintro workspaceId record ⟨value, found, -⟩
    cases found
  newest := nofun

theorem Stored.entry (stored : Stored codec table workspaceId record) : ∃ entry ∈ (workspaceEntries table workspaceId).map (entryOf codec),
      entry.key = key workspaceId record ∧ entry.createdAt = record.createdAt := by
  obtain ⟨value, found, decoded⟩ := stored
  have mem : (key workspaceId record, value) ∈ workspaceEntries table workspaceId :=
    mem_workspaceEntries.mpr ⟨found, recordPrefix_key.mpr rfl⟩
  exact ⟨_, mem_map_of_mem mem, rfl, by rw [entryOf_decoded decoded]⟩

theorem workspaceEntries_other {left : Table Text Text} {key value : Text} {gone : List Text}
    (apart : ¬recordPrefix other <+: key) (away : ∀ lost ∈ gone, ¬recordPrefix other <+: lost)
    (removed : ∀ found, left.get found = if found ∈ gone then none else table.get found) :
    (workspaceEntries (left.insert key value) other).Perm (workspaceEntries table other) := by
  have nodup : ∀ t : Table Text Text, (workspaceEntries t other).Nodup := fun t => (entries_nodup t).filter _
  refine (perm_ext_iff_of_nodup (nodup _) (nodup _)).mpr fun entry => ?_
  rw [mem_workspaceEntries, mem_workspaceEntries, Table.get_insert, removed]
  refine and_congr_left fun own => ?_
  have ne : entry.1 ≠ key := fun same => apart (same ▸ own)
  have stays : entry.1 ∉ gone := fun mem => away _ mem own
  rw [if_neg ne, if_neg stays]

theorem append_kept (kept : Kept codec s) (fair : (Op.append workspaceId nonce record).Fair codec s)
    (done : append codec workspaceId nonce record s.table = .ok next) : Kept codec ⟨next, logged s.log workspaceId record⟩ := by
  obtain ⟨survives, newer⟩ := fair
  obtain ⟨value, gone, encoded, others, written, fits, older⟩ := append_spec kept.sound survives done
  have removed := @get_removeAll s.table (gone.map HistoryEntry.key)
  have found : ∀ other, next.get other = if other = key workspaceId record then some value
      else if other ∈ gone.map HistoryEntry.key then none else s.table.get other := by
    intro other
    rw [written, Table.get_insert, removed]
    congr
  have own : ∀ lost ∈ gone.map HistoryEntry.key, recordPrefix workspaceId <+: lost := by
    intro lost mem
    obtain ⟨old, dropped, rfl⟩ := mem_map.mp mem
    obtain ⟨entry, there, rfl⟩ := mem_map.mp (mem_of_mem_filter (others dropped))
    exact (mem_workspaceEntries.mp there).2
  -- What was stored stays, unless it was dropped or is the old version of the record.
  have stays : ∀ {other old}, Stored codec next other old → Stored codec s.table other old ∨ other = workspaceId ∧ old = record := by
    rintro other old ⟨stored, there, decoded⟩
    rw [found] at there
    split_ifs at there with same lost
    · obtain ⟨rfl, id⟩ := key_inj same
      have mine := decode_encode encoded (key other old)
      cases Option.some.inj there
      exact .inr ⟨rfl, Except.ok.inj (decoded.symm.trans mine)⟩
    · exact .inl ⟨stored, there, decoded⟩
  refine ⟨?_, ?_, ?_, ?_⟩
  · intro entry mem
    have there := Table.get_eq_some.mpr mem
    rw [found] at there
    split_ifs at there with same lost
    · exact ⟨workspaceId, record, same, by rw [← Option.some.inj there]; exact decode_encode encoded _⟩
    · exact kept.sound entry (Table.get_eq_some.mp there)
  · intro other
    by_cases mine : other = workspaceId
    · rw [mine]
      exact fits
    refine (kept.within other).perm ?_
    have away : ∀ lost ∈ gone.map HistoryEntry.key, ¬recordPrefix other <+: lost := by
      intro lost mem prefixed
      have both := prefix_of_prefix_length_le prefixed (own lost mem) (by simp [recordPrefix, text_length])
      have same := both.eq_of_length (by simp [recordPrefix, text_length])
      exact mine (text_injective (append_inj same (by rw [text_length, text_length])).1)
    have apart : ¬recordPrefix other <+: key workspaceId record := fun prefixed => mine (recordPrefix_key.mp prefixed)
    rw [written]
    exact ((workspaceEntries_other apart away removed).map (entryOf codec)).symm
  · intro other old stored
    by_cases version : other = workspaceId ∧ old.id = record.id
    · obtain ⟨rfl, id⟩ := version
      rcases stays stored with before | ⟨-, rfl⟩
      · obtain ⟨held, there, decoded⟩ := stored
        have same : key other old = key other record := by rw [key, key, id]
        rw [found, if_pos same] at there
        cases Option.some.inj there
        cases decoded.symm.trans (decode_encode encoded (key other old))
        exact mem_cons_self
      · exact mem_cons_self
    · rcases stays stored with before | ⟨rfl, rfl⟩
      · exact mem_cons_of_mem _ (mem_filter.mpr ⟨kept.known before, decide_eq_true version⟩)
      · exact absurd ⟨rfl, rfl⟩ version
  · intro other old later logged missing stored
    rcases mem_cons.mp logged with same | kept'
    · -- The new record itself is stored.
      obtain ⟨rfl, rfl⟩ := Prod.mk.inj same
      exact absurd ⟨value, by rw [found, if_pos rfl], decode_encode encoded _⟩ missing
    obtain ⟨before, version⟩ := mem_filter.mp kept'
    have ne : key other old ≠ key workspaceId record := by
      intro same
      obtain ⟨rfl, id⟩ := key_inj same
      simp [id] at version
    by_cases held : Stored codec s.table other old
    · obtain ⟨stale, there, decoded⟩ := held
      have dropped : key other old ∈ gone.map HistoryEntry.key := by
        by_contra stayed
        exact missing ⟨stale, by rw [found, if_neg ne, if_neg stayed]; exact there, decoded⟩
      have mine : other = workspaceId := (recordPrefix_key.mp (own _ dropped)).symm
      subst mine
      obtain ⟨entry, there', keyed⟩ := mem_map.mp dropped
      obtain ⟨later', stored', -, time⟩ := stored.entry
      have known : entry ∈ (workspaceEntries s.table other).map (entryOf codec) := mem_of_mem_filter (others there')
      have self : entryOf codec (key other old, stale) ∈ (workspaceEntries s.table other).map (entryOf codec) :=
        mem_map_of_mem (mem_workspaceEntries.mpr ⟨there, recordPrefix_key.mpr rfl⟩)
      have same : entry = entryOf codec (key other old, stale) := inj_on_of_nodup_map (entryOf_keys_nodup s.table other) known self keyed
      rw [← time]
      calc old.createdAt = entry.createdAt := by rw [same, entryOf_decoded decoded]
        _ ≤ later'.createdAt := older entry there' later' stored'
    · rcases stays stored with before' | ⟨rfl, rfl⟩
      · exact kept.newest before held before'
      · exact newer old before held

theorem clear_kept (kept : Kept codec s) (workspaceId : Uuid) :
    Kept codec ⟨clear workspaceId s.table, s.log.filter fun entry => decide (entry.1 ≠ workspaceId)⟩ := by
  have found : ∀ other, (clear workspaceId s.table).get other =
      if recordPrefix workspaceId <+: other then none else s.table.get other := by
    intro other
    rw [clear, get_removeAll]
    by_cases own : recordPrefix workspaceId <+: other
    · rw [if_pos own]
      split_ifs with mem
      · rfl
      · cases there : s.table.get other with
        | none => rfl
        | some value => exact absurd (mem_map.mpr ⟨(other, value), mem_workspaceEntries.mpr ⟨there, own⟩, rfl⟩) mem
    · rw [if_neg own, if_neg]
      intro mem
      obtain ⟨entry, there, rfl⟩ := mem_map.mp mem
      exact own (mem_workspaceEntries.mp there).2
  have stored : ∀ {other record}, Stored codec (clear workspaceId s.table) other record ↔
      other ≠ workspaceId ∧ Stored codec s.table other record := by
    intro other record
    rw [Stored, Stored, found]
    by_cases mine : other = workspaceId
    · simp [mine, recordPrefix_key.mpr]
    · rw [if_neg fun prefixed => mine (recordPrefix_key.mp prefixed).symm]
      simp [mine]
  refine ⟨?_, ?_, ?_, ?_⟩
  · intro entry mem
    have there := Table.get_eq_some.mpr mem
    rw [found] at there
    split_ifs at there
    exact kept.sound entry (Table.get_eq_some.mp there)
  · intro other
    have fewer : (workspaceEntries (clear workspaceId s.table) other).Sublist (workspaceEntries s.table other) :=
      (removeAll_sublist _).filter _
    exact (kept.within other).sublist (fewer.map (entryOf codec))
  · intro other record held
    obtain ⟨apart, before⟩ := stored.mp held
    exact mem_filter.mpr ⟨kept.known before, decide_eq_true apart⟩
  · intro other old record logged missing held
    obtain ⟨before, apart⟩ := mem_filter.mp logged
    have apart : other ≠ workspaceId := of_decide_eq_true apart
    exact kept.newest before (fun held => missing (stored.mpr ⟨apart, held⟩)) (stored.mp held).2

theorem step_kept {s next : HistoryState δ} {op : Op δ} (kept : Kept codec s) (fair : op.Fair codec s)
    (stepped : s.step codec op = some next) : Kept codec next := by
  cases op with
  | append workspaceId nonce record =>
    rw [HistoryState.step] at stepped
    split at stepped
    · rename_i table done
      cases stepped
      exact append_kept kept fair done
    · cases stepped
      exact kept
  | clear workspaceId =>
    cases stepped
    exact clear_kept kept workspaceId

theorem list_ok (kept : Kept codec s) (workspaceId : Uuid) (limit : Nat) :
    ∃ records, list codec workspaceId limit s.table = .ok records := by
  have loop : ∀ (entries : List (Text × Text)) (records : List (ApiHistoryRecord δ)) (bytes : Nat),
      (∀ entry ∈ entries, entry ∈ workspaceEntries s.table workspaceId) →
      records.length + entries.length ≤ MAX_API_HISTORY →
      bytes + totalBytes (entries.map (entryOf codec)) ≤ MAX_API_HISTORY_LIST_BYTES →
      ∃ all, listEntries codec records bytes entries = .ok all := by
    intro entries
    induction entries with
    | nil => exact fun records _ _ _ _ => ⟨records, rfl⟩
    | cons entry entries ih =>
      intro records bytes inside count fits
      rw [forall_mem_cons] at inside
      obtain ⟨_, record, -, decoded⟩ := kept.sound entry (mem_of_mem_filter inside.1)
      have spelled : totalBytes ((entry :: entries).map (entryOf codec)) = byteLen entry.2 + totalBytes (entries.map (entryOf codec)) := by
        simp [totalBytes, entryOf]
      rw [length_cons] at count
      have budget : nextCollectionBudget records.length bytes (byteLen entry.2) MAX_API_HISTORY MAX_API_HISTORY_LIST_BYTES
          "API 历史列表" = .ok (records.length + 1, bytes + byteLen entry.2) :=
        nextCollectionBudget_ok (by decide) (by decide) (by omega) (by omega)
      obtain ⟨all, read⟩ := ih (records ++ [record]) (bytes + byteLen entry.2) inside.2
        (by rw [length_append, length_singleton]; omega) (by omega)
      exact ⟨all, bind_ok_iff.mpr ⟨_, budget, bind_ok_iff.mpr ⟨record, decoded, read⟩⟩⟩
  rw [list]
  split_ifs
  · exact ⟨[], rfl⟩
  obtain ⟨count, fits⟩ := kept.within workspaceId
  obtain ⟨all, read⟩ := loop (workspaceEntries s.table workspaceId) [] 0 (fun _ mem => mem)
    (by simpa using count) (by simpa using fits)
  exact ⟨_, bind_ok_iff.mpr ⟨all, read, rfl⟩⟩

/-- A text as the numbers of its characters, each with a full stop. -/
def spell (t : Text) : Text := t.flatMap fun c => natText c.toNat ++ ['.']

def unspell (t : Text) : Text := (splitTerminator '.' t).map fun digits => Char.ofNat (Nat.ofDigitChars 10 digits 0)

theorem unspell_spell (t : Text) : unspell (spell t) = t := by
  have free : ∀ part ∈ t.map (fun c => natText c.toNat), '.' ∉ part := by
    intro part mem dot
    obtain ⟨c, -, rfl⟩ := mem_map.mp mem
    exact absurd (natText_isDigit dot) (by decide)
  have parts : spell t = (t.map fun c => natText c.toNat).flatMap (· ++ ['.']) := by simp [spell, flatMap_map]
  have back : ∀ c : Char, Char.ofNat (Nat.ofDigitChars 10 (natText c.toNat) 0) = c := fun c => by
    rw [natText, Nat.ofDigitChars_ten_toDigits, Char.ofNat_toNat]
  rw [unspell, parts, splitTerminator_parts free, map_map]
  simp [Function.comp_def, back]

theorem spell_free (t : Text) : ',' ∉ spell t := by
  intro mem
  obtain ⟨c, -, inside⟩ := mem_flatMap.mp mem
  rcases mem_append.mp inside with digit | dot
  · exact absurd (natText_isDigit digit) (by decide)
  · exact absurd (mem_singleton.mp dot) (by decide)

/-- The fields of a record, each with a comma. -/
def plainJson (record : ApiHistoryRecord Unit) : Text :=
  [natText record.id.value, spell record.requestName, natText record.assertionCount, natText record.assertionFailed,
    record.error.elim [] (fun error => 'e' :: spell error), spell record.bodyPreview, natText record.createdAt.toNat,
    natText (-record.createdAt).toNat].flatMap (· ++ [','])

def plainRecord (json : Text) : Except Text (ApiHistoryRecord Unit) :=
  match splitTerminator ',' json with
  | [id, name, count, failed, error, preview, after, before] =>
    let value := Nat.ofDigitChars 10 id 0
    if small : value < 16 ^ 32 then
      .ok ⟨⟨value, small⟩, unspell name, Nat.ofDigitChars 10 count 0, Nat.ofDigitChars 10 failed 0,
        match error with
        | [] => none
        | _ :: error => some (unspell error),
        unspell preview, (Nat.ofDigitChars 10 after 0 : Int) - (Nat.ofDigitChars 10 before 0 : Int), ()⟩
    else .error "id"
  | _ => .error "fields"

theorem plainRecord_plainJson (record : ApiHistoryRecord Unit) : plainRecord (plainJson record) = .ok record := by
  obtain ⟨⟨value, small⟩, name, count, failed, error, preview, createdAt, ⟨⟩⟩ := record
  have digits : ∀ n, ',' ∉ natText n := fun n mem => absurd (natText_isDigit mem) (by decide)
  have read : ∀ n, Nat.ofDigitChars 10 (natText n) 0 = n := fun n => Nat.ofDigitChars_ten_toDigits
  have errors : ',' ∉ error.elim [] (fun error => 'e' :: spell error) := by
    cases error with
    | none => exact not_mem_nil
    | some error => exact not_mem_cons_of_ne_of_not_mem (by decide) (spell_free error)
  have time : ((createdAt.toNat : Int) - ((-createdAt).toNat : Int)) = createdAt := Int.toNat_sub_toNat_neg createdAt
  rw [plainRecord, plainJson, splitTerminator_parts]
  · simp only [read, dif_pos small, unspell_spell, time]
    cases error with
    | none => rfl
    | some error => simp [unspell_spell]
  · simp only [forall_mem_cons]
    exact ⟨digits _, spell_free _, digits _, digits _, errors, spell_free _, digits _, digits _, forall_mem_nil _⟩

theorem byteLen_zeros (n : Nat) : byteLen (List.replicate n '0') = n := by
  induction n with
  | zero => rfl
  | succ n ih =>
    rw [replicate_succ, byteLen_cons, ih]
    exact Nat.add_comm 1 n

/-- A cipher that only pads its text to the length of a real one. -/
def plainCodec : Codec Unit where
  toJson := plainJson
  fromJson := plainRecord
  encrypt _ plain := .ok (plain ++ List.replicate (byteLen plain + 56) '0')
  decrypt sealed := .ok (sealed.take (sealed.length - 56 - (byteLen sealed - 56) / 2))
  fromJson_toJson := plainRecord_plainJson
  decrypt_encrypt := by
    rintro _ plain _ ⟨⟩
    have front : (plain ++ List.replicate (byteLen plain + 56) '0').length - 56 -
        (byteLen (plain ++ List.replicate (byteLen plain + 56) '0') - 56) / 2 = plain.length := by
      rw [byteLen_append, byteLen_zeros, List.length_append, List.length_replicate]
      omega
    rw [front, List.take_left]
  encrypt_length := by
    rintro _ plain _ ⟨⟩
    rw [byteLen_append, byteLen_zeros]
    omega

def workspace : Uuid := ⟨0, zero_small⟩

/-- The record with a number, at that time. -/
def numbered (n : Fin 256) : ApiHistoryRecord Unit :=
  ⟨⟨n.val, by omega⟩, "a", 0, 0, none, [], n.val, ()⟩

theorem numbered_small (n : Fin 256) : byteLen (plainJson (numbered n)) ≤ 100 := by
  revert n
  decide +kernel

theorem encode_numbered (n : Fin 256) : ∃ value, encode plainCodec [] (numbered n) = .ok value ∧ byteLen value ≤ 256 := by
  have small := numbered_small n
  have written : serialize (plainJson (numbered n)) MAX_API_HISTORY_RECORD_BYTES "API 历史" = .ok (plainJson (numbered n)) :=
    serialize_ok.mpr ⟨small.trans (by decide), rfl⟩
  refine ⟨plainJson (numbered n) ++ List.replicate (byteLen (plainJson (numbered n)) + 56) '0', ?_, ?_⟩
  · exact bind_ok_iff.mpr ⟨(), rfl, bind_ok_iff.mpr ⟨_, written, rfl⟩⟩
  · rw [byteLen_append, byteLen_zeros]
    omega

theorem removeKeys_fits {entries : List HistoryEntry} (fits : Fits entries) : removeKeys (totalBytes entries) entries = [] := by
  cases entries with
  | nil => rfl
  | cons entry entries =>
    obtain ⟨count, bytes⟩ := fits
    rw [removeKeys, if_neg (by omega)]

/-- The store with the records from the first to the one with this number. -/
structure Filled (n : Nat) (s : HistoryState Unit) : Prop where
  reached : Reached (HistoryState.step plainCodec) (fun _ _ => True) ⟨.empty, []⟩ s
  sound : Sound plainCodec s.table
  count : (workspaceEntries s.table workspace).length = n
  bytes : totalBytes ((workspaceEntries s.table workspace).map (entryOf plainCodec)) ≤ 256 * n
  range : ∀ entry ∈ workspaceEntries s.table workspace, ∃ i : Fin 256, 0 < i.val ∧ i.val ≤ n ∧ entry.1 = key workspace (numbered i) ∧
    (entryOf plainCodec entry).createdAt = i.val

theorem filled_zero : Filled 0 ⟨.empty, []⟩ where
  reached := .start
  sound := nofun
  count := rfl
  bytes := Nat.zero_le _
  range := nofun

theorem Sound.insert (sound : Sound codec table) {value : Text} (encoded : encode codec nonce record = .ok value) :
    Sound codec (table.insert (key workspaceId record) value) := by
  intro entry mem
  have there := Table.get_eq_some.mpr mem
  rw [Table.get_insert] at there
  split_ifs at there with same
  · exact ⟨workspaceId, record, same, by rw [← Option.some.inj there]; exact decode_encode encoded _⟩
  · exact sound entry (Table.get_eq_some.mp there)

variable {n : Nat} {s : HistoryState Unit} {m : Fin 256}

section
variable (filled : Filled n s) (later : m.val = 0 ∨ n < m.val)
include filled later

theorem Filled.fresh
    {entry : Text × Text} (mem : entry ∈ workspaceEntries s.table workspace) : entry.1 ≠ key workspace (numbered m) := by
  intro same
  obtain ⟨i, low, high, spelled, -⟩ := filled.range entry mem
  have ids := (key_inj (spelled.symm.trans same)).2
  have values : i.val = m.val := congrArg Uuid.value ids
  omega

theorem Filled.append
    {value : Text} (encoded : encode plainCodec [] (numbered m) = .ok value) :
    let entry : HistoryEntry := ⟨key workspace (numbered m), byteLen value, m.val⟩
    let sorted := ((workspaceEntries s.table workspace).map (entryOf plainCodec) ++ [entry]).insertionSort
      fun left right => left.createdAt ≤ right.createdAt
    append plainCodec workspace [] (numbered m) s.table =
      .ok (((removeKeys (totalBytes sorted) sorted).foldl Table.remove s.table).insert (key workspace (numbered m)) value) := by
  have whole : ((workspaceEntries s.table workspace).map (entryOf plainCodec)).filter
      (fun other => other.key ≠ key workspace (numbered m)) = (workspaceEntries s.table workspace).map (entryOf plainCodec) := by
    rw [filter_eq_self]
    intro other mem
    obtain ⟨stored, there, rfl⟩ := mem_map.mp mem
    exact decide_eq_true (filled.fresh later there)
  refine bind_ok_iff.mpr ⟨value, encoded, bind_ok_iff.mpr ⟨_, readEntries_ok filled.sound workspace, ?_⟩⟩
  rw [whole]
  rfl

theorem Filled.entries
    (value : Text) {gone : List Text} (absent : ∀ lost ∈ gone, lost = key workspace (numbered m)) :
    (workspaceEntries ((gone.foldl Table.remove s.table).insert (key workspace (numbered m)) value) workspace).Perm
      (workspaceEntries s.table workspace ++ [(key workspace (numbered m), value)]) := by
  have prefixed : recordPrefix workspace <+: key workspace (numbered m) := recordPrefix_key.mpr rfl
  have all : (workspaceEntries s.table workspace).filter (fun entry => decide (entry.1 ∉ gone ∧ entry.1 ≠ key workspace (numbered m))) =
      workspaceEntries s.table workspace := by
    rw [filter_eq_self]
    intro entry mem
    have apart := filled.fresh later mem
    exact decide_eq_true ⟨fun lost => apart (absent _ lost), apart⟩
  have stored := @workspaceEntries_insert s.table _ workspace _ value gone prefixed (@get_removeAll s.table gone)
  rwa [all] at stored

end

theorem filled_next (filled : Filled n s) (few : n < MAX_API_HISTORY) : ∃ s', Filled (n + 1) s' := by
  have few : n < 200 := few
  let m : Fin 256 := ⟨n + 1, by omega⟩
  have later : m.val = 0 ∨ n < m.val := .inr (Nat.lt_succ_self n)
  obtain ⟨value, encoded, small⟩ := encode_numbered m
  have own : entryOf plainCodec (key workspace (numbered m), value) = ⟨key workspace (numbered m), byteLen value, m.val⟩ :=
    entryOf_decoded (decode_encode encoded _)
  have appended := filled.append later encoded
  have fits : Fits ((workspaceEntries s.table workspace).map (entryOf plainCodec) ++ [⟨key workspace (numbered m), byteLen value, m.val⟩]) := by
    have bytes := filled.bytes
    refine ⟨?_, ?_⟩
    · rw [length_append, length_map, filled.count]
      exact few
    · simp only [totalBytes, map_append, sum_append, map_cons, map_nil, sum_singleton] at bytes ⊢
      rw [MAX_API_HISTORY_LIST_BYTES]
      omega
  dsimp only at appended
  rw [removeKeys_fits (fits.perm (perm_insertionSort _ _).symm)] at appended
  refine ⟨⟨s.table.insert (key workspace (numbered m)) value, logged s.log workspace (numbered m)⟩, ?_⟩
  have none : ∀ lost ∈ ([] : List Text), lost = key workspace (numbered m) := nofun
  have entries := filled.entries later value none
  refine ⟨filled.reached.next trivial (step_append appended), filled.sound.insert encoded, ?_, ?_, ?_⟩
  · have := entries.length_eq
    simpa [filled.count] using this
  · have bytes := ((entries.map (entryOf plainCodec)).map HistoryEntry.bytes).sum_nat
    have before := filled.bytes
    simp only [totalBytes, map_append, sum_append, map_cons, map_nil, sum_singleton, own, foldl_nil] at bytes before ⊢
    omega
  · intro entry mem
    rcases mem_append.mp (entries.mem_iff.mp mem) with before | last
    · obtain ⟨i, low, high, spelled⟩ := filled.range entry before
      exact ⟨i, low, by omega, spelled⟩
    · rw [mem_singleton.mp last]
      exact ⟨m, Nat.succ_pos n, le_rfl, rfl, by rw [own]⟩

theorem filled (n : Nat) (few : n ≤ MAX_API_HISTORY) : ∃ s, Filled n s := by
  induction n with
  | zero => exact ⟨_, filled_zero⟩
  | succ n ih =>
    obtain ⟨s, filled⟩ := ih (by omega)
    exact filled_next filled (by omega)

end Ramag.ApiHistoryRuns
