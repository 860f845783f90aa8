import Ramag.QueryHistory
import Ramag.ApiHistoryRuns

/-!
Runs of the query history. The statistics kept beside the table are those of the
table (`Counted`), and stay within the limits. What is appended and kept no
longer is older than all that is stored, as long as nothing is appended that is
older than what was trimmed before.
-/
namespace Ramag.QueryHistoryRuns
open Strings Domain BoundedJson OrderedTables Timestamps Uuids List
open QueryHistory Runs
open DataSyncGate (saturatingAdd)
variable (entries : List (Text × Text))

def valueBytes : Nat := (entries.map fun entry => byteLen entry.2).sum

def statsOf : HistoryStats := ⟨entries.length, valueBytes entries⟩

theorem statsOf_without (entry : Text × Text) (entries : List (Text × Text)) :
    (statsOf (entry :: entries)).without (byteLen entry.2) = statsOf entries := by
  simp [statsOf, HistoryStats.without, valueBytes]

theorem insertEntry_sum {κ ν : Type} [LinearOrder κ] (size : ν → Nat) {entries : List (κ × ν)}
    (ordered : entries.Pairwise (·.1 < ·.1)) (key : κ) (value : ν) : (insertEntry key value entries).length =
        entries.length + (if (entries.find? fun entry => decide (entry.1 = key)).isNone then 1 else 0) ∧
      ((insertEntry key value entries).map fun entry => size entry.2).sum +
          (((entries.find? fun entry => decide (entry.1 = key)).map (·.2)).map size).getD 0 =
        (entries.map fun entry => size entry.2).sum + size value := by
  induction entries with
  | nil => simp [insertEntry]
  | cons entry entries ih =>
    obtain ⟨above, ordered⟩ := pairwise_cons.mp ordered
    rw [insertEntry]
    by_cases less : key < entry.1
    · have absent : (entry :: entries).find? (fun entry => decide (entry.1 = key)) = none := by
        refine find?_eq_none.mpr (forall_mem_cons.mpr ⟨?_, fun other mem => ?_⟩)
        · simpa using ne_of_gt less
        · simpa using ne_of_gt (less.trans (above other mem))
      rw [if_pos less, absent]
      simp
      omega
    rw [if_neg less]
    by_cases same : key = entry.1
    · rw [if_pos same, find?_cons_of_pos (by simpa using same.symm)]
      simp
      omega
    obtain ⟨length, bytes⟩ := ih ordered
    rw [if_neg same, find?_cons_of_neg (by simpa using fun equal : entry.1 = key => same equal.symm)]
    simp only [length_cons, map_cons, sum_cons] at length bytes ⊢
    omega

theorem statsOf_insert (table : Table Text Text) (key value : Text) : statsOf (table.insert key value).entries =
      ⟨if ((table.get key).map byteLen).isNone then table.entries.length + 1 else table.entries.length,
        valueBytes table.entries - ((table.get key).map byteLen).getD 0 + byteLen value⟩ := by
  obtain ⟨length, bytes⟩ := insertEntry_sum byteLen table.ordered key value
  have held : ((table.get key).map byteLen).getD 0 ≤ valueBytes table.entries := by
    cases found : table.get key with
    | none => exact Nat.zero_le _
    | some removed =>
      refine single_le_sum (by simp) _ (mem_map.mpr ⟨(key, removed), ?_, rfl⟩)
      exact Table.get_eq_some.mp found
  change valueBytes (insertEntry key value table.entries) + ((table.get key).map byteLen).getD 0 =
    valueBytes table.entries + byteLen value at bytes
  rw [statsOf, Table.insert, length]
  congr 1
  · rw [Option.isNone_map, Table.get, Option.isNone_map]
    split_ifs <;> rfl
  · change valueBytes (insertEntry key value table.entries) = _
    omega

theorem statsOf_remove {table : Table Text Text} {key removed : Text} (held : table.get key = some removed) :
    statsOf (table.remove key).entries = (statsOf table.entries).without (byteLen removed) := by
  have back : (table.remove key).insert key removed = table := by
    refine Table.ext_get fun other => ?_
    rw [Table.get_insert, Table.get_remove]
    split_ifs with same
    · rw [same, held]
    · rfl
  have both := statsOf_insert (table.remove key) key removed
  rw [back, Table.get_remove_self] at both
  rw [both]
  simp [HistoryStats.without, statsOf]

/-! ### Trimming -/

def overBudget (maxRecords maxTotalBytes : Nat) : Bool :=
  historyOverBudget (statsOf entries) maxRecords maxTotalBytes

/-- The entries that stay: the oldest are dropped while there are too many or they are too large. -/
def keptEntries (maxRecords maxTotalBytes : Nat) : List (Text × Text) → List (Text × Text)
  | [] => []
  | entry :: entries =>
    if overBudget (entry :: entries) maxRecords maxTotalBytes then keptEntries maxRecords maxTotalBytes entries else entry :: entries

variable (maxRecords maxTotalBytes : Nat)

theorem overBudget_nil : overBudget [] maxRecords maxTotalBytes = false := by simp [overBudget, historyOverBudget, statsOf, valueBytes]

theorem keptEntries_fits (entries : List (Text × Text)) :
    overBudget (keptEntries maxRecords maxTotalBytes entries) maxRecords maxTotalBytes = false := by
  induction entries with
  | nil => exact overBudget_nil maxRecords maxTotalBytes
  | cons entry entries ih =>
    rw [keptEntries]
    split_ifs with beyond
    · exact ih
    · exact Bool.eq_false_iff.mpr beyond

theorem keptEntries_self {maxRecords maxTotalBytes : Nat} {entries : List (Text × Text)}
    (fits : overBudget entries maxRecords maxTotalBytes = false) : keptEntries maxRecords maxTotalBytes entries = entries := by
  cases entries with
  | nil => rfl
  | cons entry entries => rw [keptEntries, if_neg (Bool.eq_false_iff.mp fits)]

theorem keptEntries_split (entries : List (Text × Text)) :
    ∃ dropped, entries = dropped ++ keptEntries maxRecords maxTotalBytes entries := by
  induction entries with
  | nil => exact ⟨[], rfl⟩
  | cons entry entries ih =>
    rw [keptEntries]
    split_ifs
    · obtain ⟨dropped, split⟩ := ih
      exact ⟨entry :: dropped, by rw [cons_append, ← split]⟩
    · exact ⟨[], rfl⟩

theorem remove_first {κ ν : Type} [LinearOrder κ] {table : Table κ ν} {entry : κ × ν} {entries : List (κ × ν)}
    (first : table.entries = entry :: entries) : (table.remove entry.1).entries = entries := by
  have ordered := table.ordered
  rw [first, pairwise_cons] at ordered
  change table.entries.filter (fun other => decide (other.1 ≠ entry.1)) = entries
  rw [first, filter_cons_of_neg (by simp)]
  exact filter_eq_self.mpr fun other mem => decide_eq_true (ne_of_gt (ordered.1 other mem))

theorem trimBatch_spec {maxRecords maxTotalBytes : Nat} (front : List (Text × Text)) {table : Table Text Text} {back : List (Text × Text)}
    (entries : table.entries = front ++ back) (removedAny : Bool) :
    ∃ left, trimBatch maxRecords maxTotalBytes table (statsOf table.entries) removedAny (front.map fun entry => (entry.1, byteLen entry.2)) =
        .ok (left, statsOf left.entries, removedAny || decide (left.entries.length < table.entries.length)) ∧
      left.entries.length ≤ table.entries.length ∧
      (overBudget table.entries maxRecords maxTotalBytes = true → front ≠ [] → left.entries.length < table.entries.length) ∧
      keptEntries maxRecords maxTotalBytes left.entries = keptEntries maxRecords maxTotalBytes table.entries := by
  induction front generalizing table removedAny with
  | nil => exact ⟨table, by simp [trimBatch], le_refl _, fun _ none' => absurd rfl none', rfl⟩
  | cons entry front ih =>
    have entries : table.entries = entry :: (front ++ back) := entries
    rw [map_cons, trimBatch]
    cases beyond : overBudget table.entries maxRecords maxTotalBytes with
    | true =>
      have held : table.get entry.1 = some entry.2 := by
        rw [Table.get_eq_some, entries]
        exact mem_cons_self
      have rest := remove_first entries
      obtain ⟨left, done, fewer, -, kept⟩ := ih rest true
      have shorter : left.entries.length < table.entries.length := by
        rw [rest] at fewer
        rw [entries, length_cons]
        omega
      have stats : (statsOf table.entries).without (byteLen entry.2) = statsOf (table.remove entry.1).entries := by
        rw [rest, entries, statsOf_without]
      refine ⟨left, ?_, le_of_lt shorter, fun _ _ => shorter, ?_⟩
      · rw [show historyOverBudget (statsOf table.entries) maxRecords maxTotalBytes = true from beyond, if_neg (by decide), held]
        dsimp only
        rw [if_neg (by simp), stats, done, Bool.true_or, decide_eq_true shorter, Bool.or_true]
      · rw [entries] at beyond
        rw [kept, rest, entries, keptEntries, if_pos beyond]
    | false =>
      rw [show historyOverBudget (statsOf table.entries) maxRecords maxTotalBytes = false from beyond, if_pos (by decide)]
      simp

theorem trimHistory_spec (rounds : Nat) {table : Table Text Text} (enough : table.entries.length ≤ rounds) :
    ∃ left, trimHistory maxRecords maxTotalBytes table (statsOf table.entries) rounds = .ok (left, statsOf left.entries) ∧
      left.entries = keptEntries maxRecords maxTotalBytes table.entries := by
  induction rounds generalizing table with
  | zero =>
    have none' : table.entries = [] := eq_nil_of_length_eq_zero (Nat.le_zero.mp enough)
    refine ⟨table, ?_, by rw [none']; rfl⟩
    rw [trimHistory, none', show historyOverBudget (statsOf []) maxRecords maxTotalBytes = false from overBudget_nil ..]
    rfl
  | succ rounds ih =>
    rw [trimHistory]
    cases beyond : overBudget table.entries maxRecords maxTotalBytes with
    | true =>
      have some' : table.entries ≠ [] := by
        intro none'
        simp [none', overBudget_nil] at beyond
      have first : table.entries.take HISTORY_DELETE_BATCH ≠ [] := by
        rw [Ne, take_eq_nil_iff]
        exact fun none' => none'.elim (by decide) some'
      obtain ⟨left, done, -, shorter, kept⟩ := @trimBatch_spec maxRecords maxTotalBytes (table.entries.take HISTORY_DELETE_BATCH) _ _
        (take_append_drop HISTORY_DELETE_BATCH table.entries).symm false
      have fewer := shorter beyond first
      obtain ⟨last, trimmed, stays⟩ := @ih left (by omega)
      refine ⟨last, ?_, stays.trans kept⟩
      have listed : (collectFirstEntries table HISTORY_DELETE_BATCH).isEmpty = false := by
        rw [collectFirstEntries, isEmpty_map]
        exact isEmpty_eq_false_iff.mpr first
      rw [show historyOverBudget (statsOf table.entries) maxRecords maxTotalBytes = true from beyond, if_pos rfl]
      dsimp only
      rw [listed, if_neg (by decide), collectFirstEntries, done, decide_eq_true fewer]
      exact trimmed
    | false =>
      refine ⟨table, ?_, (keptEntries_self beyond).symm⟩
      rw [show historyOverBudget (statsOf table.entries) maxRecords maxTotalBytes = false from beyond, if_neg (by decide)]

section
variable {δ : Type} {codec : Codec δ}

theorem truncateOwned_fits (value : Text) (maxBytes : Nat) : byteLen (truncateOwned value maxBytes).1 ≤ maxBytes := by
  rw [truncateOwned]
  split_ifs with fits
  · exact fits
  · exact byteLen_takeBytes maxBytes value

theorem truncateOwned_self {value : Text} {maxBytes : Nat} (fits : byteLen value ≤ maxBytes) :
    truncateOwned value maxBytes = (value, false) := if_pos fits

/-- A record within the limits. -/
structure Limited (record : QueryRecord δ) : Prop where
  name : byteLen record.connectionName ≤ MAX_CONNECTION_NAME_BYTES
  sql : byteLen record.sql ≤ MAX_QUERY_HISTORY_SQL_BYTES
  error : ∀ error ∈ record.error, byteLen error ≤ MAX_QUERY_HISTORY_ERROR_BYTES

theorem enforceLimits_limited (record : QueryRecord δ) : Limited record.enforceLimits where
  name := truncateOwned_fits _ _
  sql := truncateOwned_fits _ _
  error error mem := by
    rw [QueryRecord.enforceLimits, Option.map_map] at mem
    obtain ⟨text, -, rfl⟩ := Option.map_eq_some_iff.mp mem
    exact truncateOwned_fits _ _

variable {record : QueryRecord δ}

theorem Limited.enforceLimits (limited : Limited record) : record.enforceLimits = record := by
  obtain ⟨id, connectionId, name, sql, sqlTruncated, error, errorTruncated, executedAt, details⟩ := record
  rw [QueryRecord.enforceLimits]
  rw [truncateOwned_self limited.name, truncateOwned_self limited.sql]
  cases error with
  | none => simp
  | some error =>
    rw [Option.map_some, truncateOwned_self (limited.error error rfl)]
    simp

theorem Limited.validate (limited : Limited record) : record.validate = .ok () := by
  have len {label value : Text} {maxBytes : Nat} (fits : byteLen value ≤ maxBytes) : validateLen label value maxBytes = .ok () :=
    if_neg (Nat.not_lt.mpr fits)
  rw [QueryRecord.validate, len limited.name, len limited.sql]
  cases error : record.error with
  | none => rfl
  | some text => exact len (limited.error text error)

/-- A record as it is stored. -/
structure Storable (codec : Codec δ) (record : QueryRecord δ) : Prop where
  limited : Limited record
  small : byteLen (codec.toJson record) ≤ MAX_HISTORY_RECORD_JSON_BYTES
  fourDigits : record.executedAt.FourDigits

theorem decodeRecord_storable (storable : Storable codec record) (key : Text) :
    decodeRecord codec key (codec.toJson record) = .ok record := by
  rw [decodeRecord, (@ensureLen_ok _ _ _ ()).mpr storable.small, codec.fromJson_toJson]
  change (Except.mapError _ record.enforceLimits.validate >>= fun _ => .ok record.enforceLimits) = _
  rw [storable.limited.enforceLimits, storable.limited.validate]
  rfl

def entryOf (codec : Codec δ) (record : QueryRecord δ) : Text × Text := (recordKey record, codec.toJson record)

theorem entryOf_inj {record other : QueryRecord δ} (same : codec.toJson record = codec.toJson other) : record = other := by
  have read := codec.fromJson_toJson record
  rw [same, codec.fromJson_toJson] at read
  exact (Except.ok.inj read).symm

/-- The metadata are right, or there are none and there is no record. -/
def Counted (store : HistoryTables) : Prop :=
  (store.recordCount = some store.table.entries.length ∧ store.valueBytes = some (valueBytes store.table.entries)) ∨
    (store.table.entries = [] ∧ store.recordCount = none ∧ store.valueBytes = none)

variable {store : HistoryTables}

theorem Counted.load (counted : Counted store) : loadHistoryStats store = .ok (statsOf store.table.entries) := by
  rcases counted with ⟨count, bytes⟩ | ⟨none', count, bytes⟩
  · rw [loadHistoryStats, bytes, count]
    exact if_pos rfl
  · rw [loadHistoryStats, bytes, none']
    rfl

theorem counted_persist (table : Table Text Text) : Counted (persistHistoryStats table (statsOf table.entries)) := .inl ⟨rfl, rfl⟩

structure Sound (codec : Codec δ) (store : HistoryTables) : Prop where
  counted : Counted store
  count : store.table.entries.length ≤ HISTORY_MAX_KEEP
  bytes : valueBytes store.table.entries ≤ MAX_HISTORY_TOTAL_BYTES
  records : ∀ entry ∈ store.table.entries, ∃ record, Storable codec record ∧ entryOf codec record = entry

/-- The record is in the table. -/
def Stored (codec : Codec δ) (store : HistoryTables) (record : QueryRecord δ) : Prop :=
  store.table.get (recordKey record) = some (codec.toJson record)

theorem stored_iff : Stored codec store record ↔ entryOf codec record ∈ store.table.entries := Table.get_eq_some

theorem Sound.storable (sound : Sound codec store) (stored : Stored codec store record) : Storable codec record := by
  obtain ⟨own, storable, same⟩ := sound.records _ (stored_iff.mp stored)
  rwa [← entryOf_inj (congrArg Prod.snd same)]

def fresh : HistoryTables := ⟨.empty, none, none⟩

theorem sound_fresh : Sound codec fresh where
  counted := .inr ⟨rfl, rfl, rfl⟩
  count := Nat.zero_le _
  bytes := Nat.zero_le _
  records := fun _ mem => nomatch mem

theorem Sound.fewer (sound : Sound codec store) {table : Table Text Text}
    (part : table.entries.Sublist store.table.entries) : Sound codec (persistHistoryStats table (statsOf table.entries)) where
  counted := counted_persist table
  count := part.length_le.trans sound.count
  bytes := ((part.map _).sum_le_sum (fun _ _ => Nat.zero_le _)).trans sound.bytes
  records entry mem := sound.records entry (part.subset mem)

/-- The table with a record put in. -/
def putRecord (codec : Codec δ) (store : HistoryTables) (record : QueryRecord δ) : Table Text Text :=
  store.table.insert (recordKey record) (codec.toJson record)

theorem mem_putRecord {entry : Text × Text} : entry ∈ (putRecord codec store record).entries ↔
      entry = entryOf codec record ∨ entry ∈ store.table.entries ∧ entry.1 ≠ recordKey record :=
  mem_insertEntry store.table.ordered (recordKey record) (codec.toJson record) entry

theorem checks_ok {c d : Prop} [Decidable c] [Decidable d] {α : Type} {error error' : DomainError} {rest : Result α}
    {result : α} (done : (if c then .error error else if d then .error error' else rest) = .ok result) : rest = .ok result := by
  split_ifs at done
  exact done

theorem append_ok {store next : HistoryTables} (counted : Counted store)
    (four : record.executedAt.FourDigits) (done : append codec record store = .ok next) :
    Storable codec record.enforceLimits ∧ ∃ left : Table Text Text, next = persistHistoryStats left (statsOf left.entries) ∧
      left.entries = keptEntries HISTORY_MAX_KEEP MAX_HISTORY_TOTAL_BYTES (putRecord codec store record.enforceLimits).entries := by
  have limited := enforceLimits_limited record
  obtain ⟨_, -, done⟩ := bind_ok done
  obtain ⟨value, written, done⟩ := bind_ok done
  obtain ⟨small, rfl⟩ := serialize_ok.mp written
  obtain ⟨stats, loaded, done⟩ := bind_ok done
  rw [counted.load] at loaded
  cases loaded
  have put := statsOf_insert store.table (recordKey record.enforceLimits) (codec.toJson record.enforceLimits)
  obtain ⟨⟨left, after⟩, trimmed, done⟩ := bind_ok (checks_ok done)
  obtain ⟨left', trimmed', kept⟩ := trimHistory_spec HISTORY_MAX_KEEP MAX_HISTORY_TOTAL_BYTES _ (le_refl
    (putRecord codec store record.enforceLimits).entries.length)
  rw [putRecord, put] at trimmed'
  have same := trimmed.symm.trans trimmed'
  cases same
  exact ⟨⟨limited, small, four⟩, left, (Except.ok.inj done).symm, kept⟩

theorem append_sound {store next : HistoryTables} (sound : Sound codec store)
    (four : record.executedAt.FourDigits) (done : append codec record store = .ok next) : Sound codec next := by
  obtain ⟨storable, left, rfl, kept⟩ := append_ok sound.counted four done
  have fits := keptEntries_fits HISTORY_MAX_KEEP MAX_HISTORY_TOTAL_BYTES (putRecord codec store record.enforceLimits).entries
  rw [← kept, overBudget, historyOverBudget, Bool.or_eq_false_iff, decide_eq_false_iff_not, decide_eq_false_iff_not] at fits
  refine ⟨counted_persist left, Nat.not_lt.mp fits.1, Nat.not_lt.mp fits.2, fun entry mem => ?_⟩
  obtain ⟨dropped, split⟩ := keptEntries_split HISTORY_MAX_KEEP MAX_HISTORY_TOTAL_BYTES (putRecord codec store record.enforceLimits).entries
  have inside : entry ∈ (putRecord codec store record.enforceLimits).entries := by
    rw [split, ← kept]
    exact mem_append_right _ mem
  rcases mem_putRecord.mp inside with rfl | ⟨old, -⟩
  · exact ⟨_, storable, rfl⟩
  · exact sound.records entry old

theorem append_drops {store next : HistoryTables} (counted : Counted store)
    (four : record.executedAt.FourDigits) (done : append codec record store = .ok next) :
    (∀ entry ∈ next.table.entries, entry ∈ (putRecord codec store record.enforceLimits).entries) ∧
      ∀ old ∈ (putRecord codec store record.enforceLimits).entries, old ∉ next.table.entries →
        ∀ entry ∈ next.table.entries, old.1 < entry.1 := by
  obtain ⟨-, left, rfl, kept⟩ := append_ok counted four done
  obtain ⟨dropped, split⟩ := keptEntries_split HISTORY_MAX_KEEP MAX_HISTORY_TOTAL_BYTES (putRecord codec store record.enforceLimits).entries
  rw [← kept] at split
  have ordered := (putRecord codec store record.enforceLimits).ordered
  rw [split, pairwise_append] at ordered
  rw [split]
  refine ⟨fun entry mem => mem_append_right _ mem, fun old mem gone entry stays => ?_⟩
  rcases mem_append.mp mem with front | back
  · exact ordered.2.2 old front entry stays
  · exact absurd back gone

theorem remove_sublist (table : Table Text Text) (key : Text) : (table.remove key).entries.Sublist table.entries :=
  filter_sublist

theorem delete_ok {store next : HistoryTables} {id : Uuid} (counted : Counted store) (done : delete id store = .ok next) :
    (targetKey store.table id = none ∧ next = persistHistoryStats store.table (statsOf store.table.entries)) ∨
      ∃ key, targetKey store.table id = some key ∧
        next = persistHistoryStats (store.table.remove key) (statsOf (store.table.remove key).entries) := by
  rw [delete, counted.load] at done
  cases target : targetKey store.table id with
  | none =>
    rw [target] at done
    exact .inl ⟨rfl, (Except.ok.inj done).symm⟩
  | some key =>
    rw [target] at done
    dsimp only at done
    refine .inr ⟨key, rfl, ?_⟩
    cases held : store.table.get key with
    | none =>
      rw [held] at done
      rw [← Except.ok.inj done, Table.remove_absent held]
    | some removed =>
      rw [held] at done
      rw [← Except.ok.inj done, statsOf_remove held]

theorem removeEach_ok {toRemove : List (Text × Nat)} {table next : Table Text Text} {stats : HistoryStats}
    (done : removeEach table (statsOf table.entries) toRemove = .ok (next, stats)) : stats = statsOf next.entries ∧
      next.entries.Sublist table.entries ∧ ∀ key, next.get key = if key ∈ toRemove.map (·.1) then none else table.get key := by
  induction toRemove generalizing table with
  | nil =>
    cases done
    exact ⟨rfl, List.Sublist.refl _, fun key => by simp⟩
  | cons first toRemove ih =>
    rw [removeEach] at done
    cases held : table.get first.1 with
    | none => simp [held] at done
    | some removed =>
      rw [held] at done
      dsimp only at done
      split_ifs at done
      rw [← statsOf_remove held] at done
      obtain ⟨counted, part, gone⟩ := ih done
      refine ⟨counted, part.trans (remove_sublist table first.1), fun key => ?_⟩
      rw [gone, Table.get_remove]
      rw [map_cons]
      by_cases own : key = first.1
      · simp [own]
      · simp only [mem_cons, own, false_or, if_false]

theorem removeBatches_empty (rounds : Nat) {table : Table Text Text} (enough : table.entries.length ≤ rounds) :
    (removeBatches table rounds).entries = [] := by
  induction rounds generalizing table with
  | zero => exact eq_nil_of_length_eq_zero (Nat.le_zero.mp enough)
  | succ rounds ih =>
    rw [removeBatches]
    cases split : table.entries with
    | nil => simp [Table.keys, split]
    | cons entry entries =>
      have keys : table.keys.take HISTORY_DELETE_BATCH = entry.1 :: (entries.map (·.1)).take (HISTORY_DELETE_BATCH - 1) := by
        rw [Table.keys, split]
        rfl
      have shrink (keys : List Text) (table : Table Text Text) : (keys.foldl Table.remove table).entries.Sublist table.entries := by
        induction keys generalizing table with
        | nil => exact List.Sublist.refl _
        | cons key keys ih => exact (ih _).trans (remove_sublist table key)
      rw [keys, if_neg (by simp)]
      refine ih ?_
      have fewer := (shrink ((entries.map (·.1)).take (HISTORY_DELETE_BATCH - 1)) (table.remove entry.1)).length_le
      rw [remove_first split] at fewer
      rw [split, length_cons] at enough
      exact fewer.trans (Nat.le_of_succ_le_succ enough)

theorem collectToRemove_ok {target : Uuid} {records : List (QueryRecord δ)} (storable : ∀ record ∈ records, Storable codec record)
    {count bytes : Nat} {before toRemove : List (Text × Nat)}
    (done : collectToRemove codec target count bytes before (records.map (entryOf codec)) = .ok toRemove) : toRemove.map (·.1) =
      before.map (·.1) ++ (records.filter fun record => decide (record.connectionId = target)).map recordKey := by
  induction records generalizing count bytes before with
  | nil =>
    cases done
    simp
  | cons record records ih =>
    obtain ⟨first, rest⟩ := forall_mem_cons.mp storable
    obtain ⟨⟨count, bytes⟩, -, done⟩ := bind_ok done
    obtain ⟨read, decoded, done⟩ := bind_ok done
    rw [decodeRecord_storable first] at decoded
    cases decoded
    rw [ih rest done]
    split_ifs with own
    · rw [filter_cons_of_pos (by simpa using own)]
      simp
    · rw [filter_cons_of_neg (by simpa using own)]

theorem Sound.listed (sound : Sound codec store) : ∃ records : List (QueryRecord δ),
    (∀ record ∈ records, Storable codec record) ∧ store.table.entries = records.map (entryOf codec) := by
  have each := sound.records
  generalize store.table.entries = entries at each
  induction entries with
  | nil => exact ⟨[], by simp, rfl⟩
  | cons entry entries ih =>
    obtain ⟨⟨record, storable, same⟩, rest⟩ := forall_mem_cons.mp each
    obtain ⟨records, others, rfl⟩ := ih rest
    exact ⟨record :: records, forall_mem_cons.mpr ⟨storable, others⟩, by rw [map_cons, same]⟩

/-- The record is of the connection that is asked for, if one is. -/
def matching (connFilter : Option Uuid) (record : QueryRecord δ) : Bool :=
  !connFilter.any fun filterId => decide (record.connectionId ≠ filterId)

theorem listLoop_ok (connFilter : Option Uuid) (limit maxInlineBytes : Nat) {records : List (QueryRecord δ)}
    (storable : ∀ record ∈ records, Storable codec record) (before : List (QueryRecord δ)) (total : Nat) :
    ∃ taken truncated, listLoop codec connFilter limit maxInlineBytes before total (records.map (entryOf codec)) =
        .ok ⟨before ++ taken, truncated⟩ ∧ taken <+: records.filter (matching connFilter) ∧
      (truncated = true ↔ taken.length < (records.filter (matching connFilter)).length) := by
  induction records generalizing before total with
  | nil => exact ⟨[], false, by simp [listLoop], prefix_rfl, by simp⟩
  | cons record records ih =>
    obtain ⟨first, rest⟩ := forall_mem_cons.mp storable
    rw [map_cons, entryOf, listLoop, decodeRecord_storable first]
    change ∃ taken truncated, (if (connFilter.any fun filterId => decide (record.connectionId ≠ filterId)) = true then _ else
      if (decide (before.length ≥ limit) || (!before.isEmpty && decide (saturatingAdd total record.inlinePayloadBytes > maxInlineBytes))) = true
        then Except.ok (QueryHistoryPage.mk before true) else _) = _ ∧ _
    cases other : connFilter.any fun filterId => decide (record.connectionId ≠ filterId) with
    | true =>
      have skipped : ¬ matching connFilter record = true := by rw [matching, other]; decide
      rw [if_pos rfl, filter_cons_of_neg skipped]
      exact ih rest before total
    | false =>
      have asked : matching connFilter record = true := by rw [matching, other]; rfl
      rw [if_neg (by decide), filter_cons_of_pos asked]
      split_ifs with full
      · exact ⟨[], true, by rw [append_nil], nil_prefix, by simp⟩
      obtain ⟨taken, truncated, done, front, more⟩ := ih rest (before ++ [record]) (saturatingAdd total record.inlinePayloadBytes)
      refine ⟨record :: taken, truncated, ?_, (prefix_cons_inj record).mpr front, ?_⟩
      · rw [done, append_assoc]
        rfl
      · rw [more, length_cons, length_cons, Nat.add_lt_add_iff_right]

/-- The first of the records is the newer one. -/
def Newer (record other : QueryRecord δ) : Prop :=
  other.executedAt.fields < record.executedAt.fields ∨ other.executedAt = record.executedAt ∧ other.id.text < record.id.text

theorem newer_iff {record other : QueryRecord δ} (four : record.executedAt.FourDigits) (four' : other.executedAt.FourDigits) :
    Newer record other ↔ recordKey other < recordKey record := by
  rw [recordKey, recordKey, toRfc3339_key four' four, Newer, cons_lt_cons_iff]
  simp

/-- A page has the newest of the matching records, and says whether there are more. -/
def Lists (codec : Codec δ) (store : HistoryTables) (connFilter : Option Uuid) (page : QueryHistoryPage δ) : Prop :=
  ∃ records : List (QueryRecord δ), (∀ record, record ∈ records ↔ Stored codec store record ∧ matching connFilter record = true) ∧
    records.Pairwise Newer ∧ page.records <+: records ∧ (page.truncated = true ↔ page.records.length < records.length)

theorem listBounded_lists (sound : Sound codec store) (connFilter : Option Uuid) {limit maxInlineBytes : Nat}
    (some : limit ≠ 0) (some' : maxInlineBytes ≠ 0) :
    ∃ page, listBounded codec connFilter limit maxInlineBytes store = .ok page ∧ Lists codec store connFilter page := by
  obtain ⟨records, storable, entries⟩ := sound.listed
  have back : ∀ record ∈ records.reverse, Storable codec record := fun record mem => storable record (mem_reverse.mp mem)
  obtain ⟨taken, truncated, done, front, more⟩ := listLoop_ok connFilter limit maxInlineBytes back [] 0
  refine ⟨⟨taken, truncated⟩, ?_, records.reverse.filter (matching connFilter), fun record => ?_, ?_, front, more⟩
  · rw [listBounded, if_neg (by simp [some, some']), entries, ← map_reverse, done]
    rfl
  · rw [mem_filter, mem_reverse]
    refine and_congr_left fun _ => ?_
    rw [stored_iff, entries, mem_map]
    constructor
    · exact fun mem => ⟨record, mem, rfl⟩
    · rintro ⟨other, mem, same⟩
      rwa [← entryOf_inj (congrArg Prod.snd same)]
  · have ordered := store.table.ordered
    rw [entries, pairwise_map] at ordered
    refine (pairwise_reverse.mpr (ordered.imp_of_mem fun {record other} one two less => ?_)).filter _
    exact (newer_iff (storable other two).fourDigits (storable record one).fourDigits).mpr less

/-- The tables, and the records that were appended and not deleted. -/
structure HistoryState (δ : Type) where
  store : HistoryTables
  log : List (QueryRecord δ)

inductive Op (δ : Type)
  | append (record : QueryRecord δ)
  | delete (id : Uuid)
  | clear (connFilter : Option Uuid)

/-- A transaction that fails changes nothing. -/
def HistoryState.step (codec : Codec δ) (s : HistoryState δ) : Op δ → Option (HistoryState δ)
  | .append record =>
    (QueryHistory.append codec record s.store).toOption.map fun store =>
      ⟨store, record.enforceLimits :: s.log.filter fun old => decide (recordKey old ≠ recordKey record)⟩
  | .delete id =>
    (QueryHistory.delete id s.store).toOption.map fun store =>
      ⟨store, s.log.filter fun old => decide (targetKey s.store.table id ≠ some (recordKey old))⟩
  | .clear connFilter =>
    (QueryHistory.clear codec connFilter s.store).toOption.map fun store => ⟨store, s.log.filter fun old => !matching connFilter old⟩

/-- The year of an appended record has four digits. -/
def Op.FourDigits : Op δ → Prop
  | .append record => record.executedAt.FourDigits
  | _ => True

/-- An appended record is newer than those that were trimmed before. -/
def Op.Fair (codec : Codec δ) (s : HistoryState δ) : Op δ → Prop
  | .append record => ∀ old ∈ s.log, ¬Stored codec s.store old → Newer record old
  | _ => True

theorem clear_ok {store next : HistoryTables} {connFilter : Option Uuid} (sound : Sound codec store)
    (done : clear codec connFilter store = .ok next) : ∃ table : Table Text Text, next = persistHistoryStats table (statsOf table.entries) ∧
      table.entries.Sublist store.table.entries ∧
      ∀ record, Stored codec store record → (Stored codec next record ↔ ¬ matching connFilter record = true) := by
  cases connFilter with
  | none =>
    have none' := removeBatches_empty store.table.entries.length (le_refl store.table.entries.length)
    refine ⟨removeBatches store.table store.table.entries.length, ?_, ?_, fun record _ => ?_⟩
    · rw [← Except.ok.inj done, none']
      rfl
    · rw [none']
      exact nil_sublist _
    · rw [← Except.ok.inj done, stored_iff, persistHistoryStats, none']
      simp [matching]
  | some target =>
    obtain ⟨records, storable, entries⟩ := sound.listed
    obtain ⟨stats, loaded, done⟩ := bind_ok done
    rw [sound.counted.load] at loaded
    cases loaded
    simp only [bind_ok_iff] at done
    obtain ⟨toRemove, collected, ⟨table, stats⟩, removed, done⟩ := done
    rw [entries] at collected
    have keys := collectToRemove_ok storable collected
    obtain ⟨rfl, part, gone⟩ := removeEach_ok removed
    refine ⟨table, (Except.ok.inj done).symm, part, fun record stored => ?_⟩
    rw [← Except.ok.inj done, Stored, persistHistoryStats, gone, keys, show store.table.get (recordKey record) = _ from stored]
    have own : recordKey record ∈ (records.filter fun record => decide (record.connectionId = target)).map recordKey ↔
        record.connectionId = target := by
      rw [mem_map]
      constructor
      · rintro ⟨other, mem, same⟩
        obtain ⟨inside, asked⟩ := mem_filter.mp mem
        have found : entryOf codec other ∈ store.table.entries := by
          rw [entries]
          exact mem_map.mpr ⟨other, inside, rfl⟩
        have values := value_unique store.table.ordered (stored_iff.mp stored) (show (recordKey record, codec.toJson other) ∈ _ from same ▸ found)
        rw [entryOf_inj values]
        exact of_decide_eq_true asked
      · intro asked
        have inside := stored_iff.mp stored
        rw [entries] at inside
        obtain ⟨other, mem, same⟩ := mem_map.mp inside
        rw [entryOf_inj (congrArg Prod.snd same)] at mem
        exact ⟨record, mem_filter.mpr ⟨mem, decide_eq_true asked⟩, rfl⟩
    by_cases asked : record.connectionId = target <;> simp [own, asked, matching]

theorem committed {α β : Type} {run : Result α} {after : α → β} {next : β}
    (stepped : run.toOption.map after = some next) : ∃ store, run = .ok store ∧ after store = next := by
  cases run with
  | error error => cases stepped
  | ok store => exact ⟨store, rfl, Option.some.inj stepped⟩

theorem step_sound {s next : HistoryState δ} {op : Op δ} (sound : Sound codec s.store) (four : op.FourDigits)
    (stepped : s.step codec op = some next) : Sound codec next.store := by
  cases op with
  | append record =>
    obtain ⟨store, done, rfl⟩ := committed stepped
    exact append_sound sound four done
  | delete id =>
    obtain ⟨store, done, rfl⟩ := committed stepped
    obtain ⟨-, rfl⟩ | ⟨key, -, rfl⟩ := delete_ok sound.counted done
    · exact sound.fewer (List.Sublist.refl _)
    · exact sound.fewer (remove_sublist _ _)
  | clear connFilter =>
    obtain ⟨store, done, rfl⟩ := committed stepped
    obtain ⟨table, rfl, part, -⟩ := clear_ok sound done
    exact sound.fewer part

/-- What was appended and not deleted is stored, or older than all that is. -/
structure Kept (codec : Codec δ) (s : HistoryState δ) : Prop where
  sound : Sound codec s.store
  logged : ∀ record ∈ s.log, record.executedAt.FourDigits
  known : ∀ record, Stored codec s.store record → record ∈ s.log
  newest : ∀ old ∈ s.log, ¬Stored codec s.store old → ∀ record, Stored codec s.store record → Newer record old

theorem append_kept {s : HistoryState δ} (kept : Kept codec s)
    (four : record.executedAt.FourDigits) (fair : ∀ old ∈ s.log, ¬Stored codec s.store old → Newer record old)
    (done : QueryHistory.append codec record s.store = .ok store) :
    Kept codec ⟨store, record.enforceLimits :: s.log.filter fun old => decide (recordKey old ≠ recordKey record)⟩ := by
  have sound := append_sound kept.sound four done
  obtain ⟨inside, drops⟩ := append_drops kept.sound.counted four done
  have logged : ∀ other ∈ record.enforceLimits :: s.log.filter (fun old => decide (recordKey old ≠ recordKey record)),
      other.executedAt.FourDigits :=
    forall_mem_cons.mpr ⟨four, fun other mem => kept.logged other (mem_of_mem_filter mem)⟩
  refine ⟨sound, logged, fun other stored => ?_, fun old mem gone other stored => ?_⟩
  · rcases mem_putRecord.mp (inside _ (stored_iff.mp stored)) with same | ⟨earlier, apart⟩
    · rw [entryOf_inj (congrArg Prod.snd same)]
      exact mem_cons_self
    · exact mem_cons_of_mem _ (mem_filter.mpr ⟨kept.known other (stored_iff.mpr earlier), decide_eq_true apart⟩)
  rw [newer_iff (sound.storable stored).fourDigits (logged old mem)]
  by_cases put : entryOf codec old ∈ (putRecord codec s.store record.enforceLimits).entries
  · exact drops _ put (fun there => gone (stored_iff.mpr there)) _ (stored_iff.mp stored)
  have apart : old ≠ record.enforceLimits := by
    rintro rfl
    exact put (mem_putRecord.mpr (.inl rfl))
  obtain ⟨earlier, other_key⟩ := mem_filter.mp (mem_of_ne_of_mem apart mem)
  have absent : ¬Stored codec s.store old := fun there => put (mem_putRecord.mpr (.inr ⟨stored_iff.mp there, of_decide_eq_true other_key⟩))
  have before := (newer_iff four (kept.logged old earlier)).mp (fair old earlier absent)
  rcases mem_putRecord.mp (inside _ (stored_iff.mp stored)) with same | ⟨there, -⟩
  · rw [entryOf_inj (congrArg Prod.snd same)]
    exact before
  · have still := stored_iff.mpr there
    exact (newer_iff (kept.sound.storable still).fourDigits (kept.logged old earlier)).mp (kept.newest old earlier absent other still)

theorem fewer_kept {s : HistoryState δ} {table : Table Text Text} {stays : QueryRecord δ → Bool} (kept : Kept codec s)
    (part : table.entries.Sublist s.store.table.entries) (same : ∀ record, Stored codec s.store record →
      (Stored codec (persistHistoryStats table (statsOf table.entries)) record ↔ stays record = true)) :
    Kept codec ⟨persistHistoryStats table (statsOf table.entries), s.log.filter stays⟩ := by
  have earlier {record : QueryRecord δ} (stored : Stored codec (persistHistoryStats table (statsOf table.entries)) record) :
      Stored codec s.store record := stored_iff.mpr (part.subset (stored_iff.mp stored))
  refine ⟨kept.sound.fewer part, fun record mem => kept.logged record (mem_of_mem_filter mem), fun record stored => ?_,
    fun old mem gone record stored => ?_⟩
  · exact mem_filter.mpr ⟨kept.known record (earlier stored), (same record (earlier stored)).mp stored⟩
  · obtain ⟨there, stay⟩ := mem_filter.mp mem
    exact kept.newest old there (fun before => gone ((same old before).mpr stay)) record (earlier stored)

theorem step_kept {s next : HistoryState δ} {op : Op δ} (kept : Kept codec s) (four : op.FourDigits)
    (fair : op.Fair codec s) (stepped : s.step codec op = some next) : Kept codec next := by
  cases op with
  | append record =>
    obtain ⟨store, done, rfl⟩ := committed stepped
    exact append_kept kept four fair done
  | delete id =>
    obtain ⟨store, done, rfl⟩ := committed stepped
    obtain ⟨none', rfl⟩ | ⟨key, target, rfl⟩ := delete_ok kept.sound.counted done
    · refine fewer_kept kept (List.Sublist.refl _) fun record stored => ?_
      rw [none']
      exact iff_of_true stored rfl
    refine fewer_kept kept (remove_sublist _ _) fun record stored => ?_
    rw [target, Stored, persistHistoryStats, Table.get_remove, show s.store.table.get (recordKey record) = _ from stored]
    by_cases own : recordKey record = key
    · simp [own]
    · simp [own, Ne.symm own]
  | clear connFilter =>
    obtain ⟨store, done, rfl⟩ := committed stepped
    obtain ⟨table, rfl, part, same⟩ := clear_ok kept.sound done
    refine fewer_kept kept part fun record stored => ?_
    rw [same record stored, Bool.not_eq_true', Bool.not_eq_true]

theorem kept_fresh : Kept codec (⟨fresh, []⟩ : HistoryState δ) where
  sound := sound_fresh
  logged := fun _ mem => nomatch mem
  known := fun _ stored => nomatch stored
  newest := fun _ mem => nomatch mem

end

open ApiHistoryRuns (spell unspell unspell_spell spell_free)
open Fields (splitTerminator splitTerminator_parts natText_isDigit)

def timeNumbers (time : Timestamp) : List Nat :=
  [time.year.toNat, (-time.year).toNat, time.month, time.day, time.hour, time.minute, time.second, time.nano]

/-- The fields of a record, each with a comma. -/
def plainJson (record : QueryRecord Unit) : Text :=
  ([natText record.id.value, natText record.connectionId.value, spell record.connectionName, spell record.sql,
    natText record.sqlTruncated.toNat, record.error.elim [] (fun error => 'e' :: spell error), natText record.errorTruncated.toNat] ++
      (timeNumbers record.executedAt).map natText).flatMap (· ++ [','])

def number (digits : Text) : Nat := Nat.ofDigitChars 10 digits 0

def plainRecord (json : Text) : Except Text (QueryRecord Unit) :=
  match splitTerminator ',' json with
  | [id, connectionId, name, sql, sqlTruncated, error, errorTruncated, after, before, month, day, hour, minute, second, nano] =>
    if ids : number id < 16 ^ 32 ∧ number connectionId < 16 ^ 32 then
      if date : number month ≤ 12 ∧ number day ≤ 31 ∧ number hour < 24 ∧ number minute < 60 ∧ number second < 60 then
        if fraction : number nano < 1000000000 ∨ number second = 59 ∧ number nano < 2000000000 then
          .ok ⟨⟨number id, ids.1⟩, ⟨number connectionId, ids.2⟩, unspell name, unspell sql, number sqlTruncated == 1,
            match error with
            | [] => none
            | _ :: error => some (unspell error),
            number errorTruncated == 1,
            ⟨(number after : Int) - (number before : Int), number month, number day, number hour, number minute, number second,
              number nano, date.1, date.2.1, date.2.2.1, date.2.2.2.1, date.2.2.2.2, fraction⟩, ()⟩
        else .error "nano"
      else .error "date"
    else .error "id"
  | _ => .error "fields"

theorem plainRecord_plainJson (record : QueryRecord Unit) : plainRecord (plainJson record) = .ok record := by
  obtain ⟨id, connectionId, name, sql, sqlTruncated, error, errorTruncated, time, ⟨⟩⟩ := record
  obtain ⟨year, month, day, hour, minute, second, nano, months, days, hours, minutes, seconds, nanos⟩ := time
  have digits : ∀ n, ',' ∉ natText n := fun n mem => absurd (natText_isDigit mem) (by decide)
  have read : ∀ n, number (natText n) = n := fun n => Nat.ofDigitChars_ten_toDigits
  have flag : ∀ b : Bool, (b.toNat == 1) = b := by decide
  have errors : ',' ∉ error.elim [] (fun error => 'e' :: spell error) := by
    cases error with
    | none => exact not_mem_nil
    | some error => exact not_mem_cons_of_ne_of_not_mem (by decide) (spell_free error)
  have years : ((year.toNat : Int) - ((-year).toNat : Int)) = year := Int.toNat_sub_toNat_neg year
  rw [plainRecord, plainJson, splitTerminator_parts]
  · simp only [timeNumbers, map_cons, map_nil, cons_append, nil_append, read]
    rw [dif_pos ⟨id.small, connectionId.small⟩, dif_pos ⟨months, days, hours, minutes, seconds⟩, dif_pos nanos]
    simp only [unspell_spell, flag, years]
    cases error with
    | none => rfl
    | some error => simp [unspell_spell]
  · simp only [timeNumbers, map_cons, map_nil, cons_append, nil_append, forall_mem_cons]
    exact ⟨digits _, digits _, spell_free _, spell_free _, digits _, errors, digits _, digits _, digits _, digits _, digits _,
      digits _, digits _, digits _, digits _, forall_mem_nil _⟩

def plainCodec : Codec Unit := ⟨plainJson, plainRecord, plainRecord_plainJson⟩

def selectOne : QueryRecord Unit :=
  ⟨⟨1, by decide⟩, ⟨2, by decide⟩, "local", "SELECT 1", false, none, false,
    ⟨2024, 5, 6, 7, 8, 9, 0, by decide, by decide, by decide, by decide, by decide, by decide⟩, ()⟩

/-- The history after one record was appended. -/
def appended : HistoryTables := persistHistoryStats (putRecord plainCodec fresh selectOne) (statsOf (putRecord plainCodec fresh selectOne).entries)

end Ramag.QueryHistoryRuns
