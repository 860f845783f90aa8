import Ramag.MongoSync
import Ramag.SqlSync

/-!
The accounts of the data sync. Every record that is scanned is inserted, skipped
or failed, except that a row which vanishes from an SQL source between the scan
of its key and the fetch of the row is counted nowhere.
-/
namespace Ramag.SyncAccounts
open Strings Domain SqlLiteral Programs SyncJournal SqlSync List
open DataSyncGate (DataSyncSummary)

/-- What was scanned is accounted for. -/
def Balanced (summary : DataSyncSummary) : Prop :=
  summary.scanned = summary.inserted + summary.skipped + summary.failed

instance (summary : DataSyncSummary) : Decidable (Balanced summary) := inferInstanceAs (Decidable (_ = _))

section
variable {ε : Type} (short spare : ε → Nat)

/-- So many records are scanned and not counted yet. An event leaves its `short`
    records uncounted for good, and brings its `spare` records without a scan. -/
def Ahead (start : Journal ε) (records : Nat) (s : Journal ε) : Prop :=
  ∃ events, s.history = start.history ++ events ∧ s.summary.scanned + (events.map spare).sum =
      s.summary.inserted + s.summary.skipped + s.summary.failed + (events.map short).sum + records

end

section
variable {ε : Type} {short spare : ε → Nat} {start s : Journal ε} {records : Nat}

theorem ahead_of_eq {left : Nat} (held : Ahead short spare start records s) (same : records = left) : Ahead short spare start left s := same ▸ held

theorem ahead_record {event : ε} (held : Ahead short spare start (short event + records) s) :
    Ahead short spare start (spare event + records) (s.record event) := by
  obtain ⟨events, grown, accounts⟩ := held
  refine ⟨events ++ [event], ?_, ?_⟩
  · rw [Journal.history_record, grown, append_assoc]
  · simp only [Journal.summary_record, map_append, sum_append, map_cons, map_nil, sum_cons, sum_nil]
    omega

theorem ahead_pass {event : ε} (held : Ahead short spare start records s) (loses : short event = 0)
    (brings : spare event = 0) : Ahead short spare start records (s.record event) := by
  have kept := @ahead_record _ _ _ _ _ records event (ahead_of_eq held (by rw [loses, Nat.zero_add]))
  rwa [brings, Nat.zero_add] at kept

theorem ahead_count {change : DataSyncSummary → DataSyncSummary} {left : Nat} (held : Ahead short spare start records s)
    (moved : (change s.summary).scanned + (s.summary.inserted + s.summary.skipped + s.summary.failed) + records =
      (change s.summary).inserted + (change s.summary).skipped + (change s.summary).failed + s.summary.scanned + left) :
    Ahead short spare start left (s.count change) := by
  obtain ⟨events, grown, accounts⟩ := held
  refine ⟨events, grown, ?_⟩
  rw [Journal.summary_count]
  omega

theorem ahead_start (balanced : Balanced start.summary) : Ahead short spare start 0 start := by
  refine ⟨[], (append_nil _).symm, ?_⟩
  unfold Balanced at balanced
  simpa using balanced

theorem addScanned_ahead (stop : Journal ε → Prop) (records bytes : Nat) :
    Triple (Ahead short spare start 0) (count (addScanned records bytes)) (fun _ => Ahead short spare start records) stop := by
  refine .modify fun s held => ahead_count held ?_
  simp only [addScanned]
  omega

theorem pushWarning_ahead (stop : Journal ε → Prop) (warning : Text) :
    Triple (Ahead short spare start records) (count (pushWarning warning)) (fun _ => Ahead short spare start records) stop := by
  refine .modify fun s held => ahead_count held ?_
  unfold pushWarning
  split <;> simp only <;> omega

end

section
variable {world : World} {plan : SqlPreparedPlan} {object : SqlPreparedObject} {start s : Journal Event} {records : Nat}

def asked : Event → Nat
  | .fetched asked _ => asked
  | _ => 0

def received : Event → Nat
  | .fetched _ received => received
  | _ => 0

/-- Every row that was asked for by its key and not received stays uncounted. -/
abbrev SqlAhead : Journal Event → Nat → Journal Event → Prop := Ahead asked received

abbrev anyEnd {ε : Type} : Journal ε → Prop := fun _ => True

theorem ahead_select {side : Side} {sql : Text} (held : SqlAhead start records s) :
    SqlAhead start records (s.record (.select side sql)) := ahead_pass held rfl rfl

theorem fetchRange_ahead (work : List (List Row) × List Row) :
    Triple (SqlAhead start (work.2.length + work.1.flatten.length)) (fetchRange world plan object work)
      (fun next s => Sum.elim (fun work => SqlAhead start (work.2.length + work.1.flatten.length) s)
        (fun rows => SqlAhead start rows.length s) next) anyEnd := by
  obtain ⟨pending, output⟩ := work
  cases pending with
  | nil => exact .ret fun s held => by simpa using held
  | cons range pending =>
    refine .bind (.lift_same fun _ _ => trivial) fun predicate => .given fun _ => ?_
    refine .bind (read_triple (fun s => ahead_select) fun _ _ => trivial) fun result => ?_
    refine .ite (fun _ => ?_) fun _ => ?_
    · refine .ite (fun _ => .fail fun _ _ => trivial) fun _ => .ret fun s held => ahead_of_eq held ?_
      -- the halves ask for the rows of the whole
      have halves : (range.take (range.length / 2)).length + (range.drop (range.length / 2)).length = range.length := by
        rw [← length_append, take_append_drop]
      simp only [flatten_cons, length_append]
      omega
    · have fetched : Triple (SqlAhead start (output.length + (range :: pending).flatten.length))
          (record (.fetched range.length result.rows.length))
          (fun _ => SqlAhead start (result.rows.length + (output.length + pending.flatten.length))) anyEnd :=
        Triple.modify fun s held => ahead_record (ahead_of_eq held (by
          simp only [asked, flatten_cons, length_append]
          omega))
      refine .bind fetched fun _ => .ret fun s held => ahead_of_eq held ?_
      simp only [length_append]
      omega

theorem fetchSourceRows_ahead (rounds : Nat) (identities : List Row) :
    Triple (SqlAhead start identities.length) (fetchSourceRows world plan object rounds identities)
      (fun rows => SqlAhead start rows.length) anyEnd := by
  refine .bind (.lift_same fun _ _ => trivial) fun ranges => .given fun whole => ?_
  have looped : Triple (SqlAhead start (([] : List Row).length + ranges.reverse.flatten.length))
      (.loop (fetchRange world plan object) rounds (ranges.reverse, [])) (fun rows => SqlAhead start rows.length) anyEnd :=
    Triple.loop (fun _ _ _ => trivial) fetchRange_ahead rounds (ranges.reverse, [])
  refine .enter looped (fun s held => ahead_of_eq held ?_)
  rw [← flatten_identityRanges whole, length_nil, Nat.zero_add, length_flatten, length_flatten, map_reverse, sum_reverse]

theorem flushInsert_ahead (statement : Text) (rows : List Row) (rest : Nat) :
    Triple (SqlAhead start (rows.length + rest)) (flushInsert world plan object statement rows) (fun _ => SqlAhead start rest) anyEnd := by
  refine .bind (write_triple (fun s held => ahead_pass held rfl rfl) fun _ _ => trivial) fun result => ?_
  refine .bind (failedAfterInsert_triple (fun s _ _ => ahead_select) (fun _ _ => trivial) rows) fun failed => Triple.given fun bounded => ?_
  have counted : Triple (SqlAhead start (rows.length + rest)) (count (countInsert rows.length result.affectedRows failed))
      (fun _ => SqlAhead start rest) anyEnd := by
    refine .modify fun s held => ahead_count held ?_
    simp only [countInsert]
    omega
  exact .bind counted fun _ => .ite (fun _ => .fail fun _ _ => trivial) fun _ => .done

theorem insertLoop_ahead (rows : List Row) (statement : Text) (buffered : List Row) :
    Triple (SqlAhead start (buffered.length + rows.length)) (insertLoop world plan object rows statement buffered)
      (fun _ => SqlAhead start 0) anyEnd := by
  induction rows generalizing statement buffered with
  | nil =>
    refine .ite (fun empty => .ret fun s held => ?_) fun _ => flushInsert_ahead statement buffered 0
    rwa [empty] at held
  | cons row rest ih =>
    refine .ite (fun _ => .fail fun _ _ => trivial) fun _ => .ite (fun _ => ?_) fun _ => ?_
    · refine .bind (flushInsert_ahead statement buffered (row :: rest).length) fun _ => ?_
      refine .enter (ih _ [row]) (fun s held => ahead_of_eq held ?_)
      simp only [length_cons, length_nil]
      omega
    · refine .enter (ih _ (buffered ++ [row])) (fun s held => ahead_of_eq held ?_)
      simp only [length_append, length_cons, length_nil]
      omega

theorem insertRows_ahead (rows : List Row) :
    Triple (SqlAhead start rows.length) (insertRows world plan object rows) (fun _ => SqlAhead start 0) anyEnd := by
  refine .ite (fun empty => .ret fun s held => ?_) fun _ => ?_
  · rwa [empty] at held
  · refine .enter (insertLoop_ahead rows _ []) (fun s held => ahead_of_eq held ?_)
    rw [length_nil, Nat.zero_add]

theorem missingIdentities_ahead (existing : Finset Text) (rows missing : List Row) :
    Triple (SqlAhead start (missing.length + rows.length)) (missingIdentities world existing rows missing)
      (fun missing => SqlAhead start missing.length) anyEnd := by
  induction rows generalizing missing with
  | nil => exact .ret fun _ => id
  | cons row rest ih =>
    refine .bind (.lift_same fun _ _ => trivial) fun key => .given fun _ => ?_
    refine .ite (fun _ => ?_) fun _ => ?_
    · have skipped : Triple (SqlAhead start (missing.length + (row :: rest).length)) (count (addSkipped 1))
          (fun _ => SqlAhead start (missing.length + rest.length)) anyEnd := by
        refine .modify fun s held => ahead_count held ?_
        simp only [addSkipped, length_cons]
        omega
      exact .bind skipped fun _ => ih missing
    · refine .enter (ih (missing ++ [row])) (fun s held => ahead_of_eq held ?_)
      simp only [length_append, length_cons, length_nil]
      omega

/-- A page ends with nothing ahead, or it has set the cancellation mark. -/
def PageEnd (start s : Journal Event) : Prop := s.summary.cancelled = true ∨ SqlAhead start 0 s

theorem honored_ahead (honorCancel : Bool) (rows : Nat) :
    Triple (SqlAhead start rows) (honored world honorCancel) (fun _ => SqlAhead start rows) anyEnd := by
  exact .ite (fun _ => cancellationRequested_triple fun s held => ahead_pass held rfl rfl) fun _ => .done

theorem cancel_ends {β : Type} {rows : Nat} : Triple (SqlAhead start rows) (do count cancel; pure (.inr ()) : Sync Event (β ⊕ Unit))
      (fun next s => Sum.elim (fun _ => SqlAhead start 0 s) (fun _ => PageEnd start s) next) anyEnd := by
  have marked : Triple (SqlAhead start rows) (count cancel) (fun _ => PageEnd start) anyEnd := Triple.modify fun s _ => .inl rfl
  exact .bind marked fun _ => .ret fun _ => id

theorem newTablePage_ahead (honorCancel : Bool) (positions : List Nat) (lastKey : Option (List Value)) :
    Triple (SqlAhead start 0) (newTablePage world plan object honorCancel positions lastKey)
      (fun next s => Sum.elim (fun _ => SqlAhead start 0 s) (fun _ => PageEnd start s) next) anyEnd := by
  refine .bind (honored_ahead honorCancel 0) fun requested => .ite (fun _ => cancel_ends) fun _ => ?_
  refine .bind (read_triple (fun s => ahead_select) fun _ _ => trivial) fun result => ?_
  refine .ite (fun _ => ?_) fun _ => ?_
  · exact .ite (fun _ => .fail fun _ _ => trivial) fun _ => .ret fun s held => .inr held
  · refine .bind (.lift_same fun _ _ => trivial) fun key => .given fun _ => ?_
    refine .bind (addScanned_ahead anyEnd result.rows.length result.retainedBytes) fun _ => ?_
    exact .bind (insertRows_ahead result.rows) fun _ => .ret fun _ => id

theorem existingTablePage_ahead (rounds : Nat) (honorCancel : Bool) (lastKey : Option (List Value)) :
    Triple (SqlAhead start 0) (existingTablePage world plan object rounds honorCancel lastKey)
      (fun next s => Sum.elim (fun _ => SqlAhead start 0 s) (fun _ => PageEnd start s) next) anyEnd := by
  refine .bind (honored_ahead honorCancel 0) fun requested => .ite (fun _ => cancel_ends) fun _ => ?_
  refine .bind (read_triple (fun s => ahead_select) fun _ _ => trivial) fun ids => ?_
  refine .ite (fun _ => ?_) fun _ => ?_
  · exact .ite (fun _ => .fail fun _ _ => trivial) fun _ => .ret fun s held => .inr held
  refine .bind (.lift_same fun _ _ => trivial) fun key => .given fun _ => ?_
  refine .bind (addScanned_ahead anyEnd ids.rows.length ids.retainedBytes) fun _ => ?_
  refine .bind (existingIdentityKeys_triple (fun s _ _ => ahead_select) (fun _ _ => trivial) ids.rows)
    fun existing => ?_
  have divided : Triple (SqlAhead start ids.rows.length) (missingIdentities world existing ids.rows [])
      (fun missing => SqlAhead start missing.length) anyEnd :=
    Triple.enter (missingIdentities_ahead existing ids.rows []) (fun s held => ahead_of_eq held (Nat.zero_add _).symm)
  refine .bind divided fun missing => .ite (fun none => .ret fun s held => ?_) fun _ => ?_
  · exact ahead_of_eq held (by rw [none, length_nil])
  refine .bind (honored_ahead honorCancel missing.length) fun requested => Triple.ite (fun _ => cancel_ends) fun _ => ?_
  refine .bind (fetchSourceRows_ahead rounds missing) fun rows => ?_
  have warned : Triple (SqlAhead start rows.length) (warnVanished object missing.length rows.length)
      (fun _ => SqlAhead start rows.length) anyEnd := by
    exact .ite (fun _ => pushWarning_ahead anyEnd _) fun _ => .done
  exact .bind warned fun _ => .bind (insertRows_ahead rows) fun _ => .ret fun _ => id

theorem syncTable_ahead (rounds : Nat) (honorCancel : Bool) :
    Triple (SqlAhead start 0) (syncTable world plan object rounds honorCancel) (fun _ => PageEnd start) anyEnd := by
  refine .ite (fun _ => ?_) fun _ => ?_
  · exact .loop (fun _ _ _ => trivial) (existingTablePage_ahead rounds honorCancel) rounds none
  · refine .bind (.lift_same fun _ _ => trivial) fun positions => .given fun _ => ?_
    exact .loop (fun _ _ _ => trivial) (newTablePage_ahead honorCancel positions) rounds none

theorem syncTable_accounts {rounds : Nat} {honorCancel : Bool} {s s' : Journal Event}
    (done : syncTable world plan object rounds honorCancel s = (.ok (), s')) (kept : s'.summary.cancelled = false)
    (balanced : Balanced s.summary) : ∃ events, s'.history = s.history ++ events ∧
      (Balanced s'.summary ↔ (events.map received).sum = (events.map asked).sum) := by
  have ended := @syncTable_ahead world plan object s rounds honorCancel s (ahead_start balanced)
  rw [done] at ended
  rcases ended with cancelled | ⟨events, grown, accounts⟩
  · simp [kept] at cancelled
  · refine ⟨events, grown, ?_⟩
    unfold Balanced
    omega

end

namespace Mongo
open Json MongoSync

/-- What a page loses: a vanished id is not noticed for every key that the target
    answered with and that the page does not have. -/
def lost : MongoSync.Event → Nat
  | .paged ids existing fetched => min (existing \ ids.toFinset).card ((ids.filter (· ∉ existing)).length - fetched)
  | _ => 0

abbrev MongoAhead : Journal MongoSync.Event → Nat → Journal MongoSync.Event → Prop := Ahead lost fun _ => 0

/-- What the databases promise. The `_id` of a collection is unique and never
    changes, an id is looked up by its value, and an insert either adds every
    document or names those that it refused. -/
structure Lawful (world : MongoSync.World) : Prop where
  unique : ∀ history side collection spec result keys, world.find history side collection spec = .ok result →
    result.documents.mapM (documentKey world) = .ok keys → keys.Nodup
  selected : ∀ history collection ids asked result keys,
    world.find history .source collection (fetchSpec ids) = .ok result → ids.mapM world.idKey = .ok asked →
      result.documents.mapM (documentKey world) = .ok keys → keys ⊆ asked
  inserted : ∀ history collection documents ids, world.insertMany history collection documents = .inserted ids → ids = documents.length
  refused : ∀ history collection documents count, world.insertMany history collection documents = .duplicatesOnly count →
    count ≤ documents.length

section
variable {world : MongoSync.World} {object : MongoPreparedObject} {start s : Journal MongoSync.Event} {records : Nat}
variable {collection : Text} {kept : Journal MongoSync.Event → Prop}

theorem cancellationRequested_kept (polls : ∀ s requested, kept s → kept (s.record (.poll requested))) :
    Triple kept (MongoSync.cancellationRequested world) (fun _ => kept) anyEnd :=
  cancellationRequested_triple fun s => polls s _

theorem mapM_map_ok {entries : List (Text × Json.Value)} (keys : ∀ entry ∈ entries, world.idKey entry.2 = .ok entry.1) :
    (entries.map (·.2)).mapM world.idKey = .ok (entries.map (·.1)) := by
  rw [mapM_ok_iff, forall₂_map_left_iff, forall₂_map_right_iff, forall₂_same]
  exact keys

variable {ids : List Json.Value} {keys : List Text}

theorem idChunks_flatten {chunks : List (List (Text × Json.Value))} (done : idChunks world ids = .ok chunks)
    (own : ids.mapM world.idKey = .ok keys) : chunks.flatten.map (·.1) = keys ∧ ∀ entry ∈ chunks.flatten, world.idKey entry.2 = .ok entry.1 := by
  obtain ⟨entries, made, chunked⟩ := bind_ok done
  have whole : chunks.flatten = entries := by
    split at chunked
    · cases chunked
    · rw [← Except.ok.inj chunked]
      exact Batching.flatten_batches [] entries
  rw [whole]
  rw [mapM_ok_iff] at made own
  have keyed_ok {id : Json.Value} {entry : Text × Json.Value} (one : keyed world id = .ok entry) :
      world.idKey id = .ok entry.1 ∧ entry.2 = id := by
    obtain ⟨key, given, same⟩ := bind_ok one
    obtain rfl := Except.ok.inj same
    exact ⟨given, rfl⟩
  clear done chunked whole
  induction made generalizing keys with
  | nil =>
    cases own
    exact ⟨rfl, nofun⟩
  | cons one rest ih =>
    cases own with
    | cons first others =>
      obtain ⟨given, same⟩ := keyed_ok one
      obtain ⟨tail, all⟩ := ih others
      refine ⟨?_, ?_⟩
      · rw [map_cons, tail, Except.ok.inj (given.symm.trans first)]
      rintro entry mem
      cases mem with
      | head => rw [same, given]
      | tail _ mem => exact all entry mem

theorem mem_foldl_insertEntry {chunk entries : List (Text × Json.Value)} {entry : Text × Json.Value}
    (mem : entry ∈ chunk.foldl insertEntry entries) : entry ∈ entries ∨ entry ∈ chunk := by
  induction chunk generalizing entries with
  | nil => exact .inl mem
  | cons first rest ih =>
    rcases ih mem with before | later
    · rcases mem_append.mp before with old | new
      · exact .inl (mem_filter.mp old).1
      · exact .inr (mem_cons.mpr (.inl (mem_singleton.mp new)))
    · exact .inr (mem_cons_of_mem first later)

/-- The documents have different keys, and all of them were asked for. -/
def Gathered (world : MongoSync.World) (asked : List Text) (documents : List Json.Value) : Prop :=
  ∃ own, documents.mapM (documentKey world) = .ok own ∧ own.Nodup ∧ own ⊆ asked

/-- The chunk is still to come in part; what came is not asked for again. -/
def Coming (world : MongoSync.World) (asked : List Text) (work : List (Text × Json.Value) × List Json.Value) : Prop :=
  (∀ entry ∈ work.1, world.idKey entry.2 = .ok entry.1 ∧ entry.1 ∈ asked) ∧
    ∃ own, work.2.mapM (documentKey world) = .ok own ∧ own.Nodup ∧ own ⊆ asked ∧ ∀ entry ∈ work.1, entry.1 ∉ own

theorem Coming.next {asked : List Text} {remaining : List (Text × Json.Value)} {documents fetched : List Json.Value}
    (coming : Coming world asked (remaining, documents)) (given : fetched.mapM (documentKey world) = .ok keys)
    (distinct : keys.Nodup) (inside : keys ⊆ remaining.map (·.1)) :
    Coming world asked (remaining.filter (fun entry => entry.1 ∉ keys), documents ++ fetched) := by
  obtain ⟨named, own, before, different, within, apart⟩ := coming
  refine ⟨fun entry mem => named entry (mem_filter.mp mem).1, own ++ keys, ?_, ?_, ?_, ?_⟩
  · rw [mapM_ok_iff] at before given ⊢
    exact rel_append before given
  · refine .append different distinct fun key mine new => ?_
    obtain ⟨entry, mem, rfl⟩ := mem_map.mp (inside new)
    exact apart entry mem mine
  · refine append_subset.mpr ⟨within, fun key new => ?_⟩
    obtain ⟨entry, mem, rfl⟩ := mem_map.mp (inside new)
    exact (named entry mem).2
  · rintro entry mem both
    obtain ⟨mem, fresh⟩ := mem_filter.mp mem
    rcases mem_append.mp both with mine | new
    · exact apart entry mem mine
    · exact absurd new (by simpa using fresh)

theorem Coming.gathered {asked : List Text} {work : List (Text × Json.Value) × List Json.Value}
    (coming : Coming world asked work) : Gathered world asked work.2 := by
  obtain ⟨_, own, given, distinct, inside, _⟩ := coming
  exact ⟨own, given, distinct, inside⟩

section
variable (lawful : Lawful world) (polls : ∀ s requested, kept s → kept (s.record (.poll requested)))
  (finds : ∀ s side collection, kept s → kept (s.record (.find side collection)))
include lawful polls finds

theorem fetchRound_gathers (asked : List Text) (work : List (Text × Json.Value) × List Json.Value) :
    Triple (fun s => Coming world asked work ∧ kept s) (fetchRound world collection work)
      (fun next s => Sum.elim (fun work => Coming world asked work ∧ kept s)
        (fun documents => Gathered world asked documents ∧ kept s) next) anyEnd := by
  refine .given fun coming => ?_
  refine .bind (cancellationRequested_kept polls) fun requested => ?_
  refine .ite (fun _ => .ret fun s held => ⟨coming.gathered, held⟩) fun _ => ?_
  refine .bind (perform_answers (fun s => finds s .source collection) fun _ _ => trivial) fun result =>
    Triple.given fun ⟨history, answered⟩ => ?_
  refine .ite (fun _ => .ret fun s held => ⟨coming.gathered, held⟩) fun _ => ?_
  refine .bind (.lift_same fun _ _ => trivial) fun keys => .given fun given => ?_
  have distinct := lawful.unique history _ _ _ _ keys answered given
  have inside := lawful.selected history _ _ _ _ keys answered (mapM_map_ok fun entry mem => (coming.1 entry mem).1)
    given
  have onward := coming.next given distinct inside
  refine .ite (fun _ => .fail fun _ _ => trivial) fun _ => .ite (fun _ => ?_) fun _ => ?_
  · exact .ret fun s held => ⟨onward, held⟩
  · exact .ret fun s held => ⟨onward.gathered, held⟩

theorem fetchChunks_gathers (rounds : Nat) (chunks : List (List (Text × Json.Value))) (documents : List Json.Value) (done : List Text)
    (named : ∀ entry ∈ chunks.flatten, world.idKey entry.2 = .ok entry.1)
    (distinct : (done ++ chunks.flatten.map (·.1)).Nodup) (gathered : Gathered world done documents) :
    Triple kept (fetchChunks world collection rounds chunks documents)
      (fun documents s => Gathered world (done ++ chunks.flatten.map (·.1)) documents ∧ kept s) anyEnd := by
  induction chunks generalizing documents done with
  | nil => exact .ret fun s held => ⟨by simpa using gathered, held⟩
  | cons chunk rest ih =>
    simp only [flatten_cons, map_append, ← append_assoc] at named distinct ⊢
    have coming : Coming world (done ++ chunk.map (·.1)) (chunk.foldl insertEntry [], documents) := by
      have own (entry) (mem : entry ∈ chunk.foldl insertEntry []) : entry ∈ chunk := (mem_foldl_insertEntry mem).resolve_left (not_mem_nil)
      obtain ⟨before, given, different, within⟩ := gathered
      refine ⟨fun entry mem => ⟨named entry (mem_append_left _ (own entry mem)), ?_⟩,
        before, given, different, fun key mine => mem_append_left _ (within mine), fun entry mem mine => ?_⟩
      · exact mem_append_right _ (mem_map_of_mem (own entry mem))
      · have apart := (nodup_append.mp (nodup_append.mp distinct).1).2.2
        exact apart _ (within mine) _ (mem_map_of_mem (own entry mem)) rfl
    have looped : Triple kept (.loop (fetchRound world collection) rounds (chunk.foldl insertEntry [], documents))
        (fun documents s => Gathered world (done ++ chunk.map (·.1)) documents ∧ kept s) anyEnd :=
      Triple.enter (.loop (fun _ _ _ => trivial) (fetchRound_gathers lawful polls finds (done ++ chunk.map (·.1)))
        rounds _) (fun s held => ⟨coming, held⟩)
    refine .bind looped fun documents => .given fun gathered => ?_
    exact ih documents _ (fun entry mem => named entry (mem_append_right _ mem)) distinct gathered

theorem fetchDocumentsByIds_gathers (rounds : Nat)
    (own : ids.mapM world.idKey = .ok keys) (distinct : keys.Nodup) : Triple kept (fetchDocumentsByIds world collection rounds ids)
      (fun documents s => Gathered world keys documents ∧ kept s) anyEnd := by
  refine .bind (.lift_same fun _ _ => trivial) fun chunks => .given fun done => ?_
  obtain ⟨flat, named⟩ := idChunks_flatten done own
  have gathers : Triple kept (fetchChunks world collection rounds chunks [])
      (fun documents s => Gathered world ([] ++ chunks.flatten.map (·.1)) documents ∧ kept s) anyEnd :=
    fetchChunks_gathers lawful polls finds rounds chunks [] [] named (by rw [flat]; exact distinct)
      ⟨[], rfl, nodup_nil, nil_subset _⟩
  rw [flat] at gathers
  exact gathers

end

/-! #### Pages -/

section
variable (finds : ∀ s side collection, kept s → kept (s.record (.find side collection)))
include finds

theorem lookUpChunks_kept (chunks : List (List (Text × Json.Value))) (existing : Finset Text) :
    Triple kept (lookUpChunks world collection chunks existing) (fun _ => kept) anyEnd := by
  induction chunks generalizing existing with
  | nil => exact .done
  | cons chunk rest ih =>
    refine .bind (perform_triple (fun s => finds s _ _) fun _ _ => trivial) fun result => ?_
    refine .bind (.lift_same fun _ _ => trivial) fun keys => .given fun _ => ?_
    exact .ite (fun _ => .fail fun _ _ => trivial) fun _ => ih _

theorem existingIdKeys_kept (ids : List Json.Value) : Triple kept (existingIdKeys world collection ids) (fun _ => kept) anyEnd :=
  Triple.bind (.lift_same fun _ _ => trivial) fun chunks => .given fun _ => lookUpChunks_kept finds chunks ∅

end

theorem missingIds_ahead (existing : Finset Text) (ids missing : List Json.Value) {before : List Text}
    (own : missing.mapM world.idKey = .ok before) : Triple (MongoAhead start (missing.length + ids.length)) (missingIds world existing ids missing)
      (fun left s => (∃ keys, ids.mapM world.idKey = .ok keys ∧
        left.mapM world.idKey = .ok (before ++ keys.filter (· ∉ existing))) ∧ MongoAhead start left.length s) anyEnd := by
  induction ids generalizing missing before with
  | nil => exact .ret fun s held => ⟨⟨[], rfl, by simpa using own⟩, held⟩
  | cons item rest ih =>
    refine .bind (.lift_same fun _ _ => trivial) fun key => .given fun given => ?_
    refine .ite (fun present => ?_) fun absent => ?_
    · have skipped : Triple (MongoAhead start (missing.length + (item :: rest).length)) (count (addSkipped 1))
          (fun _ => MongoAhead start (missing.length + rest.length)) anyEnd := by
        refine .modify fun s held => ahead_count held ?_
        simp only [addSkipped, length_cons]
        omega
      refine .bind skipped fun _ => .adapt (ih missing own) (fun _ => id) (fun left s ended => ?_)
      obtain ⟨⟨keys, all, rest⟩, held⟩ := ended
      refine ⟨⟨key :: keys, ?_, ?_⟩, held⟩
      · exact mapM_ok_iff.mpr (.cons given (mapM_ok_iff.mp all))
      · rwa [filter_cons_of_neg (by simpa using present)]
    · have longer : (missing ++ [item]).mapM world.idKey = .ok (before ++ [key]) :=
        mapM_ok_iff.mpr (rel_append (mapM_ok_iff.mp own) (.cons given .nil))
      refine .adapt (ih _ longer) (fun s held => ahead_of_eq held ?_) (fun left s ended => ?_)
      · simp only [length_append, length_cons, length_nil]
        omega
      obtain ⟨⟨keys, all, rest⟩, held⟩ := ended
      refine ⟨⟨key :: keys, ?_, ?_⟩, held⟩
      · exact mapM_ok_iff.mpr (.cons given (mapM_ok_iff.mp all))
      · rw [filter_cons_of_pos (by simpa using absent), rest, append_assoc]
        rfl

theorem page_accounts {existing fetched : Finset Text} {came : Nat} (distinct : keys.Nodup)
    (all : fetched.card = came) (few : came ≤ (keys.filter (· ∉ existing)).length) :
    min (existing \ keys.toFinset).card ((keys.filter (· ∉ existing)).length - came) +
      (idsMissingAfterFetch existing fetched keys.length + came) = (keys.filter (· ∉ existing)).length := by
  have present : (existing ∩ keys.toFinset).card = (keys.filter (· ∈ existing)).length := by
    rw [← toFinset_card_of_nodup (distinct.filter _), toFinset_filter]
    congr 1
    ext key
    simp [and_comm]
  have parts := Finset.card_sdiff_add_card_inter existing keys.toFinset
  have whole : (keys.filter (· ∈ existing)).length + (keys.filter (· ∉ existing)).length = keys.length := by
    have halves := length_eq_length_filter_add (l := keys) fun key => decide (key ∈ existing)
    simpa using halves.symm
  unfold idsMissingAfterFetch
  omega

theorem insertMany_accounts (lawful : Lawful world) (documents : List Json.Value) :
    Triple (MongoAhead start records) (insertMany world collection documents)
      (fun outcome s => outcome.inserted + outcome.duplicates = documents.length ∧ MongoAhead start records s) anyEnd := by
  refine Triple.ite (fun _ => Triple.fail fun _ _ => trivial) fun _ => ?_
  refine .bind (.lift_same fun _ _ => trivial) fun _ => .given fun _ => ?_
  refine .ite (fun empty => .ret fun s held => ⟨by rw [empty]; rfl, held⟩) fun _ => ?_
  refine .bind (perform_answers (fun s held => ahead_pass held rfl rfl) fun _ _ => trivial) fun answer =>
    Triple.given fun ⟨history, answered⟩ => ?_
  have answered := Except.ok.inj answered
  cases answer with
  | inserted ids => exact .ret fun s held => ⟨lawful.inserted _ _ _ _ answered, held⟩
  | duplicatesOnly count =>
    have few := lawful.refused _ _ _ _ answered
    exact .ret fun s held => ⟨Nat.sub_add_cancel few, held⟩
  | failed error => exact .fail fun _ _ => trivial

theorem flushDocuments_ahead (lawful : Lawful world) (documents : List Json.Value) (bytes rest : Nat) :
    Triple (MongoAhead start (documents.length + rest)) (flushDocuments world collection documents bytes)
      (fun _ => MongoAhead start rest) anyEnd := by
  refine .bind (insertMany_accounts lawful documents) fun outcome => .given fun total => ?_
  refine .modify fun s held => ahead_count held ?_
  simp only [countDocuments]
  omega

/-- Nothing is ahead, or the run is cancelled and the next poll will see it. -/
def CollectionEnd (world : MongoSync.World) (start s : Journal MongoSync.Event) : Prop :=
  (s.summary.cancelled = true ∧ flagSet world.cancelAt s.history = true) ∨ MongoAhead start 0 s

theorem cancelled_or {α : Type} {next : Sync MongoSync.Event α} {stopped : Sync MongoSync.Event α}
    {pre : Journal MongoSync.Event → Prop} {post : α → Journal MongoSync.Event → Prop}
    (polls : ∀ s requested, pre s → kept (s.record (.poll requested)))
    (yes : Triple (fun s => flagSet world.cancelAt s.history = true) stopped post anyEnd) (no : Triple kept next post anyEnd) :
    Triple pre (MongoSync.cancellationRequested world >>= fun requested => if requested then stopped else next) post anyEnd := by
  have polled : Triple pre (MongoSync.cancellationRequested world)
      (fun requested s => (requested = true → flagSet world.cancelAt s.history = true) ∧ kept s) anyEnd :=
    cancellationRequested_triple fun s held => ⟨fun set => flagSet_append set _, polls s _ held⟩
  refine Triple.bind polled fun requested => Triple.ite (fun set => ?_) fun _ => ?_
  · exact .enter yes (fun s held => held.1 set)
  · exact .enter no (fun s held => held.2)

theorem mark_ends : Triple (fun s => flagSet world.cancelAt s.history = true) (count cancel) (fun _ => CollectionEnd world start) anyEnd :=
  Triple.modify fun _ set => .inl ⟨rfl, set⟩

theorem stop_ends {β : Type} : Triple (fun s => flagSet world.cancelAt s.history = true)
    (do count cancel; pure (.inr ()) : Sync MongoSync.Event (β ⊕ Unit))
    (fun next s => Sum.elim (fun _ => CollectionEnd world start s) (fun _ => CollectionEnd world start s) next) anyEnd :=
  Triple.bind mark_ends fun _ => .ret fun _ => id

theorem insertDocuments_ahead (lawful : Lawful world) (documents batch : List Json.Value) (batchBytes : Nat) :
    Triple (MongoAhead start (batch.length + documents.length))
      (insertDocuments world collection documents batch batchBytes) (fun _ => CollectionEnd world start) anyEnd := by
  induction documents generalizing batch batchBytes with
  | nil =>
    refine .ite (fun empty => .ret fun s held => .inr ?_) fun _ => ?_
    · rwa [isEmpty_iff.mp empty] at held
    · refine cancelled_or (fun s requested held => ahead_pass held rfl rfl) mark_ends ?_
      exact .adapt (flushDocuments_ahead lawful batch batchBytes 0) (fun _ => id) (fun _ _ => .inr)
  | cons document rest ih =>
    refine cancelled_or (fun s requested held => ahead_pass held rfl rfl) mark_ends ?_
    refine .ite (fun _ => .fail fun _ _ => trivial) fun _ => .ite (fun _ => ?_) fun _ => ?_
    · refine .bind (flushDocuments_ahead lawful batch batchBytes (document :: rest).length) fun _ => ?_
      refine .enter (ih [document] _) (fun s held => ahead_of_eq held ?_)
      simp only [length_cons, length_nil]
      omega
    · refine .enter (ih (batch ++ [document]) _) (fun s held => ahead_of_eq held ?_)
      simp only [length_append, length_cons, length_nil]
      omega

theorem page_polls {α : Type} {next stopped : Sync MongoSync.Event α} {post : α → Journal MongoSync.Event → Prop}
    (yes : Triple (fun s => flagSet world.cancelAt s.history = true) stopped post anyEnd)
    (no : Triple (MongoAhead start 0) next post anyEnd) : Triple (CollectionEnd world start)
      (MongoSync.cancellationRequested world >>= fun requested => if requested then stopped else next) post anyEnd := by
  have polled : Triple (CollectionEnd world start) (MongoSync.cancellationRequested world)
      (fun requested s => (requested = true ∧ flagSet world.cancelAt s.history = true) ∨
        (requested = false ∧ MongoAhead start 0 s)) anyEnd := by
    refine cancellationRequested_triple fun s held => ?_
    cases set : flagSet world.cancelAt s.history with
    | true => exact .inl ⟨rfl, flagSet_append set _⟩
    | false =>
      rcases held with ⟨_, now⟩ | held
      · simp [set] at now
      · exact .inr ⟨rfl, ahead_pass held rfl rfl⟩
  refine .bind polled fun requested => .ite (fun set => ?_) fun clear => ?_
  · refine .enter yes (fun s held => ?_)
    rcases held with ⟨_, now⟩ | ⟨no, _⟩
    · exact now
    · simp [set] at no
  refine .enter no (fun s held => ?_)
  rcases held with ⟨yes, _⟩ | ⟨_, held⟩
  · exact absurd yes clear
  · exact held

theorem newCollectionPage_ahead (lawful : Lawful world) (lastId : Option Json.Value) :
    Triple (CollectionEnd world start) (newCollectionPage world object lastId)
      (fun next s => Sum.elim (fun _ => CollectionEnd world start s) (fun _ => CollectionEnd world start s) next) anyEnd := by
  refine page_polls stop_ends ?_
  refine .bind (perform_triple (fun s held => ahead_pass held rfl rfl) fun _ _ => trivial) fun result => ?_
  cases result.documents.getLast? with
  | none => exact .ret fun _ => .inr
  | some document =>
    refine .bind (.lift_same fun _ _ => trivial) fun nextId => .given fun _ => ?_
    refine .bind (addScanned_ahead anyEnd result.documents.length 0) fun _ => ?_
    have inserted : Triple (MongoAhead start result.documents.length)
        (insertDocuments world object.target result.documents [] 0) (fun _ => CollectionEnd world start) anyEnd :=
      Triple.enter (insertDocuments_ahead lawful result.documents [] 0)
        (fun s held => ahead_of_eq held (Nat.zero_add _).symm)
    exact .bind inserted fun _ => .ret fun _ => id

theorem mapM_documentKey {documents : List Json.Value} (found : documents.mapM documentId = .ok ids)
    (own : ids.mapM world.idKey = .ok keys) : documents.mapM (documentKey world) = .ok keys := by
  rw [mapM_ok_iff] at found own ⊢
  induction found generalizing keys with
  | nil =>
    cases own
    exact .nil
  | cons one _ ih =>
    cases own with
    | cons given others => exact .cons (bind_ok_iff.mpr ⟨_, one, given⟩) (ih others)

theorem countVanished_ahead (vanished rest : Nat) :
    Triple (MongoAhead start (vanished + rest)) (countVanished object vanished) (fun _ => MongoAhead start rest) anyEnd := by
  refine .ite (fun _ => ?_) fun none => .ret fun s held => ahead_of_eq held (by omega)
  have skipped : Triple (MongoAhead start (vanished + rest)) (count (addSkipped vanished))
      (fun _ => MongoAhead start rest) anyEnd := by
    refine .modify fun s held => ahead_count held ?_
    simp only [addSkipped]
    omega
  exact .bind skipped fun _ => pushWarning_ahead anyEnd _

theorem existingCollectionPage_ahead (lawful : Lawful world) (rounds : Nat) (lastId : Option Json.Value) :
    Triple (CollectionEnd world start) (existingCollectionPage world object rounds lastId)
      (fun next s => Sum.elim (fun _ => CollectionEnd world start s) (fun _ => CollectionEnd world start s) next) anyEnd := by
  refine page_polls stop_ends ?_
  refine .bind (perform_answers (fun s held => ahead_pass held rfl rfl) fun _ _ => trivial) fun result =>
    Triple.given fun ⟨history, answered⟩ => ?_
  refine .ite (fun _ => .ret fun _ => .inr) fun _ => ?_
  refine .bind (.lift_same fun _ _ => trivial) fun ids => .given fun found => ?_
  refine .bind (addScanned_ahead anyEnd ids.length 0) fun _ => ?_
  refine .bind (existingIdKeys_kept (fun s _ _ held => ahead_pass held rfl rfl) ids) fun existing => ?_
  have divided : Triple (MongoAhead start ids.length) (missingIds world existing ids [])
      (fun missing s => (∃ keys, ids.mapM world.idKey = .ok keys ∧
        missing.mapM world.idKey = .ok (keys.filter (· ∉ existing))) ∧ MongoAhead start missing.length s) anyEnd :=
    Triple.enter (missingIds_ahead existing ids [] rfl) (fun s held => ahead_of_eq held (Nat.zero_add _).symm)
  refine .bind divided fun missing => .given fun ⟨keys, all, lacking⟩ => ?_
  have distinct := lawful.unique history _ _ _ _ keys answered (mapM_documentKey found all)
  refine .bind (fetchDocumentsByIds_gathers lawful (fun s _ held => ahead_pass held rfl rfl)
    (fun s _ _ held => ahead_pass held rfl rfl) rounds lacking (distinct.filter _)) fun documents => Triple.given fun gathered => ?_
  refine cancelled_or (fun s requested held => ahead_pass held rfl rfl) stop_ends ?_
  refine .bind (.lift_same fun _ _ => trivial) fun fetched => .given fun named => ?_
  refine Triple.bind (Triple.lift_same fun _ _ => trivial) fun keys' => Triple.given fun again => ?_
  obtain rfl : keys' = keys := Except.ok.inj (again.symm.trans all)
  -- the documents that came are different, and no more than were asked for
  obtain ⟨own, given, single, within⟩ := gathered
  obtain rfl : own = fetched := Except.ok.inj (given.symm.trans named)
  have came : own.toFinset.card = documents.length := by rw [toFinset_card_of_nodup single, ← (mapM_ok_iff.mp given).length_eq]
  have few : documents.length ≤ (keys'.filter (· ∉ existing)).length := by
    rw [(mapM_ok_iff.mp given).length_eq]
    exact (subperm_of_subset single within).length_le
  have accounts := page_accounts distinct came few
  rw [← (mapM_ok_iff.mp all).length_eq] at accounts
  have paged : Triple (MongoAhead start missing.length) (record (.paged keys' existing documents.length))
      (fun _ => MongoAhead start (idsMissingAfterFetch existing own.toFinset ids.length + documents.length)) anyEnd := by
    refine .modify fun s held => ahead_of_eq (ahead_record (ahead_of_eq held ?_)) (Nat.zero_add _)
    rw [(mapM_ok_iff.mp lacking).length_eq]
    exact accounts.symm
  refine .bind paged fun _ => .bind (countVanished_ahead _ documents.length) fun _ => ?_
  have inserted : Triple (MongoAhead start documents.length)
      (insertDocuments world object.target documents [] 0) (fun _ => CollectionEnd world start) anyEnd :=
    Triple.enter (insertDocuments_ahead lawful documents [] 0)
      (fun s held => ahead_of_eq held (Nat.zero_add _).symm)
  exact .bind inserted fun _ => .ret fun _ => id

theorem runCommand_ahead (command : Json.Value) :
    Triple (MongoAhead start records) (runCommand world collection command) (fun _ => MongoAhead start records) anyEnd :=
  perform_triple (fun _ held => ahead_pass held rfl rfl) fun _ _ => trivial

theorem createMissingIndexes_ahead : Triple (CollectionEnd world start) (createMissingIndexes world object)
      (fun _ s => s.summary.cancelled = true ∨ MongoAhead start 0 s) anyEnd := by
  refine .getThen fun v => .ite (fun _ => .ret ?_) fun kept => ?_
  · rintro s ⟨rfl, ⟨cancelled, _⟩ | held⟩
    · exact .inl cancelled
    · exact .inr held
  refine .adapt (runCommand_ahead _) ?_ (fun _ _ => .inr)
  rintro s ⟨rfl, ⟨cancelled, _⟩ | held⟩
  · simp [cancelled] at kept
  · exact held

theorem syncCollection_ahead (lawful : Lawful world) (rounds : Nat) : Triple (MongoAhead start 0) (syncCollection world object rounds)
      (fun _ s => s.summary.cancelled = true ∨ MongoAhead start 0 s) anyEnd := by
  have begins (s) (held : MongoAhead start 0 s) : CollectionEnd world start s := .inr held
  refine .ite (fun _ => ?_) fun _ => ?_
  · refine .enter (.bind ?_ fun _ => createMissingIndexes_ahead) begins
    exact .loop (fun _ _ _ => trivial) (existingCollectionPage_ahead lawful rounds) rounds none
  · refine .bind (runCommand_ahead _) fun _ => ?_
    refine .enter (.bind ?_ fun _ => createMissingIndexes_ahead) begins
    exact .loop (fun _ _ _ => trivial) (newCollectionPage_ahead lawful) rounds none

theorem lost_eq_zero_iff (event : MongoSync.Event) : lost event = 0 ↔ ∀ ids existing fetched, event = .paged ids existing fetched →
      existing ⊆ ids.toFinset ∨ (ids.filter (· ∉ existing)).length ≤ fetched := by
  constructor
  · rintro none ids existing fetched rfl
    rcases Nat.min_eq_zero_iff.mp none with inside | came
    · exact .inl (Finset.sdiff_eq_empty_iff_subset.mp (Finset.card_eq_zero.mp inside))
    · exact .inr (Nat.sub_eq_zero_iff_le.mp came)
  intro fair
  cases event with
  | paged ids existing fetched =>
    rcases fair ids existing fetched rfl with inside | came
    · refine Nat.min_eq_zero_iff.mpr (.inl ?_)
      rw [Finset.sdiff_eq_empty_iff_subset.mpr inside, Finset.card_empty]
    · exact Nat.min_eq_zero_iff.mpr (.inr (Nat.sub_eq_zero_of_le came))
  | _ => rfl

theorem syncCollection_accounts (lawful : Lawful world) {rounds : Nat} {s s' : Journal MongoSync.Event}
    (done : syncCollection world object rounds s = (.ok (), s')) (kept : s'.summary.cancelled = false) (balanced : Balanced s.summary) :
    ∃ events, s'.history = s.history ++ events ∧ (Balanced s'.summary ↔ ∀ ids existing fetched, .paged ids existing fetched ∈ events →
        existing ⊆ ids.toFinset ∨ (ids.filter (· ∉ existing)).length ≤ fetched) := by
  have ended := @syncCollection_ahead world object s lawful rounds s (ahead_start balanced)
  rw [done] at ended
  rcases ended with cancelled | ⟨events, grown, accounts⟩
  · simp [kept] at cancelled
  refine ⟨events, grown, ?_⟩
  have none : (events.map fun _ => 0).sum = 0 := by simp
  have sum : Balanced s'.summary ↔ (events.map lost).sum = 0 := by
    unfold Balanced
    omega
  rw [sum, List.sum_eq_zero_iff_forall_eq_nat]
  simp only [List.forall_mem_map, lost_eq_zero_iff]
  constructor
  · rintro fair ids existing fetched mem
    exact fair _ mem ids existing fetched rfl
  · rintro fair event mem ids existing fetched rfl
    exact fair ids existing fetched mem

end

end Mongo

section
open Mongo

/-- A table whose synchronisation ends without a cancellation is balanced exactly
    when its row queries brought as many rows as they asked for, and a collection
    exactly when no page with vanished documents was answered with foreign ids. -/
theorem sync_accounts {database : MongoSync.World} (lawful : Lawful database) (rounds : Nat) :
    (∀ (world : SqlSync.World) (plan : SqlPreparedPlan) (object : SqlPreparedObject) (honorCancel : Bool) (s s' : Journal SqlSync.Event),
      syncTable world plan object rounds honorCancel s = (.ok (), s') → s'.summary.cancelled = false →
        Balanced s.summary → ∃ events, s'.history = s.history ++ events ∧
          (Balanced s'.summary ↔ (events.map received).sum = (events.map asked).sum)) ∧
    (∀ (object : MongoSync.MongoPreparedObject) (s s' : Journal MongoSync.Event),
      MongoSync.syncCollection database object rounds s = (.ok (), s') → s'.summary.cancelled = false →
        Balanced s.summary → ∃ events, s'.history = s.history ++ events ∧
          (Balanced s'.summary ↔ ∀ ids existing fetched, .paged ids existing fetched ∈ events →
            existing ⊆ ids.toFinset ∨ (ids.filter (· ∉ existing)).length ≤ fetched)) := by
  constructor
  · intro world plan object honorCancel s s'
    exact syncTable_accounts
  · intro object s s'
    exact syncCollection_accounts lawful

end

def items : SqlPreparedObject where
  source := "items"
  target := "items"
  identity := ["id"]
  writableColumns := ["id"]
  sourceTextColumns := []
  targetExists := true
  createStatement := none
  postCreateStatements := []
  finalStatements := []
  hasIdentityAlways := false
  identified := nofun
  created := rfl

def itemsPlan : SqlPreparedPlan where
  engine := .Postgres
  sourceNamespace := "public"
  targetNamespace := "public"
  namespaceExists := true
  namespaceCreate := none
  preCreateStatements := []
  postgresEnums := []
  objects := [items]
  supported := .inr rfl
  placed := rfl
  sequenced := nofun

/-- The source has one row, and `kept` tells whether it is still there when it is fetched. -/
def oneRow (kept : Bool) : SqlSync.World where
  execute history side _ :=
    match history.length, side with
    | 0, _ => .ok { rows := [[.Int 1]] }
    | 2, .source => .ok { rows := if kept then [[.Int 1]] else [] }
    | 4, .target => .ok { affectedRows := 1 }
    | _, _ => .ok {}
  targetEnums _ := .ok []
  snapshotUnchanged := .ok true
  cancelAt := none
  identityKey _ := .ok "[1]"

theorem sync_accounts_vanished : ¬ ∀ (world : SqlSync.World) (plan : SqlPreparedPlan) (object : SqlPreparedObject) (rounds : Nat)
      (honorCancel : Bool) (s s' : Journal SqlSync.Event),
      syncTable world plan object rounds honorCancel s = (.ok (), s') → s'.summary.cancelled = false →
        Balanced s.summary → Balanced s'.summary := by
  intro claimed
  have balanced := claimed (oneRow false) itemsPlan items 5 false {} _ rfl rfl rfl
  revert balanced
  decide

section
open MongoSync Mongo

def note : Json.Value := .single "_id" (.String ['a'])

def notes : MongoPreparedObject :=
  { source := "notes", target := "notes", options := .Object [], missingIndexes := [], targetExists := true }

/-- The filter of a first page, or of a lookup that asks for the note. -/
def findsNote : Json.Value → Bool
  | .Object [] => true
  | .Object [(_, .Object [(_, .Array ids)])] => ids.any fun id => id.asStr = some ['a']
  | _ => false

/-- The source has one document, and the target takes every document. -/
def oneDocument : MongoSync.World where
  find _ side _ spec := .ok { documents := if side = .source ∧ findsNote spec.filter then [note] else [] }
  insertMany _ _ documents := .inserted documents.length
  runCommand _ _ := .ok ()
  cancelAt := none
  idKey id := match id.asStr with
    | some text => .ok text
    | none => .error (.Other [])
  retainedBytes _ := 64
  convert _ := .ok ()

theorem keys_note {documents : List Json.Value} {keys : List Text} (few : documents = [note] ∨ documents = [])
    (named : documents.mapM (documentKey oneDocument) = .ok keys) : keys = documents.map fun _ => ['a'] := by
  rcases few with rfl | rfl
  · exact (Except.ok.inj named).symm
  · exact (Except.ok.inj named).symm

theorem oneDocument_lawful : Lawful oneDocument where
  unique := by
    rintro history side collection spec result keys ⟨⟩ named
    split at named
    · rw [keys_note (.inl rfl) named]
      decide
    · rw [keys_note (.inr rfl) named]
      decide
  selected := by
    rintro history collection ids asked result keys ⟨⟩ own named
    split at named
    · next wanted =>
      obtain ⟨id, mem, same⟩ := any_eq_true.mp (show (ids.any fun id => id.asStr = some ['a']) = true from wanted.2)
      rw [keys_note (.inl rfl) named]
      obtain ⟨key, there, given⟩ := mapM_ok_mem own mem
      have text : id.asStr = some ['a'] := by simpa using same
      obtain rfl : ['a'] = key := by simpa [oneDocument, text] using given
      simpa using there
    · rw [keys_note (.inr rfl) named]
      exact nil_subset _
  inserted := by
    rintro history collection documents ids ⟨⟩
    rfl
  refused := by rintro history collection documents count ⟨⟩

/-- A row and a document that are still there when they are fetched are accounted for. -/
theorem sync_accounts_fetched : Balanced (syncTable (oneRow true) itemsPlan items 5 false {}).2.summary ∧
      Balanced (syncCollection oneDocument notes 5 {}).2.summary := by
  constructor
  · obtain ⟨events, grown, accounts⟩ := (sync_accounts oneDocument_lawful 5).1 (oneRow true) itemsPlan items false {}
      (syncTable (oneRow true) itemsPlan items 5 false {}).2 rfl rfl rfl
    have whole : (syncTable (oneRow true) itemsPlan items 5 false {}).2.history = events := grown
    rw [accounts, ← whole]
    decide
  · obtain ⟨events, grown, accounts⟩ := (sync_accounts oneDocument_lawful 5).2 notes {}
      (syncCollection oneDocument notes 5 {}).2 rfl rfl rfl
    have whole : (syncCollection oneDocument notes 5 {}).2.history = events := grown
    have kept : ∀ event ∈ (syncCollection oneDocument notes 5 {}).2.history, lost event = 0 := by decide
    rw [accounts, ← whole]
    rintro ids existing fetched mem
    exact (lost_eq_zero_iff _).mp (kept _ mem) ids existing fetched rfl

end

end Ramag.SyncAccounts
