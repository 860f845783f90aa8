import Ramag.SyncAccounts

/-!
The batches of the data sync: identity keys in chunks that one query can ask
for, rows that are fetched range by range, and rows that are inserted statement
by statement.
-/
namespace Ramag.SyncBatches
open Strings Domain SqlLiteral Programs SyncJournal SqlSync List
open MongoSync (idChunks keyed idFits ID_FILTER_BYTES)
open Batching (Partition)
open SyncAccounts (items itemsPlan)

variable {plan : SqlPreparedPlan} {object : SqlPreparedObject}

/-! ### Identity chunks -/

section
variable (world : MongoSync.World)

/-- The bytes of an id in a filter. -/
def idBytes (id : Json.Value) : Nat :=
  match world.idKey id with
  | .ok key => byteLen key
  | .error _ => 0

theorem partition_identityRanges {driver : DriverKind} {identities : List Row} {ranges : List (List Row)}
    (done : identityRanges driver identities = .ok ranges) : Partition (identityBytes driver) ID_QUERY_ITEMS ID_QUERY_BYTES identities ranges := by
  unfold identityRanges at done
  split_ifs at done
  rw [← Except.ok.inj done]
  refine Batching.partition_batches (by decide) (fun batch row fit => ?_) identities
  simpa [identityFits] using fit

theorem identityRanges_error {driver : DriverKind} {identities : List Row} {error : DomainError}
    (done : identityRanges driver identities = .error error) : ∃ row ∈ identities, TRANSFER_BATCH_BYTES < identityBytes driver row := by
  unfold identityRanges at done
  split_ifs at done with large
  simpa using large

theorem keyed_ids {ids : List Json.Value} {entries : List (Text × Json.Value)} (made : ids.mapM (keyed world) = .ok entries) :
    entries.map (·.2) = ids ∧ ∀ entry ∈ entries, byteLen entry.1 = idBytes world entry.2 := by
  rw [mapM_ok_iff] at made
  induction made with
  | nil => exact ⟨rfl, nofun⟩
  | cons one rest ih =>
    obtain ⟨key, given, same⟩ := bind_ok one
    obtain rfl := Except.ok.inj same
    refine ⟨by rw [map_cons, ih.1], forall_mem_cons.mpr ⟨?_, ih.2⟩⟩
    simp [idBytes, given]

theorem keyed_all {ids : List Json.Value} (each : ∀ id ∈ ids, ∃ key, world.idKey id = .ok key ∧ byteLen key ≤ ID_FILTER_BYTES) :
    ∃ entries, ids.mapM (keyed world) = .ok entries ∧ ∀ entry ∈ entries, byteLen entry.1 ≤ ID_FILTER_BYTES := by
  simp only [mapM_ok_iff]
  induction ids with
  | nil => exact ⟨[], .nil, nofun⟩
  | cons id ids ih =>
    obtain ⟨⟨key, given, small⟩, others⟩ := forall_mem_cons.mp each
    obtain ⟨entries, made, fit⟩ := ih others
    refine ⟨(key, id) :: entries, .cons ?_ made, forall_mem_cons.mpr ⟨small, fit⟩⟩
    rw [keyed, given]
    rfl

/-- Whatever the identity keys are, the queries for them are cut into nonempty
    chunks in their order, within the limits; only a key that is too large on
    its own, or that has no serialization, is refused. -/
theorem identity_chunks (driver : DriverKind) (identities : List Row) (ids : List Json.Value) : (match identityRanges driver identities with
      | .ok ranges => Partition (identityBytes driver) ID_QUERY_ITEMS ID_QUERY_BYTES identities ranges
      | .error _ => ∃ row ∈ identities, TRANSFER_BATCH_BYTES < identityBytes driver row) ∧ match idChunks world ids with
      | .ok chunks => Partition (idBytes world) TRANSFER_BATCH_ITEMS ID_FILTER_BYTES ids (chunks.map (map (·.2)))
      | .error _ => ∃ id ∈ ids, ∀ key, world.idKey id = .ok key → ID_FILTER_BYTES < byteLen key := by
  constructor
  · cases done : identityRanges driver identities with
    | ok ranges => exact partition_identityRanges done
    | error error => exact identityRanges_error done
  · cases done : idChunks world ids with
    | ok chunks =>
      obtain ⟨entries, made, chunked⟩ := bind_ok done
      obtain ⟨ids_eq, sized⟩ := keyed_ids world made
      split_ifs at chunked
      have parts : Partition (fun entry => byteLen entry.1) TRANSFER_BATCH_ITEMS ID_FILTER_BYTES entries
          (Batching.batches idFits (fun _ => false) [] entries) :=
        Batching.partition_batches (by decide) (fun batch entry fit => by simpa [idFits] using fit) entries
      rw [Except.ok.inj chunked] at parts
      refine ⟨?_, ?_, ?_, ?_⟩
      · rw [← map_flatten, parts.whole, ids_eq]
      · simpa using parts.filled
      · simpa using parts.short
      · intro part mem
        obtain ⟨chunk, inside, rfl⟩ := mem_map.mp mem
        have same : chunk.map (fun entry => idBytes world entry.2) = chunk.map (fun entry => byteLen entry.1) :=
          map_congr_left fun entry inner => (sized entry (parts.whole ▸ mem_flatten_of_mem inside inner)).symm
        simpa [Function.comp_def, same] using parts.light chunk inside
    | error error =>
      by_contra none
      push Not at none
      obtain ⟨entries, made, fit⟩ := keyed_all world none
      have small : ¬ entries.any fun entry => byteLen entry.1 > ID_FILTER_BYTES := by simpa using fit
      unfold idChunks at done
      rw [made] at done
      exact nomatch (if_neg small).symm.trans done

end

/-! ### Rows range by range -/

section
variable {world : World} {identities : List Row} {source : Row → Option Row}

def fetchQuery (plan : SqlPreparedPlan) (object : SqlPreparedObject) (predicate : Text) : Query :=
  { sql := "SELECT " ++ sourceSelectColumns plan.engine object.writableColumns object.sourceTextColumns ++
      " FROM " ++ sourceTable plan object ++ " WHERE " ++ predicate ++ " ORDER BY " ++
      quotedColumns plan.engine object.identity ++ [';']
    resultByteLimit := some TRANSFER_BATCH_BYTES }

/-- The source answers to every query for distinct identities, either with
    exactly the rows that it still has, or with a truncated result. -/
def Answers (world : World) (plan : SqlPreparedPlan) (object : SqlPreparedObject) (identities : List Row)
    (source : Row → Option Row) : Prop :=
  ∀ history range predicate, range <+ identities → range.Nodup → identityPredicate plan.engine object.identity range = .ok predicate →
    ∃ result, world.execute history .source (fetchQuery plan object predicate) = .ok result ∧
      (result.truncated = false → result.rows ~ range.filterMap source)

/-- The query for a row on its own is answered with a truncated result. -/
def Truncated (world : World) (plan : SqlPreparedPlan) (object : SqlPreparedObject) (row : Row) : Prop :=
  ∃ history predicate result, identityPredicate plan.engine object.identity [row] = .ok predicate ∧
    world.execute history .source (fetchQuery plan object predicate) = .ok result ∧ result.truncated = true

theorem identityPredicate_ok {range : List Row} (some : range ≠ []) (wide : ∀ row ∈ range, row.length = object.identity.length) :
    ∃ predicate, identityPredicate plan.engine object.identity range = .ok predicate := by
  have narrow : ¬ range.any fun row => row.length ≠ object.identity.length := by simpa using wide
  unfold identityPredicate
  rw [if_neg some, if_neg narrow]
  split <;> exact ⟨_, rfl⟩

theorem fetchRange_step (answers : Answers world plan object identities source) (distinct : identities.Nodup) {range : List Row} (some : range ≠ [])
    (inside : range <+ identities) (wide : ∀ row ∈ identities, row.length = object.identity.length)
    (pending : List (List Row)) (output : List Row) (s : Journal Event) : ∃ s', (∃ rows, rows ~ range.filterMap source ∧
        fetchRange world plan object (range :: pending, output) s = (.ok (.inl (pending, output ++ rows)), s')) ∨
      (1 < range.length ∧ fetchRange world plan object (range :: pending, output) s =
        (.ok (.inl (range.take (range.length / 2) :: range.drop (range.length / 2) :: pending, output)), s')) ∨
      (∃ row ∈ identities, Truncated world plan object row) ∧
        fetchRange world plan object (range :: pending, output) s = (.error (oversizedRowError object), s') := by
  obtain ⟨predicate, asked⟩ := identityPredicate_ok some fun row mem => wide row (inside.subset mem)
  obtain ⟨result, answered, complete⟩ := answers s.history range predicate inside (distinct.sublist inside) asked
  have given : read world .source (fetchQuery plan object predicate).sql s =
      (.ok result, s.record (.select .source (fetchQuery plan object predicate).sql)) := by
    show (Prog.lift (world.execute s.history .source (fetchQuery plan object predicate)) : Sync Event QueryResult) _ = _
    rw [answered]
    rfl
  have run : fetchRange world plan object (range :: pending, output) s = (read world .source
      (fetchQuery plan object predicate).sql >>= fun result => if result.truncated then
        if range.length ≤ 1 then Prog.fail (oversizedRowError object)
        else pure (.inl (range.take (range.length / 2) :: range.drop (range.length / 2) :: pending, output))
      else do
        record (.fetched range.length result.rows.length)
        pure (.inl (pending, output ++ result.rows))) s := by
    show (Prog.lift (identityPredicate plan.engine object.identity range) >>= _) s = _
    rw [asked]
    rfl
  rw [run, Prog.bind_of_ok given]
  cases cut : result.truncated with
  | false => exact ⟨_, .inl ⟨result.rows, complete cut, rfl⟩⟩
  | true =>
    by_cases single : range.length ≤ 1
    · obtain ⟨row, rfl⟩ := length_eq_one_iff.mp (single.antisymm (length_pos_iff.mpr some))
      exact ⟨_, .inr (.inr ⟨⟨row, inside.subset mem_cons_self, s.history, predicate, result, asked, answered, cut⟩, rfl⟩)⟩
    · rw [if_neg single]
      exact ⟨_, .inr (.inl ⟨by omega, rfl⟩)⟩

/-- The queries that a range can cost: one, and those for its halves. -/
def cost (pending : List (List Row)) : Nat := (pending.map fun range => 2 * range.length - 1).sum

theorem cost_le (pending : List (List Row)) : cost pending ≤ 2 * pending.flatten.length := by
  unfold cost
  induction pending with
  | nil => exact Nat.zero_le _
  | cons range pending ih =>
    simp only [map_cons, sum_cons, flatten_cons, length_append]
    omega

theorem fetchLoop_ends (answers : Answers world plan object identities source) (distinct : identities.Nodup)
    (wide : ∀ row ∈ identities, row.length = object.identity.length) (rounds : Nat) (pending : List (List Row))
    (output : List Row) (s : Journal Event) (ranged : ∀ range ∈ pending, range ≠ [] ∧ range <+ identities)
    (enough : cost pending < rounds) : (∃ rows, (Prog.loop (fetchRange world plan object) rounds (pending, output) s).1 = .ok rows ∧
      rows ~ output ++ pending.flatten.filterMap source) ∨ (∃ row ∈ identities, Truncated world plan object row) ∧
        (Prog.loop (fetchRange world plan object) rounds (pending, output) s).1 = .error (oversizedRowError object) := by
  induction rounds generalizing pending output s with
  | zero => exact absurd enough (Nat.not_lt_zero _)
  | succ rounds ih =>
    cases pending with
    | nil => exact .inl ⟨output, rfl, by simp⟩
    | cons range pending =>
      obtain ⟨⟨some, inside⟩, others⟩ := forall_mem_cons.mp ranged
      have positive := length_pos_iff.mpr some
      unfold cost at enough
      rw [map_cons, sum_cons] at enough
      rw [Prog.loop]
      obtain ⟨s', ⟨rows, whole, step⟩ | ⟨long, step⟩ | ⟨large, step⟩⟩ := fetchRange_step answers distinct some inside wide pending output s
      · rw [Prog.bind_of_ok step]
        refine (ih pending (output ++ rows) s' others (by unfold cost; omega)).imp_left fun ⟨all, done, same⟩ => ⟨all, done, ?_⟩
        rw [flatten_cons, filterMap_append, ← append_assoc]
        exact same.trans ((whole.append_left output).append_right _)
      · rw [Prog.bind_of_ok step]
        have halves : ∀ part ∈ range.take (range.length / 2) :: range.drop (range.length / 2) :: pending,
            part ≠ [] ∧ part <+ identities := by
          refine forall_mem_cons.mpr ⟨⟨?_, (take_sublist _ _).trans inside⟩,
            forall_mem_cons.mpr ⟨⟨?_, (drop_sublist _ _).trans inside⟩, others⟩⟩
          · rw [ne_eq, ← length_eq_zero_iff, length_take]
            omega
          · rw [ne_eq, ← length_eq_zero_iff, length_drop]
            omega
        have less : cost (range.take (range.length / 2) :: range.drop (range.length / 2) :: pending) < rounds := by
          simp only [cost, map_cons, sum_cons, length_take, length_drop]
          omega
        have split : (range.take (range.length / 2) :: range.drop (range.length / 2) :: pending).flatten =
            (range :: pending).flatten := by
          rw [flatten_cons, flatten_cons, flatten_cons, ← append_assoc, take_append_drop]
        exact split ▸ ih _ output s' halves less
      · exact .inr ⟨large, by rw [Prog.bind_of_error step]⟩

end

/-- A source with one row, which answers to every query with it. -/
def echo (row : Row) : World where
  execute _ _ _ := .ok { rows := [row] }
  targetEnums _ := .ok []
  snapshotUnchanged := .ok true
  cancelAt := none
  identityKey _ := .ok []

theorem echo_answers (row : Row) : Answers (echo row) itemsPlan items [row] some := by
  intro history range predicate inside _ asked
  refine ⟨_, rfl, fun _ => ?_⟩
  rcases sublist_singleton.mp inside with rfl | rfl
  · cases asked
  · exact .refl _

/-- A text without quotes and line breaks is copied into its literal. -/
theorem letters_bytes (n : Nat) : byteLen (transferLiteral .Postgres (.Text (replicate n 'a'))) = n + 2 := by
  have copied : escapeSqlString (replicate n 'a') false = replicate n 'a' ∧ byteLen (replicate n 'a') = n := by
    induction n with
    | zero => exact ⟨rfl, rfl⟩
    | succ n ih =>
      rw [replicate_succ, byteLen_cons, ih.2]
      exact ⟨congrArg (cons 'a') ih.1, Nat.add_comm _ _⟩
  have unbroken : ¬ hasLineBreak (replicate n 'a') := by simp [hasLineBreak]
  rw [transferLiteral, if_neg unbroken]
  show byteLen ('\'' :: escapeSqlString (replicate n 'a') false ++ ['\'']) = n + 2
  rw [copied.1, byteLen_append, byteLen_cons, copied.2, Nat.add_comm _ n]
  rfl

def largeRow : Row := [.Text (replicate TRANSFER_BATCH_BYTES 'a')]

theorem largeRow_bytes : identityBytes .Postgres largeRow = TRANSFER_BATCH_BYTES + 4 := by
  rw [largeRow, identityBytes, map_singleton, sum_singleton, letters_bytes]

section
variable (plan object) (world : World)

def insertBody (rows : List Row) : Text :=
  insertHead plan object ++ joinWith ", " (rows.map (rowTuple (transferLiteral plan.engine)))

def insertStatement (rows : List Row) : Text := insertBody plan object rows ++ conflict plan object ++ [';']

abbrev Oversized (row : Row) : Prop := TRANSFER_BATCH_BYTES < byteLen (insertStatement plan object [row])

def insertFits (buffered : List Row) (row : Row) : Bool :=
  buffered.length < TRANSFER_BATCH_ITEMS && byteLen (insertStatement plan object (buffered ++ [row])) ≤ TRANSFER_BATCH_BYTES

/-- The batches that the rows are sent in, behind a first one that is open. -/
def insertBatches (buffered rows : List Row) : List (List Row) :=
  Batching.batches (insertFits plan object) (fun _ => false) buffered rows

def flush (batch : List Row) : Sync Event Unit := flushInsert world plan object (insertBody plan object batch) batch

/-- The statements that insert rows. -/
def sent (history : List Event) : List Text :=
  history.filterMap fun
    | .write (.rows _) sql _ => some sql
    | _ => none

/-- Every statement for some of the rows succeeds. -/
def Succeeds (rows : List Row) : Prop :=
  ∀ batch, batch ≠ [] → batch ⊆ rows → Triple (fun _ => True) (flush plan object world batch) (fun _ _ => True) fun _ => False

/-- The call sends the rows in their order, in statements within the limits, and
    none of them when it is too large for a statement of its own; it ends well,
    or for such a row, when every statement succeeds. -/
def InsertsWithin (rows : List Row) (start : Journal Event) : Prop :=
  ∃ batches : List (List Row),
    sent (insertRows world plan object rows start).2.history = sent start.history ++ batches.map (insertStatement plan object) ∧
    batches.flatten <+: rows ∧ (∀ row ∈ batches.flatten, ¬ Oversized plan object row) ∧
    (∀ batch ∈ batches, batch.length ≤ TRANSFER_BATCH_ITEMS ∧ byteLen (insertStatement plan object batch) ≤ TRANSFER_BATCH_BYTES) ∧
    (Succeeds plan object world rows → (∃ row ∈ rows, Oversized plan object row) →
      (insertRows world plan object rows start).1 = .error (oversizedRowError object)) ∧
    (Succeeds plan object world rows → (∀ row ∈ rows, ¬ Oversized plan object row) →
      (insertRows world plan object rows start).1 = .ok () ∧ batches.flatten = rows)

end

section
variable {world : World} {start : Journal Event}

theorem insertBody_concat {buffered : List Row} (some : buffered ≠ []) (row : Row) : insertBody plan object (buffered ++ [row]) =
      insertBody plan object buffered ++ ", " ++ rowTuple (transferLiteral plan.engine) row := by
  have joined (first : Text) (parts : List Text) (t : Text) :
      joinWith ", " (first :: parts ++ [t]) = joinWith ", " (first :: parts) ++ ", " ++ t := by
    induction parts generalizing first with
    | nil => rfl
    | cons second parts ih =>
      show first ++ ", " ++ joinWith ", " (second :: parts ++ [t]) = first ++ ", " ++ joinWith ", " (second :: parts) ++ ", " ++ t
      rw [ih]
      simp
  obtain ⟨first, rest, rfl⟩ := exists_cons_of_ne_nil some
  rw [insertBody, map_append, map_cons, map_singleton, joined, insertBody, map_cons, append_assoc, append_assoc, append_assoc]

theorem insertLoop_batches (rows buffered : List Row) (some : buffered ≠ []) :
    insertLoop world plan object rows (insertBody plan object buffered) buffered =
      Prog.forEach (insertBatches plan object buffered rows) (flush plan object world) := by
  induction rows generalizing buffered with
  | nil =>
    rw [insertLoop, if_neg some, insertBatches, Batching.batches, Batching.collect, Batching.last, if_neg some]
    funext s
    show flush plan object world buffered s = Prog.andThen (flush plan object world buffered) (fun _ => Prog.ret ()) s
    unfold Prog.andThen
    rcases flush plan object world buffered s with ⟨_ | _ | _, _⟩ <;> rfl
  | cons row rows ih =>
    have bytes : byteLen (insertBody plan object buffered) + (if buffered = [] then 0 else 2) +
        byteLen (rowTuple (transferLiteral plan.engine) row) + byteLen (conflict plan object) + 1 =
          byteLen (insertStatement plan object (buffered ++ [row])) := by
      rw [if_neg some, insertStatement, insertBody_concat some]
      simp only [byteLen_append]
      rfl
    have fits : insertFits plan object buffered row = true ↔ ¬ (buffered.length ≥ TRANSFER_BATCH_ITEMS ∨
        byteLen (insertStatement plan object (buffered ++ [row])) > TRANSFER_BATCH_BYTES) := by
      simp [insertFits]
    rw [insertLoop, bytes, if_neg fun both => some both.2, insertBatches, Batching.batches_cons, Batching.push]
    by_cases fit : insertFits plan object buffered row = true
    · have open_ : ¬ (buffered ≠ [] ∧ insertFits plan object buffered row = false) := by simp [fit]
      rw [if_neg fun both => fits.mp fit both.2, if_neg some, ← insertBody_concat some, ih _ (by simp), if_neg open_]
      rfl
    · rw [if_pos ⟨some, not_not.mp (fits.not.mp fit)⟩, if_pos ⟨some, Bool.not_eq_true _ ▸ fit⟩]
      exact congrArg (flushInsert world plan object (insertBody plan object buffered) buffered >>= ·)
        (funext fun _ => ih [row] (cons_ne_nil _ _))

theorem insertRows_cons (row : Row) (rows : List Row) : insertRows world plan object (row :: rows) = if Oversized plan object row then
      Prog.fail (oversizedRowError object) else Prog.forEach (insertBatches plan object [] (row :: rows)) (flush plan object world) := by
  have bytes : byteLen (insertHead plan object) + (if ([] : List Row) = [] then 0 else 2) +
      byteLen (rowTuple (transferLiteral plan.engine) row) + byteLen (conflict plan object) + 1 =
        byteLen (insertStatement plan object [row]) := by
    simp only [insertStatement, insertBody, map_singleton, joinWith, byteLen_append, if_true, Nat.add_zero]
    rfl
  rw [insertRows, if_neg (cons_ne_nil _ _), insertLoop, bytes]
  by_cases large : Oversized plan object row
  · rw [if_pos ⟨large, rfl⟩, if_pos large]
  · rw [if_neg fun both => large both.1, if_neg fun both => both.1 rfl, if_neg large, if_pos rfl, append_nil, nil_append,
      insertBatches, Batching.batches_cons]
    exact insertLoop_batches rows [row] (cons_ne_nil _ _)

theorem sent_record (s : Journal Event) (event : Event) : sent (s.record event).history = sent s.history ++ sent [event] :=
  filterMap_append

theorem flush_sent (before : List Text) (batch : List Row) : Triple (fun s => sent s.history = before) (flush plan object world batch)
      (fun _ s => sent s.history = before ++ [insertStatement plan object batch])
      fun s => sent s.history = before ++ [insertStatement plan object batch] := by
  have writes (accepted : Bool) (s : Journal Event) (held : sent s.history = before) :
      sent (s.record (.write (.rows object) (insertBody plan object batch ++ conflict plan object ++ [';']) accepted)).history =
        before ++ [insertStatement plan object batch] := by
    rw [sent_record, held]
    rfl
  have written : Triple (fun s => sent s.history = before)
      (write world (.rows object) (insertBody plan object batch ++ conflict plan object ++ [';']))
      (fun _ s => sent s.history = before ++ [insertStatement plan object batch])
      fun s => sent s.history = before ++ [insertStatement plan object batch] := write_triple (writes true) (writes false)
  refine .bind written fun result => ?_
  refine .bind (failedAfterInsert_triple (fun s side sql held => ?_) (fun _ => id) batch) fun failed => Triple.given fun _ => ?_
  · rw [sent_record, held]
    exact append_nil _
  · exact .bind (.modify fun _ => id) fun _ => .ite (fun _ => .halt) fun _ => .done

/-- The statements of the batches are sent in their order, to the end or up to
    one that fails. -/
theorem flushed_sent (batches : List (List Row)) :
    Triple (fun s => sent s.history = sent start.history) (Prog.forEach batches (flush plan object world))
      (fun _ s => sent s.history = sent start.history ++ batches.map (insertStatement plan object))
      fun s => ∃ done, done <+: batches ∧ sent s.history = sent start.history ++ done.map (insertStatement plan object) := by
  have each := @Triple.forEach_prefix _ _ _ (fun s => ∃ done, done <+: batches ∧
    sent s.history = sent start.history ++ done.map (insertStatement plan object))
    (fun done s => sent s.history = sent start.history ++ done.map (insertStatement plan object))
    (flush plan object world) batches [] fun before batch after split => by
      have grown : sent start.history ++ (before ++ [batch]).map (insertStatement plan object) =
          sent start.history ++ before.map (insertStatement plan object) ++ [insertStatement plan object batch] := by simp
      refine .weaken (flush_sent _ batch) (fun _ => id) (fun _ s held => held.trans grown.symm)
        fun s held => ⟨before ++ [batch], ⟨after, by simp [split]⟩, held.trans grown.symm⟩
  exact .enter each (fun s held => held.trans (append_nil _).symm)

theorem flatten_insertBatches (rows : List Row) : (insertBatches plan object [] rows).flatten = rows :=
  Batching.flatten_batches [] rows

theorem mem_batches {rows batch : List Row} (mem : batch ∈ insertBatches plan object [] rows) : batch ≠ [] ∧ batch ⊆ rows := by
  refine ⟨@Batching.batches_all _ _ _ (· ≠ []) _ (fun _ _ => cons_ne_nil _ _) (fun _ _ _ _ _ _ => by simp) batch mem, fun row inner => ?_⟩
  rw [← @flatten_insertBatches plan object rows]
  exact mem_flatten_of_mem mem inner

theorem flushed_ok {rows : List Row} (succeeds : Succeeds plan object world rows) (s : Journal Event) :
    (Prog.forEach (insertBatches plan object [] rows) (flush plan object world) s).1 = .ok () := by
  have done : Triple (fun _ => True) (Prog.forEach (insertBatches plan object [] rows)
      (flush plan object world)) (fun _ _ => True) fun _ => False :=
    Triple.forEach fun batch mem => succeeds batch (mem_batches mem).1 (mem_batches mem).2
  have ended := done s trivial
  revert ended
  rcases Prog.forEach _ (flush plan object world) s with ⟨_ | _ | _, _⟩
  · exact fun _ => rfl
  · exact False.elim
  · exact False.elim

theorem insertsWithin_of_small {rows : List Row} (small : ∀ row ∈ rows, ¬ Oversized plan object row) :
    InsertsWithin plan object world rows start := by
  cases rows with
  | nil => exact ⟨[], (append_nil _).symm, nil_prefix, nofun, nofun, fun _ ⟨_, gone, _⟩ => (nomatch gone), fun _ _ => ⟨rfl, rfl⟩⟩
  | cons row rows =>
    have run := congrFun ((@insertRows_cons plan object world row rows).trans
      (if_neg (small row mem_cons_self))) start
    have whole := @flatten_insertBatches plan object (row :: rows)
    have within := @Batching.batches_all _ (insertFits plan object) (fun _ => false)
      (fun batch => batch.length ≤ TRANSFER_BATCH_ITEMS ∧ byteLen (insertStatement plan object batch) ≤ TRANSFER_BATCH_BYTES)
      (row :: rows) (fun row mem => ⟨Nat.succ_pos _, not_lt.mp (small row mem)⟩)
      fun batch row _ _ _ fit => by simpa [insertFits, Nat.succ_le_iff] using fit
    have ended : ∃ done, done <+: insertBatches plan object [] (row :: rows) ∧
        sent (insertRows world plan object (row :: rows) start).2.history = sent start.history ++ done.map (insertStatement plan object) ∧
        ((insertRows world plan object (row :: rows) start).1 = .ok () → done.flatten = row :: rows) := by
      have sends := @flushed_sent plan object world start
        (insertBatches plan object [] (row :: rows)) start rfl
      rw [run]
      revert sends
      rcases Prog.forEach _ (flush plan object world) start with ⟨_ | _ | _, _⟩
      · exact fun all => ⟨_, prefix_rfl, all, fun _ => whole⟩
      · exact fun ⟨done, part, all⟩ => ⟨done, part, all, nofun⟩
      · exact fun ⟨done, part, all⟩ => ⟨done, part, all, nofun⟩
    obtain ⟨done, part, all, complete⟩ := ended
    have front : done.flatten <+: row :: rows := by
      obtain ⟨left, split⟩ := part
      rw [← split, flatten_append] at whole
      exact ⟨left.flatten, whole⟩
    refine ⟨done, all, front, fun row mem => small row (front.subset mem), fun batch mem => within batch (part.subset mem),
      fun _ ⟨row, mem, large⟩ => absurd large (small row mem), fun succeeds _ => ?_⟩
    have fine : (insertRows world plan object (row :: rows) start).1 = .ok () := run ▸ flushed_ok succeeds start
    exact ⟨fine, complete fine⟩

/-- The call keeps to the limits exactly when no row behind a sendable first row
    is too large: such a row is put into a statement of its own after the rows
    before it were sent. -/
theorem insert_rows_within (rows : List Row) (start : Journal Event) :
    ((∀ row ∈ rows, Oversized plan object row → ∃ first ∈ rows.head?, Oversized plan object first) →
      InsertsWithin plan object world rows start) ∧ (Succeeds plan object world rows → InsertsWithin plan object world rows start →
      ∀ row ∈ rows, Oversized plan object row → ∃ first ∈ rows.head?, Oversized plan object first) := by
  cases rows with
  | nil => exact ⟨fun _ => insertsWithin_of_small nofun, fun _ _ => nofun⟩
  | cons first rows =>
    have run := @insertRows_cons plan object world first rows
    by_cases large : Oversized plan object first
    · rw [if_pos large] at run
      refine ⟨fun _ => ?_, fun _ _ _ _ _ => ⟨first, rfl, large⟩⟩
      unfold InsertsWithin
      rw [run]
      exact ⟨[], (append_nil _).symm, nil_prefix, nofun, nofun, fun _ _ => rfl, fun _ small => absurd large (small first mem_cons_self)⟩
    · rw [if_neg large] at run
      constructor
      · intro led
        refine insertsWithin_of_small fun row mem oversized => ?_
        obtain ⟨_, ⟨⟩, led⟩ := led row mem oversized
        exact large led
      · intro succeeds ⟨_, _, _, _, _, fails, _⟩ row mem oversized
        have failed := fails succeeds ⟨row, mem, oversized⟩
        rw [run, flushed_ok succeeds start] at failed
        cases failed

end

theorem echo_succeeds (row : Row) (rows : List Row) : Succeeds itemsPlan items (echo row) rows :=
  fun _ _ _ _ _ => trivial

theorem insert_rows_oversized : ¬ InsertsWithin itemsPlan items (echo [.Null]) [[.Null], largeRow] {} := by
  intro ⟨_, _, _, _, _, fails, _⟩
  have tuple : byteLen (rowTuple (transferLiteral .Postgres) largeRow) = TRANSFER_BATCH_BYTES + 4 := by
    show byteLen ('(' :: transferLiteral .Postgres (.Text (replicate TRANSFER_BATCH_BYTES 'a')) ++ [')']) = _
    rw [byteLen_append, byteLen_cons, letters_bytes]
    rfl
  have large : Oversized itemsPlan items largeRow := by
    have whole : insertBody itemsPlan items [largeRow] = insertHead itemsPlan items ++ rowTuple (transferLiteral .Postgres) largeRow := rfl
    rw [Oversized, insertStatement, whole, byteLen_append, byteLen_append, byteLen_append, tuple]
    omega
  have failed := fails (echo_succeeds _ _) ⟨largeRow, by simp, large⟩
  have small : ¬ Oversized itemsPlan items [.Null] := by decide
  rw [insertRows_cons, if_neg small, flushed_ok (echo_succeeds _ _)] at failed
  cases failed

end Ramag.SyncBatches
