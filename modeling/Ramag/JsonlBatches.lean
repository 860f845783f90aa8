import Ramag.JsonlTable

/-!
The batches of a JSON lines import. Every line with a row is sent in one INSERT,
in the order of the file; the rows of an INSERT share its columns, and neither
their number nor the statement is too large. The running byte count is the length
of the statement of the pending rows.
-/
namespace Ramag.JsonlBatches
open Strings Domain Json Programs JsonlTable List
open SqlImport (ConflictPolicy TransferSummary)
open SqlLiteral (joinWith)

section
variable (svc : Service) (request : Request)

/-- The row of a line, with its columns. -/
def lineRow (columnNames : List Text) (line : Text) : Option (List Text × Text) :=
  if trim line = [] then none
  else match svc.parse (trim line) with
    | .error _ => none
    | .ok parsed =>
      parsed.asObject.bind fun object =>
        if presentColumns columnNames object = [] then none
        else some (presentColumns columnNames object, renderRow svc request (presentColumns columnNames object) object)

/-- The rows of the lines that can be read, in the order of the file. -/
def fileRows (columnNames : List Text) (lines : List (Result Text)) : List (List Text × Text) :=
  lines.flatMap fun
    | .ok line => (lineRow svc request columnNames line).toList
    | .error _ => []

end

/-- The rows of one INSERT, and their columns. -/
structure Batch where
  columns : List Text
  rows : List Text

def Batch.lines (batch : Batch) : List (List Text × Text) := batch.rows.map fun row => (batch.columns, row)
def Batch.query (request : Request) (batch : Batch) : Query := insertQuery request batch.columns batch.rows

structure Batch.Fits (request : Request) (batch : Batch) : Prop where
  some : batch.rows ≠ []
  few : batch.rows.length ≤ BATCH_ROWS
  small : byteLen (buildInsertSql request batch.columns batch.rows) ≤ BATCH_BYTES

/-- These batches were executed after the queries before. -/
structure Executed (request : Request) (before : List Query) (batches : List Batch) (calls : List Query) : Prop where
  fits : ∀ batch ∈ batches, batch.Fits request
  calls : calls = before ++ batches.map (Batch.query request)

variable {request : Request}

theorem Executed.snoc {before calls : List Query} {batches : List Batch} {batch : Batch}
    (executed : Executed request before batches calls) (fits : batch.Fits request) :
    Executed request before (batches ++ [batch]) (calls ++ [batch.query request]) where
  fits := forall_mem_append.mpr ⟨executed.fits, forall_mem_singleton.mpr fits⟩
  calls := by rw [executed.calls, map_append, append_assoc]; rfl

/-! ### The running byte count -/

theorem joinWith_snoc {sep : Text} {texts : List Text} (some : texts ≠ []) (text : Text) :
    joinWith sep (texts ++ [text]) = joinWith sep texts ++ sep ++ text := by
  induction texts with
  | nil => exact absurd rfl some
  | cons first rest ih =>
    cases rest with
    | nil => rfl
    | cons second rest =>
      show first ++ sep ++ joinWith sep ((second :: rest) ++ [text]) = first ++ sep ++ joinWith sep (second :: rest) ++ sep ++ text
      rw [ih (cons_ne_nil _ _)]
      simp

theorem byteLen_buildInsertSql_snoc {columns rows : List Text} (some : rows ≠ []) (row : Text) :
    byteLen (buildInsertSql request columns (rows ++ [row])) = byteLen (buildInsertSql request columns rows) + 2 + byteLen row := by
  have sep : byteLen ",\n" = 2 := by decide
  unfold buildInsertSql
  rw [joinWith_snoc some]
  simp only [byteLen_append, byteLen_cons, sep]
  omega

/-- What the counter shows. -/
def Counted (request : Request) (s : Importer) : Prop :=
  s.bytes = if s.rows = [] then 0 else byteLen (buildInsertSql request s.columns s.rows)

section
variable {svc : Service} {request : Request} {before : List Query} {done total : List (List Text × Text)}

/-- The rows so far are executed, except for those that are pending. -/
structure Collected (request : Request) (before : List Query) (done : List (List Text × Text)) (s : Importer) : Prop where
  running : s.summary.cancelled = false
  few : s.rows.length ≤ BATCH_ROWS
  small : s.rows ≠ [] → byteLen (buildInsertSql request s.columns s.rows) ≤ BATCH_BYTES
  executed : ∃ batches, Executed request before batches s.calls ∧
    batches.flatMap Batch.lines ++ s.rows.map (fun row => (s.columns, row)) = done

/-- All that was executed are rows of the file, from its first row on. -/
def Sent (request : Request) (before : List Query) (total : List (List Text × Text)) (s : Importer) : Prop :=
  ∃ batches, Executed request before batches s.calls ∧ batches.flatMap Batch.lines <+: total

variable {s : Importer}

theorem Collected.sent (collected : Collected request before done s) (within : done <+: total) : Sent request before total s := by
  obtain ⟨batches, executed, rfl⟩ := collected.executed
  exact ⟨batches, executed, (prefix_append _ _).trans within⟩

theorem Collected.report {summary : TransferSummary} (collected : Collected request before done s)
    (same : summary.cancelled = s.summary.cancelled) : Collected request before done { s with summary } :=
  ⟨same.trans collected.running, collected.few, collected.small, collected.executed⟩

theorem cancelled_pushWarning (summary : TransferSummary) (warning : Text) : (summary.pushWarning warning).cancelled = summary.cancelled := by
  unfold TransferSummary.pushWarning
  split <;> rfl

theorem Collected.flush (collected : Collected request before done s) (some : s.rows ≠ []) :
    ∃ batches, Executed request before batches (s.calls ++ [insertQuery request s.columns s.rows]) ∧
      batches.flatMap Batch.lines = done := by
  obtain ⟨batches, executed, rfl⟩ := collected.executed
  let batch : Batch := ⟨s.columns, s.rows⟩
  have fits : batch.Fits request := ⟨some, collected.few, collected.small some⟩
  refine ⟨batches ++ [batch], executed.snoc fits, ?_⟩
  rw [flatMap_append, flatMap_singleton]
  rfl

theorem flushBatch_collected (within : done <+: total) (columns : List Text) :
    Triple (fun s => Collected request before done s ∧ s.columns = columns) (flushBatch svc request)
      (fun _ s => Collected request before done s ∧ s.columns = columns ∧ s.rows = []) (Sent request before total) := by
  refine .getThen fun v => .ite (fun empty => .ret ?_) fun some => ?_
  · rintro s ⟨rfl, collected, same⟩
    exact ⟨collected, same, empty⟩
  have taken : Triple (fun s => s = v ∧ Collected request before done s ∧ s.columns = columns)
      (.modify (takeRows request) : Import Unit)
      (fun _ s => Collected request before done s ∧ s.columns = columns ∧ s.rows = []) (Sent request before total) := by
    rintro s ⟨rfl, collected, same⟩
    obtain ⟨batches, executed, whole⟩ := collected.flush some
    refine ⟨⟨collected.running, Nat.zero_le _, fun some => absurd rfl some, batches, executed, ?_⟩, same, rfl⟩
    simpa [takeRows] using whole
  refine .bind taken fun _ => ?_
  cases svc.execute v.calls (insertQuery request v.columns v.rows) with
  | ok affected => exact .modify fun s ⟨collected, kept⟩ => ⟨collected.report rfl, kept⟩
  | error error =>
    refine .ite (fun _ => .fail fun s held => held.1.sent within) fun _ => ?_
    exact .modify fun s ⟨collected, kept⟩ => ⟨collected.report (cancelled_pushWarning _ _), kept⟩

theorem closeBatch_collected (within : done <+: total) (columns : List Text) :
    Triple (fun s => Collected request before done s ∧ s.columns = columns) (closeBatch svc request)
      (fun _ s => Collected request before done s ∧ s.columns = columns ∧ s.rows = [] ∧ s.bytes = 0) (Sent request before total) :=
  Triple.bind (flushBatch_collected within columns) fun _ => .modify fun _ ⟨collected, same, empty⟩ =>
    ⟨⟨collected.running, collected.few, collected.small, collected.executed⟩, same, empty, rfl⟩

theorem counted_of_empty (empty : s.rows = []) (zero : s.bytes = 0) : Counted request s := by rw [Counted, if_pos empty, zero]

/-- The pending rows, and the count of their bytes. -/
def Pending (request : Request) (before : List Query) (done : List (List Text × Text)) (s : Importer) : Prop :=
  Collected request before done s ∧ Counted request s

theorem closeOther_pending (within : done <+: total) (present : List Text) : Triple (Pending request before done) (closeOther svc request present)
      (fun _ s => Pending request before done s ∧ (s.rows = [] ∨ s.columns = present)) (Sent request before total) := by
  refine .getThen fun v => .ite (fun _ => ?_) fun same => .ret ?_
  · refine .weaken (closeBatch_collected within v.columns) ?_ (fun _ s ⟨collected, _, empty, zero⟩ => ?_) fun _ => id
    · rintro s ⟨rfl, collected, _⟩
      exact ⟨collected, rfl⟩
    · exact ⟨⟨collected, counted_of_empty empty zero⟩, .inl empty⟩
  rintro s ⟨rfl, pending⟩
  refine ⟨pending, ?_⟩
  by_cases empty : s.rows = []
  · exact .inl empty
  · exact .inr (by_contra fun other => same ⟨.symm other, empty⟩)

variable {stop : Importer → Prop}

theorem openBatch_pending (present : List Text) (lineNo : Nat) :
    Triple (fun s => Pending request before done s ∧ (s.rows = [] ∨ s.columns = present)) (openBatch present lineNo)
      (fun _ s => Pending request before done s ∧ s.columns = present) stop := by
  refine .modify fun s ⟨⟨collected, counted⟩, either⟩ => ?_
  split_ifs with empty
  · have zero : s.bytes = 0 := by rwa [Counted, if_pos empty] at counted
    obtain ⟨batches, executed, whole⟩ := collected.executed
    refine ⟨⟨⟨collected.running, collected.few, fun some => absurd empty some, batches, executed, ?_⟩, ?_⟩, rfl⟩
    · simpa [empty] using whole
    · exact counted_of_empty empty zero
  · exact ⟨⟨collected, counted⟩, either.resolve_left empty⟩

/-- There is room for a row of the columns. -/
def Room (request : Request) (present : List Text) (tuple : Text) (s : Importer) : Prop :=
  s.columns = present ∧ (s.rows ≠ [] → s.rows.length < BATCH_ROWS ∧
    byteLen (buildInsertSql request present s.rows) + 2 + byteLen tuple ≤ BATCH_BYTES)

theorem nextBytes_of_some (counted : Counted request s) (some : s.rows ≠ []) (single : Nat) (tuple : Text) :
    nextBytes s single tuple = byteLen (buildInsertSql request s.columns s.rows) + 2 + byteLen tuple := by
  rw [Counted, if_neg some] at counted
  rw [nextBytes, if_neg some, counted]

theorem makeRoom_pending (within : done <+: total) (present : List Text) (lineNo single : Nat) (tuple : Text) :
    Triple (fun s => Pending request before done s ∧ s.columns = present) (makeRoom svc request lineNo single tuple)
      (fun _ s => Pending request before done s ∧ Room request present tuple s) (Sent request before total) := by
  refine .getThen fun v => .ite (fun _ => ?_) fun fits => .ret ?_
  · refine .bind (.enter (closeBatch_collected within present) ?_) fun _ => ?_
    · rintro s ⟨_, ⟨collected, _⟩, same⟩
      exact ⟨collected, same⟩
    · exact .modify fun s ⟨collected, same, empty, zero⟩ =>
        ⟨⟨⟨collected.running, collected.few, collected.small, collected.executed⟩, counted_of_empty empty zero⟩, same,
          fun some => absurd empty some⟩
  · rintro s ⟨rfl, pending, same⟩
    refine ⟨pending, same, fun some => ?_⟩
    have room : ¬ (s.rows.length ≥ BATCH_ROWS ∨ nextBytes s single tuple > BATCH_BYTES) := fun full => fits ⟨some, full⟩
    rw [nextBytes_of_some pending.2 some, same] at room
    omega

theorem addRow_pending (present : List Text) (tuple : Text) (single : byteLen (buildInsertSql request present [tuple]) ≤ BATCH_BYTES) :
    Triple (fun s => Pending request before done s ∧ Room request present tuple s)
      (addRow (byteLen (buildInsertSql request present [tuple])) tuple)
      (fun _ => Pending request before (done ++ [(present, tuple)])) stop := by
  refine .modify fun s ⟨⟨collected, counted⟩, same, room⟩ => ?_
  obtain ⟨batches, executed, whole⟩ := collected.executed
  have added : (s.rows ++ [tuple] ≠ [] → byteLen (buildInsertSql request s.columns (s.rows ++ [tuple])) ≤ BATCH_BYTES) ∧
      nextBytes s (byteLen (buildInsertSql request present [tuple])) tuple =
        byteLen (buildInsertSql request s.columns (s.rows ++ [tuple])) ∧ (s.rows ++ [tuple]).length ≤ BATCH_ROWS := by
    by_cases empty : s.rows = []
    · rw [nextBytes, if_pos empty, empty, same]
      exact ⟨fun _ => single, rfl, show 1 ≤ BATCH_ROWS by decide⟩
    · rw [nextBytes_of_some counted empty, byteLen_buildInsertSql_snoc empty, same, length_append, length_singleton]
      exact ⟨fun _ => (room empty).2, rfl, (room empty).1⟩
  refine ⟨⟨collected.running, added.2.2, added.1, batches, executed, ?_⟩, ?_⟩
  · rw [← whole, append_assoc, map_append, same]
    rfl
  · rw [Counted, if_neg (append_ne_nil_of_right_ne_nil _ (cons_ne_nil _ _))]
    exact added.2.1

theorem closeFull_pending (within : done <+: total) :
    Triple (Pending request before done) (closeFull svc request) (fun _ => Pending request before done) (Sent request before total) := by
  refine .getThen fun v => .ite (fun _ => ?_) fun _ => .ret fun _ held => held.2
  refine .weaken (closeBatch_collected within v.columns) ?_ (fun _ s ⟨collected, _, empty, zero⟩ => ?_) fun _ => id
  · rintro s ⟨rfl, collected, _⟩
    exact ⟨collected, rfl⟩
  · exact ⟨collected, counted_of_empty empty zero⟩

theorem importRow_pending (lineNo : Nat) (present : List Text) (object : List (Text × Value))
    (within : done ++ [(present, renderRow svc request present object)] <+: total) :
    Triple (Pending request before done) (importRow svc request lineNo present object)
      (fun _ => Pending request before (done ++ [(present, renderRow svc request present object)])) (Sent request before total) := by
  have early : done <+: total := (prefix_append done _).trans within
  refine .bind (closeOther_pending early present) fun _ => .bind (openBatch_pending present lineNo) fun _ => ?_
  refine .getThen fun v => ?_
  by_cases same : v.columns = present
  · rw [same]
    refine .ite (fun _ => .fail fun s held => held.2.1.1.sent early) fun fits => ?_
    refine .enter ?_ (fun s held => held.2)
    refine .bind (makeRoom_pending early present lineNo _ _) fun _ => ?_
    refine .bind (addRow_pending present _ (Nat.le_of_not_gt fits)) fun _ => ?_
    exact closeFull_pending within
  · rintro s ⟨rfl, _, equal⟩
    exact absurd equal same

theorem reject_pending (lineNo : Nat) (reason : Text) :
    Triple (Pending request before done) (reject lineNo reason) (fun _ => Pending request before done) stop :=
  Triple.modify fun _ ⟨collected, counted⟩ => ⟨collected.report (cancelled_pushWarning _ _), counted⟩

variable {columnNames : List Text}

theorem importLine_pending (lineNo : Nat) (line : Text) (within : done ++ (lineRow svc request columnNames line).toList <+: total) :
    Triple (Pending request before done) (importLine svc request columnNames lineNo line)
      (fun _ => Pending request before (done ++ (lineRow svc request columnNames line).toList)) (Sent request before total) := by
  unfold importLine
  have without (nothing : lineRow svc request columnNames line = none) {p : Import Unit}
      (kept : Triple (Pending request before done) p (fun _ => Pending request before done) (Sent request before total)) :
      Triple (Pending request before done) p
        (fun _ => Pending request before (done ++ (lineRow svc request columnNames line).toList))
        (Sent request before total) := by
    rw [nothing, Option.toList_none, append_nil]
    exact kept
  split_ifs with blank
  · exact without (if_pos blank) (.ret fun _ => id)
  cases parsed : svc.parse (trim line) with
  | error error =>
    refine without ?_ (reject_pending lineNo _)
    rw [lineRow, if_neg blank, parsed]
  | ok value =>
    have row : lineRow svc request columnNames line = value.asObject.bind fun object =>
        if presentColumns columnNames object = [] then none
        else some (presentColumns columnNames object, renderRow svc request (presentColumns columnNames object) object) := by
      rw [lineRow, if_neg blank, parsed]
    cases fields : value.asObject with
    | none =>
      rw [fields] at row
      dsimp only
      rw [fields]
      exact without row (reject_pending lineNo _)
    | some object =>
      rw [fields, Option.bind_some] at row
      dsimp only
      rw [fields]
      have noted : Triple (Pending request before done)
          (.modify fun s => { s with unknownKeys := collectUnknown columnNames object s.unknownKeys } : Import Unit)
          (fun _ => Pending request before done) (Sent request before total) :=
        Triple.modify fun s ⟨collected, counted⟩ => ⟨⟨collected.running, collected.few, collected.small, collected.executed⟩, counted⟩
      refine .bind noted fun _ => ?_
      split_ifs at row ⊢ with nothing
      · exact without row (reject_pending lineNo _)
      · rw [row] at within ⊢
        exact importRow_pending lineNo _ object within

/-- The end of the lines: all of them are imported, or the import was cancelled. -/
def LinesEnd (request : Request) (before : List Query) (all total : List (List Text × Text)) (s : Importer) : Prop :=
  Pending request before all s ∨ (s.summary.cancelled = true ∧ Sent request before total s ∧ Counted request s)

theorem importLines_pending {cancelled : Nat → Bool} (lines : List (Result Text))
    (lineNo : Nat) (within : done ++ fileRows svc request columnNames lines <+: total) :
    Triple (Pending request before done) (importLines svc request columnNames cancelled lines lineNo)
      (fun _ => LinesEnd request before (done ++ fileRows svc request columnNames lines) total) (Sent request before total) := by
  induction lines generalizing done lineNo with
  | nil => exact .ret fun s held => .inl (by simpa [fileRows] using held)
  | cons read rest ih =>
    have early : done <+: total := (prefix_append done _).trans within
    refine .bind (.lift_same fun s held => held.1.sent early) fun line => .given fun given => ?_
    obtain ⟨text, own, bounded⟩ := bind_ok given
    subst own
    obtain rfl : text = line := by
      unfold boundedLine at bounded
      split at bounded
      · cases bounded
      · exact Except.ok.inj bounded
    refine Triple.ite (fun _ => ?_) fun _ => ?_
    · exact .modify fun s ⟨collected, counted⟩ => .inr ⟨rfl, collected.sent early, counted⟩
    · rw [fileRows, flatMap_cons, ← append_assoc] at within ⊢
      refine .bind (importLine_pending lineNo text ((prefix_append _ _).trans within)) fun _ => ?_
      exact ih (lineNo + 1) within

/-- The end of the import: the rows that were executed, and all of them unless it was cancelled. -/
def ImportEnd (request : Request) (before : List Query) (total : List (List Text × Text)) (s : Importer) : Prop :=
  ∃ batches, Executed request before batches s.calls ∧ batches.flatMap Batch.lines <+: total ∧
    (s.summary.cancelled = false → batches.flatMap Batch.lines = total)

theorem flushLast_end : Triple (LinesEnd request before total total) (flushLast svc request)
    (fun _ => ImportEnd request before total) (Sent request before total) := by
  refine .getThen fun v => .ite (fun cancelled => .ret ?_) fun kept => ?_
  · rintro s ⟨rfl, ⟨collected, _⟩ | ⟨_, ⟨batches, executed, early⟩, _⟩⟩
    · simp [collected.running] at cancelled
    · exact ⟨batches, executed, early, fun running => absurd (running.symm.trans cancelled) nofun⟩
  refine .weaken (flushBatch_collected prefix_rfl v.columns) ?_ (fun _ s ⟨collected, _, empty⟩ => ?_) fun _ => id
  · rintro s ⟨rfl, ⟨collected, _⟩ | ⟨cancelled, _⟩⟩
    · exact ⟨collected, rfl⟩
    · exact absurd cancelled kept
  · obtain ⟨batches, executed, whole⟩ := collected.executed
    rw [empty, map_nil, append_nil] at whole
    exact ⟨batches, executed, by rw [whole], fun _ => whole⟩

theorem warnUnknown_end : Triple (ImportEnd request before total) warnUnknown (fun _ => ImportEnd request before total) stop := by
  refine .modify fun s ⟨batches, executed, early, whole⟩ => ?_
  by_cases none : s.unknownKeys = []
  · rw [if_pos none]
    exact ⟨batches, executed, early, whole⟩
  · rw [if_neg none]
    exact ⟨batches, executed, early, fun running => whole ((cancelled_pushWarning _ _).symm.trans running)⟩

theorem importLines_flushLast {cancelled : Nat → Bool} {lines : List (Result Text)} {lineNo : Nat} : Triple (Pending request before []) (do
        importLines svc request columnNames cancelled lines lineNo
        flushLast svc request
        warnUnknown)
      (fun _ => ImportEnd request before (fileRows svc request columnNames lines))
      (Sent request before (fileRows svc request columnNames lines)) :=
  Triple.bind (importLines_pending lines lineNo prefix_rfl) fun _ => .bind flushLast_end fun _ => warnUnknown_end

end

/-- The columns of the table, as far as the import comes to know them. -/
def tableColumns (svc : Service) : List Text :=
  match svc.listColumns with
  | .ok columnNames => columnNames
  | .error _ => []

theorem fresh_pending (request : Request) (before : List Query) : Pending request before [] { calls := before } :=
  ⟨⟨rfl, Nat.zero_le _, fun some => absurd rfl some, [], ⟨nofun, (append_nil before).symm⟩, rfl⟩, rfl⟩

theorem clearTable_pending (svc : Service) (request : Request) (total : List (List Text × Text)) :
    Triple (fun s => s = {}) (clearTable svc request) (fun _ s => ∃ before, before <+: [deleteQuery request] ∧ Pending request before [] s)
      (fun s => ∃ before, before <+: [deleteQuery request] ∧ Sent request before total s) := by
  refine .ite (fun _ => .getThen fun v => ?_) fun _ => .ret ?_
  · have cleared : Triple (fun s => s = v ∧ s = {})
        (.modify fun s => { s with calls := s.calls ++ [deleteQuery request] } : Import Unit)
        (fun _ s => Pending request [deleteQuery request] [] s)
        (fun s => ∃ before, before <+: [deleteQuery request] ∧ Sent request before total s) := by
      rintro s ⟨_, rfl⟩
      exact fresh_pending request [deleteQuery request]
    refine .bind cleared fun _ => .bind (.lift_same fun s held => ?_) fun _ => .given fun _ => ?_
    · exact ⟨_, prefix_rfl, held.1.sent nil_prefix⟩
    · exact .ret fun s held => ⟨_, prefix_rfl, held⟩
  · rintro s rfl
    exact ⟨[], nil_prefix, fresh_pending request []⟩

theorem importJsonlIntoTable_end (svc : Service) (request : Request) (cancelled : Nat → Bool) (lines : List (Result Text)) :
    Triple (fun s => s = {}) (importJsonlIntoTable svc request cancelled lines) (fun _ s => ∃ before, before <+: [deleteQuery request] ∧
        ImportEnd request before (fileRows svc request (tableColumns svc) lines) s) (fun s => ∃ before, before <+: [deleteQuery request] ∧
        Sent request before (fileRows svc request (tableColumns svc) lines) s) := by
  have unsent : ∀ s : Importer, s = {} → ∃ before, before <+: [deleteQuery request] ∧
      Sent request before (fileRows svc request (tableColumns svc) lines) s := by
    rintro s rfl
    exact ⟨[], nil_prefix, (fresh_pending request []).1.sent nil_prefix⟩
  refine .ite (fun _ => .fail unsent) fun _ => .ite (fun _ => .fail unsent) fun _ => ?_
  refine .bind (.lift_same unsent) fun columnNames => .given fun listed => ?_
  obtain rfl : tableColumns svc = columnNames := by rw [tableColumns, listed]
  refine .ite (fun _ => .fail unsent) fun _ => ?_
  refine .bind (clearTable_pending svc request _) fun _ => ?_
  rintro s ⟨before, cleared, pending⟩
  refine Triple.weaken importLines_flushLast (fun _ => id) (fun _ s ended => ⟨before, cleared, ended⟩)
    (fun s sent => ⟨before, cleared, sent⟩) s pending

/-- What an import executes: the rows of the file from the first one on, in their
    order and each of them once, in statements of rows with the same columns, and
    all of them when it ends without an error and without a cancellation. -/
theorem importJsonlIntoTable_batches (svc : Service) (request : Request) (cancelled : Nat → Bool) (lines : List (Result Text)) :
    (∃ before batches, before <+: [deleteQuery request] ∧
      Executed request before batches (importJsonlIntoTable svc request cancelled lines {}).2.calls ∧
      batches.flatMap Batch.lines <+: fileRows svc request (tableColumns svc) lines ∧
      ((importJsonlIntoTable svc request cancelled lines {}).1 = .ok () →
        (importJsonlIntoTable svc request cancelled lines {}).2.summary.cancelled = false →
          batches.flatMap Batch.lines = fileRows svc request (tableColumns svc) lines)) ∧ ∀ before read s,
      importLines svc request (tableColumns svc) cancelled read 1 { calls := before } = (.ok (), s) → Counted request s := by
  constructor
  · have ended := importJsonlIntoTable_end svc request cancelled lines {} rfl
    revert ended
    cases importJsonlIntoTable svc request cancelled lines {} with
    | mk outcome s =>
      cases outcome with
      | ok _ =>
        rintro ⟨before, cleared, batches, executed, early, whole⟩
        exact ⟨before, batches, cleared, executed, early, fun _ => whole⟩
      | error _ | running =>
        rintro ⟨before, cleared, batches, executed, early⟩
        exact ⟨before, batches, cleared, executed, early, nofun⟩
  · intro before read s done
    have ended := @importLines_pending svc request before [] (fileRows svc request (tableColumns svc) read)
      (tableColumns svc) cancelled read 1 prefix_rfl { calls := before } (fresh_pending request before)
    rw [done] at ended
    rcases ended with ⟨_, counted⟩ | ⟨_, _, counted⟩
    · exact counted
    · exact counted

theorem importRow_oversized (svc : Service) {s : Importer} (lineNo : Nat) (object : List (Text × Value)) (some : s.rows ≠ [])
    (large : BATCH_BYTES < byteLen (buildInsertSql request s.columns [renderRow svc request s.columns object])) :
    importRow svc request lineNo s.columns object s = (.error (oversizedRow lineNo), s) := by
  have stays : closeOther svc request s.columns s = (.ok (), s) := by
    show (if s.columns ≠ s.columns ∧ s.rows ≠ [] then closeBatch svc request else pure ()) s = _
    rw [if_neg fun other => other.1 rfl]
    rfl
  have opened : openBatch s.columns lineNo s = (.ok (), s) := by
    show (Outcome.ok (), if s.rows = [] then _ else s) = _
    rw [if_neg some]
  unfold importRow
  rw [Prog.bind_of_ok stays, Prog.bind_of_ok opened, Prog.bind_of_ok (show Prog.get s = (.ok s, s) from rfl), if_pos large]
  rfl

def quotes (n : Nat) : Text := List.replicate n '\''
def shortLine : Text := ['{', '"', 'a', '"', ':', '1', '}']
def longLine (n : Nat) : Text := ['{', '"', 'a', '"', ':', '"'] ++ quotes n ++ ['"', '}']

/-- A table of one column, and a reader of its two lines. -/
def oneColumn : Service where
  listColumns := .ok [['a']]
  execute _ _ := .ok 1
  parse text :=
    if ['{', '"', 'a', '"', ':', '"'].isPrefixOf text then
      .ok (.single ['a'] (.String ((text.drop 6).takeWhile (· == '\''))))
    else .ok (.single ['a'] (.ofI64 1))
  numberText _ := ['1']
  jsonText _ := []

def oneTable : Request := { driver := .Postgres, production := false, schema := ['s'], table := ['t'], policy := .Skip }

section
variable {n : Nat}

theorem byteLen_quotes (n : Nat) : byteLen (quotes n) = n := by
  induction n with
  | zero => rfl
  | succ n ih =>
    show 1 + byteLen (quotes n) = n + 1
    omega

theorem byteLen_longLine (n : Nat) : byteLen (longLine n) = n + 8 := by
  have head : byteLen ['{', '"', 'a', '"', ':', '"'] = 6 := by decide
  have tail : byteLen ['"', '}'] = 2 := by decide
  rw [longLine, byteLen_append, byteLen_append, byteLen_quotes, head, tail]
  omega

theorem trim_longLine (n : Nat) : trim (longLine n) = longLine n := by
  have whole : longLine n = (['{', '"', 'a', '"', ':', '"'] ++ quotes n ++ ['"']) ++ ['}'] := by
    rw [longLine, append_assoc _ ['"']]
    rfl
  exact trim_gap (s := longLine n) (forall_mem_nil _) rfl (by rw [whole, getLast?_concat]; decide)

theorem parse_longLine (n : Nat) : oneColumn.parse (longLine n) = .ok (.single ['a'] (.String (quotes n))) := by
  have quote : ∀ c ∈ quotes n, (c == '\'') = true := fun c mem => by
    rw [eq_of_mem_replicate mem]
    rfl
  have body : (quotes n ++ ['"', '}']).takeWhile (· == '\'') = quotes n := by
    rw [takeWhile_append_of_pos quote]
    exact append_nil _
  have read : oneColumn.parse (longLine n) =
      .ok (.single ['a'] (.String ((quotes n ++ ['"', '}']).takeWhile (· == '\'')))) := rfl
  rw [read, body]

theorem large_longLine (large : BATCH_BYTES < 2 * n) :
    BATCH_BYTES < byteLen (buildInsertSql oneTable [['a']] [renderRow oneColumn oneTable [['a']] [(['a'], .String (quotes n))]]) := by
  have doubled : byteLen ((quotes n).flatMap fun c =>
      if c = '\'' then ['\'', '\''] else if c = '\\' ∧ oneTable.driver = .Mysql then ['\\', '\\'] else [c]) = 2 * n := by
    clear large
    induction n with
    | zero => rfl
    | succ n ih =>
      rw [quotes, replicate_succ, flatMap_cons, byteLen_append]
      show 2 + byteLen ((quotes n).flatMap _) = 2 * (n + 1)
      omega
  unfold buildInsertSql
  simp only [byteLen_append]
  refine Nat.lt_of_lt_of_le large ?_
  have inside : 2 * n ≤ byteLen (renderRow oneColumn oneTable [['a']] [(['a'], .String (quotes n))]) := by
    show 2 * n ≤ byteLen ('(' :: quoteString oneTable.driver (quotes n) ++ [')'])
    rw [quoteString, byteLen_append, byteLen_cons, byteLen_append, byteLen_cons, doubled]
    omega
  show 2 * n ≤ _ + byteLen (renderRow oneColumn oneTable [['a']] [(['a'], .String (quotes n))]) + _
  omega

/-- The second line is refused, and the first one is never sent. -/
theorem importLines_oversized (large : BATCH_BYTES < 2 * n) (short : n + 8 ≤ MAX_LINE_BYTES) :
    (importJsonlIntoTable oneColumn oneTable (fun _ => false) [.ok shortLine, .ok (longLine n)] {}).2.calls = [] := by
  -- the first line leaves its row pending
  let s := (importLine oneColumn oneTable [['a']] 1 shortLine {}).2
  have first : importLine oneColumn oneTable [['a']] 1 shortLine {} = (.ok (), s) := rfl
  have rows : s.rows ≠ [] := by decide
  have columns : s.columns = [['a']] := rfl
  have calls : s.calls = [] := rfl
  have bounded : boundedLine (longLine n) = .ok (longLine n) := by
    rw [boundedLine, if_neg]
    rw [byteLen_longLine]
    omega
  have second : importLine oneColumn oneTable [['a']] 2 (longLine n) s = (.error (oversizedRow 2), s) := by
    unfold importLine
    rw [trim_longLine, if_neg (by rw [longLine]; exact cons_ne_nil _ _), parse_longLine]
    have noted : (.modify fun s =>
        { s with unknownKeys := collectUnknown [['a']] [(['a'], .String (quotes n))] s.unknownKeys } : Import Unit) s =
        (.ok (), s) := rfl
    refine (Prog.bind_of_ok noted).trans ?_
    have present : presentColumns [['a']] [(['a'], .String (quotes n))] = s.columns := rfl
    have some : s.columns ≠ [] := by
      rw [columns]
      exact cons_ne_nil _ _
    rw [present, if_neg some]
    exact importRow_oversized oneColumn 2 _ rows (large_longLine large)
  have lines : importLines oneColumn oneTable [['a']] (fun _ => false) [.ok shortLine, .ok (longLine n)] 1 {} =
      (.error (oversizedRow 2), s) := by
    unfold importLines
    have read : (Prog.lift (Except.ok shortLine >>= boundedLine) : Import Text) {} = (.ok shortLine, {}) := rfl
    refine (Prog.bind_of_ok read).trans ((Prog.bind_of_ok first).trans ?_)
    unfold importLines
    have read : (Prog.lift (Except.ok (longLine n) >>= boundedLine) : Import Text) s = (.ok (longLine n), s) := by
      show Prog.lift (boundedLine (longLine n)) s = _
      rw [bounded]
      rfl
    exact (Prog.bind_of_ok read).trans (Prog.bind_of_error second)
  have whole : importJsonlIntoTable oneColumn oneTable (fun _ => false) [.ok shortLine, .ok (longLine n)] {} =
      (.error (oversizedRow 2), s) := by
    have listed : (.lift oneColumn.listColumns : Import (List Text)) {} = (.ok [['a']], {}) := rfl
    have cleared : clearTable oneColumn oneTable {} = (.ok (), {}) := rfl
    exact (Prog.bind_of_ok listed).trans ((Prog.bind_of_ok cleared).trans (Prog.bind_of_error lines))
  rw [whole]
  exact calls

/-- The row of the first line fits and is in no statement. -/
theorem importJsonlIntoTable_batches_unsent : ¬ ∀ (svc : Service) (request : Request) (lines : List (Result Text)),
      ∀ row ∈ fileRows svc request (tableColumns svc) lines, byteLen (buildInsertSql request row.1 [row.2]) ≤ BATCH_BYTES →
          ∃ rows, row.2 ∈ rows ∧ insertQuery request row.1 rows ∈ (importJsonlIntoTable svc request (fun _ => false) lines {}).2.calls := by
  intro claimed
  obtain ⟨rows, _, sent⟩ := claimed oneColumn oneTable [.ok shortLine, .ok (longLine (17 * 1024 * 1024))]
    ([['a']], ['(', '1', ')']) (mem_append_left _ (.head _)) (by decide)
  rw [importLines_oversized (by decide) (by decide)] at sent
  cases sent

/-- A file without such a row is sent whole. -/
theorem importJsonlIntoTable_batches_whole : ∃ before batches, Executed oneTable before batches
        (importJsonlIntoTable oneColumn oneTable (fun _ => false) [.ok shortLine, .ok [], .ok shortLine] {}).2.calls ∧
      batches.flatMap Batch.lines = fileRows oneColumn oneTable [['a']] [.ok shortLine, .ok [], .ok shortLine] := by
  obtain ⟨⟨before, batches, _, executed, _, whole⟩, _⟩ :=
    importJsonlIntoTable_batches oneColumn oneTable (fun _ => false) [.ok shortLine, .ok [], .ok shortLine]
  exact ⟨before, batches, executed, whole rfl rfl⟩

end

end Ramag.JsonlBatches
