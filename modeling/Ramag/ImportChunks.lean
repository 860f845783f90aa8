import Ramag.Batching
import Ramag.SqlImport

/-!
The chunks of an import: the queue hands its statements on in batches, in their
order and each one once, until a chunk fails in a way that the segment does not
survive.
-/
namespace Ramag.ImportChunks
open Strings Domain SqlImport Batching List

/-- The statements of a segment, queued one after the other, and the end of the
    segment. -/
def importStatements (svc : Service) (driver : DriverKind) (policy : ConflictPolicy) : List Text → Importer → Outcome
  | [], state => flushSegment svc driver policy state
  | statement :: rest, state => do
    let state ← queueStatement svc driver policy statement state
    importStatements svc driver policy rest state

/-! ### The batches of the queue -/

def isBlank (statement : Text) : Bool := (trim statement).isEmpty

def statementFits (driver : DriverKind) (pending : List Text) (statement : Text) : Bool :=
  pending.length < CHUNK_FLUSH_STMTS && byteLen pending.flatten + byteLen statement ≤ sqlChunkPayloadLimit driver

def chunkFull (driver : DriverKind) (pending : List Text) : Bool :=
  pending.length ≥ CHUNK_FLUSH_STMTS || byteLen pending.flatten ≥ sqlChunkPayloadLimit driver

/-- The request of a chunk. -/
def request (driver : DriverKind) (state : Importer) (chunk : List Text) : Query :=
  chunkQuery driver (schemaForCall state) chunk.flatten

/-- A failed chunk ends its segment. -/
def endsSegment (policy : ConflictPolicy) (kind : SegmentKind) : Bool := policy = .Fail || !kind.toleratesErrors

/-- The answer to a request ends the segment. -/
def chunkStops (svc : Service) (policy : ConflictPolicy) (kind : SegmentKind) (calls : List Query) (query : Query) : Bool :=
  endsSegment policy kind && !(svc.execute calls query).isOk

/-- The segment is alive and holds these statements. -/
structure Live (pending : List Text) (state : Importer) : Prop where
  skip : state.segment.skip = false
  failed : state.segment.failed = false
  buffer : state.segment.buffer = pending.flatten
  stmtLines : state.segment.stmtLines = pending.length
  dark : ∀ statement ∈ pending, isBlank statement = false

/-- A segment of the same kind on the same schema, with these calls. -/
structure Follows (state next : Importer) (calls : List Query) : Prop where
  kind : next.segment.kind = state.segment.kind
  schema : next.schema = state.schema
  calls : next.calls = calls

/-- The segment has ended: nothing more is executed in it. -/
def Ended (outcome : Outcome) : Prop :=
  match outcome with
  | .ok state => state.segment.failed = true
  | .error _ => True

variable {svc : Service} {driver : DriverKind} {policy : ConflictPolicy}

variable {calls : List Query}

theorem Follows.request {state next : Importer} (follows : Follows state next calls) (chunk : List Text) :
    request driver next chunk = request driver state chunk := by
  rw [ImportChunks.request, ImportChunks.request, schemaForCall, schemaForCall, follows.kind, follows.schema]

variable {pending : List Text}

private theorem flatten_dark (nonempty : pending ≠ [])
    (dark : ∀ statement ∈ pending, isBlank statement = false) : (trim pending.flatten).isEmpty = false := by
  obtain ⟨statement, rest, rfl⟩ := exists_cons_of_ne_nil nonempty
  have first := dark statement (by simp)
  rw [isBlank, isEmpty_eq_false_iff, Ne, trim_eq_nil_iff] at first
  rw [isEmpty_eq_false_iff, Ne, trim_eq_nil_iff]
  intro blank
  exact first fun c mem => blank c (by simp [mem])

variable {pending : List Text}

theorem flush_live {state : Importer} (live : Live pending state) (nonempty : pending ≠ []) :
    Follows state (flushSegment svc driver policy state).state (state.calls ++ [request driver state pending]) ∧
      if chunkStops svc policy state.segment.kind state.calls (request driver state pending)
      then Ended (flushSegment svc driver policy state) else ∃ next, flushSegment svc driver policy state = .ok next ∧ Live [] next := by
  have dark : (trim state.segment.buffer).isEmpty = false := by
    rw [live.buffer]
    exact flatten_dark nonempty live.dark
  have sent : chunkQuery driver (schemaForCall state) state.segment.buffer = request driver state pending := by rw [request, live.buffer]
  simp only [flushSegment, live.skip, live.failed, dark, Bool.or_self, Bool.false_eq_true, if_false, runChunk, sent]
  cases answer : svc.execute state.calls (request driver state pending) with
  | ok affected =>
    have goes : chunkStops svc policy state.segment.kind state.calls (request driver state pending) = false := by
      simp [chunkStops, answer, Except.toBool]
    simp only [goes, Bool.false_eq_true, if_false]
    exact ⟨⟨rfl, rfl, rfl⟩, _, rfl, rfl, rfl, rfl, rfl, by simp⟩
  | error error =>
    by_cases fail : policy = .Fail
    · subst fail
      have stops : chunkStops svc .Fail state.segment.kind state.calls (request driver state pending) = true := by
        simp [chunkStops, endsSegment, answer, Except.toBool]
      simp only [stops, if_true]
      exact ⟨⟨rfl, rfl, rfl⟩, trivial⟩
    · by_cases tolerates : state.segment.kind.toleratesErrors = true
      · have goes : chunkStops svc policy state.segment.kind state.calls (request driver state pending) = false := by
          simp [chunkStops, endsSegment, fail, tolerates]
        simp only [goes, fail, tolerates, Bool.false_eq_true, if_true, if_false]
        exact ⟨⟨rfl, rfl, rfl⟩, _, rfl, rfl, rfl, rfl, rfl, by simp⟩
      have stops : chunkStops svc policy state.segment.kind state.calls (request driver state pending) = true := by
        simp [chunkStops, endsSegment, answer, tolerates, Except.toBool]
      simp only [stops, fail, tolerates, Bool.false_eq_true, if_true, if_false]
      exact ⟨⟨rfl, rfl, rfl⟩, rfl⟩

/-- The chunks that are executed after these calls. -/
def executed (svc : Service) (driver : DriverKind) (policy : ConflictPolicy) (state : Importer) (chunks : List (List Text)) : List Query :=
  untilStop (chunkStops svc policy state.segment.kind) state.calls (chunks.map (request driver state))

def anyStops (svc : Service) (driver : DriverKind) (policy : ConflictPolicy) (state : Importer) (chunks : List (List Text)) : Bool :=
  stopped (chunkStops svc policy state.segment.kind) state.calls (chunks.map (request driver state))

/-- The segment lives on with these statements. -/
def Holds (pending : List Text) (outcome : Outcome) : Prop := ∃ next, outcome = .ok next ∧ Live pending next

/-- The import has stopped at a statement that is too large. -/
def TooLarge (outcome : Outcome) : Prop := ∃ state, outcome = .error (oversizedStatement, state)

/-- What a step of the queue does: it sends the chunks that it closes, and ends
    as it should unless one of them has stopped it. -/
structure Sends (svc : Service) (driver : DriverKind) (policy : ConflictPolicy) (state : Importer) (chunks : List (List Text))
    (good : Outcome → Prop) (outcome : Outcome) : Prop where
  follows : Follows state outcome.state (state.calls ++ executed svc driver policy state chunks)
  alive : anyStops svc driver policy state chunks = false → good outcome
  ended : anyStops svc driver policy state chunks = true → Ended outcome

theorem sends_none {state next : Importer} (live : Live pending next)
    (kind : next.segment.kind = state.segment.kind) (schema : next.schema = state.schema) (calls : next.calls = state.calls) :
    Sends svc driver policy state [] (Holds pending) (.ok next) where
  follows := ⟨kind, schema, by simpa [executed, untilStop, Outcome.state] using calls⟩
  alive _ := ⟨next, rfl, live⟩
  ended stops := by cases stops

theorem sends_flush {state : Importer} (live : Live pending state) (nonempty : pending ≠ []) :
    Sends svc driver policy state [pending] (Holds []) (flushSegment svc driver policy state) := by
  obtain ⟨follows, outcome⟩ := @flush_live svc driver policy _ _ live nonempty
  constructor
  · simpa [executed, untilStop] using follows
  · intro free
    have goes : chunkStops svc policy state.segment.kind state.calls (request driver state pending) = false := by
      simpa [anyStops, stopped] using free
    simpa [goes, Holds] using outcome
  · intro stop
    have stops : chunkStops svc policy state.segment.kind state.calls (request driver state pending) = true := by
      simpa [anyStops, stopped] using stop
    simpa [stops] using outcome

section
variable {state mid : Importer} (follows : Follows state mid calls) (chunks : List (List Text))
include follows chunks

theorem Follows.anyStops : anyStops svc driver policy mid chunks =
      stopped (chunkStops svc policy state.segment.kind) calls (chunks.map (ImportChunks.request driver state)) := by
  rw [ImportChunks.anyStops, follows.kind, follows.calls, map_congr_left fun chunk _ => follows.request chunk]

theorem Follows.executed : executed svc driver policy mid chunks =
      untilStop (chunkStops svc policy state.segment.kind) calls (chunks.map (ImportChunks.request driver state)) := by
  rw [ImportChunks.executed, follows.kind, follows.calls, map_congr_left fun chunk _ => follows.request chunk]

end

theorem Sends.andThen {chunks more : List (List Text)} {good : Outcome → Prop} {state : Importer}
    {outcome : Outcome} {next : Importer → Outcome} (first : Sends svc driver policy state chunks (Holds pending) outcome)
    (second : ∀ mid, Live pending mid → Sends svc driver policy mid more good (next mid))
    (silent : ∀ mid, mid.segment.failed = true → ∃ same, next mid = .ok same ∧ Follows mid same mid.calls ∧ same.segment.failed = true) :
    Sends svc driver policy state (chunks ++ more) good (outcome.bind next) := by
  cases stops : anyStops svc driver policy state chunks with
  | false =>
    obtain ⟨mid, rfl, live⟩ := first.alive stops
    have all : executed svc driver policy state chunks = chunks.map (request driver state) := untilStop_all stops
    have follows : Follows state mid (state.calls ++ chunks.map (request driver state)) := by simpa [all, Outcome.state] using first.follows
    obtain ⟨later, alive, ended⟩ := second mid live
    rw [follows.anyStops] at alive ended
    rw [follows.executed, follows.calls] at later
    have both : anyStops svc driver policy state (chunks ++ more) =
        stopped (chunkStops svc policy state.segment.kind) (state.calls ++ chunks.map (request driver state))
          (more.map (request driver state)) := by
      rw [anyStops, map_append, stopped_append, ← anyStops, stops, Bool.false_or]
    constructor
    · have sent : executed svc driver policy state (chunks ++ more) = chunks.map (request driver state) ++
          untilStop (chunkStops svc policy state.segment.kind) (state.calls ++ chunks.map (request driver state))
            (more.map (request driver state)) := by
        rw [executed, map_append, untilStop_append, ← anyStops, stops]
        rfl
      rw [sent, ← append_assoc]
      exact ⟨later.kind.trans follows.kind, later.schema.trans follows.schema, later.calls⟩
    · rw [both]
      exact alive
    · rw [both]
      exact ended
  | true =>
    have both : anyStops svc driver policy state (chunks ++ more) = true := by
      rw [anyStops, map_append, stopped_append, ← anyStops, stops, Bool.true_or]
    have sent : executed svc driver policy state (chunks ++ more) = executed svc driver policy state chunks := by
      rw [executed, map_append, untilStop_append, ← anyStops, stops]
      rfl
    have ended := first.ended stops
    have follows := first.follows
    constructor
    · rw [sent]
      cases outcome with
      | error => exact follows
      | ok mid =>
        obtain ⟨same, step, kept, -⟩ := silent mid ended
        rw [Except.bind, step]
        exact ⟨kept.kind.trans follows.kind, kept.schema.trans follows.schema, kept.calls.trans follows.calls⟩
    · intro free
      rw [both] at free
      cases free
    · intro _
      cases outcome with
      | error => trivial
      | ok mid =>
        obtain ⟨same, step, -, failed⟩ := silent mid ended
        rw [Except.bind, step]
        exact failed

private theorem flush_failed (state : Importer) (failed : state.segment.failed = true) :
    ∃ same, flushSegment svc driver policy state = .ok same ∧ Follows state same state.calls ∧ same.segment.failed = true := by
  simp only [flushSegment, failed, Bool.or_true, Bool.true_or, if_true]
  exact ⟨_, rfl, ⟨rfl, rfl, rfl⟩, rfl⟩

variable {statement : Text}

section
variable {state : Importer} (live : Live pending state) (dark : isBlank statement = false)
include live dark

private theorem sends_push :
    Sends svc driver policy state (if chunkFull driver (pending ++ [statement]) then [pending ++ [statement]] else [])
      (Holds (if chunkFull driver (pending ++ [statement]) then [] else pending ++ [statement]))
      (pushStatement svc driver policy statement state) := by
  let pushed := { state with segment := { state.segment with
    buffer := state.segment.buffer ++ statement
    stmtLines := state.segment.stmtLines + 1 } }
  have grown : Live (pending ++ [statement]) pushed := by
    refine ⟨live.skip, live.failed, by simp [pushed, live.buffer], by simp [pushed, live.stmtLines], ?_⟩
    rintro other mem
    rcases mem_append.mp mem with old | new
    · exact live.dark other old
    · rwa [mem_singleton.mp new]
  have same : (decide (pushed.segment.stmtLines ≥ CHUNK_FLUSH_STMTS) ||
      decide (byteLen pushed.segment.buffer ≥ sqlChunkPayloadLimit driver)) = chunkFull driver (pending ++ [statement]) := by
    rw [chunkFull, grown.stmtLines, grown.buffer]
  rw [pushStatement]
  rw [same]
  split_ifs with full
  · have start : Sends svc driver policy state [] (Holds (pending ++ [statement])) (.ok pushed) := sends_none grown rfl rfl rfl
    exact start.andThen (fun mid live => sends_flush live (by simp)) flush_failed
  · exact sends_none grown rfl rfl rfl

theorem sends_queue (fits : byteLen statement ≤ sqlChunkPayloadLimit driver) :
    Sends svc driver policy state (push (statementFits driver) (chunkFull driver) pending statement).1
      (Holds (push (statementFits driver) (chunkFull driver) pending statement).2) (queueStatement svc driver policy statement state) := by
  have blank : (trim statement).isEmpty = false := dark
  simp only [queueStatement, blank, live.skip, live.failed, Bool.or_self, Bool.false_eq_true, if_false, not_lt.mpr fits]
  have continues (state : Importer) (failed : state.segment.failed = true) : ∃ same,
      (if state.segment.failed = true then Except.ok state else pushStatement svc driver policy statement state) = .ok same ∧
        Follows state same state.calls ∧ same.segment.failed = true :=
    ⟨state, by rw [if_pos failed], ⟨rfl, rfl, rfl⟩, failed⟩
  have pushes {held : List Text} (mid : Importer) (live : Live held mid) :
      Sends svc driver policy mid (if chunkFull driver (held ++ [statement]) then [held ++ [statement]] else [])
        (Holds (if chunkFull driver (held ++ [statement]) then [] else held ++ [statement]))
        (if mid.segment.failed = true then Except.ok mid else pushStatement svc driver policy statement mid) := by
    have same : (if mid.segment.failed = true then Except.ok mid else pushStatement svc driver policy statement mid) =
        pushStatement svc driver policy statement mid := if_neg (by simp [live.failed])
    rw [same]
    exact sends_push live dark
  have closes : (!state.segment.buffer.isEmpty && (decide (state.segment.stmtLines ≥ CHUNK_FLUSH_STMTS) ||
      decide (byteLen state.segment.buffer + byteLen statement > sqlChunkPayloadLimit driver))) =
        decide (pending ≠ [] ∧ statementFits driver pending statement = false) := by
    rw [live.buffer, live.stmtLines]
    by_cases empty : pending = []
    · simp [empty]
    have filled : pending.flatten.isEmpty = false := by
      rw [isEmpty_eq_false_iff]
      intro none
      have dark := flatten_dark empty live.dark
      rw [none] at dark
      cases dark
    simp only [filled, Bool.not_false, Bool.true_and, empty, ne_eq, not_false_eq_true, true_and, statementFits]
    rw [Bool.eq_iff_iff]
    simp only [Bool.or_eq_true, decide_eq_true_eq, Bool.and_eq_false_iff, decide_eq_false_iff_not]
    omega
  rw [closes, push]
  by_cases flushes : pending ≠ [] ∧ statementFits driver pending statement = false
  · have both := (@sends_flush svc driver policy _ _ live flushes.1).andThen pushes continues
    rw [nil_append] at both
    rw [if_pos flushes, if_pos (decide_eq_true flushes)]
    split_ifs at both ⊢ with full
    · exact both
    · exact both
  · have start : Sends svc driver policy state [] (Holds pending) (.ok state) := sends_none live rfl rfl rfl
    have both := start.andThen pushes continues
    have stays : ¬ decide (pending ≠ [] ∧ statementFits driver pending statement = false) = true := by
      rw [decide_eq_true_eq]
      exact flushes
    split_ifs at both ⊢ with full
    · exact both
    · exact both

end

/-- The statements that reach the queue: not blank, and none behind the first
    one that is too large. -/
def accepted (driver : DriverKind) (statements : List Text) : List Text :=
  (statements.filter fun statement => !isBlank statement).takeWhile fun statement => byteLen statement ≤ sqlChunkPayloadLimit driver

def oversized (driver : DriverKind) (statements : List Text) : Bool :=
  statements.any fun statement => !isBlank statement && sqlChunkPayloadLimit driver < byteLen statement

/-- The chunks of the statements; the last one is not sent when a statement is
    too large. -/
def chunks (driver : DriverKind) (pending statements : List Text) : List (List Text) :=
  let collected := collect (statementFits driver) (chunkFull driver) pending (accepted driver statements)
  collected.1 ++ if oversized driver statements then [] else last collected.2

variable {statements : List Text}

private theorem importStatements_failed (state : Importer) (failed : state.segment.failed = true) :
    ∃ same, importStatements svc driver policy statements state = .ok same ∧ Follows state same state.calls ∧
      same.segment.failed = true := by
  induction statements with
  | nil => exact flush_failed state failed
  | cons statement rest ih =>
    have queue : queueStatement svc driver policy statement state = .ok state := by simp [queueStatement, failed]
    rw [importStatements, queue]
    exact ih

variable (rest : List Text)

theorem accepted_blank (blank : isBlank statement = true) : accepted driver (statement :: rest) = accepted driver rest := by
  simp [accepted, blank]

theorem accepted_large (dark : isBlank statement = false)
    (large : sqlChunkPayloadLimit driver < byteLen statement) : accepted driver (statement :: rest) = [] := by
  simp [accepted, dark, large]

theorem accepted_cons (dark : isBlank statement = false) (fits : byteLen statement ≤ sqlChunkPayloadLimit driver) :
    accepted driver (statement :: rest) = statement :: accepted driver rest := by
  simp [accepted, dark, fits]

theorem oversized_cons (fits : byteLen statement ≤ sqlChunkPayloadLimit driver) :
    oversized driver (statement :: rest) = oversized driver rest := by
  rw [oversized, any_cons, decide_eq_false (not_lt.mpr fits), Bool.and_false, Bool.false_or]
  rfl

theorem chunks_cons (dark : isBlank statement = false) (fits : byteLen statement ≤ sqlChunkPayloadLimit driver) :
    chunks driver pending (statement :: rest) = (push (statementFits driver) (chunkFull driver) pending statement).1 ++
      chunks driver (push (statementFits driver) (chunkFull driver) pending statement).2 rest := by
  rw [chunks, accepted_cons rest dark fits, oversized_cons rest fits, collect]
  exact append_assoc ..

theorem importStatements_sends {statements : List Text} {state : Importer} (live : Live pending state) :
    Sends svc driver policy state (chunks driver pending statements)
      (if oversized driver statements then TooLarge else Holds []) (importStatements svc driver policy statements state) := by
  induction statements generalizing pending state with
  | nil =>
    change Sends svc driver policy state ([] ++ last pending) (Holds []) (flushSegment svc driver policy state)
    by_cases empty : pending = []
    · subst empty
      have blank : (trim state.segment.buffer).isEmpty = true := by
        rw [live.buffer]
        rfl
      simp only [flushSegment, blank, Bool.or_true, if_true]
      exact sends_none ⟨live.skip, live.failed, rfl, rfl, by simp⟩ rfl rfl rfl
    · rw [last, if_neg empty]
      exact sends_flush live empty
  | cons statement rest ih =>
    cases blank : isBlank statement with
    | true =>
      have queue : queueStatement svc driver policy statement state = .ok state := by
        have empty : (trim statement).isEmpty = true := blank
        simp [queueStatement, empty]
      have same : chunks driver pending (statement :: rest) = chunks driver pending rest := by
        simp [chunks, accepted_blank rest blank, oversized, blank]
      have large : oversized driver (statement :: rest) = oversized driver rest := by simp [oversized, blank]
      rw [importStatements, queue, same, large]
      exact ih live
    | false =>
      by_cases fits : byteLen statement ≤ sqlChunkPayloadLimit driver
      · rw [chunks_cons rest blank fits, oversized_cons rest fits]
        exact (sends_queue live blank fits).andThen (fun mid alive => ih alive) importStatements_failed
      have queue : queueStatement svc driver policy statement state = .error (oversizedStatement, state) := by
        have dark : (trim statement).isEmpty = false := blank
        simp [queueStatement, dark, live.skip, live.failed, not_le.mp fits]
      have large : oversized driver (statement :: rest) = true := by simp [oversized, blank, not_le.mp fits]
      have none : chunks driver pending (statement :: rest) = [] := by
        simp [chunks, accepted_large rest blank (not_le.mp fits), large, collect]
      rw [importStatements, queue, none, large, if_pos rfl]
      refine ⟨⟨rfl, rfl, by simp [executed, untilStop, Outcome.state, bind, Except.bind]⟩, fun _ => ⟨state, rfl⟩, ?_⟩
      rintro ⟨⟩

/-- A chunk as the importer may send it. -/
structure WithinLimits (driver : DriverKind) (chunk : List Text) : Prop where
  nonempty : chunk ≠ []
  count : chunk.length ≤ CHUNK_FLUSH_STMTS
  bytes : byteLen chunk.flatten ≤ sqlChunkPayloadLimit driver

theorem chunks_withinLimits : ∀ chunk ∈ chunks driver [] statements, WithinLimits driver chunk := by
  have single : ∀ statement ∈ accepted driver statements, WithinLimits driver [statement] := by
    intro statement mem
    have fits := mem_takeWhile_imp mem
    exact ⟨by simp, by simp [CHUNK_FLUSH_STMTS, TRANSFER_BATCH_ITEMS], by simpa using fits⟩
  have grows : ∀ chunk, ∀ statement ∈ accepted driver statements, chunk ≠ [] → WithinLimits driver chunk →
      statementFits driver chunk statement = true → WithinLimits driver (chunk ++ [statement]) := by
    intro chunk statement _ _ _ fits
    simp only [statementFits, Bool.and_eq_true, decide_eq_true_eq] at fits
    refine ⟨by simp, ?_, ?_⟩
    · rw [length_append, length_singleton]
      omega
    · simpa using fits.2
  have start : ([] : List Text) ≠ [] → WithinLimits driver [] := fun nonempty => absurd rfl nonempty
  obtain ⟨closed, left⟩ := @collect_all _ (statementFits driver) (chunkFull driver) _ _ _ start single grows
  refine forall_mem_append.mpr ⟨closed, ?_⟩
  split_ifs with large
  · simp
  intro chunk mem
  unfold last at mem
  split_ifs at mem with empty
  · cases mem
  · rw [mem_singleton.mp mem]
    exact left empty

theorem chunks_flatten (statements : List Text) :
    (chunks driver [] statements).flatten <+: statements.filter fun statement => !isBlank statement := by
  have whole := @flatten_collect _ (statementFits driver) (chunkFull driver) [] (accepted driver statements)
  have start : (chunks driver [] statements).flatten <+: accepted driver statements := by
    rw [nil_append] at whole
    rw [chunks, flatten_append]
    split_ifs
    · exact ⟨(collect (statementFits driver) (chunkFull driver) [] (accepted driver statements)).2, by simpa using whole⟩
    · rw [flatten_last, whole]
  exact start.trans ( takeWhile_prefix _)

theorem chunks_complete (small : oversized driver statements = false) :
    (chunks driver [] statements).flatten = statements.filter fun statement => !isBlank statement := by
  have all : accepted driver statements = statements.filter fun statement => !isBlank statement := by
    rw [accepted, takeWhile_eq_self_iff]
    intro statement mem
    obtain ⟨inside, dark⟩ := mem_filter.mp mem
    have fits := any_eq_false.mp small statement inside
    simpa [dark] using fits
  rw [chunks, small, if_neg (by simp), flatten_append, flatten_last, flatten_collect, all, nil_append]

theorem importStatements_silent {state : Importer} (silent : state.segment.skip = true ∨ state.segment.failed = true) :
    (importStatements svc driver policy statements state).state.calls = state.calls := by
  have dead : (state.segment.skip || state.segment.failed) = true := by simpa using silent
  induction statements with
  | nil => simp [importStatements, flushSegment, dead, Outcome.state]
  | cons statement rest ih =>
    have queue : queueStatement svc driver policy statement state = .ok state := by simp [queueStatement, Bool.or_assoc, dead]
    rw [importStatements, queue]
    exact ih

/-- The chunk behind these is answered. -/
def answered (svc : Service) (driver : DriverKind) (state : Importer) (before : List (List Text)) (chunk : List Text) : Bool :=
  (svc.execute (state.calls ++ before.map (request driver state)) (request driver state chunk)).isOk

/-- A segment that begins with an empty buffer executes its statements in chunks:
    in their order and each one once, nothing behind a failure that the segment
    does not survive, and all of them when there is no such failure and none of
    them is too large. -/
theorem chunks_conserved {state : Importer} (buffer : state.segment.buffer = []) (stmtLines : state.segment.stmtLines = 0)
    (statements : List Text) : ∃ sent : List (List Text),
      (importStatements svc driver policy statements state).state.calls = state.calls ++ sent.map (request driver state) ∧
      (sent.flatten <+: statements.filter fun statement => !isBlank statement) ∧ (∀ chunk ∈ sent, WithinLimits driver chunk) ∧
      (state.segment.skip = true ∨ state.segment.failed = true → sent = []) ∧
      (∀ before chunk after, sent = before ++ chunk :: after → endsSegment policy state.segment.kind = true →
        answered svc driver state before chunk = false → after = []) ∧
      (state.segment.skip = false → state.segment.failed = false → oversized driver statements = false →
        (∀ before chunk after, sent = before ++ chunk :: after → endsSegment policy state.segment.kind = true →
          answered svc driver state before chunk = true) → (sent.flatten = statements.filter fun statement => !isBlank statement) ∧
          ∃ next, importStatements svc driver policy statements state = .ok next ∧ next.segment.failed = false) := by
  by_cases silent : state.segment.skip = true ∨ state.segment.failed = true
  · refine ⟨[], by simpa using importStatements_silent silent, by simp, by simp, fun _ => rfl, by simp, ?_⟩
    intro skip failed
    simp [skip, failed] at silent
  have live : Live [] state := by
    simp only [not_or, Bool.not_eq_true] at silent
    exact ⟨silent.1, silent.2, buffer, stmtLines, by simp⟩
  have sends := @importStatements_sends svc driver policy _ statements _ live
  have taken := prefix_iff_eq_take.mp (@untilStop_isPrefix _ (chunkStops svc policy state.segment.kind) state.calls
    ((chunks driver [] statements).map (request driver state)))
  generalize size : (untilStop (chunkStops svc policy state.segment.kind) state.calls
    ((chunks driver [] statements).map (request driver state))).length = n at taken
  rw [← map_take] at taken
  refine ⟨(chunks driver [] statements).take n, ?_, ?_, ?_, fun dead => absurd dead silent, ?_, ?_⟩
  · rw [sends.follows.calls, executed, taken]
  · have start : ((chunks driver [] statements).take n).flatten <+: (chunks driver [] statements).flatten :=
      ⟨((chunks driver [] statements).drop n).flatten, by rw [← flatten_append, take_append_drop]⟩
    exact start.trans (chunks_flatten statements)
  · exact fun chunk mem => chunks_withinLimits chunk (mem_of_mem_take mem)
  · intro before chunk after split ends failed
    rw [split, map_append, map_cons] at taken
    have stop : chunkStops svc policy state.segment.kind (state.calls ++ before.map (request driver state))
        (request driver state chunk) = true := by
      rw [answered] at failed
      simp [chunkStops, ends, failed]
    simpa using untilStop_last taken stop
  · intro _ _ small free
    have goes : anyStops svc driver policy state (chunks driver [] statements) = false := by
      by_contra stops
      obtain ⟨before, query, sent, stop⟩ := stopped_untilStop (by simpa [anyStops] using stops)
      obtain ⟨front, rest, split, rfl, tail⟩ := map_eq_append_iff.mp (taken.symm.trans sent)
      obtain ⟨chunk, rfl, rfl⟩ : ∃ chunk, rest = [chunk] ∧ request driver state chunk = query := by simpa using tail
      simp only [chunkStops, Bool.and_eq_true, Bool.not_eq_true'] at stop
      have fine := free front chunk [] split stop.1
      rw [answered, stop.2] at fine
      cases fine
    have all : n = (chunks driver [] statements).length := by rw [← size, untilStop_all goes, length_map]
    obtain ⟨next, ok, alive⟩ : Holds [] (importStatements svc driver policy statements state) := by simpa [small] using sends.alive goes
    exact ⟨by rw [all, take_length, chunks_complete small], next, ok, alive.failed⟩

/-- A connection that accepts everything. -/
def acceptsAll : Service where
  execute _ _ := .ok 1
  listSchemas _ := .ok []
  listTables _ _ := .ok []

theorem chunks_conserved_one : ∃ sent : List (List Text),
      (importStatements acceptsAll .Mysql .Fail ["SELECT 1;\n".toList, " ".toList] {}).state.calls = sent.map (request .Mysql {}) ∧
      sent.flatten = ["SELECT 1;\n".toList] := by
  obtain ⟨sent, calls, -, -, -, -, all⟩ := @chunks_conserved acceptsAll .Mysql .Fail {} rfl rfl ["SELECT 1;\n".toList, " ".toList]
  obtain ⟨whole, -⟩ := all rfl rfl (by decide) (fun _ _ _ _ _ => rfl)
  exact ⟨sent, by simpa using calls, by rw [whole]; decide⟩

/-- A text that is one byte too large. -/
def largeStatement : Text := List.replicate (TRANSFER_BATCH_BYTES + 1) ';'

theorem chunks_conserved_oversized : (importStatements acceptsAll .Postgres .Fail ["SELECT 1;\n", largeStatement] {}).state.calls = [] := by
  have size : ∀ n, byteLen (List.replicate n ';') = n := by
    intro n
    induction n with
    | zero => rfl
    | succ n ih =>
      rw [replicate_succ, byteLen_cons, ih, Nat.add_comm]
      rfl
  have dark : isBlank largeStatement = false := by
    rw [isBlank, isEmpty_eq_false_iff, Ne, trim_eq_nil_iff]
    intro blank
    have space := blank ';' (by simp [largeStatement])
    cases space
  have large : sqlChunkPayloadLimit .Postgres < byteLen largeStatement := by
    rw [largeStatement, size]
    simp [sqlChunkPayloadLimit, CHUNK_FLUSH_BYTES]
  have first : isBlank "SELECT 1;\n" = false ∧ byteLen "SELECT 1;\n" ≤ sqlChunkPayloadLimit .Postgres := by decide
  have none : chunks .Postgres [] ["SELECT 1;\n", largeStatement] = [] := by
    have stays : push (statementFits .Postgres) (chunkFull .Postgres) [] "SELECT 1;\n".toList = ([], ["SELECT 1;\n".toList]) := by decide
    have stops : oversized .Postgres [largeStatement] = true := by simp [oversized, dark, large]
    rw [chunks_cons _ first.1 first.2, stays, chunks, accepted_large [] dark large, stops]
    rfl
  have sends := @importStatements_sends acceptsAll .Postgres .Fail [] ["SELECT 1;\n", largeStatement] {}
    ⟨rfl, rfl, rfl, rfl, by simp⟩
  rw [sends.follows.calls, none]
  rfl

end Ramag.ImportChunks
