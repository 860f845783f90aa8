import Mathlib.Algebra.BigOperators.Group.List.Basic
import Ramag.KafkaRecords
import Ramag.Runs

/-!
The live tail of a topic. The tail is one thread; what its consumer and its sink
answer and when it is cancelled is up to the steps of a run.
-/
namespace Ramag.KafkaTail
open Strings Domain KafkaRecords
open DataSyncGate (saturatingAdd)

def MAX_TAIL_RECONNECT_ATTEMPTS : Nat := 3

/-- The largest `i64`; the offset after the last one of a log is not beyond it. -/
def I64_MAX : Int := 2 ^ 63 - 1

inductive KafkaMessageTailStart
  | Latest
  | Earliest
  | Offset (offset : Int)

structure KafkaMessageTailRequest where
  topic : Text
  partitions : List Int
  start : KafkaMessageTailStart
  maxMessageBytes : Nat

inductive KafkaMessageTailEvent
  | Message (record : KafkaMessageRecord)
  | Dropped (records bytes : Nat)
  | Reconnecting (attempt : Nat)
  | Connected (attempt : Nat)

inductive KafkaMessageTailSinkResult
  | Accepted
  | Backpressured
  | Closed
  deriving DecidableEq

/-- The errors of the client, as far as the tail tells them apart. -/
inductive TailError
  | Kafka (retryable : Bool)
  | Other
  deriving DecidableEq

def TailError.isRetryable : TailError → Bool
  | .Kafka retryable => retryable
  | .Other => false

structure TailDropStats where
  records : Nat := 0
  bytes : Nat := 0
  deriving DecidableEq

namespace TailDropStats

def add (dropped : TailDropStats) (bytes : Nat) : TailDropStats :=
  ⟨saturatingAdd dropped.records 1, saturatingAdd dropped.bytes bytes⟩

def event (dropped : TailDropStats) : Option KafkaMessageTailEvent :=
  if dropped.records > 0 then some (.Dropped dropped.records dropped.bytes) else none

end TailDropStats

/-! ### The state of a tail -/

inductive Ending
  /-- The sink is closed. -/
  | closed
  | cancelled
  | failed (error : TailError)
  /-- The error of a record that is not valid. -/
  | invalid (message : Text)
  deriving DecidableEq

/-- Where the tail stands. -/
inductive Stage
  /-- The first `create_tail_consumer`. -/
  | creating
  /-- The first `Connected`. -/
  | greeting
  /-- The head of the loop. -/
  | polling
  /-- The head of the loop of `reconnect_tail_consumer`. -/
  | reconnecting
  /-- `wait_for_tail_reconnect` -/
  | waiting
  /-- `create_tail_consumer` after the wait. -/
  | recreating
  /-- The `Connected` of a consumer that was made again. -/
  | regreeting
  | ended (ending : Ending)
  deriving DecidableEq

structure TailState where
  stage : Stage := .creating
  nextOffsets : Int → Option Int := fun _ => none
  /-- The position of the consumer in each partition that it was assigned: the offset after the
      message that it delivered last, or the one that it was assigned. -/
  positions : Int → Option Int := fun _ => none
  /-- The drops that no event has reported. -/
  dropped : TailDropStats := {}
  attempt : Nat := 0
  /-- The offsets that the first consumer was assigned. -/
  starts : Int → Option Int := fun _ => none
  /-- The messages that were polled, the latest first. -/
  handled : List KafkaMessageRecord := []
  /-- The events that the sink was given, with its answers, the latest first. -/
  log : List (KafkaMessageTailEvent × KafkaMessageTailSinkResult) := []

inductive Act
  /-- `create_tail_consumer`, with the watermarks and an error of the client. -/
  | create (watermarks : Int → Except TailError (Int × Int)) (client : Except TailError Unit)
  /-- The answer of the sink to `Connected` or `Reconnecting`. -/
  | greet (answer : KafkaMessageTailSinkResult)
  /-- The loop goes on with an empty poll. -/
  | pollNone
  /-- A message is polled; the sink has up to two answers to give. -/
  | pollMessage (record : KafkaMessageRecord) (first second : KafkaMessageTailSinkResult)
  | pollError (error : TailError)
  /-- The head of the loop sees the cancellation; the sink may have an answer to give. -/
  | cancel (answer : KafkaMessageTailSinkResult)
  /-- The wait before a reconnection is over, or it sees the cancellation. -/
  | wait (cancelled : Bool)
  /-- The attempts are used up. -/
  | giveUp

/-- `tail_start_offset` -/
def tailStartOffset (start : KafkaMessageTailStart) (watermarks : Except TailError (Int × Int)) : Except TailError Int :=
  match start with
  | .Offset offset => .ok offset
  | .Earliest => watermarks.map fun (low, _) => max low 0
  | .Latest => watermarks.map fun (low, high) => max (max high low) 0

/-- The loop of `create_tail_consumer`: the offsets to go on from, or where to start. -/
def assignOffsets (start : KafkaMessageTailStart) (watermarks : Int → Except TailError (Int × Int)) :
    List Int → (Int → Option Int) → Except TailError (Int → Option Int)
  | [], next => .ok next
  | partition :: partitions, next =>
    match next partition with
    | some _ => assignOffsets start watermarks partitions next
    | none =>
      match tailStartOffset start (watermarks partition) with
      | .ok offset => assignOffsets start watermarks partitions (Function.update next partition (some offset))
      | .error error => .error error

/-- A closed sink ends the tail. -/
def unlessClosed (answer : KafkaMessageTailSinkResult) (stage : Stage) : Stage :=
  match answer with
  | .Closed => .ended .closed
  | .Accepted | .Backpressured => stage

namespace TailState

variable (request : KafkaMessageTailRequest) (s : TailState)

def goOn (stage : Stage) : TailState := { s with stage }

/-- The sink is given an event. -/
def send (event : KafkaMessageTailEvent) (answer : KafkaMessageTailSinkResult) : TailState :=
  { s with log := (event, answer) :: s.log }

/-- `emit_tail_message` from the message on. -/
def emitMessage (record : KafkaMessageRecord) (answer : KafkaMessageTailSinkResult) : TailState :=
  let sent := s.send (.Message record) answer
  match answer with
  | .Accepted => sent
  | .Backpressured => { sent with dropped := sent.dropped.add record.retainedBytes }
  | .Closed => sent.goOn (.ended .closed)

/-- `emit_tail_message`: the drops are reported first. -/
def emitTailMessage (record : KafkaMessageRecord) (first second : KafkaMessageTailSinkResult) : TailState :=
  match s.dropped.event with
  | none => s.emitMessage record first
  | some event =>
    let sent := s.send event first
    match first with
    | .Accepted => { sent with dropped := {} }.emitMessage record second
    | .Backpressured => { sent with dropped := sent.dropped.add record.retainedBytes }
    | .Closed => sent.goOn (.ended .closed)

/-- What the loop does with a message. -/
def handle (s : TailState) (record : KafkaMessageRecord) (first second : KafkaMessageTailSinkResult) : TailState :=
  let s := { s with
    attempt := 0
    nextOffsets := if record.offset ≥ 0 then
      Function.update s.nextOffsets record.partition (some (min (record.offset + 1) I64_MAX)) else s.nextOffsets
    positions := Function.update s.positions record.partition (some (record.offset + 1))
    handled := record :: s.handled }
  if record.retainedBytes > request.maxMessageBytes then { s with dropped := s.dropped.add record.retainedBytes }
  else
    match record.validate with
    | .error message => s.goOn (.ended (.invalid message))
    | .ok () => s.emitTailMessage record first second

/-- A consumer delivers messages of the topic, of the partitions that it was assigned. -/
def delivers (s : TailState) (record : KafkaMessageRecord) : Bool :=
  record.topic = request.topic && 0 ≤ record.offset && record.offset < I64_MAX && (s.positions record.partition).isSome

/-- The last report, when the loop ends by the cancellation. A report that is accepted settles the drops. -/
def finalReport (answer : KafkaMessageTailSinkResult) : TailState :=
  match s.dropped.event with
  | none => s.goOn (.ended .cancelled)
  | some event =>
    let sent := s.send event answer
    match answer with
    | .Accepted => { sent with dropped := {} }.goOn (.ended .cancelled)
    | .Backpressured => sent.goOn (.ended .cancelled)
    | .Closed => sent.goOn (.ended .closed)

def step (s : TailState) : Act → Option TailState
  | .create watermarks client =>
    match s.stage with
    | .creating =>
      match client, assignOffsets request.start watermarks request.partitions s.nextOffsets with
      | .ok (), .ok offsets => some { s with stage := .greeting, nextOffsets := offsets, positions := offsets, starts := offsets }
      | .error error, _ | .ok (), .error error => some (s.goOn (.ended (.failed error)))
    | .recreating =>
      match client, assignOffsets request.start watermarks request.partitions s.nextOffsets with
      | .ok (), .ok offsets => some { s with stage := .regreeting, nextOffsets := offsets, positions := offsets }
      | .error error, _ | .ok (), .error error => some (s.goOn (if error.isRetryable then .reconnecting else .ended (.failed error)))
    | _ => none
  | .greet answer =>
    match s.stage with
    | .greeting => some ((s.send (.Connected 0) answer).goOn (unlessClosed answer .polling))
    | .reconnecting =>
      if s.attempt < MAX_TAIL_RECONNECT_ATTEMPTS then
        let tried : TailState := { s with attempt := s.attempt + 1 }
        some ((tried.send (.Reconnecting tried.attempt) answer).goOn (unlessClosed answer .waiting))
      else none
    | .regreeting => some ((s.send (.Connected s.attempt) answer).goOn (unlessClosed answer .polling))
    | _ => none
  | .pollNone => if s.stage = .polling then some s else none
  | .pollMessage record first second =>
    if s.stage = .polling ∧ s.delivers request record then some (s.handle request record first second) else none
  | .pollError error =>
    if s.stage = .polling then some (s.goOn (if error.isRetryable then .reconnecting else .ended (.failed error))) else none
  | .cancel answer => if s.stage = .polling then some (s.finalReport answer) else none
  | .wait cancelled => if s.stage = .waiting then some (s.goOn (if cancelled then .ended .cancelled else .recreating)) else none
  | .giveUp =>
    if s.stage = .reconnecting ∧ ¬ s.attempt < MAX_TAIL_RECONNECT_ATTEMPTS then
      some (s.goOn (.ended (.failed (.Kafka true))))
    else none

end TailState

/-! ### What a run of the tail keeps -/

open Runs List Function

/-- The messages of a partition that were polled, the latest first. -/
def handledOf (partition : Int) (handled : List KafkaMessageRecord) : List KafkaMessageRecord :=
  handled.filter fun record => record.partition = partition

/-- Each partition is handled from its start on, upwards, and goes on after the last message. -/
structure Places (positions starts : Int → Option Int) (handled : List KafkaMessageRecord) : Prop where
  rising : ∀ partition, ((handledOf partition handled).map KafkaMessageRecord.offset).Pairwise (· > ·)
  begins : ∀ record ∈ handled, ∃ start, starts record.partition = some start ∧ start ≤ record.offset
  resumes : ∀ partition, positions partition =
    match handledOf partition handled with
    | [] => starts partition
    | last :: _ => some (last.offset + 1)

theorem places_fresh (starts : Int → Option Int) : Places starts starts [] :=
  ⟨fun _ => .nil, fun _ mem => absurd mem not_mem_nil, fun _ => rfl⟩

theorem handledOf_same (record : KafkaMessageRecord) (handled : List KafkaMessageRecord) :
    handledOf record.partition (record :: handled) = record :: handledOf record.partition handled := by
  simp [handledOf]

theorem handledOf_other {partition : Int} {record : KafkaMessageRecord} (other : partition ≠ record.partition)
    (handled : List KafkaMessageRecord) : handledOf partition (record :: handled) = handledOf partition handled := by
  simp [handledOf, Ne.symm other]

section Message

variable {positions starts : Int → Option Int} {handled : List KafkaMessageRecord} {record : KafkaMessageRecord} {position : Int}

section
variable (places : Places positions starts handled) (there : positions record.partition = some position)
include places there

theorem Places.before (earlier : KafkaMessageRecord) (mem : earlier ∈ handledOf record.partition handled) : earlier.offset < position := by
  have resumes := places.resumes record.partition
  have rising := places.rising record.partition
  cases split : handledOf record.partition handled with
  | nil => simp [split] at mem
  | cons last rest =>
    simp only [split, there, Option.some.injEq] at resumes
    simp only [split, map_cons, pairwise_cons] at rising
    rw [split] at mem
    rcases mem_cons.mp mem with rfl | mem
    · omega
    · have below := rising.1 earlier.offset (mem_map_of_mem mem)
      omega

theorem Places.message (reached : position ≤ record.offset) :
    Places (update positions record.partition (some (record.offset + 1))) starts (record :: handled) where
  rising := by
    intro partition
    by_cases same : partition = record.partition
    · subst same
      rw [handledOf_same, map_cons, pairwise_cons]
      refine ⟨?_, places.rising _⟩
      intro offset inside
      obtain ⟨earlier, mem, same⟩ := mem_map.mp inside
      have before := places.before there earlier mem
      omega
    · rw [handledOf_other same]
      exact places.rising partition
  begins := by
    intro handledRecord mem
    rcases mem_cons.mp mem with rfl | mem
    · have resumes := places.resumes handledRecord.partition
      cases split : handledOf handledRecord.partition handled with
      | nil =>
        rw [split, there] at resumes
        exact ⟨position, resumes.symm, reached⟩
      | cons last rest =>
        have mine : last ∈ handledOf handledRecord.partition handled := split ▸ mem_cons_self
        have before := places.before there last mine
        obtain ⟨inside, partition⟩ := mem_filter.mp mine
        obtain ⟨start, started, after⟩ := places.begins last inside
        rw [of_decide_eq_true partition] at started
        exact ⟨start, started, by omega⟩
    · exact places.begins handledRecord mem
  resumes := by
    intro partition
    by_cases same : partition = record.partition
    · subst same
      rw [handledOf_same, update_self]
    · rw [handledOf_other same, update_of_ne same]
      exact places.resumes partition

end

end Message

section Assign

variable {start : KafkaMessageTailStart} {watermarks : Int → Except TailError (Int × Int)} {partitions : List Int}
  {next offsets : Int → Option Int}

theorem assignOffsets_known (known : ∀ partition ∈ partitions, (next partition).isSome) :
    assignOffsets start watermarks partitions next = .ok next := by
  induction partitions with
  | nil => rfl
  | cons partition partitions ih =>
    obtain ⟨offset, there⟩ := Option.isSome_iff_exists.mp (known partition mem_cons_self)
    rw [assignOffsets, there]
    exact ih fun partition mem => known partition (.tail _ mem)

/-- No offset is forgotten, and every partition gets one. -/
theorem assignOffsets_isSome (assigned : assignOffsets start watermarks partitions next = .ok offsets) :
    (∀ partition, (next partition).isSome → offsets partition = next partition) ∧ ∀ partition ∈ partitions, (offsets partition).isSome := by
  induction partitions generalizing next with
  | nil =>
    cases assigned
    exact ⟨fun _ _ => rfl, fun _ mem => absurd mem not_mem_nil⟩
  | cons partition partitions ih =>
    rw [assignOffsets] at assigned
    cases there : next partition with
    | some offset =>
      rw [there] at assigned
      obtain ⟨kept, rest⟩ := ih assigned
      refine ⟨kept, fun other mem => ?_⟩
      rcases mem_cons.mp mem with rfl | mem
      · rw [kept other (by simp [there]), there]
        rfl
      · exact rest other mem
    | none =>
      rw [there] at assigned
      cases begin : tailStartOffset start (watermarks partition) with
      | error error => simp [begin] at assigned
      | ok offset =>
        simp only [begin] at assigned
        obtain ⟨kept, rest⟩ := ih assigned
        refine ⟨fun other known => ?_, fun other mem => ?_⟩
        · have apart : other ≠ partition := by
            rintro rfl
            simp [there] at known
          have same : update next partition (some offset) other = next other := update_of_ne apart _ _
          rw [kept other (by rw [same]; exact known), same]
        · rcases mem_cons.mp mem with rfl | mem
          · rw [kept other (by simp)]
            simp
          · exact rest other mem

theorem assignOffsets_start (assigned : assignOffsets start watermarks partitions next = .ok offsets) {partition offset : Int}
    (there : offsets partition = some offset) :
    next partition = some offset ∨ tailStartOffset start (watermarks partition) = .ok offset := by
  induction partitions generalizing next with
  | nil =>
    cases assigned
    exact .inl there
  | cons first partitions ih =>
    rw [assignOffsets] at assigned
    cases known : next first with
    | some old =>
      rw [known] at assigned
      exact ih assigned
    | none =>
      rw [known] at assigned
      cases begin : tailStartOffset start (watermarks first) with
      | error error => simp [begin] at assigned
      | ok chosen =>
        simp only [begin] at assigned
        rcases ih assigned with updated | started
        · by_cases same : partition = first
          · rw [same, update_self] at updated
            exact .inr (by rw [same, begin, Option.some.inj updated])
          · rw [update_of_ne same] at updated
            exact .inl updated
        · exact .inr started

end Assign

/-- The messages that the sink has accepted. -/
def delivered (log : List (KafkaMessageTailEvent × KafkaMessageTailSinkResult)) : List KafkaMessageRecord :=
  log.filterMap fun
    | (.Message record, .Accepted) => some record
    | _ => none

/-- The drops that the sink has accepted the report of. -/
def reports (log : List (KafkaMessageTailEvent × KafkaMessageTailSinkResult)) : List TailDropStats :=
  log.filterMap fun
    | (.Dropped records bytes, .Accepted) => some ⟨records, bytes⟩
    | _ => none

/-- The drops are those of the messages. -/
structure Counts (dropped : TailDropStats) (messages : List KafkaMessageRecord) : Prop where
  records : dropped.records = messages.length
  bytes : dropped.bytes = (messages.map KafkaMessageRecord.retainedBytes).sum

/-- Every message is with the sink, or counted in one report, or pending. -/
def Accounted (handled : List KafkaMessageRecord) (log : List (KafkaMessageTailEvent × KafkaMessageTailSinkResult))
    (dropped : TailDropStats) : Prop :=
  ∃ batches pending, handled.Perm (delivered log ++ (List.flatten batches ++ pending)) ∧
    List.Forall₂ Counts (reports log) batches ∧ Counts dropped pending

section Accounts

variable {handled : List KafkaMessageRecord} {log : List (KafkaMessageTailEvent × KafkaMessageTailSinkResult)}
  {dropped : TailDropStats} {record : KafkaMessageRecord}

theorem accounted_fresh : Accounted [] [] {} := ⟨[], [], .refl _, .nil, rfl, rfl⟩

section
variable (accounted : Accounted handled log dropped)
include accounted

theorem Accounted.accept : Accounted (record :: handled) ((.Message record, .Accepted) :: log) dropped := by
  obtain ⟨batches, pending, split, reported, counts⟩ := accounted
  exact ⟨batches, pending, split.cons record, reported, counts⟩

theorem Accounted.refuse (event : KafkaMessageTailEvent)
    (answer : KafkaMessageTailSinkResult) (refused : answer ≠ .Accepted) : Accounted handled ((event, answer) :: log) dropped := by
  cases answer with
  | Accepted => exact absurd rfl refused
  | Backpressured | Closed => cases event <;> exact accounted

theorem Accounted.report : Accounted handled ((.Dropped dropped.records dropped.bytes, .Accepted) :: log) {} := by
  obtain ⟨batches, pending, split, reported, counts⟩ := accounted
  refine ⟨pending :: batches, [], split.trans (List.Perm.append_left _ ?_), .cons counts reported, rfl, rfl⟩
  rw [flatten_cons, append_nil]
  exact perm_append_comm

theorem Accounted.drop (room : dropped.records + 1 < 2 ^ 64)
    (fits : dropped.bytes + record.retainedBytes < 2 ^ 64) : Accounted (record :: handled) log (dropped.add record.retainedBytes) := by
  obtain ⟨batches, pending, split, reported, counts⟩ := accounted
  refine ⟨batches, record :: pending, ?_, reported, ?_, ?_⟩
  · rw [← append_assoc] at split ⊢
    exact (split.cons record).trans perm_middle.symm
  · have same := counts.records
    simp only [TailDropStats.add, saturatingAdd, length_cons]
    omega
  · have same := counts.bytes
    simp only [TailDropStats.add, saturatingAdd, map_cons, sum_cons]
    omega

theorem Accounted.settled (none : dropped.records = 0) : dropped = {} := by
  obtain ⟨batches, pending, split, reported, counts⟩ := accounted
  have empty : pending = [] := length_eq_zero_iff.mp (counts.records.symm.trans none)
  have bytes := counts.bytes
  cases dropped
  simp_all

end

end Accounts

namespace TailState

variable {request : KafkaMessageTailRequest} {s s' : TailState}

/-- What every state of a tail promises. -/
structure Sound (request : KafkaMessageTailRequest) (s : TailState) : Prop where
  begun : ∃ watermarks : Int → Except TailError (Int × Int), ∀ partition start, s.starts partition = some start →
    tailStartOffset request.start (watermarks partition) = .ok start
  places : Places s.positions s.starts s.handled
  accounted : Accounted s.handled s.log s.dropped
  settled : ∀ ending, s.stage = .ended ending → ending ≠ .closed → s.dropped = {}
  unfailed : ∀ message, s.stage ≠ .ended (.invalid message)

/-- The steps that keep the promises. -/
def Allowed (request : KafkaMessageTailRequest) (s : TailState) : Act → Prop
  | .pollMessage record first second =>
    (∀ position, s.positions record.partition = some position → position ≤ record.offset) ∧
      s.dropped.records + 1 < 2 ^ 64 ∧ s.dropped.bytes + record.retainedBytes < 2 ^ 64 ∧
      (record.retainedBytes ≤ request.maxMessageBytes → record.validate = .ok () ∧ first ≠ .Closed ∧
        (s.dropped.records > 0 → first = .Accepted → second ≠ .Closed))
  | .pollError error => error.isRetryable = false → s.dropped.records = 0
  | .create _ client => ∀ error, client = .error error → error.isRetryable = false → s.dropped.records = 0
  | .wait cancelled => cancelled = true → s.dropped.records = 0
  | .giveUp => s.dropped.records = 0
  | .cancel answer => s.dropped.records > 0 → answer ≠ .Backpressured
  | .greet _ | .pollNone => True

/-- The stages between the first consumer and the end. -/
def Started : Stage → Prop
  | .creating | .ended _ => False
  | _ => True

structure Kept (request : KafkaMessageTailRequest) (s : TailState) : Prop extends s.Sound request where
  fresh : s.stage = .creating → s.nextOffsets = (fun _ => none) ∧ s.handled = [] ∧ s.dropped = {}
  same : s.nextOffsets = s.positions
  known : Started s.stage → ∀ partition ∈ request.partitions, (s.nextOffsets partition).isSome

theorem start_kept : Kept request {} where
  begun := ⟨fun _ => .error .Other, nofun⟩
  places := places_fresh _
  accounted := accounted_fresh
  settled := by
    intro ending ended
    cases ended
  unfailed := by
    intro message ended
    cases ended
  fresh := fun _ => ⟨rfl, rfl, rfl⟩
  same := rfl
  known := False.elim

theorem Kept.going (kept : Kept request s) (stage : Stage) (going : Started stage) (started : Started s.stage) :
    Kept request (s.goOn stage) where
  begun := kept.begun
  places := kept.places
  accounted := kept.accounted
  settled := by
    rintro ending rfl
    exact going.elim
  unfailed := by
    rintro message rfl
    exact going
  fresh := by
    rintro rfl
    exact going.elim
  same := kept.same
  known := fun _ => kept.known started

theorem Kept.ending (kept : Kept request s) (ending : Ending) (fine : ∀ message, ending ≠ .invalid message)
    (none : ending = .closed ∨ s.dropped.records = 0) : Kept request (s.goOn (.ended ending)) where
  begun := kept.begun
  places := kept.places
  accounted := kept.accounted
  settled := by
    rintro other same notClosed
    cases same
    exact kept.accounted.settled (none.resolve_left notClosed)
  unfailed := by
    intro message same
    exact fine message (Stage.ended.inj same)
  fresh := by
    intro same
    cases same
  same := kept.same
  known := False.elim

variable {answer : KafkaMessageTailSinkResult}

theorem Kept.send (kept : Kept request s) {event : KafkaMessageTailEvent}
    (accounted : Accounted s.handled ((event, answer) :: s.log) s.dropped) : Kept request (s.send event answer) :=
  { kept with accounted := accounted }

theorem Kept.closes (kept : Kept request s) (stage : Stage) (answer : KafkaMessageTailSinkResult) (going : Started stage)
    (started : Started s.stage) : Kept request (s.goOn (unlessClosed answer stage)) := by
  cases answer with
  | Closed => exact kept.ending .closed nofun (.inl rfl)
  | Accepted | Backpressured => exact kept.going stage going started

theorem Kept.create (kept : Kept request s) {watermarks : Int → Except TailError (Int × Int)} {client : Except TailError Unit}
    (allowed : Allowed request s (.create watermarks client)) (stepped : step request s (.create watermarks client) = some s') :
    Kept request s' := by
  simp only [step] at stepped
  cases stage : s.stage with
  | creating =>
    obtain ⟨blank, none, clean⟩ := kept.fresh stage
    have fails : ∀ error, Kept request (s.goOn (.ended (.failed error))) := by
      intro error
      exact kept.ending (.failed error) nofun (.inr (by rw [clean]))
    simp only [stage] at stepped
    cases client with
    | error error =>
      cases stepped
      exact fails error
    | ok =>
      cases assigned : assignOffsets request.start watermarks request.partitions s.nextOffsets with
      | error error =>
        simp only [assigned, Option.some.injEq] at stepped
        subst stepped
        exact fails error
      | ok offsets =>
        simp only [assigned, Option.some.injEq] at stepped
        subst stepped
        exact {
          begun := by
            refine ⟨watermarks, fun partition start there => ?_⟩
            rcases assignOffsets_start assigned there with known | started
            · rw [blank] at known
              cases known
            · exact started
          places := by
            rw [none]
            exact places_fresh offsets
          accounted := kept.accounted
          settled := by
            intro ending ended
            cases ended
          unfailed := by
            intro message ended
            cases ended
          fresh := by
            intro same
            cases same
          same := rfl
          known := fun _ => (assignOffsets_isSome assigned).2 }
  | recreating =>
    have started : Started s.stage := stage ▸ trivial
    simp only [stage, assignOffsets_known (kept.known started)] at stepped
    cases client with
    | error error =>
      cases stepped
      cases retryable : error.isRetryable with
      | true => exact kept.going .reconnecting trivial started
      | false => exact kept.ending (.failed error) nofun (.inr (allowed error rfl retryable))
    | ok =>
      cases stepped
      have going := kept.going .regreeting trivial started
      exact { going with
        places := by
          rw [kept.same]
          exact kept.places
        same := rfl }
  | _ =>
    simp only [stage] at stepped
    cases stepped

/-! ### Messages -/

/-- A message is polled and not accounted for. -/
structure Noted (request : KafkaMessageTailRequest) (record : KafkaMessageRecord) (rest : List KafkaMessageRecord)
    (s : TailState) : Prop where
  stage : s.stage = .polling
  handled : s.handled = record :: rest
  begun : ∃ watermarks : Int → Except TailError (Int × Int), ∀ partition start, s.starts partition = some start →
    tailStartOffset request.start (watermarks partition) = .ok start
  places : Places s.positions s.starts s.handled
  accounted : Accounted rest s.log s.dropped
  same : s.nextOffsets = s.positions
  known : ∀ partition ∈ request.partitions, (s.nextOffsets partition).isSome

section Message

variable {record : KafkaMessageRecord} {rest : List KafkaMessageRecord}

theorem Noted.kept (noted : Noted request record rest s) {log : List (KafkaMessageTailEvent × KafkaMessageTailSinkResult)}
    {dropped : TailDropStats} (accounted : Accounted (record :: rest) log dropped) : Kept request { s with log, dropped } where
  begun := noted.begun
  places := noted.places
  accounted := by
    rw [← noted.handled] at accounted
    exact accounted
  settled := by
    intro ending ended
    have stage : Stage.polling = .ended ending := noted.stage.symm.trans ended
    cases stage
  unfailed := by
    intro message ended
    have stage : Stage.polling = .ended (.invalid message) := noted.stage.symm.trans ended
    cases stage
  fresh := by
    intro fresh
    have stage : Stage.polling = .creating := noted.stage.symm.trans fresh
    cases stage
  same := noted.same
  known := fun _ => noted.known

theorem Noted.emitMessage (noted : Noted request record rest s) {answer : KafkaMessageTailSinkResult}
    (isOpen : answer ≠ .Closed) (room : s.dropped.records + 1 < 2 ^ 64)
    (fits : s.dropped.bytes + record.retainedBytes < 2 ^ 64) : Kept request (s.emitMessage record answer) := by
  cases answer with
  | Accepted => exact noted.kept noted.accounted.accept
  | Backpressured => exact noted.kept ((noted.accounted.refuse (.Message record) .Backpressured nofun).drop room fits)
  | Closed => exact absurd rfl isOpen

variable {first second : KafkaMessageTailSinkResult}

theorem Noted.emitTailMessage (noted : Noted request record rest s) (isOpen : first ≠ .Closed)
    (stillOpen : s.dropped.records > 0 → first = .Accepted → second ≠ .Closed)
    (room : s.dropped.records + 1 < 2 ^ 64) (fits : s.dropped.bytes + record.retainedBytes < 2 ^ 64) :
    Kept request (s.emitTailMessage record first second) := by
  unfold TailState.emitTailMessage TailDropStats.event
  split_ifs with pending
  · cases first with
    | Accepted =>
      have reported : Noted request record rest
          { s.send (.Dropped s.dropped.records s.dropped.bytes) .Accepted with dropped := {} } :=
        { noted with accounted := noted.accounted.report }
      exact reported.emitMessage (stillOpen pending rfl) (show 0 + 1 < 2 ^ 64 by decide)
        (show 0 + record.retainedBytes < 2 ^ 64 by omega)
    | Backpressured => exact noted.kept ((noted.accounted.refuse (.Dropped s.dropped.records s.dropped.bytes) .Backpressured nofun).drop room fits)
    | Closed => exact absurd rfl isOpen
  · exact noted.emitMessage isOpen room fits

theorem Kept.pollMessage (kept : Kept request s) (allowed : Allowed request s (.pollMessage record first second))
    (polling : s.stage = .polling) (delivers : s.delivers request record = true) : Kept request (s.handle request record first second) := by
  obtain ⟨inOrder, room, fits, fine⟩ := allowed
  simp only [TailState.delivers, Bool.and_eq_true, decide_eq_true_eq] at delivers
  obtain ⟨⟨⟨-, nonneg⟩, below⟩, assigned⟩ := delivers
  obtain ⟨position, there⟩ := Option.isSome_iff_exists.mp assigned
  have places := kept.places.message there (inOrder position there)
  have next : min (record.offset + 1) I64_MAX = record.offset + 1 := by omega
  have noted : Noted request record s.handled
      { s with
        attempt := 0
        nextOffsets := update s.positions record.partition (some (record.offset + 1))
        positions := update s.positions record.partition (some (record.offset + 1))
        handled := record :: s.handled } := by
    refine ⟨polling, rfl, kept.begun, places, kept.accounted, rfl, fun partition mem => ?_⟩
    show (update s.positions record.partition (some (record.offset + 1)) partition).isSome = true
    by_cases same : partition = record.partition
    · rw [same, update_self]
      rfl
    · rw [update_of_ne same, ← kept.same]
      exact kept.known (polling ▸ trivial) partition mem
  unfold TailState.handle
  simp only [ge_iff_le, nonneg, if_true, next, kept.same]
  split_ifs with large
  · exact noted.kept (noted.accounted.drop room fits)
  · obtain ⟨valid, isOpen, stillOpen⟩ := fine (by omega)
    rw [valid]
    exact noted.emitTailMessage isOpen stillOpen room fits

end Message

theorem Kept.cancel (kept : Kept request s) (allowed : Allowed request s (.cancel answer)) : Kept request (s.finalReport answer) := by
  unfold TailState.finalReport TailDropStats.event
  split_ifs with pending
  · cases answer with
    | Accepted =>
      have reported : Kept request { s.send (.Dropped s.dropped.records s.dropped.bytes) .Accepted with dropped := {} } :=
        { kept with
          accounted := kept.accounted.report
          settled := fun _ _ _ => rfl
          fresh := fun fresh => ⟨(kept.fresh fresh).1, (kept.fresh fresh).2.1, rfl⟩ }
      exact reported.ending .cancelled nofun (.inr rfl)
    | Backpressured => exact absurd rfl (allowed pending)
    | Closed =>
      have sent := kept.send (kept.accounted.refuse (.Dropped s.dropped.records s.dropped.bytes) .Closed nofun)
      exact sent.ending .closed nofun (.inl rfl)
  · exact kept.ending .cancelled nofun (.inr (by omega))

theorem Kept.greet (kept : Kept request s) (stepped : step request s (.greet answer) = some s') : Kept request s' := by
  have told : ∀ attempt, Kept request (s.send (.Connected attempt) answer) := by
    intro attempt
    refine kept.send ?_
    cases answer <;> exact kept.accounted
  simp only [step] at stepped
  cases stage : s.stage with
  | greeting =>
    simp only [stage, Option.some.injEq] at stepped
    subst stepped
    exact (told 0).closes .polling answer trivial (show Started s.stage from stage ▸ trivial)
  | reconnecting =>
    simp only [stage] at stepped
    split_ifs at stepped with more
    · cases stepped
      have tried : Kept request { s with attempt := s.attempt + 1 } := { kept with }
      have sent : Kept request (({ s with attempt := s.attempt + 1 } : TailState).send (.Reconnecting (s.attempt + 1)) answer) := by
        refine tried.send ?_
        cases answer <;> exact kept.accounted
      exact sent.closes .waiting answer trivial (show Started s.stage from stage ▸ trivial)
  | regreeting =>
    simp only [stage, Option.some.injEq] at stepped
    subst stepped
    exact (told s.attempt).closes .polling answer trivial (show Started s.stage from stage ▸ trivial)
  | _ =>
    simp only [stage] at stepped
    cases stepped

theorem step_kept {act : Act} (kept : Kept request s) (allowed : Allowed request s act) (stepped : step request s act = some s') :
    Kept request s' := by
  cases act with
  | create watermarks client => exact kept.create allowed stepped
  | greet answer => exact kept.greet stepped
  | pollNone =>
    simp only [step] at stepped
    split_ifs at stepped
    exact Option.some.inj stepped ▸ kept
  | pollMessage record first second =>
    simp only [step] at stepped
    split_ifs at stepped with fits
    exact Option.some.inj stepped ▸ kept.pollMessage allowed fits.1 fits.2
  | pollError error =>
    simp only [step] at stepped
    split_ifs at stepped with polling
    · cases stepped
      exact kept.going .reconnecting trivial (polling ▸ trivial)
    · cases stepped
      rename_i fatal
      exact kept.ending (.failed error) nofun (.inr (allowed (by simpa using fatal)))
  | cancel answer =>
    simp only [step] at stepped
    split_ifs at stepped
    exact Option.some.inj stepped ▸ kept.cancel allowed
  | wait cancelled =>
    simp only [step] at stepped
    split_ifs at stepped with waiting seen
    · cases stepped
      exact kept.ending .cancelled nofun (.inr (allowed seen))
    · cases stepped
      exact kept.going .recreating trivial (waiting ▸ trivial)
  | giveUp =>
    simp only [step] at stepped
    split_ifs at stepped
    exact Option.some.inj stepped ▸ kept.ending (.failed (.Kafka true)) nofun (.inr allowed)

end TailState

open TailState

/-- Every state of a run of allowed steps keeps the promises. -/
theorem tail_sound {request : KafkaMessageTailRequest} {s : TailState} (reached : Reached (step request) (Allowed request) {} s) :
    s.Sound request :=
  (reached.keeps start_kept fun _ _ _ kept allowed stepped => step_kept kept allowed stepped).toSound

def request : KafkaMessageTailRequest := ⟨['t'], [0], .Offset 5, 100⟩

def record (offset : Int) (headers : List KafkaMessageHeader) : KafkaMessageRecord := ⟨['t'], 0, offset, none, none, none, headers⟩

/-- A message is dropped, the connection is lost and made again, and the drop is reported. -/
theorem tail_sound_dropped : ∃ s : TailState, reports s.log = [⟨1, 1⟩] ∧ s.stage = .ended .cancelled ∧ s.Sound request := by
  have follows : ∃ s : TailState, (reports s.log = [⟨1, 1⟩] ∧ s.stage = .ended .cancelled) ∧
      Runs.Follows (step request) (Allowed request) {}
        [.create (fun _ => .ok (0, 9)) (.ok ()), .greet .Accepted, .pollMessage (record 5 []) .Backpressured .Accepted,
          .pollError (.Kafka true), .greet .Accepted, .wait false, .create (fun _ => .ok (0, 9)) (.ok ()), .greet .Accepted,
          .pollMessage (record 8 []) .Accepted .Accepted, .cancel .Accepted] s := by
    refine ⟨_, ?_, nofun, _, rfl, trivial, _, rfl, ?_, _, rfl, nofun, _, rfl, trivial, _, rfl, nofun, _, rfl, nofun, _, rfl, trivial,
      _, rfl, ?_, _, rfl, fun _ => nofun, _, rfl, rfl⟩
    · decide
    · refine ⟨?_, by decide, by decide, by decide⟩
      intro position there
      cases there
      decide
    · refine ⟨?_, by decide, by decide, by decide⟩
      intro position there
      cases there
      decide
  obtain ⟨s, ⟨reported, ended⟩, follows⟩ := follows
  exact ⟨s, reported, ended, tail_sound (Reached.start.follows follows)⟩

/-- A header with an empty key ends the tail. -/
theorem empty_key_ends : ¬ ∀ s : TailState, Reached (step request) (fun _ _ => True) {} s → s.Sound request := by
  intro law
  have follows : ∃ s : TailState, s.stage = .ended (.invalid "Header Key 不能为空") ∧ Runs.Follows (step request) (fun _ _ => True) {}
        [.create (fun _ => .ok (0, 9)) (.ok ()), .greet .Accepted, .pollMessage (record 5 [⟨[], none⟩]) .Accepted .Accepted] s :=
    ⟨_, by decide, trivial, _, rfl, trivial, _, rfl, trivial, _, rfl, rfl⟩
  obtain ⟨s, ended, follows⟩ := follows
  exact (law s (Reached.start.follows follows)).unfailed _ ended

end Ramag.KafkaTail
