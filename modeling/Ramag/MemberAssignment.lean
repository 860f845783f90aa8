import Ramag.BigEndian
import Ramag.Fields
import Ramag.Utf8Decoding
import Ramag.Wires

/-!
The partitions that a member of a Kafka consumer group is assigned, read off
the bytes of the consumer protocol. `ConsumerAssignment.wire` is the form in
which an assignment is sent.
-/
namespace Ramag.MemberAssignment
open Strings ByteTexts Utf8Decoding BigEndian Wires
open Fields (USIZE_VALUES)

def MAX_KAFKA_PARTITIONS : Nat := 1000000
def MAX_KAFKA_GROUP_ASSIGNMENT_BYTES : Nat := 4 * 1024 * 1024

structure KafkaConsumerPartitionAssignment where
  topic : Text
  partition : Int

/-- Where the reading of a slice stands. -/
structure AssignmentReader where
  bytes : List UInt8
  position : Nat
  /-- The ranges that were read, the last one first. -/
  ranges : List (Nat × Nat)
  /-- How many reads were asked for and how many rounds of loops begun. -/
  steps : Nat
  inside : position ≤ bytes.length
  sized : bytes.length < USIZE_VALUES

/-! ### Reading -/

variable (bytes : List UInt8)

def i16FromBeBytes : Int := signed (2 ^ 15) (number bytes)
def i32FromBeBytes : Int := signed (2 ^ 31) (number bytes)

/-- One step more. -/
def AssignmentReader.count (reader : AssignmentReader) : AssignmentReader := { reader with steps := reader.steps + 1 }

def AssignmentReader.advance (reader : AssignmentReader) (length : Nat) (inside : reader.position + length ≤ reader.bytes.length) :
    AssignmentReader :=
  { reader with
    position := reader.position + length
    ranges := (reader.position, reader.position + length) :: reader.ranges
    inside }

/-- `None` is a refusal. -/
def readExact (length : Nat) : Reading AssignmentReader (List UInt8) := fun reader =>
  if fits : reader.position + length < USIZE_VALUES ∧ reader.position + length ≤ reader.bytes.length then
    (some ((reader.bytes.drop reader.position).take length), (reader.advance length fits.2).count)
  else (none, reader.count)

def beginRound : Reading AssignmentReader Unit := fun reader => (some (), reader.count)

def remaining : Reading AssignmentReader Nat := fun reader => (some (reader.bytes.length - reader.position), reader)

def readI16 : Reading AssignmentReader Int := do
  let bytes ← readExact 2
  return i16FromBeBytes bytes

def readI32 : Reading AssignmentReader Int := do
  let bytes ← readExact 4
  return i32FromBeBytes bytes

def readString : Reading AssignmentReader Text := do
  let length ← readI16
  refuseIf (length ≤ 0)
  let bytes ← readExact length.toNat
  given (decode bytes)

def skip (length : Nat) : Reading AssignmentReader Unit := do
  let _ ← readExact length

def readPartition (topic : Text) (assignments : List KafkaConsumerPartitionAssignment) :
    Reading AssignmentReader (List KafkaConsumerPartitionAssignment) := do
  beginRound
  let partition ← readI32
  refuseIf (partition < 0 ∨ MAX_KAFKA_PARTITIONS ≤ assignments.length)
  return assignments ++ [⟨topic, partition⟩]

def readTopic (assignments : List KafkaConsumerPartitionAssignment) :
    Reading AssignmentReader (List KafkaConsumerPartitionAssignment) := do
  beginRound
  let topic ← readString
  let partitionCount ← readI32
  refuseIf (partitionCount < 0 ∨ MAX_KAFKA_PARTITIONS < partitionCount.toNat)
  rounds partitionCount.toNat (readPartition topic) assignments

def skipUserData (userDataLength : Int) : Reading AssignmentReader Unit :=
  if 0 ≤ userDataLength then skip userDataLength.toNat else pure ()

/-- The whole assignment up to the end of its user data. -/
def readAssignments : Reading AssignmentReader (List KafkaConsumerPartitionAssignment) := do
  let _version ← readI16
  let topicCount ← readI32
  refuseIf (topicCount < 0 ∨ MAX_KAFKA_PARTITIONS < topicCount.toNat)
  let assignments ← rounds topicCount.toNat readTopic []
  let userDataLength ← readI32
  refuseIf (userDataLength < -1)
  skipUserData userDataLength
  return assignments

def readToEnd : Reading AssignmentReader (List KafkaConsumerPartitionAssignment) := do
  let assignments ← readAssignments
  let left ← remaining
  refuseIf (left ≠ 0)
  return assignments

def AssignmentReader.start (small : ¬ MAX_KAFKA_GROUP_ASSIGNMENT_BYTES < bytes.length) : AssignmentReader where
  bytes := bytes
  position := 0
  ranges := []
  steps := 0
  inside := Nat.zero_le _
  sized := Nat.lt_of_le_of_lt (Nat.le_of_not_lt small) (by decide)

def decodeMemberAssignment : List KafkaConsumerPartitionAssignment :=
  if large : MAX_KAFKA_GROUP_ASSIGNMENT_BYTES < bytes.length then []
  else (readToEnd (AssignmentReader.start bytes large)).1.getD []

/-- The reader when the decoding is over. -/
def readerAfter (small : ¬ MAX_KAFKA_GROUP_ASSIGNMENT_BYTES < bytes.length) : AssignmentReader :=
  (readToEnd (AssignmentReader.start bytes small)).2

structure TopicPartitions where
  topic : Text
  partitions : List Int

structure ConsumerAssignment where
  version : Int
  topics : List TopicPartitions
  userData : Option (List UInt8)

variable (topic : TopicPartitions)

def TopicPartitions.wire : List UInt8 :=
  bigEndian 2 (asBytes topic.topic).length ++ asBytes topic.topic ++
    bigEndian 4 topic.partitions.length ++ topic.partitions.flatMap (bigEndian 4)

def userDataWire : Option (List UInt8) → List UInt8
  | none => bigEndian 4 (-1)
  | some data => bigEndian 4 data.length ++ data

def ConsumerAssignment.wire (assignment : ConsumerAssignment) : List UInt8 :=
  bigEndian 2 assignment.version ++ bigEndian 4 assignment.topics.length ++
    assignment.topics.flatMap TopicPartitions.wire ++ userDataWire assignment.userData

def TopicPartitions.pairs : List KafkaConsumerPartitionAssignment :=
  topic.partitions.map (⟨topic.topic, ·⟩)

def ConsumerAssignment.pairs (assignment : ConsumerAssignment) : List KafkaConsumerPartitionAssignment :=
  assignment.topics.flatMap TopicPartitions.pairs

def TopicPartitions.Valid : Prop :=
  topic.topic ≠ [] ∧ (asBytes topic.topic).length ≤ 32767 ∧ ∀ partition ∈ topic.partitions, 0 ≤ partition ∧ partition < 2 ^ 31

/-- A valid assignment within the limits. -/
structure ConsumerAssignment.Accepted (assignment : ConsumerAssignment) : Prop where
  version : -2 ^ 15 ≤ assignment.version ∧ assignment.version < 2 ^ 15
  topics : ∀ topic ∈ assignment.topics, topic.Valid
  bytes : assignment.wire.length ≤ MAX_KAFKA_GROUP_ASSIGNMENT_BYTES
  topicCount : assignment.topics.length ≤ MAX_KAFKA_PARTITIONS
  partitionCount : assignment.pairs.length ≤ MAX_KAFKA_PARTITIONS

/-! ### What the decoding reads -/

open List

/-! ### What is read -/

variable (reader : AssignmentReader)

/-- The bytes that are still to be read. -/
def AssignmentReader.rest : List UInt8 := reader.bytes.drop reader.position

theorem AssignmentReader.rest_length : reader.rest.length = reader.bytes.length - reader.position :=
  length_drop

theorem readExact_reads (length : Nat) :
    Reads AssignmentReader.rest (readExact length) fun bytes w => w = bytes ∧ bytes.length = length where
  sound := by
    intro reader bytes after got
    unfold readExact at got
    split at got
    · next fits =>
      cases got
      refine ⟨_, ⟨rfl, ?_⟩, ?_⟩
      · rw [length_take, length_drop]
        omega
      · show reader.bytes.drop reader.position = _ ++ reader.bytes.drop (reader.position + length)
        rw [← drop_drop, take_append_drop]
    · cases got
  complete := by
    rintro reader bytes w rest ⟨rfl, size⟩ shown
    have total := congrArg List.length shown
    rw [AssignmentReader.rest_length, length_append] at total
    have inside := reader.inside
    have sized := reader.sized
    have fits : reader.position + length < USIZE_VALUES ∧ reader.position + length ≤ reader.bytes.length := by omega
    have drop : reader.bytes.drop reader.position = w ++ rest := shown
    refine ⟨(reader.advance length fits.2).count, ?_, ?_⟩
    · unfold readExact
      rw [dif_pos fits, drop, take_left' size]
    · show reader.bytes.drop (reader.position + length) = rest
      rw [← drop_drop, drop, drop_left' size]

theorem beginRound_reads : Reads AssignmentReader.rest beginRound fun _ w => w = [] where
  sound := by
    rintro reader a after ⟨⟩
    exact ⟨[], rfl, rfl⟩
  complete := by
    rintro reader a w rest rfl shown
    exact ⟨_, rfl, shown⟩

theorem readNumber_reads (width half : Nat) (whole : 256 ^ width = 2 * half) :
    Reads AssignmentReader.rest (do let bytes ← readExact width; return signed half (number bytes))
      fun v w => (-(half : Int) ≤ v ∧ v < half) ∧ w = bigEndian width v := by
  refine ((readExact_reads width).bind fun bytes => Reads.pure _).weaken fun v w => ?_
  constructor
  · rintro ⟨range, rfl⟩
    refine ⟨bigEndian width v, _, [], ⟨rfl, bigEndian_length width v⟩, ⟨?_, rfl⟩, (append_nil _).symm⟩
    exact ((signed_number_iff whole (bigEndian_length width v) v).mpr ⟨range, rfl⟩).symm
  · rintro ⟨bytes, _, _, ⟨rfl, length⟩, ⟨rfl, rfl⟩, rfl⟩
    rw [append_nil]
    exact (signed_number_iff whole length _).mp rfl

theorem readI16_reads : Reads AssignmentReader.rest readI16 fun v w => (-2 ^ 15 ≤ v ∧ v < 2 ^ 15) ∧ w = bigEndian 2 v :=
  (readNumber_reads 2 (2 ^ 15) rfl).weaken fun v w => by norm_num

theorem readI32_reads : Reads AssignmentReader.rest readI32 fun v w => (-2 ^ 31 ≤ v ∧ v < 2 ^ 31) ∧ w = bigEndian 4 v :=
  (readNumber_reads 4 (2 ^ 31) rfl).weaken fun v w => by norm_num

theorem readString_reads : Reads AssignmentReader.rest readString fun topic w =>
      (topic ≠ [] ∧ (asBytes topic).length ≤ 32767) ∧ w = bigEndian 2 (asBytes topic).length ++ asBytes topic := by
  refine (readI16_reads.bind fun length => (Reads.refuseIf _).bind fun _ =>
    (readExact_reads _).bind fun bytes => Reads.given _).weaken fun topic w => ?_
  constructor
  · rintro ⟨⟨named, short⟩, rfl⟩
    have positive : 0 < (asBytes topic).length := length_pos_iff.mpr fun empty => named (asBytes_injective (empty.trans asBytes_nil.symm))
    exact ⟨_, _, _, ⟨by omega, rfl⟩, ⟨(), [], _, ⟨by omega, rfl⟩, ⟨_, _, [], ⟨rfl, by omega⟩,
      ⟨decode_asBytes topic, rfl⟩, (append_nil _).symm⟩, rfl⟩, rfl⟩
  · rintro ⟨length, _, _, ⟨range, rfl⟩, ⟨_, _, _, ⟨positive, rfl⟩, ⟨bytes, _, _, ⟨rfl, size⟩, ⟨read, rfl⟩, rfl⟩, rfl⟩, rfl⟩
    obtain rfl := decode_eq_some.mp read
    have size' : length = (asBytes topic).length := by omega
    rw [nil_append, append_nil, size']
    refine ⟨⟨?_, by omega⟩, rfl⟩
    rintro rfl
    rw [asBytes_nil, length_nil] at size
    omega

theorem readPartition_reads (topic : Text) (assignments : List KafkaConsumerPartitionAssignment) :
    Reads AssignmentReader.rest (readPartition topic assignments) fun after w =>
      ∃ partition : Int, (0 ≤ partition ∧ partition < 2 ^ 31) ∧ Room MAX_KAFKA_PARTITIONS assignments [⟨topic, partition⟩] ∧
        after = assignments ++ [⟨topic, partition⟩] ∧ w = bigEndian 4 partition := by
  refine (beginRound_reads.bind fun _ => readI32_reads.bind fun partition =>
    (Reads.refuseIf _).bind fun _ => Reads.pure _).weaken fun after w => ?_
  constructor
  · rintro ⟨partition, ⟨low, high⟩, room, rfl, rfl⟩
    have room' : assignments.length + 1 ≤ MAX_KAFKA_PARTITIONS := room.resolve_left (cons_ne_nil _ _)
    exact ⟨(), [], _, rfl, ⟨partition, _, _, ⟨by omega, rfl⟩, ⟨(), [], [], ⟨by omega, rfl⟩, ⟨rfl, rfl⟩, rfl⟩, (append_nil _).symm⟩, rfl⟩
  rintro ⟨_, _, _, rfl, ⟨partition, _, _, ⟨range, rfl⟩, ⟨_, _, _, ⟨good, rfl⟩, ⟨rfl, rfl⟩, rfl⟩, rfl⟩, rfl⟩
  refine ⟨partition, ⟨by omega, range.2⟩, Or.inr ?_, rfl, ?_⟩
  · rw [length_singleton]
    omega
  · rw [nil_append, nil_append, append_nil]

theorem pairs_flatMap (topic : Text) (partitions : List Int) :
    TopicPartitions.pairs ⟨topic, partitions⟩ = partitions.flatMap fun partition => [⟨topic, partition⟩] := map_eq_flatMap

variable (assignments : List KafkaConsumerPartitionAssignment)

theorem readTopic_reads : Reads AssignmentReader.rest (readTopic assignments) fun after w =>
      ∃ topic : TopicPartitions, topic.Valid ∧ Room MAX_KAFKA_PARTITIONS assignments topic.pairs ∧
        after = assignments ++ topic.pairs ∧ w = topic.wire := by
  refine (beginRound_reads.bind fun _ => readString_reads.bind fun topic => readI32_reads.bind fun count =>
    (Reads.refuseIf _).bind fun _ => Reads.gather (readPartition_reads topic) _ _).weaken fun after w => ?_
  constructor
  · rintro ⟨⟨topic, partitions⟩, ⟨named, short, range⟩, room, rfl, rfl⟩
    have few : partitions.length ≤ 1000000 := by
      rcases room with empty | room
      · obtain rfl : partitions = [] := map_eq_nil_iff.mp empty
        exact Nat.zero_le _
      · rw [TopicPartitions.pairs, length_map] at room
        exact Nat.le_trans (Nat.le_add_left _ _) room
    rw [pairs_flatMap] at room ⊢
    refine ⟨(), [], _, rfl, ⟨topic, _, _, ⟨⟨named, short⟩, rfl⟩, ⟨partitions.length, _, _, ⟨by omega, rfl⟩,
      ⟨(), [], _, ⟨?_, rfl⟩, ⟨partitions, rfl, range, room, rfl, rfl⟩, rfl⟩, rfl⟩, rfl⟩, ?_⟩
    · rw [MAX_KAFKA_PARTITIONS]
      omega
    · simp [TopicPartitions.wire]
  · rintro ⟨_, _, _, rfl, ⟨topic, _, _, ⟨⟨named, short⟩, rfl⟩, ⟨count, _, _, ⟨-, rfl⟩, ⟨_, _, _, ⟨good, rfl⟩,
      ⟨partitions, length, range, room, rfl, rfl⟩, rfl⟩, rfl⟩, rfl⟩, rfl⟩
    have size : count = partitions.length := by omega
    refine ⟨⟨topic, partitions⟩, ⟨named, short, range⟩, ?_, ?_, ?_⟩
    · rw [pairs_flatMap]
      exact room
    · rw [pairs_flatMap]
    · rw [size]
      simp [TopicPartitions.wire]

theorem skipUserData_reads (length : Int) : Reads AssignmentReader.rest (skipUserData length) fun _ w => w.length = length.toNat := by
  unfold skipUserData
  split
  · next given =>
    refine ((readExact_reads _).bind fun _ => Reads.pure ()).weaken fun _ w => ?_
    constructor
    · intro size
      exact ⟨w, w, [], ⟨rfl, size⟩, ⟨rfl, rfl⟩, (append_nil w).symm⟩
    · rintro ⟨_, _, _, ⟨rfl, size⟩, ⟨-, rfl⟩, rfl⟩
      rw [append_nil]
      exact size
  · next absent =>
    refine (Reads.pure ()).weaken fun _ w => ?_
    rw [Int.toNat_of_nonpos (by omega), length_eq_zero_iff]
    simp

/-- What an assignment has to be apart from the length of its wire form. -/
structure ConsumerAssignment.Sound (assignment : ConsumerAssignment) : Prop where
  version : -2 ^ 15 ≤ assignment.version ∧ assignment.version < 2 ^ 15
  topics : ∀ topic ∈ assignment.topics, topic.Valid
  topicCount : assignment.topics.length ≤ MAX_KAFKA_PARTITIONS
  partitionCount : assignment.pairs.length ≤ MAX_KAFKA_PARTITIONS
  userData : ∀ data ∈ assignment.userData, data.length < 2 ^ 31

theorem readAssignments_reads : Reads AssignmentReader.rest readAssignments fun pairs w =>
      ∃ assignment : ConsumerAssignment, assignment.Sound ∧ pairs = assignment.pairs ∧ w = assignment.wire := by
  refine (readI16_reads.bind fun _ => readI32_reads.bind fun count => (Reads.refuseIf _).bind fun _ =>
    (Reads.gather readTopic_reads _ _).bind fun pairs => readI32_reads.bind fun length => (Reads.refuseIf _).bind fun _ =>
      (skipUserData_reads length).bind fun _ => Reads.pure pairs).weaken fun pairs w => ?_
  constructor
  · rintro ⟨⟨version, topics, userData⟩, ⟨range, valid, topicCount, partitionCount, fits⟩, rfl, rfl⟩
    have few : topics.length ≤ 1000000 := topicCount
    have room : Room MAX_KAFKA_PARTITIONS [] (topics.flatMap TopicPartitions.pairs) := Or.inr (by rw [length_nil, Nat.zero_add]; exact partitionCount)
    have topicsRead : Gathered MAX_KAFKA_PARTITIONS TopicPartitions.Valid TopicPartitions.pairs TopicPartitions.wire
        (topics.length : Int).toNat [] (topics.flatMap TopicPartitions.pairs) (topics.flatMap TopicPartitions.wire) :=
      ⟨topics, rfl, valid, room, rfl, rfl⟩
    obtain ⟨length, back, big, read, spelled⟩ : ∃ (length : Int) (back : List UInt8), (-1 ≤ length ∧ length < 2 ^ 31) ∧
        back.length = length.toNat ∧ userDataWire userData = bigEndian 4 length ++ back := by
      cases userData with
      | none => exact ⟨-1, [], by omega, rfl, (append_nil _).symm⟩
      | some data => exact ⟨data.length, data, ⟨by omega, by exact_mod_cast fits data rfl⟩, rfl, rfl⟩
    refine ⟨version, _, _, ⟨range, rfl⟩, ⟨topics.length, _, _, ⟨by omega, rfl⟩, ⟨(), [], _, ⟨?_, rfl⟩,
      ⟨_, _, _, topicsRead, ⟨length, _, _, ⟨by omega, rfl⟩, ⟨(), [], _, ⟨by omega, rfl⟩,
        ⟨(), back, [], read, ⟨rfl, rfl⟩, rfl⟩, rfl⟩, rfl⟩, rfl⟩, rfl⟩, rfl⟩, ?_⟩
    · rw [MAX_KAFKA_PARTITIONS]
      omega
    · rw [ConsumerAssignment.wire, spelled]
      simp
  · rintro ⟨version, _, _, ⟨range, rfl⟩, ⟨count, _, _, ⟨-, rfl⟩, ⟨_, _, _, ⟨good, rfl⟩,
      ⟨_, _, _, ⟨topics, length, valid, room, rfl, rfl⟩, ⟨dataLength, _, _, ⟨fits, rfl⟩, ⟨_, _, _, ⟨sign, rfl⟩,
        ⟨_, data, _, read, ⟨rfl, rfl⟩, rfl⟩, rfl⟩, rfl⟩, rfl⟩, rfl⟩, rfl⟩, rfl⟩
    have few : (topics.flatMap TopicPartitions.pairs).length ≤ MAX_KAFKA_PARTITIONS := by
      rcases room with empty | room
      · rw [empty]
        exact Nat.zero_le _
      · rwa [length_nil, Nat.zero_add] at room
    have size : count = topics.length := by omega
    obtain ⟨userData, spelled, small⟩ : ∃ userData : Option (List UInt8), userDataWire userData = bigEndian 4 dataLength ++ data ∧
        ∀ data ∈ userData, data.length < 2 ^ 31 := by
      by_cases absent : dataLength = -1
      · obtain rfl : data = [] := length_eq_zero_iff.mp (by rw [read, absent]; rfl)
        exact ⟨none, by rw [absent, append_nil]; rfl, by rintro _ ⟨⟩⟩
      have known : dataLength = data.length := by omega
      refine ⟨some data, by rw [known]; rfl, ?_⟩
      rintro _ ⟨⟩
      omega
    refine ⟨⟨version, topics, userData⟩, ⟨range, valid, ?_, few, small⟩, rfl, ?_⟩
    · show topics.length ≤ MAX_KAFKA_PARTITIONS
      omega
    · rw [ConsumerAssignment.wire, spelled, size]
      simp

theorem readToEnd_eq_some {reader : AssignmentReader} {pairs : List KafkaConsumerPartitionAssignment} : (readToEnd reader).1 = some pairs ↔
      ∃ assignment : ConsumerAssignment, assignment.Sound ∧ pairs = assignment.pairs ∧ reader.rest = assignment.wire := by
  have split : (readToEnd reader).1 = some pairs ↔ ∃ after, readToEnd reader = (some pairs, after) :=
    ⟨fun done => ⟨_, Prod.ext done rfl⟩, fun ⟨_, done⟩ => done ▸ rfl⟩
  have ended : ∀ after : AssignmentReader, after.rest = [] ↔ ¬ after.bytes.length - after.position ≠ 0 := by
    intro after
    rw [← length_eq_zero_iff, AssignmentReader.rest_length, not_not]
  rw [split]
  constructor
  · rintro ⟨after, done⟩
    obtain ⟨found, between, read, rest⟩ := bind_some.mp done
    obtain ⟨left, same, counted, rest⟩ := bind_some.mp rest
    cases counted
    obtain ⟨_, after', checked, returned⟩ := bind_some.mp rest
    cases returned
    obtain ⟨w, ⟨assignment, sound, rfl, rfl⟩, shown⟩ := readAssignments_reads.sound read
    unfold refuseIf at checked
    split at checked
    · cases checked
    · next empty =>
      rw [(ended between).mpr empty, append_nil] at shown
      exact ⟨assignment, sound, rfl, shown⟩
  · rintro ⟨assignment, sound, rfl, shown⟩
    obtain ⟨after, read, empty⟩ := readAssignments_reads.complete ⟨assignment, sound, rfl, rfl⟩
      (shown.trans (append_nil _).symm)
    refine ⟨after, bind_some.mpr ⟨_, after, read, bind_some.mpr ⟨_, after, rfl, bind_some.mpr ⟨(), after, ?_, rfl⟩⟩⟩⟩
    unfold refuseIf
    rw [if_neg ((ended after).mp empty)]
    rfl

variable (bytes : List UInt8)

/-- Every range that was read lies in the slice. -/
def RangesInside (reader : AssignmentReader) : Prop :=
  reader.bytes = bytes ∧ ∀ range ∈ reader.ranges, range.1 ≤ range.2 ∧ range.2 ≤ bytes.length

theorem readExact_inside (length : Nat) : Keeps (RangesInside bytes) (readExact length) := by
  rintro reader ⟨rfl, inside⟩
  unfold readExact
  split
  · next fits =>
    refine ⟨rfl, fun range mem => ?_⟩
    rcases mem_cons.mp mem with rfl | mem
    · exact ⟨Nat.le_add_right _ _, fits.2⟩
    · exact inside range mem
  · exact ⟨rfl, inside⟩

theorem beginRound_inside : Keeps (RangesInside bytes) beginRound := fun _ inside => inside

theorem remaining_inside : Keeps (RangesInside bytes) remaining := fun _ inside => inside

theorem readI16_inside : Keeps (RangesInside bytes) readI16 :=
  (readExact_inside bytes 2).bind fun _ => Keeps.pure _

theorem readI32_inside : Keeps (RangesInside bytes) readI32 :=
  (readExact_inside bytes 4).bind fun _ => Keeps.pure _

theorem readString_inside : Keeps (RangesInside bytes) readString :=
  (readI16_inside bytes).bind fun _ => (Keeps.refuseIf _).bind fun _ => (readExact_inside bytes _).bind fun _ => Keeps.given _

theorem readPartition_inside (topic : Text) (assignments : List KafkaConsumerPartitionAssignment) :
    Keeps (RangesInside bytes) (readPartition topic assignments) :=
  (beginRound_inside bytes).bind fun _ => (readI32_inside bytes).bind fun _ => (Keeps.refuseIf _).bind fun _ => Keeps.pure _

theorem readTopic_inside (assignments : List KafkaConsumerPartitionAssignment) : Keeps (RangesInside bytes) (readTopic assignments) :=
  (beginRound_inside bytes).bind fun _ => (readString_inside bytes).bind fun topic => (readI32_inside bytes).bind fun _ =>
    (Keeps.refuseIf _).bind fun _ => Keeps.rounds (readPartition_inside bytes topic) _ _

theorem skipUserData_inside (length : Int) : Keeps (RangesInside bytes) (skipUserData length) := by
  unfold skipUserData
  split
  · exact (readExact_inside bytes _).bind fun _ => Keeps.pure ()
  · exact Keeps.pure ()

theorem readToEnd_inside : Keeps (RangesInside bytes) readToEnd := by
  have whole : Keeps (RangesInside bytes) readAssignments :=
    (readI16_inside bytes).bind fun _ => (readI32_inside bytes).bind fun _ => (Keeps.refuseIf _).bind fun _ =>
      (Keeps.rounds (readTopic_inside bytes) _ _).bind fun _ => (readI32_inside bytes).bind fun _ =>
        (Keeps.refuseIf _).bind fun _ => (skipUserData_inside bytes _).bind fun _ => Keeps.pure _
  exact whole.bind fun _ => (remaining_inside bytes).bind fun _ => (Keeps.refuseIf _).bind fun _ => Keeps.pure _

/-- The steps made and the bytes that can still pay for one. -/
def AssignmentReader.budget : Nat := reader.steps + (reader.bytes.length - reader.position)

theorem readExact_costs (length : Nat) : Costs AssignmentReader.budget (readExact length) (1 - length) 1 where
  done := by
    intro reader bytes after got
    unfold readExact at got
    split at got
    · next fits =>
      cases got
      show ((reader.steps + 1 + (reader.bytes.length - (reader.position + length)) : Nat) : Int) ≤
        ((reader.steps + (reader.bytes.length - reader.position) : Nat) : Int) + (1 - length)
      omega
    · cases got
  refused := by
    intro reader after got
    unfold readExact at got
    split at got
    · cases got
    · cases got
      show reader.steps + 1 + (reader.bytes.length - reader.position) ≤ reader.steps + (reader.bytes.length - reader.position) + 1
      omega

theorem beginRound_costs : Costs AssignmentReader.budget beginRound 1 0 where
  done := by
    rintro reader a after ⟨⟩
    show ((reader.steps + 1 + (reader.bytes.length - reader.position) : Nat) : Int) ≤
      ((reader.steps + (reader.bytes.length - reader.position) : Nat) : Int) + 1
    omega
  refused := by rintro reader after ⟨⟩

theorem remaining_costs : Costs AssignmentReader.budget remaining 0 0 where
  done := by
    rintro reader a after ⟨⟩
    omega
  refused := by rintro reader after ⟨⟩

theorem readI16_costs : Costs AssignmentReader.budget readI16 (-1) 1 :=
  ((readExact_costs 2).bind (fun _ => Costs.pure _) (by decide)).weaken (by decide) (by decide)

theorem readI32_costs : Costs AssignmentReader.budget readI32 (-3) 1 :=
  ((readExact_costs 4).bind (fun _ => Costs.pure _) (by decide)).weaken (by decide) (by decide)

theorem readAny_costs (length : Nat) : Costs AssignmentReader.budget (readExact length) 1 1 :=
  (readExact_costs length).weaken (by omega) (Nat.le_refl 1)

theorem readString_costs : Costs AssignmentReader.budget readString 0 1 :=
  readI16_costs.bind (fun _ => ((Costs.refuseIf _).weaken (Int.le_refl 0) (Nat.zero_le 2)).bind (fun _ =>
    ((readAny_costs _).weaken (Int.le_refl 1) (by decide : 1 ≤ 2)).bind (fun _ => Costs.given _) (by decide)) (by decide)) (by decide)

theorem readPartition_costs (topic : Text) (assignments : List KafkaConsumerPartitionAssignment) :
    Costs AssignmentReader.budget (readPartition topic assignments) 0 2 := by
  have number : Costs AssignmentReader.budget (do
      let partition ← readI32
      refuseIf (partition < 0 ∨ MAX_KAFKA_PARTITIONS ≤ assignments.length)
      return assignments ++ [(⟨topic, partition⟩ : KafkaConsumerPartitionAssignment)]) (-3) 1 :=
    readI32_costs.bind (fun _ => (Costs.refuseIf _).bind (fun _ => Costs.pure _) (by decide)) (by decide)
  exact ((beginRound_costs.weaken (Int.le_refl 1) (Nat.zero_le 2)).bind (fun _ => number) (by decide)).weaken (by decide) (Nat.le_refl 2)

theorem readTopic_costs : Costs AssignmentReader.budget (readTopic assignments) 0 2 := by
  have loop : ∀ (topic : Text) (count : Int), Costs AssignmentReader.budget (do
      refuseIf (count < 0 ∨ MAX_KAFKA_PARTITIONS < count.toNat)
      rounds count.toNat (readPartition topic) assignments) 0 2 := fun topic count =>
    ((Costs.refuseIf _).weaken (Int.le_refl 0) (Nat.zero_le 2)).bind
      (fun _ => Costs.rounds (readPartition_costs topic) _ _) (by decide)
  have body : Costs AssignmentReader.budget (do
      let topic ← readString
      let count ← readI32
      refuseIf (count < 0 ∨ MAX_KAFKA_PARTITIONS < count.toNat)
      rounds count.toNat (readPartition topic) assignments) (-3) 1 :=
    readString_costs.bind (fun topic => readI32_costs.bind (fun count => loop topic count) (by decide)) (by decide)
  exact ((beginRound_costs.weaken (Int.le_refl 1) (Nat.zero_le 2)).bind (fun _ => body) (by decide)).weaken (by decide) (Nat.le_refl 2)

theorem skipUserData_costs (length : Int) : Costs AssignmentReader.budget (skipUserData length) 1 1 := by
  unfold skipUserData
  split
  · exact (readAny_costs _).bind (fun _ => Costs.pure ()) (by decide)
  · exact (Costs.pure ()).weaken (by decide) (by decide)

theorem readToEnd_costs : Costs AssignmentReader.budget readToEnd (-6) 1 := by
  have userData : ∀ pairs : List KafkaConsumerPartitionAssignment, Costs AssignmentReader.budget (do
      let userDataLength ← readI32
      refuseIf (userDataLength < -1)
      skipUserData userDataLength
      return pairs) (-2) 1 := fun pairs =>
    readI32_costs.bind (fun length => ((Costs.refuseIf _).weaken (Int.le_refl 0) (by decide : 0 ≤ 1)).bind
      (fun _ => (skipUserData_costs length).bind (fun _ => Costs.pure pairs) (by decide)) (by decide)) (by decide)
  have topics : ∀ count : Int, Costs AssignmentReader.budget (do
      refuseIf (count < 0 ∨ MAX_KAFKA_PARTITIONS < count.toNat)
      let assignments ← rounds count.toNat readTopic []
      let userDataLength ← readI32
      refuseIf (userDataLength < -1)
      skipUserData userDataLength
      return assignments) (-2) 2 := fun count =>
    ((Costs.refuseIf _).weaken (Int.le_refl 0) (Nat.zero_le 2)).bind
      (fun _ => (Costs.rounds readTopic_costs _ _).bind userData (by decide)) (by decide)
  have whole : Costs AssignmentReader.budget readAssignments (-6) 1 :=
    readI16_costs.bind (fun _ => readI32_costs.bind topics (by decide)) (by decide)
  exact whole.bind (fun pairs => remaining_costs.bind (fun _ => (Costs.refuseIf _).bind (fun _ => Costs.pure pairs) (by decide))
    (by decide)) (by decide)

theorem accepted_iff {assignment : ConsumerAssignment} :
    assignment.Accepted ↔ assignment.Sound ∧ assignment.wire.length ≤ MAX_KAFKA_GROUP_ASSIGNMENT_BYTES := by
  constructor
  · rintro ⟨version, topics, bytes, topicCount, partitionCount⟩
    refine ⟨⟨version, topics, topicCount, partitionCount, fun data known => ?_⟩, bytes⟩
    rw [ConsumerAssignment.wire, Option.mem_def.mp known, userDataWire] at bytes
    have limit : MAX_KAFKA_GROUP_ASSIGNMENT_BYTES < 2 ^ 31 := by decide
    simp only [length_append] at bytes
    omega
  · rintro ⟨⟨version, topics, topicCount, partitionCount, -⟩, bytes⟩
    exact ⟨version, topics, bytes, topicCount, partitionCount⟩

theorem decodeMemberAssignment_some {bytes : List UInt8} (small : ¬ MAX_KAFKA_GROUP_ASSIGNMENT_BYTES < bytes.length)
    {pairs : List KafkaConsumerPartitionAssignment} : (readToEnd (AssignmentReader.start bytes small)).1 = some pairs ↔
      ∃ assignment : ConsumerAssignment, assignment.Accepted ∧ pairs = assignment.pairs ∧ bytes = assignment.wire := by
  rw [readToEnd_eq_some]
  refine exists_congr fun assignment => ?_
  rw [accepted_iff, and_assoc]
  refine and_congr_right fun sound => ?_
  constructor
  · rintro ⟨rfl, same⟩
    have same' : bytes = assignment.wire := same
    exact ⟨same' ▸ Nat.le_of_not_lt small, rfl, same'⟩
  · rintro ⟨-, rfl, same⟩
    exact ⟨rfl, same⟩

/-- The wire form of an acceptable assignment is read back as its pairs, other
    bytes as nothing; every read lies in the slice and no count makes the
    decoding longer than the slice allows. -/
theorem member_assignment_decoded (bytes : List UInt8) : (∀ assignment : ConsumerAssignment, assignment.Accepted → assignment.wire = bytes →
      decodeMemberAssignment bytes = assignment.pairs) ∧
    ((∀ assignment : ConsumerAssignment, assignment.Accepted → assignment.wire ≠ bytes) → decodeMemberAssignment bytes = []) ∧
    ∀ small : ¬ MAX_KAFKA_GROUP_ASSIGNMENT_BYTES < bytes.length,
      (∀ range ∈ (readerAfter bytes small).ranges, range.1 ≤ range.2 ∧ range.2 ≤ bytes.length) ∧
      (readerAfter bytes small).steps ≤ bytes.length + 1 := by
  refine ⟨?_, ?_, fun small => ⟨?_, ?_⟩⟩
  · rintro assignment accepted rfl
    have small := Nat.not_lt_of_le accepted.bytes
    rw [decodeMemberAssignment, dif_neg small, (decodeMemberAssignment_some small).mpr ⟨assignment, accepted, rfl, rfl⟩]
    rfl
  · intro other
    unfold decodeMemberAssignment
    split
    · rfl
    next small =>
    cases read : (readToEnd (AssignmentReader.start bytes small)).1 with
    | none => rfl
    | some pairs =>
      obtain ⟨assignment, accepted, -, same⟩ := (decodeMemberAssignment_some small).mp read
      exact absurd same.symm (other assignment accepted)
  · have start : RangesInside bytes (AssignmentReader.start bytes small) := ⟨rfl, by rintro range ⟨⟩⟩
    exact (readToEnd_inside bytes _ start).2
  · have begun : (AssignmentReader.start bytes small).budget = bytes.length := Nat.zero_add _
    have paid : (readerAfter bytes small).budget ≤ bytes.length + 1 := by
      obtain ⟨result, after, run⟩ : ∃ result after, readToEnd (AssignmentReader.start bytes small) = (result, after) := ⟨_, _, rfl⟩
      rw [show readerAfter bytes small = after from congrArg Prod.snd run]
      cases result with
      | none =>
        have refused := readToEnd_costs.refused run
        omega
      | some pairs =>
        have done := readToEnd_costs.done run
        omega
    exact Nat.le_trans (Nat.le_add_right _ _) paid

/-- Two partitions of one topic and no user data. -/
theorem member_assignment_decoded_sample : decodeMemberAssignment (ConsumerAssignment.wire ⟨1, [⟨"events", [0, 3]⟩], none⟩) =
      [⟨"events", 0⟩, ⟨"events", 3⟩] :=
  (member_assignment_decoded _).1 ⟨1, [⟨"events", [0, 3]⟩], none⟩
    ⟨by decide, by simp [TopicPartitions.Valid]; decide, by decide, by decide, by decide⟩ rfl

end Ramag.MemberAssignment
