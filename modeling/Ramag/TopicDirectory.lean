import Mathlib.Data.Char
import Mathlib.Data.List.Lex
import Ramag.DataSyncGate
import Ramag.MqttTopics
import Ramag.OrderedMap

/-!
The topic directory of the local broker. The telemetry counts what is published
(`LocalServerTelemetry`), the broker keeps retained messages (`RetainStorage`) and
sessions, and a snapshot merges the three.
-/
namespace Ramag.TopicDirectory
open Strings MqttTopics
open DataSyncGate (saturatingAdd)

def MAX_MQTT_TOPIC_OBSERVATIONS : Nat := 4096

/-- What the telemetry reads of a message. -/
structure MqttMessage where
  topic : Text
  payload : List UInt8
  receivedAt : Int

structure LocalTopicTelemetry where
  publishCount : Nat
  lastPayloadBytes : Nat
  observedAt : Int

structure LocalServerTelemetry where
  maxConnections : Nat
  currentConnections : Nat := 0
  peakConnections : Nat := 0
  acceptedConnections : Nat := 0
  closedConnections : Nat := 0
  publishedMessages : Nat := 0
  droppedEvents : Nat := 0
  droppedTopics : Nat := 0
  topics : OrderedMap Text LocalTopicTelemetry := .empty

variable (state : LocalServerTelemetry)

def LocalServerTelemetry.recordConnected : LocalServerTelemetry :=
  let currentConnections := saturatingAdd state.currentConnections 1
  { state with
    currentConnections
    peakConnections := max state.peakConnections currentConnections
    acceptedConnections := saturatingAdd state.acceptedConnections 1 }

def LocalServerTelemetry.recordDisconnected : LocalServerTelemetry :=
  { state with
    currentConnections := state.currentConnections - 1
    closedConnections := saturatingAdd state.closedConnections 1 }

def LocalServerTelemetry.recordPublished (message : MqttMessage) : LocalServerTelemetry :=
  let state := { state with publishedMessages := saturatingAdd state.publishedMessages 1 }
  match state.topics.lookup message.topic with
  | some topic =>
    { state with
      topics := state.topics.insert message.topic {
        publishCount := saturatingAdd topic.publishCount 1
        lastPayloadBytes := message.payload.length
        observedAt := message.receivedAt } }
  | none =>
    if MAX_MQTT_TOPIC_OBSERVATIONS ≤ state.topics.size then
      { state with droppedTopics := saturatingAdd state.droppedTopics 1 }
    else
      { state with
        topics := state.topics.insert message.topic {
          publishCount := 1
          lastPayloadBytes := message.payload.length
          observedAt := message.receivedAt } }

def LocalServerTelemetry.recordDroppedEvent : LocalServerTelemetry :=
  { state with droppedEvents := saturatingAdd state.droppedEvents 1 }

def LocalServerTelemetry.snapshot (currentConnections : Nat) : LocalServerTelemetry :=
  { state with currentConnections, peakConnections := max state.peakConnections currentConnections }

inductive TelemetryEvent
  | connected
  | disconnected
  | published (message : MqttMessage)
  | droppedEvent
  | snapshot (currentConnections : Nat)

def LocalServerTelemetry.record : TelemetryEvent → LocalServerTelemetry
  | .connected => state.recordConnected
  | .disconnected => state.recordDisconnected
  | .published message => state.recordPublished message
  | .droppedEvent => state.recordDroppedEvent
  | .snapshot currentConnections => state.snapshot currentConnections

def recorded (maxConnections : Nat) (events : List TelemetryEvent) : LocalServerTelemetry :=
  events.foldl LocalServerTelemetry.record { maxConnections }

def TelemetryEvent.topic? : TelemetryEvent → Option Text
  | .published message => some message.topic
  | _ => none

variable (events : List TelemetryEvent)

/-- The topics of the published messages, in their order. -/
def published : List Text := events.filterMap TelemetryEvent.topic?

structure ConnectInfo where
  username : Option Text
  ipaddress : Option Text

structure Session where
  clientId : Text
  connectInfo : Option ConnectInfo
  connectedAt : Option Int

structure BrokerSubscription where
  topic : TopicFilter
  qosValue : Nat
  noLocal : Option Bool

/-- A session of the broker as its registry shows it. -/
structure Entry where
  online : Bool
  session : Option Session
  subscriptions : Option (List BrokerSubscription)

/-- The store of the retained messages. -/
structure RetainStorage where
  getAllPaginated : Nat → Nat → Except Text (List (Text × List UInt8) × Bool)
  count : Int

def RetainStorage.retainedTopics (storage : RetainStorage) : Except Text (List (Text × Nat) × Bool) := do
  let (retains, hasMore) ← storage.getAllPaginated 0 MAX_MQTT_TOPIC_OBSERVATIONS
  .ok (retains.map fun (topic, payload) => (topic, payload.length), hasMore)

def RetainStorage.retainedCount (storage : RetainStorage) : Nat := (max storage.count 0).toNat

/-- The store lists these messages, one a topic, and says whether some are left over. -/
structure RetainStorage.Holds (storage : RetainStorage) (retained : List (Text × List UInt8)) : Prop where
  once : (retained.map Prod.fst).Nodup
  listed : ∀ limit, storage.getAllPaginated 0 limit = .ok (retained.take limit, decide (limit < retained.length))

/-! ### The snapshot -/

inductive MqttQos
  | AtMostOnce
  | AtLeastOnce
  | ExactlyOnce

inductive MqttTopicSource
  | Observed
  | Retained
  deriving DecidableEq

structure MqttSubscription where
  filter : Text
  qos : MqttQos
  noLocal : Bool

structure MqttOnlineClient where
  clientId : Text
  username : Option Text
  remoteAddress : Option Text
  connectedAt : Option Int
  subscriptions : List MqttSubscription

structure MqttTopicObservation where
  name : Text
  source : MqttTopicSource
  retained : Bool
  observedAt : Option Int
  publishCount : Nat
  subscriberCount : Nat
  lastPayloadBytes : Nat
  deriving DecidableEq

structure MqttBrokerMetrics where
  currentConnections : Nat
  maxConnections : Nat
  peakConnections : Nat
  acceptedConnections : Nat
  closedConnections : Nat
  activeSubscriptions : Nat
  publishedMessages : Nat
  retainedMessages : Nat
  eventQueueDepth : Nat
  eventQueueCapacity : Nat
  commandQueueDepth : Nat
  commandQueueCapacity : Nat
  droppedEvents : Nat
  droppedTopics : Nat

structure MqttBrokerSnapshot where
  topics : List MqttTopicObservation
  onlineClients : List MqttOnlineClient
  topicsComplete : Bool
  onlineClientsComplete : Bool
  metrics : MqttBrokerMetrics

/-- The two channels, of which the events' one may be unbounded. -/
structure Queues where
  eventDepth : Nat
  eventCapacity : Option Nat
  commandDepth : Nat
  commandCapacity : Nat

/-- An error of the category `Network`. -/
structure MqttError where
  operation : Text
  message : Text

def localServerError (operation error : Text) : MqttError := { operation, message := operation ++ "失败：" ++ error }

def BrokerSubscription.shown (subscription : BrokerSubscription) : MqttSubscription where
  filter := subscription.topic.text
  qos :=
    match subscription.qosValue with
    | 0 => .AtMostOnce
    | 1 => .AtLeastOnce
    | _ => .ExactlyOnce
  noLocal := subscription.noLocal.getD false

def Entry.client (entry : Entry) : Option MqttOnlineClient :=
  if !entry.online then none
  else
    entry.session.map fun session => {
      clientId := session.clientId
      username := session.connectInfo.bind ConnectInfo.username
      remoteAddress := session.connectInfo.bind ConnectInfo.ipaddress
      connectedAt := session.connectedAt
      subscriptions := (entry.subscriptions.getD []).map BrokerSubscription.shown }

def onlineClients (entries : List Entry) : List MqttOnlineClient := entries.filterMap Entry.client

/-- Counts clients, not their subscriptions. -/
def subscriberCount (clients : List MqttOnlineClient) (name : Text) : Nat :=
  clients.countP fun client => client.subscriptions.any fun subscription => topicFilterMatches subscription.filter name

def observation (clients : List MqttOnlineClient) (name : Text) (topic : LocalTopicTelemetry) : MqttTopicObservation where
  name
  source := .Observed
  retained := false
  observedAt := some topic.observedAt
  publishCount := topic.publishCount
  subscriberCount := subscriberCount clients name
  lastPayloadBytes := topic.lastPayloadBytes

/-- A retained topic is marked, or added while there is room; otherwise the directory is incomplete. -/
def mergeRetained (directory : OrderedMap Text MqttTopicObservation × Bool) (retained : Text × Nat) :
    OrderedMap Text MqttTopicObservation × Bool :=
  let (topics, incomplete) := directory
  let (name, payloadBytes) := retained
  if topics.lookup name = none ∧ MAX_MQTT_TOPIC_OBSERVATIONS ≤ topics.size then (topics, true)
  else
    let topic := (topics.lookup name).getD {
      name
      source := .Retained
      retained := true
      observedAt := none
      publishCount := 0
      subscriberCount := 0
      lastPayloadBytes := payloadBytes }
    (topics.insert name { topic with
      retained := true
      lastPayloadBytes := if topic.publishCount = 0 then payloadBytes else topic.lastPayloadBytes }, incomplete)

/-- The snapshot, and the telemetry after it. -/
def snapshotLocalServer (entries : List Entry) (queues : Queues) (telemetry : LocalServerTelemetry) (storage : RetainStorage) :
    Except MqttError (MqttBrokerSnapshot × LocalServerTelemetry) := do
  let clients := onlineClients entries
  let telemetry := telemetry.snapshot clients.length
  let (retainedTopics, truncated) ← storage.retainedTopics.mapError (localServerError "读取本地 MQTT 保留主题")
  let observed := telemetry.topics.mapValues (observation clients)
  let (topics, incomplete) := retainedTopics.foldl mergeRetained (observed, decide (0 < telemetry.droppedTopics) || truncated)
  .ok ({
    topics := topics.values
    onlineClients := clients
    topicsComplete := !incomplete
    onlineClientsComplete := true
    metrics := {
      currentConnections := telemetry.currentConnections
      maxConnections := telemetry.maxConnections
      peakConnections := telemetry.peakConnections
      acceptedConnections := telemetry.acceptedConnections
      closedConnections := telemetry.closedConnections
      activeSubscriptions := (clients.map fun client => client.subscriptions.length).sum
      publishedMessages := telemetry.publishedMessages
      retainedMessages := storage.retainedCount
      eventQueueDepth := queues.eventDepth
      eventQueueCapacity := queues.eventCapacity.getD 0
      commandQueueDepth := queues.commandDepth
      commandQueueCapacity := queues.commandCapacity
      droppedEvents := telemetry.droppedEvents
      droppedTopics := telemetry.droppedTopics } }, telemetry)

/-- All topics that were observed or are retained, each once. -/
def directory (retained : List (Text × List UInt8)) : List Text :=
  (published events ++ retained.map Prod.fst).eraseDups

/-- The clients with a filter that matches by the rules of MQTT. -/
def Subscribed (client : MqttOnlineClient) (name : Text) : Prop := ∃ subscription ∈ client.subscriptions, Matches subscription.filter name

open Classical in
/-- A snapshot shows every topic once, up to the limit, with its numbers, and says whether one is missing. -/
structure Right (events : List TelemetryEvent) (retained : List (Text × List UInt8)) (entries : List Entry)
    (snapshot : MqttBrokerSnapshot) : Prop where
  once : (snapshot.topics.map MqttTopicObservation.name).Nodup
  known : ∀ topic ∈ snapshot.topics, topic.name ∈ directory events retained
  many : snapshot.topics.length = min MAX_MQTT_TOPIC_OBSERVATIONS (directory events retained).length
  complete : snapshot.topicsComplete = true ↔ ∀ name ∈ directory events retained, ∃ topic ∈ snapshot.topics, topic.name = name
  published : ∀ topic ∈ snapshot.topics, topic.publishCount = (published events).count topic.name
  subscribed : ∀ topic ∈ snapshot.topics, topic.subscriberCount = (onlineClients entries).countP fun client => Subscribed client topic.name

/-- The observed topics that the telemetry keeps. -/
def observedTopics : List Text := (published events).eraseDups.take MAX_MQTT_TOPIC_OBSERVATIONS

/-- The topics known only as retained for which there is room. -/
def retainedOnly (retained : List (Text × List UInt8)) : List Text :=
  (((retained.map Prod.fst).take MAX_MQTT_TOPIC_OBSERVATIONS).filter (· ∉ observedTopics events)).take
    (MAX_MQTT_TOPIC_OBSERVATIONS - (observedTopics events).length)

/-- What the numbers of a snapshot need: no counter at its end, no topic of the broker that
only a wildcard takes, and nobody who subscribes to a topic known only as retained. -/
structure Countable (events : List TelemetryEvent) (retained : List (Text × List UInt8)) (entries : List Entry) : Prop where
  few : ∀ name ∈ observedTopics events, (published events).count name < 2 ^ 64
  unexcepted : ∀ name ∈ observedTopics events, ∀ client ∈ onlineClients entries, ∀ subscription ∈ client.subscriptions,
    Excepted subscription.filter name → Takes (levels subscription.filter) (levels name) → Subscribed client name
  unsubscribed : ∀ name ∈ retainedOnly events retained, ∀ client ∈ onlineClients entries, ¬Subscribed client name

/-! ### What a snapshot shows -/

open List

section
variable {α : Type} [BEq α] [LawfulBEq α]

theorem eraseDups_of_nodup {items : List α} (nodup : items.Nodup) : items.eraseDups = items := by
  induction items with
  | nil => rfl
  | cons item items ih =>
    obtain ⟨fresh, rest⟩ := nodup_cons.mp nodup
    have kept : items.filter (fun b => !b == item) = items := filter_eq_self.mpr fun other mem => by
      have apart : other ≠ item := fun same => fresh (same ▸ mem)
      simpa using apart
    rw [eraseDups_cons, kept, ih rest]

theorem eraseDups_append_nodup (items : List α) {more : List α} (nodup : more.Nodup) :
    (items ++ more).eraseDups = items.eraseDups ++ more.removeAll items := by
  rw [eraseDups_append, eraseDups_of_nodup (show (more.removeAll items).Nodup from nodup.filter _)]

theorem eraseDups_snoc_old {items : List α} {item : α} (there : item ∈ items) : (items ++ [item]).eraseDups = items.eraseDups := by
  rw [eraseDups_append_nodup items (nodup_singleton item)]
  simp [List.removeAll, there]

theorem eraseDups_snoc_new {items : List α} {item : α} (absent : item ∉ items) :
    (items ++ [item]).eraseDups = items.eraseDups ++ [item] := by
  rw [eraseDups_append_nodup items (nodup_singleton item)]
  simp [List.removeAll, absent]

theorem eraseDups_nodup (items : List α) : items.eraseDups.Nodup := by
  induction items using List.reverseRecOn with
  | nil => exact nodup_nil
  | append_singleton items item ih =>
    by_cases there : item ∈ items
    · rwa [eraseDups_snoc_old there]
    rw [eraseDups_snoc_new there, nodup_append]
    refine ⟨ih, nodup_singleton item, fun a inA b inB same => ?_⟩
    rw [mem_singleton.mp inB] at same
    rw [same, mem_eraseDups] at inA
    exact there inA

end

/-- The telemetry after messages with these topics. -/
structure Counted (state : LocalServerTelemetry) (topics : List Text) : Prop where
  keys : ∀ name, name ∈ state.topics.keys ↔ name ∈ topics.eraseDups.take MAX_MQTT_TOPIC_OBSERVATIONS
  counts : ∀ name topic, state.topics.lookup name = some topic → topic.publishCount = min (topics.count name) (2 ^ 64 - 1)
  dropped : 0 < state.droppedTopics ↔ MAX_MQTT_TOPIC_OBSERVATIONS < topics.eraseDups.length

theorem Counted.size {state : LocalServerTelemetry} {topics : List Text} (counted : Counted state topics) :
    state.topics.size = (topics.eraseDups.take MAX_MQTT_TOPIC_OBSERVATIONS).length := by
  rw [OrderedMap.size_keys]
  refine List.Perm.length_eq ((perm_ext_iff_of_nodup (OrderedMap.keys_nodup _) ?_).mpr counted.keys)
  exact (eraseDups_nodup topics).sublist (take_sublist _ _)

theorem saturatingAdd_one_pos (n : Nat) : 0 < saturatingAdd n 1 := by
  rw [saturatingAdd]
  omega

theorem Counted.published {state : LocalServerTelemetry} {topics : List Text} (counted : Counted state topics)
    (message : MqttMessage) : Counted (state.recordPublished message) (topics ++ [message.topic]) := by
  have size := counted.size
  have keys := counted.keys message.topic
  rw [length_take] at size
  rw [LocalServerTelemetry.recordPublished]
  dsimp only
  cases found : state.topics.lookup message.topic with
  | some topic =>
    have kept : message.topic ∈ state.topics.keys := OrderedMap.mem_keys_iff.mpr ⟨topic, found⟩
    have seen : message.topic ∈ topics := mem_eraseDups.mp (mem_of_mem_take (keys.mp kept))
    have same : (topics ++ [message.topic]).eraseDups = topics.eraseDups := eraseDups_snoc_old seen
    refine ⟨fun name => ?_, fun name info there => ?_, ?_⟩
    · rw [same, ← counted.keys, OrderedMap.mem_keys_insert]
      exact or_iff_right_of_imp fun equal => equal ▸ kept
    · dsimp only at there
      rw [OrderedMap.lookup_insert] at there
      rw [count_append, count_singleton]
      split_ifs at there with here
      · rw [Option.some_inj] at there
        have before := counted.counts _ _ found
        rw [← there, here, before, saturatingAdd]
        simp only [beq_self_eq_true, if_true]
        omega
      · rw [counted.counts name info there]
        simp [Ne.symm here]
    · rw [same]
      exact counted.dropped
  | none =>
    have absent : message.topic ∉ topics.eraseDups.take MAX_MQTT_TOPIC_OBSERVATIONS :=
      fun mem => OrderedMap.lookup_none_iff.mp found (keys.mpr mem)
    dsimp only
    split_ifs with full
    · have long : MAX_MQTT_TOPIC_OBSERVATIONS ≤ topics.eraseDups.length := by omega
      have same : (topics ++ [message.topic]).eraseDups.take MAX_MQTT_TOPIC_OBSERVATIONS =
          topics.eraseDups.take MAX_MQTT_TOPIC_OBSERVATIONS := by
        by_cases seen : message.topic ∈ topics
        · rw [eraseDups_snoc_old seen]
        · rw [eraseDups_snoc_new seen, take_append_of_le_length long]
      refine ⟨fun name => ?_, fun name info there => ?_, iff_of_true (saturatingAdd_one_pos _) ?_⟩
      · rw [same]
        exact counted.keys name
      · have other : name ≠ message.topic := by
          rintro rfl
          simp [there] at found
        rw [counted.counts name info there, count_append, count_singleton]
        simp [other.symm]
      · by_cases seen : message.topic ∈ topics
        · -- it was published before, but there was no room
          rw [eraseDups_snoc_old seen]
          by_contra short
          rw [take_of_length_le (not_lt.mp short)] at absent
          exact absent (mem_eraseDups.mpr seen)
        · rw [eraseDups_snoc_new seen, length_append, length_singleton]
          omega
    · have short : topics.eraseDups.length < MAX_MQTT_TOPIC_OBSERVATIONS := by omega
      rw [take_of_length_le short.le, mem_eraseDups] at absent
      have more : (topics ++ [message.topic]).eraseDups = topics.eraseDups ++ [message.topic] := eraseDups_snoc_new absent
      have length : (topics.eraseDups ++ [message.topic]).length ≤ MAX_MQTT_TOPIC_OBSERVATIONS := by
        rw [length_append, length_singleton]
        omega
      refine ⟨fun name => ?_, fun name info there => ?_, ?_⟩
      · rw [more, take_of_length_le length, OrderedMap.mem_keys_insert, counted.keys, take_of_length_le short.le,
          mem_append, mem_singleton, or_comm]
      · rw [OrderedMap.lookup_insert] at there
        rw [count_append, count_singleton]
        split_ifs at there with here
        · rw [Option.some_inj] at there
          rw [← there, here, count_eq_zero_of_not_mem absent]
          simp
        · rw [counted.counts name info there]
          simp [Ne.symm here]
      · rw [more]
        exact iff_of_false (fun pos => absurd (counted.dropped.mp pos) (not_lt.mpr short.le)) (not_lt.mpr length)

theorem recorded_counted (maxConnections : Nat) (events : List TelemetryEvent) :
    Counted (recorded maxConnections events) (published events) := by
  induction events using List.reverseRecOn with
  | nil => exact ⟨fun name => Iff.rfl, nofun, iff_of_false (lt_irrefl 0) (Nat.not_lt_zero _)⟩
  | append_singleton events event ih =>
    have run : recorded maxConnections (events ++ [event]) = (recorded maxConnections events).record event := by
      rw [recorded, foldl_append, ← recorded]
      rfl
    have topics : published (events ++ [event]) = published events ++ event.topic?.toList := by
      rw [published, filterMap_append, ← published]
      cases shown : event.topic? <;> simp [shown]
    rw [run, topics]
    cases event with
    | published message => exact ih.published message
    | connected =>
      rw [show TelemetryEvent.connected.topic?.toList = [] from rfl, append_nil]
      exact ⟨ih.keys, ih.counts, ih.dropped⟩
    | disconnected =>
      rw [show TelemetryEvent.disconnected.topic?.toList = [] from rfl, append_nil]
      exact ⟨ih.keys, ih.counts, ih.dropped⟩
    | droppedEvent =>
      rw [show TelemetryEvent.droppedEvent.topic?.toList = [] from rfl, append_nil]
      exact ⟨ih.keys, ih.counts, ih.dropped⟩
    | snapshot connections =>
      rw [show (TelemetryEvent.snapshot connections).topic?.toList = [] from rfl, append_nil]
      exact ⟨ih.keys, ih.counts, ih.dropped⟩

/-! ### Merging -/

/-- The names that are not there yet and for which there is room. -/
def fresh (topics : OrderedMap Text MqttTopicObservation) (names : List Text) : List Text :=
  (names.filter (· ∉ topics.keys)).take (MAX_MQTT_TOPIC_OBSERVATIONS - topics.size)

/-- The numbers that are shown for a topic. -/
def Shows (name : Text) (publishCount subscriberCount : Nat) (topic : MqttTopicObservation) : Prop :=
  topic.name = name ∧ topic.publishCount = publishCount ∧ topic.subscriberCount = subscriberCount

/-- The directory after retained topics of these names were merged. -/
structure Merged (before : OrderedMap Text MqttTopicObservation) (names : List Text)
    (after : OrderedMap Text MqttTopicObservation) : Prop where
  keys : ∀ name, name ∈ after.keys ↔ name ∈ before.keys ∨ name ∈ fresh before names
  old : ∀ name topic, before.lookup name = some topic →
    ∃ topic', after.lookup name = some topic' ∧ Shows topic.name topic.publishCount topic.subscriberCount topic'
  new : ∀ name ∈ fresh before names, ∃ topic, after.lookup name = some topic ∧ Shows name 0 0 topic

variable {topics : OrderedMap Text MqttTopicObservation} {name : Text}

theorem mergeRetained_old {topic : MqttTopicObservation}
    (found : topics.lookup name = some topic) (incomplete : Bool) (payloadBytes : Nat) :
    ∃ marked, mergeRetained (topics, incomplete) (name, payloadBytes) = (topics.insert name marked, incomplete) ∧
      Shows topic.name topic.publishCount topic.subscriberCount marked := by
  refine ⟨{ topic with
    retained := true, lastPayloadBytes := if topic.publishCount = 0 then payloadBytes else topic.lastPayloadBytes }, ?_, rfl, rfl, rfl⟩
  rw [mergeRetained]
  rw [found, if_neg fun both => nomatch both.1]
  rfl

theorem mergeRetained_full (absent : topics.lookup name = none)
    (full : MAX_MQTT_TOPIC_OBSERVATIONS ≤ topics.size) (incomplete : Bool) (payloadBytes : Nat) :
    mergeRetained (topics, incomplete) (name, payloadBytes) = (topics, true) := by
  rw [mergeRetained]
  rw [if_pos ⟨absent, full⟩]

theorem mergeRetained_new (absent : topics.lookup name = none)
    (room : ¬MAX_MQTT_TOPIC_OBSERVATIONS ≤ topics.size) (incomplete : Bool) (payloadBytes : Nat) :
    ∃ added, mergeRetained (topics, incomplete) (name, payloadBytes) = (topics.insert name added, incomplete) ∧ Shows name 0 0 added := by
  refine ⟨{
    name, source := .Retained, retained := true, observedAt := none, publishCount := 0, subscriberCount := 0,
    lastPayloadBytes := payloadBytes }, ?_, rfl, rfl, rfl⟩
  rw [mergeRetained]
  rw [absent, if_neg fun both => room both.2]
  rfl

theorem merged {names : List (Text × Nat)} (once : (names.map Prod.fst).Nodup) (before : OrderedMap Text MqttTopicObservation)
    (incomplete : Bool) : Merged before (names.map Prod.fst) (names.foldl mergeRetained (before, incomplete)).1 ∧
    ((names.foldl mergeRetained (before, incomplete)).2 = true ↔
      incomplete = true ∨ MAX_MQTT_TOPIC_OBSERVATIONS - before.size < ((names.map Prod.fst).filter (· ∉ before.keys)).length) := by
  induction names generalizing before incomplete with
  | nil =>
    refine ⟨⟨fun name => ?_, fun name topic there => ⟨topic, there, rfl, rfl, rfl⟩, ?_⟩, ?_⟩
    · simp [fresh]
    · simp [fresh]
    · simp
  | cons retained names ih =>
    obtain ⟨name, payloadBytes⟩ := retained
    obtain ⟨apart, once⟩ := nodup_cons.mp once
    rw [foldl_cons, map_cons]
    cases found : before.lookup name with
    | some topic =>
      have there : name ∈ before.keys := OrderedMap.mem_keys_iff.mpr ⟨topic, found⟩
      obtain ⟨marked, step, shows⟩ := mergeRetained_old found incomplete payloadBytes
      have keys (other : Text) : other ∈ (before.insert name marked).keys ↔ other ∈ before.keys := by
        rw [OrderedMap.mem_keys_insert]
        exact or_iff_right_of_imp fun same => same ▸ there
      have skipped : (name :: names.map Prod.fst).filter (· ∉ before.keys) =
          (names.map Prod.fst).filter (· ∉ (before.insert name marked).keys) := by
        rw [filter_cons_of_neg (by simpa using there)]
        exact filter_congr fun other _ => by simp [keys]
      have size := OrderedMap.size_insert_old there marked
      have same : fresh before (name :: names.map Prod.fst) = fresh (before.insert name marked) (names.map Prod.fst) := by
        rw [fresh, fresh, skipped, size]
      obtain ⟨⟨rest, old, new⟩, flag⟩ := ih once (before.insert name marked) incomplete
      rw [step]
      refine ⟨⟨fun other => ?_, fun other topic' before' => ?_, ?_⟩, ?_⟩
      · rw [rest, keys, same]
      · by_cases here : other = name
        · rw [here, found, Option.some_inj] at before'
          obtain ⟨after, shown, first, second, third⟩ := old name marked (by rw [OrderedMap.lookup_insert, if_pos rfl])
          obtain ⟨name', published, subscribed⟩ := shows
          rw [here, ← before']
          exact ⟨after, shown, first.trans name', second.trans published, third.trans subscribed⟩
        · exact old other topic' (by rw [OrderedMap.lookup_insert, if_neg here, before'])
      · rw [same]
        exact new
      · rw [flag, skipped, size]
    | none =>
      have absent : name ∉ before.keys := OrderedMap.lookup_none_iff.mp found
      have kept : (name :: names.map Prod.fst).filter (· ∉ before.keys) = name :: (names.map Prod.fst).filter (· ∉ before.keys) :=
        filter_cons_of_pos (by simpa using absent)
      by_cases full : MAX_MQTT_TOPIC_OBSERVATIONS ≤ before.size
      · have step := mergeRetained_full found full incomplete payloadBytes
        have nothing (names : List Text) : fresh before names = [] := by rw [fresh, Nat.sub_eq_zero_of_le full, take_zero]
        obtain ⟨⟨rest, old, -⟩, flag⟩ := ih once before true
        rw [step]
        refine ⟨⟨fun other => ?_, old, ?_⟩, ?_⟩
        · rw [rest, nothing, nothing]
        · rw [nothing]
          exact fun _ mem => absurd mem not_mem_nil
        · rw [flag, kept, length_cons]
          refine iff_of_true (Or.inl rfl) (Or.inr ?_)
          omega
      · obtain ⟨added, step, shows⟩ := mergeRetained_new found full incomplete payloadBytes
        have size := OrderedMap.size_insert_new absent added
        have others : (names.map Prod.fst).filter (· ∉ (before.insert name added).keys) = (names.map Prod.fst).filter (· ∉ before.keys) := by
          refine filter_congr fun other mem => ?_
          have different : other ≠ name := fun same => apart (same ▸ mem)
          simp only [OrderedMap.mem_keys_insert, different, false_or]
        have more : fresh before (name :: names.map Prod.fst) = name :: fresh (before.insert name added) (names.map Prod.fst) := by
          rw [fresh, fresh, kept, others, size, ← take_succ_cons]
          congr 1
          omega
        obtain ⟨⟨rest, old, new⟩, flag⟩ := ih once (before.insert name added) incomplete
        rw [step]
        refine ⟨⟨fun other => ?_, fun other topic before' => ?_, fun other mem => ?_⟩, ?_⟩
        · rw [rest, OrderedMap.mem_keys_insert, more, mem_cons]
          tauto
        · have here : other ≠ name := by
            rintro rfl
            simp [before'] at found
          exact old other topic (by rw [OrderedMap.lookup_insert, if_neg here, before'])
        · rw [more] at mem
          rcases mem_cons.mp mem with rfl | later
          · obtain ⟨after, shown, first, second, third⟩ := old other added (by rw [OrderedMap.lookup_insert, if_pos rfl])
            obtain ⟨name', published, subscribed⟩ := shows
            exact ⟨after, shown, first.trans name', second.trans published, third.trans subscribed⟩
          · exact new other later
        · rw [flag, kept, others, size, length_cons]
          refine or_congr_right ?_
          omega

variable {events : List TelemetryEvent} {retained : List (Text × List UInt8)}

theorem mem_observed : name ∈ (published events).eraseDups ↔ name ∈ published events := mem_eraseDups

/-- The retained topics that were not observed. -/
def onlyRetained (events : List TelemetryEvent) (retained : List (Text × List UInt8)) : List Text :=
  (retained.map Prod.fst).removeAll (published events)

theorem directory_length (events : List TelemetryEvent) (once : (retained.map Prod.fst).Nodup) :
    (directory events retained).length = (published events).eraseDups.length + (onlyRetained events retained).length := by
  rw [directory, eraseDups_append_nodup _ once, length_append, onlyRetained]

theorem mem_directory : name ∈ directory events retained ↔ name ∈ published events ∨ name ∈ retained.map Prod.fst := by
  rw [directory, mem_eraseDups, mem_append]

theorem onlyRetained_eq : onlyRetained events retained = (retained.map Prod.fst).filter (· ∉ (published events).eraseDups) := by
  exact filter_congr fun name _ => by simp

theorem unseen_length {names : List Text} (once : names.Nodup) (seen : List Text) :
    names.length ≤ seen.length + (names.filter (· ∉ seen)).length := by
  have split := length_eq_length_filter_add (fun name => decide (name ∈ seen)) (l := names)
  have within : (names.filter (· ∈ seen)).length ≤ seen.length := by
    refine (subperm_of_subset (once.filter _) fun name mem => ?_).length_le
    exact of_decide_eq_true (mem_filter.mp mem).2
  have same : names.filter (fun name => !decide (name ∈ seen)) = names.filter (· ∉ seen) := filter_congr fun name _ => (decide_not).symm
  rw [same] at split
  omega

/-- The retained topics of the page that the telemetry does not keep. -/
def unseen (events : List TelemetryEvent) (retained : List (Text × List UInt8)) : List Text :=
  ((retained.map Prod.fst).take MAX_MQTT_TOPIC_OBSERVATIONS).filter (· ∉ observedTopics events)

theorem retainedOnly_eq : retainedOnly events retained = (unseen events retained).take (MAX_MQTT_TOPIC_OBSERVATIONS - (observedTopics events).length) :=
  rfl

theorem observedTopics_all (short : (published events).eraseDups.length ≤ MAX_MQTT_TOPIC_OBSERVATIONS) :
    observedTopics events = (published events).eraseDups := take_of_length_le short

/-- Nothing is left out exactly when all topics fit. -/
theorem fits_iff (once : (retained.map Prod.fst).Nodup) :
    ((published events).eraseDups.length ≤ MAX_MQTT_TOPIC_OBSERVATIONS ∧ retained.length ≤ MAX_MQTT_TOPIC_OBSERVATIONS ∧
      (unseen events retained).length ≤ MAX_MQTT_TOPIC_OBSERVATIONS - (observedTopics events).length) ↔
    (directory events retained).length ≤ MAX_MQTT_TOPIC_OBSERVATIONS := by
  rw [directory_length events once]
  have page (short : retained.length ≤ MAX_MQTT_TOPIC_OBSERVATIONS) (all : (published events).eraseDups.length ≤ MAX_MQTT_TOPIC_OBSERVATIONS) :
      unseen events retained = onlyRetained events retained := by
    rw [unseen, observedTopics_all all, onlyRetained_eq, take_of_length_le (by rwa [length_map])]
  constructor
  · rintro ⟨observed, short, room⟩
    rw [page short observed, observedTopics_all observed] at room
    omega
  intro fits
  have observed : (published events).eraseDups.length ≤ MAX_MQTT_TOPIC_OBSERVATIONS := by omega
  have short : retained.length ≤ MAX_MQTT_TOPIC_OBSERVATIONS := by
    have least := unseen_length once (published events).eraseDups
    rw [← onlyRetained_eq, length_map] at least
    omega
  rw [page short observed, observedTopics_all observed]
  omega

theorem kept_length (once : (retained.map Prod.fst).Nodup) : (observedTopics events).length + (retainedOnly events retained).length =
      min MAX_MQTT_TOPIC_OBSERVATIONS (directory events retained).length := by
  have observed : (observedTopics events).length = min MAX_MQTT_TOPIC_OBSERVATIONS (published events).eraseDups.length := length_take
  have added : (retainedOnly events retained).length = min (MAX_MQTT_TOPIC_OBSERVATIONS - (observedTopics events).length) (unseen events retained).length :=
    length_take
  have total := directory_length events once
  by_cases full : MAX_MQTT_TOPIC_OBSERVATIONS ≤ (published events).eraseDups.length
  · omega
  have all := observedTopics_all (not_le.mp full).le
  have least := unseen_length once (published events).eraseDups
  rw [← onlyRetained_eq] at least
  by_cases short : (retained.map Prod.fst).length ≤ MAX_MQTT_TOPIC_OBSERVATIONS
  · have page : unseen events retained = onlyRetained events retained := by
      rw [unseen, all, onlyRetained_eq, take_of_length_le short]
    rw [page] at added
    omega
  · have page := unseen_length (once.sublist (take_sublist MAX_MQTT_TOPIC_OBSERVATIONS _)) (published events).eraseDups
    rw [← all, ← unseen, length_take] at page
    omega

/-- What the directory of a snapshot lists. -/
structure Listed (events : List TelemetryEvent) (retained : List (Text × List UInt8)) (clients : List MqttOnlineClient)
    (topics : OrderedMap Text MqttTopicObservation) : Prop where
  keys : ∀ name, name ∈ topics.keys ↔ name ∈ observedTopics events ∨ name ∈ retainedOnly events retained
  observed : ∀ name ∈ observedTopics events, ∃ topic, topics.lookup name = some topic ∧
    Shows name (min ((published events).count name) (2 ^ 64 - 1)) (subscriberCount clients name) topic
  added : ∀ name ∈ retainedOnly events retained, ∃ topic, topics.lookup name = some topic ∧ Shows name 0 0 topic

theorem snapshot_listed {storage : RetainStorage} (holds : storage.Holds retained) (maxConnections : Nat)
    (events : List TelemetryEvent) (entries : List Entry) (queues : Queues) :
    ∃ topics snapshot after, snapshotLocalServer entries queues (recorded maxConnections events) storage = .ok (snapshot, after) ∧
      snapshot.topics = topics.values ∧ Listed events retained (onlineClients entries) topics ∧
      (snapshot.topicsComplete = true ↔ (directory events retained).length ≤ MAX_MQTT_TOPIC_OBSERVATIONS) := by
  have counted := recorded_counted maxConnections events
  let page := retained.take MAX_MQTT_TOPIC_OBSERVATIONS
  let names : List (Text × Nat) := page.map fun (topic, payload) => (topic, payload.length)
  let truncated := decide (MAX_MQTT_TOPIC_OBSERVATIONS < retained.length)
  have stored : storage.retainedTopics = .ok (names, truncated) := by
    rw [RetainStorage.retainedTopics, holds.listed]
    rfl
  have fsts : names.map Prod.fst = (retained.map Prod.fst).take MAX_MQTT_TOPIC_OBSERVATIONS := by
    rw [map_map, ← map_take]
    rfl
  have once : (names.map Prod.fst).Nodup := by
    rw [fsts]
    exact holds.once.sublist (take_sublist _ _)
  let observed := (recorded maxConnections events).topics.mapValues (observation (onlineClients entries))
  have keys (name : Text) : name ∈ observed.keys ↔ name ∈ observedTopics events := by
    rw [OrderedMap.keys_mapValues]
    exact counted.keys name
  have size : observed.size = (observedTopics events).length := by
    rw [OrderedMap.size_mapValues]
    exact counted.size
  have filtered : (names.map Prod.fst).filter (· ∉ observed.keys) = unseen events retained := by
    rw [fsts, unseen]
    exact filter_congr fun name _ => by simp [keys]
  have added : fresh observed (names.map Prod.fst) = retainedOnly events retained := by rw [fresh, filtered, size, retainedOnly_eq]
  let incomplete := decide (0 < (recorded maxConnections events).droppedTopics) || truncated
  obtain ⟨⟨all, old, new⟩, flag⟩ := merged once observed incomplete
  obtain ⟨snapshot, after, run, shown, complete⟩ : ∃ snapshot after,
      snapshotLocalServer entries queues (recorded maxConnections events) storage = .ok (snapshot, after) ∧
      snapshot.topics = (names.foldl mergeRetained (observed, incomplete)).1.values ∧
      snapshot.topicsComplete = !(names.foldl mergeRetained (observed, incomplete)).2 := by
    rw [snapshotLocalServer, stored]
    exact ⟨_, _, rfl, rfl, rfl⟩
  refine ⟨_, snapshot, after, run, shown, ⟨fun name => ?_, fun name mem => ?_, ?_⟩, ?_⟩
  · rw [all, keys, added]
  · obtain ⟨info, there⟩ := OrderedMap.mem_keys_iff.mp ((counted.keys name).mpr mem)
    have shown : observed.lookup name = some (observation (onlineClients entries) name info) := by
      rw [OrderedMap.lookup_mapValues, there]
      rfl
    obtain ⟨topic, found, first, second, third⟩ := old name _ shown
    exact ⟨topic, found, first, second.trans (counted.counts name info there), third⟩
  · rw [← added]
    exact new
  · rw [complete, ← fits_iff holds.once, Bool.not_eq_true', ← Bool.not_eq_true, flag, filtered, size, Bool.or_eq_true, decide_eq_true_eq,
      decide_eq_true_eq, counted.dropped]
    omega

variable {clients : List MqttOnlineClient}

theorem Listed.named (listed : Listed events retained clients topics) {topic : MqttTopicObservation}
    (found : topics.lookup name = some topic) : topic.name = name := by
  rcases (listed.keys name).mp (OrderedMap.mem_keys_iff.mpr ⟨topic, found⟩) with observed | added
  · obtain ⟨topic', found', shows⟩ := listed.observed name observed
    obtain rfl := Option.some_inj.mp (found.symm.trans found')
    exact shows.1
  · obtain ⟨topic', found', shows⟩ := listed.added name added
    obtain rfl := Option.some_inj.mp (found.symm.trans found')
    exact shows.1

theorem Listed.names (listed : Listed events retained clients topics) : topics.values.map MqttTopicObservation.name = topics.keys := by
  rw [OrderedMap.values, map_map, OrderedMap.keys]
  exact map_congr_left fun entry mem => listed.named (OrderedMap.lookup_iff.mpr mem)

theorem retainedOnly_known (mem : name ∈ retainedOnly events retained) : name ∈ retained.map Prod.fst ∧ name ∉ published events := by
  obtain ⟨inside, unkept⟩ := mem_filter.mp (mem_of_mem_take mem)
  refine ⟨mem_of_mem_take inside, fun observed => ?_⟩
  -- there is room for it, so the telemetry kept all observed topics
  have room : (observedTopics events).length < MAX_MQTT_TOPIC_OBSERVATIONS := by
    have some := length_pos_of_mem mem
    rw [retainedOnly_eq, length_take] at some
    omega
  have length : (observedTopics events).length = min MAX_MQTT_TOPIC_OBSERVATIONS (published events).eraseDups.length := length_take
  rw [observedTopics_all (by omega)] at unkept
  exact of_decide_eq_true unkept (mem_observed.mpr observed)

theorem countP_eq_iff {α : Type} {p q : α → Bool} {items : List α} (weaker : ∀ item ∈ items, q item = true → p item = true) :
    items.countP p = items.countP q ↔ ∀ item ∈ items, p item = true → q item = true := by
  induction items with
  | nil => simp
  | cons item items ih =>
    rw [forall_mem_cons] at weaker ⊢
    have least := countP_mono_left weaker.2
    rw [← ih weaker.2, countP_cons, countP_cons]
    by_cases strong : q item = true
    · rw [if_pos strong, if_pos (weaker.1 strong)]
      simp [strong]
    rw [if_neg strong]
    by_cases weak : p item = true
    · rw [if_pos weak]
      refine iff_of_false (by omega) fun both => strong (both.1 weak)
    · simp [weak]

theorem client_filter {entries : List Entry} {client : MqttOnlineClient} (online : client ∈ onlineClients entries)
    {subscription : MqttSubscription} (mem : subscription ∈ client.subscriptions) :
    ∃ filter : TopicFilter, filter.text = subscription.filter := by
  obtain ⟨entry, -, shown⟩ := mem_filterMap.mp online
  rw [Entry.client] at shown
  split at shown
  · cases shown
  · obtain ⟨session, -, rfl⟩ := Option.map_eq_some_iff.mp shown
    obtain ⟨broker, -, rfl⟩ := mem_map.mp mem
    exact ⟨broker.topic, rfl⟩

open Classical in
theorem nobody_iff : 0 = (clients.countP fun client => Subscribed client name) ↔ ∀ client ∈ clients, ¬Subscribed client name := by
  rw [eq_comm, countP_eq_zero]
  simp

open Classical in
/-- The clients are counted rightly unless one is counted for an excepted filter only. -/
theorem subscriberCount_right (entries : List Entry) (name : Text) :
    (subscriberCount (onlineClients entries) name = (onlineClients entries).countP fun client => Subscribed client name) ↔
      ∀ client ∈ onlineClients entries, ∀ subscription ∈ client.subscriptions,
        Excepted subscription.filter name → Takes (levels subscription.filter) (levels name) → Subscribed client name := by
  have takes {client : MqttOnlineClient} (online : client ∈ onlineClients entries) {subscription : MqttSubscription}
      (mem : subscription ∈ client.subscriptions) :
      topicFilterMatches subscription.filter name = true ↔ Takes (levels subscription.filter) (levels name) := by
    obtain ⟨filter, same⟩ := client_filter online mem
    rw [← same]
    exact topicFilterMatches_iff filter name
  have weaker : ∀ client ∈ onlineClients entries, decide (Subscribed client name) = true →
      (client.subscriptions.any fun subscription => topicFilterMatches subscription.filter name) = true := by
    intro client online subscribed
    obtain ⟨subscription, mem, matched⟩ := of_decide_eq_true subscribed
    exact any_eq_true.mpr ⟨subscription, mem, (takes online mem).mpr matched.1⟩
  rw [subscriberCount, countP_eq_iff weaker]
  refine forall₂_congr fun client online => ?_
  rw [any_eq_true, decide_eq_true_eq]
  constructor
  · intro counted subscription mem _ taken
    exact counted ⟨subscription, mem, (takes online mem).mpr taken⟩
  rintro spared ⟨subscription, mem, matched⟩
  have taken := (takes online mem).mp matched
  by_cases excepted : Excepted subscription.filter name
  · exact spared subscription mem excepted taken
  · exact ⟨subscription, mem, taken, excepted⟩

section
variable (listed : Listed events retained clients topics)
include listed

theorem Listed.within (mem : name ∈ topics.keys) : name ∈ directory events retained := by
  rw [mem_directory]
  rcases (listed.keys name).mp mem with observed | added
  · exact Or.inl (mem_observed.mp (mem_of_mem_take observed))
  · exact Or.inr (retainedOnly_known added).1

theorem Listed.many (once : (retained.map Prod.fst).Nodup) :
    topics.keys.length = min MAX_MQTT_TOPIC_OBSERVATIONS (directory events retained).length := by
  have unseenOnce : (retainedOnly events retained).Nodup := (((once.sublist (take_sublist _ _)).filter _).sublist (take_sublist _ _))
  have both : (observedTopics events ++ retainedOnly events retained).Nodup := by
    refine nodup_append.mpr ⟨(eraseDups_nodup _).sublist (take_sublist _ _), unseenOnce, fun a inA b inB same => ?_⟩
    exact (retainedOnly_known inB).2 (same ▸ mem_observed.mp (mem_of_mem_take inA))
  have perm : topics.keys.Perm (observedTopics events ++ retainedOnly events retained) := by
    refine (perm_ext_iff_of_nodup topics.keys_nodup both).mpr fun name => ?_
    rw [listed.keys, mem_append]
  rw [perm.length_eq, length_append, kept_length once]

/-- All are listed exactly when there are not too many. -/
theorem Listed.all_iff (once : (retained.map Prod.fst).Nodup) :
    (directory events retained).length ≤ MAX_MQTT_TOPIC_OBSERVATIONS ↔ ∀ name ∈ directory events retained, name ∈ topics.keys := by
  have many := listed.many once
  constructor
  · intro few name mem
    have perm := (subperm_of_subset topics.keys_nodup fun name => listed.within).perm_of_length_le (by omega)
    exact perm.mem_iff.mpr mem
  intro all
  have least := (subperm_of_subset (eraseDups_nodup _) all).length_le
  rw [← directory] at least
  omega

end

/-- A filter matches as it should unless it is excepted, and a snapshot is right
exactly when its numbers can be. -/
theorem topic_directory_right (filter : TopicFilter) (topic : Text) (maxConnections : Nat) (events : List TelemetryEvent)
    (retained : List (Text × List UInt8)) (storage : RetainStorage) (holds : storage.Holds retained) (entries : List Entry)
    (queues : Queues) : ((topicFilterMatches filter.text topic = true ↔ Matches filter.text topic) ↔
      ¬(Excepted filter.text topic ∧ Takes (levels filter.text) (levels topic))) ∧
    ∃ snapshot after, snapshotLocalServer entries queues (recorded maxConnections events) storage = .ok (snapshot, after) ∧
      (Right events retained entries snapshot ↔ Countable events retained entries) := by
  refine ⟨topicFilterMatches_right filter topic, ?_⟩
  obtain ⟨topics, snapshot, after, run, shown, listed, complete⟩ := snapshot_listed holds maxConnections events entries queues
  refine ⟨snapshot, after, run, ?_⟩
  have names := listed.names
  rw [← shown] at names
  have there {name : Text} {topic : MqttTopicObservation} (found : topics.lookup name = some topic) : topic ∈ snapshot.topics := by
    rw [shown]
    exact OrderedMap.mem_values.mpr ⟨name, found⟩
  constructor
  · intro right
    refine ⟨fun name mem => ?_, fun name mem => ?_, fun name mem => ?_⟩
    · obtain ⟨topic, found, named, counted, -⟩ := listed.observed name mem
      have exact := right.published topic (there found)
      rw [named, counted] at exact
      omega
    · obtain ⟨topic, found, named, -, counted⟩ := listed.observed name mem
      have exact := right.subscribed topic (there found)
      rw [named, counted] at exact
      exact (subscriberCount_right entries name).mp exact
    · obtain ⟨topic, found, named, -, counted⟩ := listed.added name mem
      have exact := right.subscribed topic (there found)
      rw [named, counted] at exact
      exact nobody_iff.mp exact
  · intro countable
    have cases (topic : MqttTopicObservation) (mem : topic ∈ snapshot.topics) :
        topic.name ∈ observedTopics events ∧
          Shows topic.name (min ((published events).count topic.name) (2 ^ 64 - 1)) (subscriberCount (onlineClients entries) topic.name) topic ∨
        topic.name ∈ retainedOnly events retained ∧ Shows topic.name 0 0 topic := by
      rw [shown] at mem
      obtain ⟨name, found⟩ := OrderedMap.mem_values.mp mem
      rw [listed.named found]
      rcases (listed.keys name).mp (OrderedMap.mem_keys_iff.mpr ⟨topic, found⟩) with observed | added
      · obtain ⟨topic', found', shows⟩ := listed.observed name observed
        obtain rfl := Option.some_inj.mp (found.symm.trans found')
        exact Or.inl ⟨observed, shows⟩
      · obtain ⟨topic', found', shows⟩ := listed.added name added
        obtain rfl := Option.some_inj.mp (found.symm.trans found')
        exact Or.inr ⟨added, shows⟩
    constructor
    · rw [names]
      exact topics.keys_nodup
    · intro topic mem
      refine listed.within ?_
      rw [← names]
      exact mem_map_of_mem mem
    · rw [← length_map MqttTopicObservation.name, names, listed.many holds.once]
    · rw [complete, listed.all_iff holds.once, ← names]
      simp only [mem_map]
    · intro topic mem
      rcases cases topic mem with ⟨observed, -, counted, -⟩ | ⟨added, -, counted, -⟩
      · have few := countable.few topic.name observed
        omega
      · rw [counted, count_eq_zero_of_not_mem (retainedOnly_known added).2]
    · intro topic mem
      rcases cases topic mem with ⟨observed, -, -, counted⟩ | ⟨added, -, -, counted⟩
      · rw [counted]
        exact (subscriberCount_right entries topic.name).mpr (countable.unexcepted topic.name observed)
      · rw [counted]
        exact nobody_iff.mpr (countable.unsubscribed topic.name added)

/-- A store that lists these messages. -/
def listing (retained : List (Text × List UInt8)) : RetainStorage where
  getAllPaginated offset limit := .ok ((retained.drop offset).take limit, decide (limit < (retained.drop offset).length))
  count := retained.length

def everything : TopicFilter := ⟨"#", by decide, by decide⟩
def onlyA : TopicFilter := ⟨"a", by decide, by decide⟩

/-- A client that subscribes to `a`. -/
def watcher : Entry where
  online := true
  session := some { clientId := "w", connectInfo := none, connectedAt := none }
  subscriptions := some [{ topic := onlyA, qosValue := 0, noLocal := none }]

def noQueues : Queues where
  eventDepth := 0
  eventCapacity := none
  commandDepth := 0
  commandCapacity := 0

theorem topic_directory_right_a : let retained : List (Text × List UInt8) := [("a", [1])]
    ∃ snapshot after, snapshotLocalServer [watcher] noQueues (recorded 8 [.published ⟨"a", [1], 0⟩]) (listing retained) = .ok (snapshot, after) ∧
      (Right [.published ⟨"a", [1], 0⟩] retained [watcher] snapshot ↔ Countable [.published ⟨"a", [1], 0⟩] retained [watcher]) :=
  (topic_directory_right everything [] 8 [.published ⟨"a", [1], 0⟩] [("a", [1])] (listing [("a", [1])])
    ⟨by decide, fun _ => rfl⟩ [watcher] noQueues).2

/-- `#` takes a topic of the broker, and nobody is counted for a topic that is only retained. -/
theorem topic_directory_broken : (validateMqttTopicName "$SYS/uptime" = .ok () ∧ topicFilterMatches everything.text "$SYS/uptime" = true ∧
      ¬Matches everything.text "$SYS/uptime") ∧
    ∃ snapshot after, snapshotLocalServer [watcher] noQueues (recorded 8 []) (listing [("a", [1])]) = .ok (snapshot, after) ∧
      ¬Right [] [("a", [1])] [watcher] snapshot := by
  refine ⟨⟨by decide, by decide, fun matched => matched.2 (by decide)⟩, _, _, rfl, fun right => ?_⟩
  have nobody := right.subscribed ⟨"a", .Retained, true, none, 0, 0, 1⟩ (by decide)
  have subscribed : Subscribed ⟨"w", none, none, none, [⟨"a", .AtMostOnce, false⟩]⟩ "a" := by
    refine ⟨⟨"a", .AtMostOnce, false⟩, mem_singleton_self _, ?_, by decide⟩
    exact .plain (by decide) .done
  exact nobody_iff.mp nobody _ (mem_singleton_self _) subscribed

end Ramag.TopicDirectory
