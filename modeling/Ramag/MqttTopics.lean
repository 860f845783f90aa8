import Ramag.Fields
import Ramag.SshRemotePath

/-!
Topic filters and how they match topics. Matching goes over the levels of both,
which `/` separates.
-/
namespace Ramag.MqttTopics
open Strings Fields
open SshRemotePath (validateProtocolText)

/-- `u16::MAX` -/
def MAX_MQTT_TOPIC_BYTES : Nat := 65535

def levels (t : Text) : List Text := t.splitOn '/'

def validateMqttTopicName (topic : Text) : Except Text Unit := do
  validateProtocolText "MQTT Topic" topic MAX_MQTT_TOPIC_BYTES
  if topic = [] then .error "MQTT Topic 不能为空"
  else if '+' ∈ topic ∨ '#' ∈ topic then .error "MQTT 发布 Topic 不能包含 + 或 # 通配符"
  else .ok ()

def validateLevels : List Text → Except Text Unit
  | [] => .ok ()
  | level :: rest =>
    if '#' ∈ level ∧ (level ≠ ['#'] ∨ rest ≠ []) then .error "MQTT # 必须独占最后一个 Topic 层级"
    else if '+' ∈ level ∧ level ≠ ['+'] then .error "MQTT + 必须独占一个 Topic 层级"
    else validateLevels rest

/-- The filter behind the group of a shared subscription. -/
def sharedFilter (filter : Text) : Except Text Text :=
  match stripPrefix "$share/" filter with
  | none => .ok filter
  | some shared =>
    let parts := splitN '/' 2 shared
    let group := parts[0]?.getD []
    let filter := parts[1]?.getD []
    if group = [] ∨ '+' ∈ group ∨ '#' ∈ group then .error "共享订阅的 Group 名称无效"
    else if filter = [] then .error "共享订阅缺少 Topic Filter"
    else .ok filter

def validateMqttTopicFilter (filter : Text) : Except Text Unit := do
  validateProtocolText "MQTT Topic Filter" filter MAX_MQTT_TOPIC_BYTES
  if filter = [] then .error "MQTT Topic Filter 不能为空"
  else
    let filter ← sharedFilter filter
    validateLevels (levels filter)

/-- What a subscription of the broker holds: it takes a shared subscription apart. -/
structure TopicFilter where
  text : Text
  accepted : validateMqttTopicFilter text = .ok ()
  unshared : stripPrefix "$share/" text = none

/-- The loop over the levels. -/
def takeLevels : List Text → List Text → Bool
  | [], topic => topic.isEmpty
  | level :: filter, topic =>
    if level = ['#'] then true
    else if level = ['+'] then if topic.head? = none then false else takeLevels filter topic.tail
    else if topic.head? ≠ some level then false
    else takeLevels filter topic.tail

def topicFilterMatches (filter topic : Text) : Bool := takeLevels (levels filter) (levels topic)

/-! ### The matching rules of MQTT -/

/-- The levels of a filter take those of a topic. -/
inductive Takes : List Text → List Text → Prop
  | done : Takes [] []
  | plain {level : Text} {filter topic : List Text} (isPlain : level ≠ ['+'] ∧ level ≠ ['#']) (rest : Takes filter topic) :
      Takes (level :: filter) (level :: topic)
  | one {level : Text} {filter topic : List Text} (rest : Takes filter topic) : Takes (['+'] :: filter) (level :: topic)
  | all (topic : List Text) : Takes [['#']] topic

/-- The filter begins with a wildcard, and the topic is one of the broker's own. -/
def Excepted (filter topic : Text) : Prop :=
  ((levels filter).head? = some ['+'] ∨ (levels filter).head? = some ['#']) ∧ topic.head? = some '$'

instance (filter topic : Text) : Decidable (Excepted filter topic) := inferInstanceAs (Decidable (_ ∧ _))

def Matches (filter topic : Text) : Prop := Takes (levels filter) (levels topic) ∧ ¬Excepted filter topic

theorem takeLevels_iff {filter : List Text} (accepted : validateLevels filter = .ok ()) (topic : List Text) :
    takeLevels filter topic = true ↔ Takes filter topic := by
  induction filter generalizing topic with
  | nil =>
    rw [takeLevels, List.isEmpty_iff]
    constructor
    · rintro rfl
      exact .done
    · rintro ⟨⟩
      rfl
  | cons level filter ih =>
    rw [validateLevels] at accepted
    split at accepted
    · cases accepted
    case isFalse last =>
      split at accepted
      · cases accepted
      case isFalse =>
        rw [takeLevels]
        by_cases hash : level = ['#']
        · have nothing : filter = [] := by
            by_contra more
            exact last ⟨by simp [hash], Or.inr more⟩
          rw [if_pos hash, hash, nothing]
          exact iff_of_true rfl (.all topic)
        · rw [if_neg hash]
          by_cases plus : level = ['+']
          · rw [if_pos plus, plus]
            cases topic with
            | nil => exact iff_of_false Bool.false_ne_true nofun
            | cons next topic =>
              rw [if_neg nofun, List.tail_cons, ih accepted]
              constructor
              · exact .one
              · rintro (_ | ⟨⟨isPlain, -⟩, -⟩ | ⟨rest⟩ | _)
                · exact absurd rfl isPlain
                · exact rest
          · rw [if_neg plus]
            by_cases same : topic.head? = some level
            · obtain ⟨topic, rfl⟩ := List.head?_eq_some_iff.mp same
              rw [if_neg (not_not_intro same), List.tail_cons, ih accepted]
              constructor
              · exact .plain ⟨plus, hash⟩
              rintro (_ | ⟨-, rest⟩ | ⟨rest⟩ | _)
              · exact rest
              · exact absurd rfl plus
              · exact absurd rfl hash
            · rw [if_pos same]
              refine iff_of_false Bool.false_ne_true ?_
              rintro (_ | _ | _ | _)
              · exact same rfl
              · exact plus rfl
              · exact hash rfl

variable (filter : TopicFilter)

theorem TopicFilter.levels_accepted : validateLevels (levels filter.text) = .ok () := by
  have accepted := filter.accepted
  have shared : sharedFilter filter.text = .ok filter.text := by rw [sharedFilter, filter.unshared]
  rw [validateMqttTopicFilter, shared] at accepted
  cases first : validateProtocolText "MQTT Topic Filter" filter.text MAX_MQTT_TOPIC_BYTES with
  | error message =>
    rw [first] at accepted
    cases accepted
  | ok =>
    rw [first] at accepted
    by_cases empty : filter.text = []
    · rw [empty] at accepted
      cases accepted
    · simp only [if_neg empty] at accepted
      exact accepted

theorem topicFilterMatches_iff (topic : Text) : topicFilterMatches filter.text topic = true ↔ Takes (levels filter.text) (levels topic) :=
  takeLevels_iff filter.levels_accepted (levels topic)

/-- The code is right unless a wildcard meets a topic of the broker and takes it. -/
theorem topicFilterMatches_right (topic : Text) : (topicFilterMatches filter.text topic = true ↔ Matches filter.text topic) ↔
      ¬(Excepted filter.text topic ∧ Takes (levels filter.text) (levels topic)) := by
  rw [topicFilterMatches_iff, Matches]
  tauto

end Ramag.MqttTopics
