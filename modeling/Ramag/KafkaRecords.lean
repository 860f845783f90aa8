import Ramag.DataSyncGate
import Ramag.SshRemotePath

/-!
The messages of Kafka as the transports hand them on, what is checked of one,
and the bytes that it is counted with.
-/
namespace Ramag.KafkaRecords
open Strings Domain
open DataSyncGate (saturatingAdd)
open SshRemotePath (validateProtocolText validateRequiredSingleLine)

def MAX_KAFKA_TOPIC_NAME_BYTES : Nat := 249
def MAX_KAFKA_MESSAGE_HEADERS : Nat := 1000
def MAX_KAFKA_HEADER_KEY_BYTES : Nat := 1024

structure KafkaMessageHeader where
  key : Text
  value : Option (List UInt8)

structure KafkaMessageRecord where
  topic : Text
  partition : Int
  offset : Int
  /-- Milliseconds since 1970. -/
  timestamp : Option Int
  key : Option (List UInt8)
  value : Option (List UInt8)
  headers : List KafkaMessageHeader

def validateKafkaTopicName (name : Text) : Except Text Unit := do
  validateRequiredSingleLine "Topic 名称" name MAX_KAFKA_TOPIC_NAME_BYTES
  if name = ['.'] ∨ name = ['.', '.'] then .error "Topic 名称不能是 . 或 .." else .ok ()

def KafkaMessageHeader.validate (header : KafkaMessageHeader) : Except Text Unit := do
  if trim header.key = [] then .error "Header Key 不能为空"
  else
    validateProtocolText "Header Key" header.key MAX_KAFKA_HEADER_KEY_BYTES
    if header.key.any isControl then .error "Header Key 不能包含控制字符" else .ok ()

/-- The length of bytes that may be missing. -/
def lengthOf (bytes : Option (List UInt8)) : Nat := (bytes.map List.length).getD 0

namespace KafkaMessageRecord

def validate (record : KafkaMessageRecord) : Except Text Unit := do
  validateKafkaTopicName record.topic
  if record.partition < 0 then .error "消息 Partition 不能为负数"
  else if record.offset < 0 then .error "消息 Offset 不能为负数"
  else if record.headers.length > MAX_KAFKA_MESSAGE_HEADERS then
    .error ("消息 Header 数量超过 " ++ natText MAX_KAFKA_MESSAGE_HEADERS ++ " 个上限")
  else record.headers.forM KafkaMessageHeader.validate

/-- `retained_bytes`, and `message_retained_bytes` of the message that the record is made from. -/
def retainedBytes (record : KafkaMessageRecord) : Nat :=
  let headerBytes := record.headers.foldl
    (fun total header => saturatingAdd (saturatingAdd total (byteLen header.key)) (lengthOf header.value)) 0
  saturatingAdd (saturatingAdd (saturatingAdd (byteLen record.topic) (lengthOf record.key)) (lengthOf record.value)) headerBytes

end KafkaMessageRecord

end Ramag.KafkaRecords
