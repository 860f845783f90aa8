import Mathlib
import Ramag.Domain

/-!
The description of a plugin and its validation: identity, API version, entries
with their payload limits, capabilities and settings. A registration accepts
exactly the descriptors that `PluginDescriptor.validate` accepts.
-/
namespace Ramag.Plugin
open Strings Domain List

def MAX_PLUGIN_ID_BYTES : Nat := 64
def MAX_PLUGIN_ENTRY_ID_BYTES : Nat := 128
def MAX_PLUGIN_SETTING_KEY_BYTES : Nat := 64
def MAX_PLUGIN_NAME_BYTES : Nat := 128
def MAX_PLUGIN_DESCRIPTION_BYTES : Nat := 512
def MAX_PLUGIN_CAPABILITIES : Nat := 16
def MAX_PLUGIN_SETTINGS : Nat := 64
def MAX_PLUGIN_ENUM_VALUES : Nat := 64
def MAX_PLUGIN_SETTING_VALUE_BYTES : Nat := 1024
def MAX_PLUGIN_SETTING_LIST_ITEMS : Nat := 64
def MAX_PLUGIN_ENTRIES : Nat := 16
def MAX_PLUGIN_ENTRY_PAYLOAD_BYTES : Nat := 4 * 1024 * 1024
def DEFAULT_PLUGIN_ENTRY_PAYLOAD_BYTES : Nat := 64 * 1024

structure PluginApiVersion where
  major : Nat
  minor : Nat

def CURRENT_PLUGIN_API_VERSION : PluginApiVersion := ⟨1, 0⟩

def PluginApiVersion.isSupportedBy (version host : PluginApiVersion) : Bool :=
  version.major = host.major && version.minor ≤ host.minor

/-- A manifest is deserialised without a check, so an id is any text until the
    descriptor is validated. -/
structure PluginId where
  value : Text
  deriving DecidableEq

structure PluginCapability where
  value : Text
  deriving DecidableEq

def KNOWN_PLUGIN_CAPABILITIES : List Text :=
  ["ui.entry", "ui.notification", "storage.plugin", "task.scoped"]

def PluginCapability.isKnown (capability : PluginCapability) : Bool := capability.value ∈ KNOWN_PLUGIN_CAPABILITIES

inductive PluginSettingKind
  | Boolean
  | Integer
  | String
  | Enum
  | StringList
  deriving DecidableEq

inductive PluginSettingValue
  | Boolean (value : Bool)
  | Integer (value : Int)
  | String (value : Text)
  | StringList (values : List Text)

structure PluginSettingDefinition where
  key : Text
  kind : PluginSettingKind
  default : Option PluginSettingValue
  sensitive : Bool
  enumValues : List Text

inductive PluginEntryDataKind
  | Text
  | Json
  | Binary

structure PluginEntryDataSpec where
  kind : PluginEntryDataKind
  maxBytes : Nat

structure PluginEntryDescriptor where
  id : Text
  name : Text
  description : Text
  input : PluginEntryDataSpec
  output : PluginEntryDataSpec

def PluginEntryDescriptor.new (id name : Text) : PluginEntryDescriptor where
  id := id
  name := name
  description := []
  input := ⟨.Text, DEFAULT_PLUGIN_ENTRY_PAYLOAD_BYTES⟩
  output := ⟨.Text, DEFAULT_PLUGIN_ENTRY_PAYLOAD_BYTES⟩

structure PluginDescriptor where
  id : PluginId
  apiVersion : PluginApiVersion
  name : Text
  description : Text
  entryId : Text
  entries : List PluginEntryDescriptor
  capabilities : List PluginCapability
  settings : List PluginSettingDefinition

/-- The description of a built-in tool. -/
def PluginDescriptor.new (id : PluginId) (name entryId : Text) : PluginDescriptor where
  id := id
  apiVersion := CURRENT_PLUGIN_API_VERSION
  name := name
  description := []
  entryId := entryId
  entries := []
  capabilities := [⟨"ui.entry"⟩]
  settings := []

variable (descriptor : PluginDescriptor)

/-- The entries of the manifest; an old manifest without entries has one, made
    of its own fields. -/
def PluginDescriptor.entryDescriptors : List PluginEntryDescriptor :=
  if descriptor.entries = [] then
    [{ PluginEntryDescriptor.new descriptor.entryId descriptor.name with description := descriptor.description }]
  else descriptor.entries

inductive PluginRegistrationError
  | EmptyField (field : Text)
  | FieldTooLong (field : Text) (maxBytes : Nat)
  | InvalidIdentifier (field value : Text)
  | UnsupportedApiVersion (plugin host : PluginApiVersion)
  | UnknownCapability (capability : Text)
  | DuplicateCapability (capability : Text)
  | TooManyCapabilities (max : Nat)
  | InvalidSetting (key reason : Text)
  | DuplicateSetting (key : Text)
  | TooManySettings (max : Nat)
  | TooManyEntries (max : Nat)
  | DuplicateEntryDescriptor (entryId : Text)
  | MissingPrimaryEntry (entryId : Text)
  | MissingToolEntry (pluginId : PluginId) (entryId : Text)
  | InvalidEntry (entryId reason : Text)
  | EntryCountMismatch (pluginId : PluginId) (expected actual : Nat)
  | DuplicatePluginId (id : PluginId)
  | DuplicateEntryId (entryId : Text)
  | EntryIdMismatch (pluginId : PluginId) (entryId toolId : Text)

def PluginApiVersion.text (version : PluginApiVersion) : Text := natText version.major ++ ['.'] ++ natText version.minor

/-- The text of an error, as it stands in the reason of another one. -/
def PluginRegistrationError.message : PluginRegistrationError → Text
  | .EmptyField field => field ++ "不能为空"
  | .FieldTooLong field maxBytes => field ++ "超过 " ++ natText maxBytes ++ " 字节"
  | .InvalidIdentifier field value => field ++ "包含非法字符：" ++ value
  | .UnsupportedApiVersion plugin host => "插件 API " ++ plugin.text ++ " 不受宿主 API " ++ host.text ++ " 支持"
  | .UnknownCapability capability => "未知插件能力：" ++ capability
  | .DuplicateCapability capability => "插件能力重复：" ++ capability
  | .TooManyCapabilities max => "插件能力超过 " ++ natText max ++ " 项"
  | .InvalidSetting key reason => "插件设置 `" ++ key ++ "` 无效：" ++ reason
  | .DuplicateSetting key => "插件设置重复：" ++ key
  | .TooManySettings max => "插件设置超过 " ++ natText max ++ " 项"
  | .TooManyEntries max => "插件入口超过 " ++ natText max ++ " 项"
  | .DuplicateEntryDescriptor entryId => "插件入口描述重复：" ++ entryId
  | .MissingPrimaryEntry entryId => "插件主入口 `" ++ entryId ++ "` 未出现在多入口清单中"
  | .MissingToolEntry pluginId entryId => "插件 `" ++ pluginId.value ++ "` 没有提供清单入口 `" ++ entryId ++ "` 对应的工具"
  | .InvalidEntry entryId reason => "插件入口 `" ++ entryId ++ "` 无效：" ++ reason
  | .EntryCountMismatch pluginId expected actual =>
    "插件 `" ++ pluginId.value ++ "` 需要 " ++ natText expected ++ " 个工具入口，实际提供 " ++ natText actual ++ " 个"
  | .DuplicatePluginId id => "插件 ID 已注册：" ++ id.value
  | .DuplicateEntryId entryId => "工具入口已注册：" ++ entryId
  | .EntryIdMismatch pluginId entryId toolId => "插件 `" ++ pluginId.value ++ "` 的入口 `" ++ entryId ++ "` 与工具 ID `" ++ toolId ++ "` 不一致"

/-! ### Validation -/

/-- The bytes of an identifier. A byte of a longer character is none of them, so
    the test on the characters is the test on the bytes. -/
def identifierByte (index : Nat) (c : Char) : Bool :=
  c.isLower || c.isDigit || (index > 0 && (c == '.' || c == '_' || c == '-'))

def validateIdentifier (field value : Text) (maxBytes : Nat) : Except PluginRegistrationError Unit :=
  if value = [] then .error (.EmptyField field)
  else if byteLen value > maxBytes then .error (.FieldTooLong field maxBytes)
  else if value.zipIdx.all (fun (c, index) => identifierByte index c) && value.head?.any Char.isAlphanum then .ok ()
  else .error (.InvalidIdentifier field value)

def validateText (field value : Text) (maxBytes : Nat) (allowEmpty : Bool) : Except PluginRegistrationError Unit :=
  if allowEmpty = false ∧ value = [] then .error (.EmptyField field)
  else if byteLen value > maxBytes then .error (.FieldTooLong field maxBytes)
  else .ok ()

def validateSettingText (key value : Text) : Except PluginRegistrationError Unit :=
  if value = [] then .error (.InvalidSetting key "字符串值不能为空")
  else if byteLen value > MAX_PLUGIN_SETTING_VALUE_BYTES then
    .error (.InvalidSetting key ("字符串值超过 " ++ natText MAX_PLUGIN_SETTING_VALUE_BYTES ++ " 字节"))
  else .ok ()

/-- An early return of an error. -/
def refuse {ε : Type} (bad : Prop) [Decidable bad] (error : ε) : Except ε Unit := if bad then .error error else .ok ()

/-- A loop that checks each item and then that its key is new, and collects the
    keys. -/
def checkEach {α κ ε : Type} [DecidableEq κ] (check : α → Except ε Unit) (key : α → κ) (duplicate : κ → ε) :
    List κ → List α → Except ε (List κ)
  | seen, [] => .ok seen
  | seen, item :: items => do
    check item
    if key item ∈ seen then .error (duplicate (key item))
    else checkEach check key duplicate (key item :: seen) items

def PluginSettingValue.fits : PluginSettingKind → PluginSettingValue → Bool
  | .Boolean, .Boolean _ | .Integer, .Integer _ | .String, .String _ | .Enum, .String _
  | .StringList, .StringList _ => true
  | _, _ => false

variable (setting : PluginSettingDefinition)

namespace PluginSettingDefinition

def validateDefault (default : PluginSettingValue) : Except PluginRegistrationError Unit :=
  if default.fits setting.kind = false then .error (.InvalidSetting setting.key "默认值类型与设置类型不匹配")
  else
    match default with
    | .String value => do
      validateSettingText setting.key value
      if setting.kind = .Enum ∧ value ∉ setting.enumValues then
        .error (.InvalidSetting setting.key "默认枚举值不在枚举列表中")
      else .ok ()
    | .StringList values =>
      if values.length > MAX_PLUGIN_SETTING_LIST_ITEMS then
        .error (.InvalidSetting setting.key
          ("字符串列表超过 " ++ natText MAX_PLUGIN_SETTING_LIST_ITEMS ++ " 项"))
      else values.forM (validateSettingText setting.key)
    | .Boolean _ | .Integer _ => .ok ()

def validateEnum : Except PluginRegistrationError Unit :=
  if setting.enumValues = [] then .error (.InvalidSetting setting.key "Enum 设置至少需要一个枚举值")
  else if setting.enumValues.length > MAX_PLUGIN_ENUM_VALUES then
    .error (.InvalidSetting setting.key ("枚举值超过 " ++ natText MAX_PLUGIN_ENUM_VALUES ++ " 项"))
  else do
    let _ ← checkEach (validateSettingText setting.key) id
      (fun _ => .InvalidSetting setting.key "枚举值重复") [] setting.enumValues
    .ok ()

def validate : Except PluginRegistrationError Unit := do
  (validateIdentifier "插件设置键" setting.key MAX_PLUGIN_SETTING_KEY_BYTES).mapError
    fun error => .InvalidSetting setting.key error.message
  refuse (setting.kind ≠ .Enum ∧ setting.enumValues ≠ [])
    (.InvalidSetting setting.key "只有 Enum 设置可以声明枚举值")
  if setting.kind = .Enum then validateEnum setting else .ok ()
  setting.default.forM setting.validateDefault

end PluginSettingDefinition

variable (entry : PluginEntryDescriptor)

namespace PluginEntryDescriptor

def invalid (reason : Text) : PluginRegistrationError := .InvalidEntry entry.id reason

def validatePayload (label : Text) (spec : PluginEntryDataSpec) : Except PluginRegistrationError Unit :=
  if spec.maxBytes = 0 ∨ spec.maxBytes > MAX_PLUGIN_ENTRY_PAYLOAD_BYTES then
    .error (entry.invalid (label ++ "载荷上限必须在 1 到 " ++ natText MAX_PLUGIN_ENTRY_PAYLOAD_BYTES ++ " 字节之间"))
  else .ok ()

def validate : Except PluginRegistrationError Unit := do
  (validateIdentifier "插件入口 ID" entry.id MAX_PLUGIN_ENTRY_ID_BYTES).mapError
    fun error => entry.invalid error.message
  (validateText "插件入口名称" entry.name MAX_PLUGIN_NAME_BYTES false).mapError
    fun error => entry.invalid error.message
  (validateText "插件入口描述" entry.description MAX_PLUGIN_DESCRIPTION_BYTES true).mapError
    fun error => entry.invalid error.message
  entry.validatePayload "输入" entry.input
  entry.validatePayload "输出" entry.output

end PluginEntryDescriptor

namespace PluginDescriptor

def validateEntries : Except PluginRegistrationError Unit := do
  refuse (descriptor.entryDescriptors.length > MAX_PLUGIN_ENTRIES) (.TooManyEntries MAX_PLUGIN_ENTRIES)
  let entryIds ← checkEach PluginEntryDescriptor.validate (·.id) .DuplicateEntryDescriptor [] descriptor.entryDescriptors
  refuse (descriptor.entryId ∉ entryIds) (.MissingPrimaryEntry descriptor.entryId)

def validateCapabilities : Except PluginRegistrationError Unit := do
  refuse (descriptor.capabilities.length > MAX_PLUGIN_CAPABILITIES) (.TooManyCapabilities MAX_PLUGIN_CAPABILITIES)
  let _ ← checkEach
    (fun capability => refuse (capability.isKnown = false) (.UnknownCapability capability.value))
    (fun capability => capability)
    (fun capability => .DuplicateCapability capability.value) [] descriptor.capabilities

def validateSettings : Except PluginRegistrationError Unit := do
  refuse (descriptor.settings.length > MAX_PLUGIN_SETTINGS) (.TooManySettings MAX_PLUGIN_SETTINGS)
  let _ ← checkEach PluginSettingDefinition.validate (·.key) .DuplicateSetting [] descriptor.settings

def validateFor (host : PluginApiVersion) : Except PluginRegistrationError Unit := do
  validateIdentifier "插件 ID" descriptor.id.value MAX_PLUGIN_ID_BYTES
  refuse (descriptor.apiVersion.isSupportedBy host = false) (.UnsupportedApiVersion descriptor.apiVersion host)
  validateText "插件名称" descriptor.name MAX_PLUGIN_NAME_BYTES false
  validateText "插件描述" descriptor.description MAX_PLUGIN_DESCRIPTION_BYTES true
  validateIdentifier "插件入口 ID" descriptor.entryId MAX_PLUGIN_ENTRY_ID_BYTES
  descriptor.validateEntries
  descriptor.validateCapabilities
  descriptor.validateSettings

def validate : Except PluginRegistrationError Unit :=
  descriptor.validateFor CURRENT_PLUGIN_API_VERSION

end PluginDescriptor

theorem refuse_ok {ε : Type} {bad : Prop} [Decidable bad] {error : ε} {value : Unit} (done : refuse bad error = .ok value) : ¬ bad := by
  unfold refuse at done
  split_ifs at done with held
  exact held

theorem checkEach_ok {α κ ε : Type} [DecidableEq κ] {check : α → Except ε Unit} {key : α → κ} {duplicate : κ → ε}
    {seen keys : List κ} {items : List α} (done : checkEach check key duplicate seen items = .ok keys) :
    (∀ item ∈ items, check item = .ok ()) ∧ (items.map key).Nodup ∧ (∀ item ∈ items, key item ∉ seen) ∧
      ∀ k, k ∈ keys ↔ k ∈ items.map key ∨ k ∈ seen := by
  induction items generalizing seen with
  | nil =>
    cases done
    exact ⟨by simp, by simp, by simp, by simp⟩
  | cons item items ih =>
    obtain ⟨⟨⟩, checked, rest⟩ := bind_ok done
    split_ifs at rest with old
    obtain ⟨each, distinct, fresh, all⟩ := ih rest
    refine ⟨?_, ?_, ?_, ?_⟩
    · simpa [checked] using each
    · rw [map_cons, nodup_cons]
      refine ⟨?_, distinct⟩
      intro again
      obtain ⟨other, mem, same⟩ := mem_map.mp again
      exact fresh other mem (by simp [same])
    · intro other mem
      rcases mem_cons.mp mem with rfl | later
      · exact old
      · exact fun earlier => fresh other later (mem_cons_of_mem _ earlier)
    · intro k
      rw [all k, map_cons, mem_cons, mem_cons]
      tauto

theorem identifierByte_plain {c : Char} {index : Nat} (byte : identifierByte index c = true) : isControl c = false := by
  have printable : 0x20 ≤ c.toNat ∧ c.toNat < 0x7F := by
    simp only [identifierByte, Char.isLower, Char.isDigit, UInt32.le_iff_toNat_le, Bool.or_eq_true, Bool.and_eq_true,
      decide_eq_true_eq, beq_iff_eq] at byte
    have value : c.toNat = c.val.toNat := rfl
    have marks : 'a'.val.toNat = 97 ∧ 'z'.val.toNat = 122 ∧ '0'.val.toNat = 48 ∧ '9'.val.toNat = 57 := ⟨rfl, rfl, rfl, rfl⟩
    rcases byte with (⟨low, high⟩ | ⟨low, high⟩) | ⟨_, (rfl | rfl) | rfl⟩
    · omega
    · omega
    · decide
    · decide
    · decide
  simp only [isControl, Bool.or_eq_false_iff, Bool.and_eq_false_iff, decide_eq_false_iff_not]
  omega

theorem validateIdentifier_ok {field value : Text} {maxBytes : Nat} (done : validateIdentifier field value maxBytes = .ok ()) :
    value ≠ [] ∧ byteLen value ≤ maxBytes ∧ value.any isControl = false := by
  unfold validateIdentifier at done
  split_ifs at done with empty long bytes
  refine ⟨empty, by omega, ?_⟩
  simp only [Bool.and_eq_true, all_eq_true] at bytes
  rw [any_eq_false]
  intro c mem control
  obtain ⟨index, inside, here⟩ := getElem_of_mem mem
  have byte := bytes.1 (c, index) (by rw [mem_zipIdx_iff_getElem?, ← here, getElem?_eq_getElem inside])
  rw [identifierByte_plain byte] at control
  cases control

/-- What the validation of an entry guarantees. -/
structure PluginEntryDescriptor.Valid (entry : PluginEntryDescriptor) : Prop where
  named : entry.id ≠ []
  short : byteLen entry.id ≤ MAX_PLUGIN_ENTRY_ID_BYTES
  plain : entry.id.any isControl = false
  output : 0 < entry.output.maxBytes ∧ entry.output.maxBytes ≤ MAX_PLUGIN_ENTRY_PAYLOAD_BYTES

theorem PluginEntryDescriptor.validate_ok {entry : PluginEntryDescriptor} (done : entry.validate = .ok ()) : entry.Valid := by
  obtain ⟨⟨⟩, identity, done⟩ := bind_ok done
  obtain ⟨⟨⟩, _, done⟩ := bind_ok done
  obtain ⟨⟨⟩, _, done⟩ := bind_ok done
  obtain ⟨⟨⟩, _, done⟩ := bind_ok done
  obtain ⟨named, short, plain⟩ := validateIdentifier_ok (mapError_ok identity)
  refine ⟨named, short, plain, ?_⟩
  unfold validatePayload at done
  split_ifs at done with outside
  omega

/-- What the validation of a descriptor guarantees about its entries. -/
structure PluginDescriptor.Valid (descriptor : PluginDescriptor) : Prop where
  each : ∀ entry ∈ descriptor.entryDescriptors, entry.Valid
  distinct : (descriptor.entryDescriptors.map (·.id)).Nodup
  primary : descriptor.entryId ∈ descriptor.entryDescriptors.map (·.id)

theorem PluginDescriptor.validate_ok {descriptor : PluginDescriptor} (done : descriptor.validate = .ok ()) : descriptor.Valid := by
  obtain ⟨⟨⟩, _, done⟩ := bind_ok done
  obtain ⟨⟨⟩, _, done⟩ := bind_ok done
  obtain ⟨⟨⟩, _, done⟩ := bind_ok done
  obtain ⟨⟨⟩, _, done⟩ := bind_ok done
  obtain ⟨⟨⟩, _, done⟩ := bind_ok done
  obtain ⟨⟨⟩, entries, _⟩ := bind_ok done
  obtain ⟨⟨⟩, _, entries⟩ := bind_ok entries
  obtain ⟨ids, checked, primary⟩ := bind_ok entries
  obtain ⟨each, distinct, _, all⟩ := checkEach_ok checked
  have present := refuse_ok primary
  refine ⟨fun entry mem => PluginEntryDescriptor.validate_ok (each entry mem), distinct, ?_⟩
  simpa using (all descriptor.entryId).mp (not_not.mp present)

end Ramag.Plugin
