import Ramag.Plugin
import Ramag.PluginRecords
import Ramag.PruneRuns

/-!
The settings of a plugin and its secrets: snapshots that a descriptor accepts,
and the two stores that write them into the preferences, the settings as they
are and the secrets sealed.
-/
namespace Ramag.PluginSettings
open Strings Domain Plugin Fields OrderedTables PluginRecords
open ClipStore (hexValue)

def CURRENT_PLUGIN_SETTINGS_FORMAT_VERSION : Nat := 1
def MAX_PLUGIN_SETTINGS_PAYLOAD_BYTES : Nat := 128 * 1024
def MAX_PLUGIN_SETTINGS_MIGRATION_STEPS : Nat := 8
def CURRENT_PLUGIN_SECRET_FORMAT_VERSION : Nat := 1
def MAX_PLUGIN_SECRET_PLAINTEXT_BYTES : Nat := 128 * 1024
def MAX_PLUGIN_SECRET_STORED_BYTES : Nat := 256 * 1024
def ENCRYPTED_PLUGIN_SECRET_PREFIX : Text := "encrypted-v1:"
def PLUGIN_NAMESPACE_PREFIX : Text := "plugin."

inductive PluginSettingsError
  | InvalidDescriptor (pluginId : PluginId) (source : PluginRegistrationError)
  | NamespaceMismatch (expected key : Text)
  | DuplicateKey (key : Text)
  | UnknownSetting (pluginId : PluginId) (key : Text)
  | SensitiveSettingRequiresSecretStorage (key : Text)
  | InvalidValue (key : Text) (source : PluginRegistrationError)

inductive PluginSecretError
  | InvalidDescriptor (pluginId : PluginId) (source : PluginRegistrationError)
  | NamespaceMismatch (expected key : Text)
  | UnknownSetting (pluginId : PluginId) (key : Text)
  | NotSensitive (key : Text)
  | DuplicateKey (key : Text)
  | InvalidValue (key : Text) (source : PluginRegistrationError)

/-! ### Snapshots -/

abbrev Values := Table Text PluginSettingValue

/-- The values of a plugin's settings, or of its secrets, under the keys of the descriptor. -/
structure PluginSnapshot where
  pluginId : PluginId
  ns : Text
  definitions : Table Text PluginSettingDefinition
  values : Values

/-- Settings and secrets: whether their definitions are marked as sensitive, and the errors. -/
structure SnapshotKind (E : Type) where
  sensitive : Bool
  InvalidDescriptor : PluginId → PluginRegistrationError → E
  NamespaceMismatch : Text → Text → E
  DuplicateKey : Text → E
  UnknownSetting : PluginId → Text → E
  elsewhere : Text → E
  InvalidValue : Text → PluginRegistrationError → E

def settingsKind : SnapshotKind PluginSettingsError :=
  ⟨false, .InvalidDescriptor, .NamespaceMismatch, .DuplicateKey, .UnknownSetting, .SensitiveSettingRequiresSecretStorage, .InvalidValue⟩

def secretKind : SnapshotKind PluginSecretError :=
  ⟨true, .InvalidDescriptor, .NamespaceMismatch, .DuplicateKey, .UnknownSetting, .NotSensitive, .InvalidValue⟩

def namespaceFor (pluginId : PluginId) : Text := PLUGIN_NAMESPACE_PREFIX ++ pluginId.value ++ ['.']

/-- The definitions under their keys, of two with one key the later. -/
def definitionsOf (settings : List PluginSettingDefinition) : Table Text PluginSettingDefinition :=
  settings.foldl (fun definitions definition => definitions.insert definition.key definition) .empty

section
variable {E : Type} (kind : SnapshotKind E)

def validateValue (definition : PluginSettingDefinition) (qualifiedKey : Text) (value : PluginSettingValue) : Except E Unit :=
  (definition.validateDefault value).mapError (kind.InvalidValue qualifiedKey)

def addValues (pluginId : PluginId) (ns : Text) (definitions : Table Text PluginSettingDefinition) (snapshotValues : Values) :
    List (Text × PluginSettingValue) → Except E Values
  | [] => .ok snapshotValues
  | (qualifiedKey, value) :: values =>
    match stripPrefix ns qualifiedKey with
    | none => .error (kind.NamespaceMismatch ns qualifiedKey)
    | some settingKey =>
      match definitions.get settingKey with
      | none => .error (kind.UnknownSetting pluginId settingKey)
      | some definition =>
        if definition.sensitive ≠ kind.sensitive then .error (kind.elsewhere settingKey)
        else
          match validateValue kind definition qualifiedKey value with
          | .error error => .error error
          | .ok () =>
            if (snapshotValues.get settingKey).isSome then .error (kind.DuplicateKey qualifiedKey)
            else addValues pluginId ns definitions (snapshotValues.insert settingKey value) values

/-- Settings that are not there get their defaults. Secrets have none. -/
def addDefaults (values : Values) : List PluginSettingDefinition → Values
  | [] => values
  | definition :: definitions =>
    match definition.sensitive, definition.default, values.get definition.key with
    | false, some default, none => addDefaults (values.insert definition.key default) definitions
    | _, _, _ => addDefaults values definitions

def fromNamespacedValues (descriptor : PluginDescriptor) (values : List (Text × PluginSettingValue)) : Except E PluginSnapshot :=
  match descriptor.validate with
  | .error source => .error (kind.InvalidDescriptor descriptor.id source)
  | .ok () =>
    let ns := namespaceFor descriptor.id
    let definitions := definitionsOf descriptor.settings
    match addValues kind descriptor.id ns definitions .empty values with
    | .error error => .error error
    | .ok values =>
      let values := if kind.sensitive then values else addDefaults values (definitions.entries.map (·.2))
      .ok ⟨descriptor.id, ns, definitions, values⟩

end

variable (s : PluginSnapshot)

namespace PluginSnapshot

/-- The values under the keys of the preferences. The common beginning keeps their order. -/
def namespacedValues : Values where
  entries := s.values.entries.map fun entry => (s.ns ++ entry.1, entry.2)
  ordered := List.pairwise_map.mpr (s.values.ordered.imp fun less => ClipIndex.append_lt_left s.ns less)

/-- A setting by its whole key. Whether it is sensitive is not asked. -/
def updateNamespaced (qualifiedKey : Text) (value : PluginSettingValue) : Except PluginSettingsError PluginSnapshot :=
  match stripPrefix s.ns qualifiedKey with
  | none => .error (.NamespaceMismatch s.ns qualifiedKey)
  | some key =>
    match s.definitions.get key with
    | none => .error (.UnknownSetting s.pluginId key)
    | some definition =>
      match validateValue settingsKind definition qualifiedKey value with
      | .error error => .error error
      | .ok () => .ok { s with values := s.values.insert key value }

def qualifiedKey {E : Type} (kind : SnapshotKind E) (s : PluginSnapshot) (key : Text) : Except E Text :=
  match s.definitions.get key with
  | none => .error (kind.UnknownSetting s.pluginId key)
  | some definition => if definition.sensitive ≠ kind.sensitive then .error (kind.elsewhere key) else .ok (s.ns ++ key)

/-- A setting by its key in the descriptor. -/
def update (key : Text) (value : PluginSettingValue) : Except PluginSettingsError PluginSnapshot :=
  match s.qualifiedKey settingsKind key with
  | .error error => .error error
  | .ok qualifiedKey => s.updateNamespaced qualifiedKey value

/-- A secret by its key in the descriptor. -/
def updateSecret (key : Text) (value : PluginSettingValue) : Except PluginSecretError PluginSnapshot :=
  match s.qualifiedKey secretKind key with
  | .error error => .error error
  | .ok qualifiedKey =>
    match stripPrefix s.ns qualifiedKey with
    | none => .error (.NamespaceMismatch s.ns qualifiedKey)
    | some key =>
      match s.definitions.get key with
      | none => .error (.UnknownSetting s.pluginId key)
      | some definition =>
        match validateValue secretKind definition qualifiedKey value with
        | .error error => .error error
        | .ok () => .ok { s with values := s.values.insert key value }

end PluginSnapshot

inductive PluginSettingsMigrationError
  | MissingStep (fromVersion : Nat)
  | Failed (fromVersion toVersion : Nat)
  | TooManySteps (max : Nat)
  | TooManyValues (max : Nat)

structure MigrationStep where
  toVersion : Nat
  migrate : Values → Option Values

abbrev PluginSettingsMigrator := Nat → Option MigrationStep

def migrate (migrator : PluginSettingsMigrator) : Nat → Nat → Values → Except PluginSettingsMigrationError Values
  | 0, _, _ => .error (.TooManySteps MAX_PLUGIN_SETTINGS_MIGRATION_STEPS)
  | steps + 1, version, values =>
    if version = CURRENT_PLUGIN_SETTINGS_FORMAT_VERSION then .ok values
    else
      match migrator version with
      | none => .error (.MissingStep version)
      | some step =>
        match step.migrate values with
        | none => .error (.Failed version step.toVersion)
        | some values =>
          if values.entries.length > MAX_PLUGIN_SETTINGS then .error (.TooManyValues MAX_PLUGIN_SETTINGS)
          else migrate migrator steps step.toVersion values

inductive PluginSettingsStoreError
  | Storage (source : DomainError)
  | CorruptPayload
  | UnsupportedFormat (version : Nat)
  | PayloadTooLarge (bytes maxBytes : Nat)
  | Snapshot (source : PluginSettingsError)
  | Migration (source : PluginSettingsMigrationError)
  | RecoveryFailed

structure StoredPluginValues where
  formatVersion : Nat
  values : Values

/-- How serde writes an envelope and reads it back, and the bytes of what is written. -/
structure Serde (Raw : Type) where
  write : StoredPluginValues → Raw
  read : Raw → Option StoredPluginValues
  len : Raw → Nat
  readsBack : ∀ stored, read (write stored) = some stored

section
variable {Raw : Type} (serde : Serde Raw)

def ensurePayloadSize (bytes : Nat) : Except PluginSettingsStoreError Unit :=
  if bytes > MAX_PLUGIN_SETTINGS_PAYLOAD_BYTES then .error (.PayloadTooLarge bytes MAX_PLUGIN_SETTINGS_PAYLOAD_BYTES)
  else .ok ()

def encode (snapshot : PluginSnapshot) : Except PluginSettingsStoreError Raw := do
  let encoded := serde.write ⟨CURRENT_PLUGIN_SETTINGS_FORMAT_VERSION, snapshot.namespacedValues⟩
  ensurePayloadSize (serde.len encoded)
  .ok encoded

def decode (migrator : PluginSettingsMigrator) (descriptor : PluginDescriptor) (raw : Raw) :
    Except PluginSettingsStoreError PluginSnapshot := do
  ensurePayloadSize (serde.len raw)
  match serde.read raw with
  | none => .error .CorruptPayload
  | some envelope =>
    if envelope.formatVersion > CURRENT_PLUGIN_SETTINGS_FORMAT_VERSION then .error (.UnsupportedFormat envelope.formatVersion)
    else
      let values ← (migrate migrator MAX_PLUGIN_SETTINGS_MIGRATION_STEPS envelope.formatVersion envelope.values).mapError .Migration
      (fromNamespacedValues settingsKind descriptor values.entries).mapError .Snapshot

end

theorem keys_apart (pluginId : PluginId) {first second : Text} (shorter : first.length < second.length) :
    PLUGIN_NAMESPACE_PREFIX ++ pluginId.value ++ first ≠ PLUGIN_NAMESPACE_PREFIX ++ pluginId.value ++ second := by
  intro same
  have ends := List.append_cancel_left same
  rw [ends] at shorter
  exact lt_irrefl _ shorter

def settingsKeys (pluginId : PluginId) : Keys where
  primary := PLUGIN_NAMESPACE_PREFIX ++ pluginId.value ++ ".__snapshot.v1"
  backup := PLUGIN_NAMESPACE_PREFIX ++ pluginId.value ++ ".__snapshot.backup.v1"
  apart := keys_apart pluginId (by decide)

def settingsFormat {Raw : Type} (serde : Serde Raw) (migrator : PluginSettingsMigrator) (descriptor : PluginDescriptor) :
    RecordFormat Unit PluginSnapshot Raw PluginSettingsStoreError where
  encode _ := encode serde
  decode := decode serde migrator descriptor
  ensureSize raw := ensurePayloadSize (serde.len raw)
  keys snapshot := settingsKeys snapshot.pluginId
  storageError := .Storage
  recoveryFailed := .RecoveryFailed

def emptySettings (descriptor : PluginDescriptor) : Except PluginSettingsStoreError PluginSnapshot :=
  (fromNamespacedValues settingsKind descriptor []).mapError .Snapshot

inductive PluginSecretStoreError
  | Storage (source : DomainError)
  | CorruptPayload
  | UnsupportedFormat (version : Nat)
  | PayloadTooLarge (bytes maxBytes : Nat)
  | Snapshot (source : PluginSecretError)
  | RecoveryFailed

/-- How the platform seals bytes under its key. -/
structure Sealer (Nonce : Type) where
  sealBytes : Nonce → List UInt8 → Result (List UInt8)
  unsealBytes : List UInt8 → Result (List UInt8)
  unseals : ∀ nonce plain sealed, sealBytes nonce plain = .ok sealed → unsealBytes sealed = .ok plain

def hexEncode (bytes : List UInt8) : Text :=
  bytes.flatMap fun byte => [Nat.digitChar (byte.toNat / 16), Nat.digitChar (byte.toNat % 16)]

def hexDecode : Text → Option (List UInt8)
  | [] => some []
  | [_] => none
  | high :: low :: rest =>
    match hexValue high, hexValue low with
    | some high, some low => (hexDecode rest).map (UInt8.ofNat (high * 16 + low) :: ·)
    | _, _ => none

section
variable {Nonce : Type} (serde : Serde (List UInt8)) (sealer : Sealer Nonce)

def ensurePlaintextSize (bytes : Nat) : Except PluginSecretStoreError Unit :=
  if bytes > MAX_PLUGIN_SECRET_PLAINTEXT_BYTES then .error (.PayloadTooLarge bytes MAX_PLUGIN_SECRET_PLAINTEXT_BYTES) else .ok ()

def ensureStoredSize (bytes : Nat) : Except PluginSecretStoreError Unit :=
  if bytes > MAX_PLUGIN_SECRET_STORED_BYTES then .error (.PayloadTooLarge bytes MAX_PLUGIN_SECRET_STORED_BYTES) else .ok ()

def encodeSecrets (nonce : Nonce) (snapshot : PluginSnapshot) : Except PluginSecretStoreError Text := do
  let plain := serde.write ⟨CURRENT_PLUGIN_SECRET_FORMAT_VERSION, snapshot.namespacedValues⟩
  ensurePlaintextSize (serde.len plain)
  let encrypted ← (sealer.sealBytes nonce plain).mapError .Storage
  let stored := ENCRYPTED_PLUGIN_SECRET_PREFIX ++ hexEncode encrypted
  ensureStoredSize (byteLen stored)
  .ok stored

def decodeSecrets (descriptor : PluginDescriptor) (stored : Text) : Except PluginSecretStoreError PluginSnapshot := do
  ensureStoredSize (byteLen stored)
  match stripPrefix ENCRYPTED_PLUGIN_SECRET_PREFIX stored with
  | none => .error .CorruptPayload
  | some encoded =>
    match hexDecode encoded with
    | none => .error .CorruptPayload
    | some encrypted =>
      let plain ← (sealer.unsealBytes encrypted).mapError .Storage
      ensurePlaintextSize (serde.len plain)
      match serde.read plain with
      | none => .error .CorruptPayload
      | some envelope =>
        if envelope.formatVersion ≠ CURRENT_PLUGIN_SECRET_FORMAT_VERSION then .error (.UnsupportedFormat envelope.formatVersion)
        else (fromNamespacedValues secretKind descriptor envelope.values.entries).mapError .Snapshot

def secretKeys (pluginId : PluginId) : Keys where
  primary := PLUGIN_NAMESPACE_PREFIX ++ pluginId.value ++ ".__secrets.v1"
  backup := PLUGIN_NAMESPACE_PREFIX ++ pluginId.value ++ ".__secrets.backup.v1"
  apart := keys_apart pluginId (by decide)

def secretFormat (descriptor : PluginDescriptor) : RecordFormat Nonce PluginSnapshot Text PluginSecretStoreError where
  encode := encodeSecrets serde sealer
  decode := decodeSecrets serde sealer descriptor
  ensureSize stored := ensureStoredSize (byteLen stored)
  keys snapshot := secretKeys snapshot.pluginId
  storageError := .Storage
  recoveryFailed := .RecoveryFailed

def emptySecrets (descriptor : PluginDescriptor) : Except PluginSecretStoreError PluginSnapshot :=
  (fromNamespacedValues secretKind descriptor []).mapError .Snapshot

end

end Ramag.PluginSettings
