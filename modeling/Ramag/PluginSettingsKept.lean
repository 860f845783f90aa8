import Ramag.PluginSettings
import Mathlib.Logic.Equiv.List
import Mathlib.Data.Nat.Digits.Lemmas

/-!
What a plugin saves of its settings and secrets is read back as it was, and the
two records of each keep it through failed writes and damage to the first, as
long as no save over a damaged record fails half way and no secret is saved as
a setting.
-/
namespace Ramag.PluginSettingsKept
open Strings Domain Plugin Fields OrderedTables PluginRecords PluginSettings List
open ClipStore (hexValue)
open Runs

variable {E : Type} {kind : SnapshotKind E} {descriptor : PluginDescriptor} {s s' : PluginSnapshot}

theorem hexDecode_hexEncode (bytes : List UInt8) : hexDecode (hexEncode bytes) = some bytes := by
  induction bytes with
  | nil => rfl
  | cons byte bytes ih =>
    have small : byte.toNat < 256 := byte.toNat_lt
    have high := PruneRuns.hexValue_digitChar ⟨byte.toNat / 16, by omega⟩
    have low := PruneRuns.hexValue_digitChar ⟨byte.toNat % 16, by omega⟩
    have whole : byte.toNat / 16 * 16 + byte.toNat % 16 = byte.toNat := Nat.div_add_mod' _ _
    change hexDecode (Nat.digitChar (byte.toNat / 16) :: Nat.digitChar (byte.toNat % 16) :: hexEncode bytes) = _
    rw [hexDecode, high, low]
    dsimp only
    rw [ih, whole, UInt8.ofNat_toNat]
    rfl

/-! ### Valid snapshots -/

variable {key : Text} {definition : PluginSettingDefinition}

theorem definitionsOf_get {settings : List PluginSettingDefinition}
    (found : (definitionsOf settings).get key = some definition) : definition.key = key ∧ definition ∈ settings := by
  have general : ∀ (settings : List PluginSettingDefinition) (table : Table Text PluginSettingDefinition),
      (settings.foldl (fun definitions definition => definitions.insert definition.key definition) table).get key = some definition →
        table.get key = some definition ∨ definition.key = key ∧ definition ∈ settings := by
    intro settings
    induction settings with
    | nil => exact fun table held => .inl held
    | cons setting settings ih =>
      intro table held
      rcases ih _ held with earlier | ⟨own, mem⟩
      · rw [Table.get_insert] at earlier
        split_ifs at earlier with same
        · cases earlier
          exact .inr ⟨same.symm, mem_cons_self⟩
        · exact .inl earlier
      · exact .inr ⟨own, mem_cons_of_mem _ mem⟩
  rcases general settings .empty found with nothing | held
  · cases nothing
  · exact held

/-- The values of a snapshot are those that a valid descriptor defines, and all defaults are there. -/
structure Valid (kind : SnapshotKind E) (descriptor : PluginDescriptor) (s : PluginSnapshot) : Prop where
  checked : descriptor.validate = .ok ()
  id : s.pluginId = descriptor.id
  ns : s.ns = namespaceFor descriptor.id
  definitions : s.definitions = definitionsOf descriptor.settings
  values : ∀ key value, s.values.get key = some value →
    ∃ definition, s.definitions.get key = some definition ∧ definition.validateDefault value = .ok ()
  defaults : kind.sensitive = false → ∀ key definition, s.definitions.get key = some definition → definition.sensitive = false →
    definition.default.isSome = true → (s.values.get key).isSome = true

/-- All values are of the kind: no secret is among the settings, and no setting among the secrets. -/
def Pure (kind : SnapshotKind E) (s : PluginSnapshot) : Prop :=
  ∀ key value definition, s.values.get key = some value → s.definitions.get key = some definition → definition.sensitive = kind.sensitive

variable {definitions : Table Text PluginSettingDefinition}

theorem addValues_ok {pluginId : PluginId} {ns : Text} {before values : Values}
    {entries : List (Text × PluginSettingValue)} (done : addValues kind pluginId ns definitions before entries = .ok values)
    (key : Text) (value : PluginSettingValue) (held : values.get key = some value) : before.get key = some value ∨
      ∃ definition, definitions.get key = some definition ∧ definition.sensitive = kind.sensitive ∧
        definition.validateDefault value = .ok () := by
  induction entries generalizing before with
  | nil =>
    cases done
    exact .inl held
  | cons entry entries ih =>
    obtain ⟨qualifiedKey, given⟩ := entry
    rw [addValues] at done
    cases stripped : stripPrefix ns qualifiedKey with
    | none =>
      rw [stripped] at done
      cases done
    | some settingKey =>
      rw [stripped] at done
      dsimp only at done
      cases defined : definitions.get settingKey with
      | none =>
        rw [defined] at done
        cases done
      | some definition =>
        rw [defined] at done
        dsimp only at done
        by_cases wrong : definition.sensitive ≠ kind.sensitive
        · rw [if_pos wrong] at done
          cases done
        rw [if_neg wrong] at done
        cases checked : validateValue kind definition qualifiedKey given with
        | error error =>
          rw [checked] at done
          cases done
        | ok _ =>
          rw [checked] at done
          split_ifs at done with twice
          rcases ih done with earlier | there
          · rw [Table.get_insert] at earlier
            split_ifs at earlier with same
            · cases earlier
              exact .inr ⟨definition, same ▸ defined, not_not.mp wrong, mapError_ok checked⟩
            · exact .inl earlier
          · exact .inr there

variable (values : Values)

theorem addDefaults_get (definitions : List PluginSettingDefinition) (key : Text) (value : PluginSettingValue)
    (held : (addDefaults values definitions).get key = some value) : values.get key = some value ∨
      ∃ definition ∈ definitions, definition.key = key ∧ definition.sensitive = false ∧ definition.default = some value := by
  induction definitions generalizing values with
  | nil => exact .inl held
  | cons definition definitions ih =>
    rw [addDefaults] at held
    split at held
    · next default plain given absent =>
      rcases ih _ held with earlier | ⟨other, mem, rest⟩
      · rw [Table.get_insert] at earlier
        split_ifs at earlier with same
        · cases earlier
          exact .inr ⟨definition, mem_cons_self, same.symm, plain, given⟩
        · exact .inl earlier
      · exact .inr ⟨other, mem_cons_of_mem _ mem, rest⟩
    · rcases ih _ held with earlier | ⟨other, mem, rest⟩
      · exact .inl earlier
      · exact .inr ⟨other, mem_cons_of_mem _ mem, rest⟩

theorem addDefaults_keeps (definitions : List PluginSettingDefinition) (key : Text)
    (there : (values.get key).isSome = true) : ((addDefaults values definitions).get key).isSome = true := by
  induction definitions generalizing values with
  | nil => exact there
  | cons definition definitions ih =>
    rw [addDefaults]
    split
    · refine ih _ ?_
      rw [Table.get_insert]
      split_ifs
      · rfl
      · exact there
    · exact ih _ there

theorem addDefaults_there (definitions : List PluginSettingDefinition) (definition : PluginSettingDefinition)
    (mem : definition ∈ definitions) (plain : definition.sensitive = false) (given : definition.default.isSome = true) :
    ((addDefaults values definitions).get definition.key).isSome = true := by
  induction definitions generalizing values with
  | nil => cases mem
  | cons first definitions ih =>
    rw [addDefaults]
    rcases mem_cons.mp mem with rfl | later
    · obtain ⟨default, given⟩ := Option.isSome_iff_exists.mp given
      split
      · exact addDefaults_keeps _ _ _ (by simp)
      next other =>
      refine addDefaults_keeps _ _ _ ?_
      by_contra absent
      exact other default plain given (by simpa using absent)
    · split
      · exact ih _ later
      · exact ih _ later

theorem addDefaults_same (definitions : List PluginSettingDefinition)
    (there : ∀ definition ∈ definitions, definition.sensitive = false → definition.default.isSome = true →
      (values.get definition.key).isSome = true) : addDefaults values definitions = values := by
  induction definitions with
  | nil => rfl
  | cons definition definitions ih =>
    obtain ⟨first, rest⟩ := forall_mem_cons.mp there
    rw [addDefaults]
    split
    · next default plain given absent =>
      have held := first plain (by rw [given]; rfl)
      rw [absent] at held
      cases held
    · exact ih rest

theorem validateSettings_default {default : PluginSettingValue}
    (checked : descriptor.validate = .ok ()) (mem : definition ∈ descriptor.settings) (given : definition.default = some default) :
    definition.validateDefault default = .ok () := by
  obtain ⟨⟨⟩, _, done⟩ := bind_ok checked
  obtain ⟨⟨⟩, _, done⟩ := bind_ok done
  obtain ⟨⟨⟩, _, done⟩ := bind_ok done
  obtain ⟨⟨⟩, _, done⟩ := bind_ok done
  obtain ⟨⟨⟩, _, done⟩ := bind_ok done
  obtain ⟨⟨⟩, _, done⟩ := bind_ok done
  obtain ⟨⟨⟩, _, done⟩ := bind_ok done
  obtain ⟨⟨⟩, _, done⟩ := bind_ok done
  obtain ⟨keys, each, _⟩ := bind_ok done
  have own := (checkEach_ok each).1 definition mem
  obtain ⟨⟨⟩, _, own⟩ := bind_ok own
  obtain ⟨⟨⟩, _, own⟩ := bind_ok own
  rw [given] at own
  split_ifs at own
  · obtain ⟨⟨⟩, _, own⟩ := bind_ok own
    exact own
  · exact own

theorem fromNamespacedValues_valid {values : List (Text × PluginSettingValue)}
    (made : fromNamespacedValues kind descriptor values = .ok s) : Valid kind descriptor s ∧ Pure kind s := by
  rw [fromNamespacedValues] at made
  cases checked : descriptor.validate with
  | error source =>
    rw [checked] at made
    cases made
  | ok done =>
    rw [checked] at made
    dsimp only at made
    cases added : addValues kind descriptor.id (namespaceFor descriptor.id) (definitionsOf descriptor.settings) .empty values with
    | error error =>
      rw [added] at made
      cases made
    | ok given =>
      rw [added] at made
      cases made
      have taken : ∀ key value, given.get key = some value → ∃ definition,
          (definitionsOf descriptor.settings).get key = some definition ∧ definition.sensitive = kind.sensitive ∧
            definition.validateDefault value = .ok () := by
        intro key value held
        exact (addValues_ok added key value held).resolve_left nofun
      split_ifs with sensitive
      · refine ⟨⟨checked, rfl, rfl, rfl, fun key value held => ?_, fun plain => ?_⟩, fun key value definition held defined => ?_⟩
        · obtain ⟨definition, defined, _, valid⟩ := taken key value held
          exact ⟨definition, defined, valid⟩
        · rw [plain] at sensitive
          cases sensitive
        obtain ⟨other, again, same, _⟩ := taken key value held
        rw [defined] at again
        cases again
        exact same
      · have plain : kind.sensitive = false := by simpa using sensitive
        have listed : ∀ definition ∈ (definitionsOf descriptor.settings).entries.map (·.2),
            (definitionsOf descriptor.settings).get definition.key = some definition := by
          intro definition mem
          obtain ⟨⟨key, _⟩, inside, rfl⟩ := mem_map.mp mem
          have held := Table.get_eq_some.mpr inside
          rw [(definitionsOf_get held).1]
          exact held
        refine ⟨⟨checked, rfl, rfl, rfl, fun key value held => ?_, fun _ key definition defined own given => ?_⟩,
          fun key value definition held defined => ?_⟩
        · rcases addDefaults_get _ _ key value held with earlier | ⟨definition, mem, rfl, _, default⟩
          · obtain ⟨definition, defined, _, valid⟩ := taken key value earlier
            exact ⟨definition, defined, valid⟩
          · have there := listed definition mem
            exact ⟨definition, there, validateSettings_default checked (definitionsOf_get there).2 default⟩
        · obtain ⟨rfl, -⟩ := definitionsOf_get defined
          have mem : definition ∈ (definitionsOf descriptor.settings).entries.map (·.2) :=
            mem_map.mpr ⟨_, Table.get_eq_some.mp defined, rfl⟩
          exact addDefaults_there _ _ definition mem own given
        · rcases addDefaults_get _ _ key value held with earlier | ⟨other, mem, rfl, own, _⟩
          · obtain ⟨other, again, same, _⟩ := taken key value earlier
            rw [defined] at again
            cases again
            exact same
          have again := listed other mem
          rw [defined] at again
          cases again
          exact own.trans plain.symm

variable {value : PluginSettingValue}

theorem Valid.insert (valid : Valid kind descriptor s)
    (defined : s.definitions.get key = some definition) (fits : definition.validateDefault value = .ok ()) :
    Valid kind descriptor { s with values := s.values.insert key value } := by
  refine ⟨valid.checked, valid.id, valid.ns, valid.definitions, fun other given held => ?_, fun plain other own => ?_⟩
  · rw [Table.get_insert] at held
    split_ifs at held with same
    · cases held
      exact ⟨definition, same ▸ defined, fits⟩
    · exact valid.values other given held
  · intro there normal default
    rw [Table.get_insert]
    split_ifs
    · rfl
    · exact valid.defaults plain other own there normal default

theorem updateNamespaced_valid (valid : Valid settingsKind descriptor s)
    (updated : s.updateNamespaced key value = .ok s') : Valid settingsKind descriptor s' := by
  rw [PluginSnapshot.updateNamespaced] at updated
  cases stripped : stripPrefix s.ns key with
  | none =>
    rw [stripped] at updated
    cases updated
  | some settingKey =>
    rw [stripped] at updated
    dsimp only at updated
    cases defined : s.definitions.get settingKey with
    | none =>
      rw [defined] at updated
      cases updated
    | some definition =>
      rw [defined] at updated
      dsimp only at updated
      cases checked : validateValue settingsKind definition key value with
      | error error =>
        rw [checked] at updated
        cases updated
      | ok done =>
        rw [checked] at updated
        cases updated
        exact valid.insert defined (mapError_ok checked)

theorem updateSecret_valid (valid : Valid secretKind descriptor s) (own : Pure secretKind s)
    (updated : s.updateSecret key value = .ok s') : Valid secretKind descriptor s' ∧ Pure secretKind s' := by
  rw [PluginSnapshot.updateSecret, PluginSnapshot.qualifiedKey] at updated
  cases defined : s.definitions.get key with
  | none =>
    rw [defined] at updated
    cases updated
  | some definition =>
    rw [defined] at updated
    dsimp only at updated
    by_cases wrong : definition.sensitive ≠ secretKind.sensitive
    · rw [if_pos wrong] at updated
      cases updated
    rw [if_neg wrong] at updated
    dsimp only at updated
    rw [stripPrefix_append] at updated
    dsimp only at updated
    rw [defined] at updated
    dsimp only at updated
    cases checked : validateValue secretKind definition (s.ns ++ key) value with
    | error error =>
      rw [checked] at updated
      cases updated
    | ok done =>
      rw [checked] at updated
      cases updated
      refine ⟨valid.insert defined (mapError_ok checked), fun other given definition' held defined' => ?_⟩
      rw [Table.get_insert] at held
      split_ifs at held with same
      · subst same
        rw [defined] at defined'
        cases defined'
        exact not_not.mp wrong
      · exact own other given definition' held defined'

theorem addValues_namespaced {pluginId : PluginId} {ns : Text} (entries : List (Text × PluginSettingValue))
    (ordered : entries.Pairwise (·.1 < ·.1)) (before : Values) (fresh : ∀ entry ∈ entries, before.get entry.1 = none)
    (valid : ∀ entry ∈ entries, ∃ definition, definitions.get entry.1 = some definition ∧
      definition.sensitive = kind.sensitive ∧ definition.validateDefault entry.2 = .ok ()) :
    addValues kind pluginId ns definitions before (entries.map fun entry => (ns ++ entry.1, entry.2)) =
      .ok (entries.foldl (fun table entry => table.insert entry.1 entry.2) before) := by
  induction entries generalizing before with
  | nil => rfl
  | cons entry entries ih =>
    obtain ⟨above, ordered⟩ := pairwise_cons.mp ordered
    obtain ⟨absent, fresh⟩ := forall_mem_cons.mp fresh
    obtain ⟨⟨definition, defined, own, fits⟩, valid⟩ := forall_mem_cons.mp valid
    have checked : validateValue kind definition (ns ++ entry.1) entry.2 = .ok () := by
      rw [validateValue, fits]
      rfl
    rw [map_cons, addValues, stripPrefix_append]
    dsimp only
    rw [defined]
    dsimp only
    rw [if_neg (not_not.mpr own), checked]
    rw [absent, Option.isSome_none, if_neg Bool.false_ne_true, foldl_cons]
    refine ih ordered _ (fun other mem => ?_) valid
    rw [Table.get_insert_ne _ _ (ne_of_gt (above other mem))]
    exact fresh other mem

theorem fromNamespacedValues_namespacedValues (valid : Valid kind descriptor s) (own : Pure kind s) :
    fromNamespacedValues kind descriptor s.namespacedValues.entries = .ok s := by
  have added : addValues kind descriptor.id (namespaceFor descriptor.id) (definitionsOf descriptor.settings) .empty
      s.namespacedValues.entries = .ok s.values := by
    rw [← valid.ns, ← valid.definitions]
    refine (addValues_namespaced s.values.entries s.values.ordered .empty (fun _ _ => rfl) fun entry mem => ?_).trans ?_
    · have held := Table.get_eq_some.mpr mem
      obtain ⟨definition, defined, fits⟩ := valid.values entry.1 entry.2 held
      exact ⟨definition, defined, own _ _ _ held defined, fits⟩
    · rw [Table.foldl_insert]
  have settled : (if kind.sensitive then s.values
      else addDefaults s.values ((definitionsOf descriptor.settings).entries.map (·.2))) = s.values := by
    split_ifs with sensitive
    · rfl
    refine addDefaults_same _ _ fun definition mem plain given => ?_
    obtain ⟨⟨key, _⟩, inside, rfl⟩ := mem_map.mp mem
    have held := Table.get_eq_some.mpr inside
    rw [← valid.definitions] at held
    have key' : _ = key := (definitionsOf_get (valid.definitions ▸ held)).1
    rw [key']
    exact valid.defaults (by simpa using sensitive) key _ held plain given
  rw [fromNamespacedValues, valid.checked]
  dsimp only
  rw [added]
  dsimp only
  rw [settled, ← valid.ns, ← valid.definitions, ← valid.id]

/-- The snapshots of settings that come about for a descriptor. -/
inductive MadeSettings (descriptor : PluginDescriptor) : PluginSnapshot → Prop
  | read {values : List (Text × PluginSettingValue)} {s : PluginSnapshot} :
      fromNamespacedValues settingsKind descriptor values = .ok s → MadeSettings descriptor s
  | updatedNamespaced {s s' : PluginSnapshot} {key : Text} {value : PluginSettingValue} :
      MadeSettings descriptor s → s.updateNamespaced key value = .ok s' → MadeSettings descriptor s'
  | updated {s s' : PluginSnapshot} {key : Text} {value : PluginSettingValue} :
      MadeSettings descriptor s → s.update key value = .ok s' → MadeSettings descriptor s'

/-- The snapshots of secrets that come about for a descriptor. -/
inductive MadeSecrets (descriptor : PluginDescriptor) : PluginSnapshot → Prop
  | read {values : List (Text × PluginSettingValue)} {s : PluginSnapshot} :
      fromNamespacedValues secretKind descriptor values = .ok s → MadeSecrets descriptor s
  | updated {s s' : PluginSnapshot} {key : Text} {value : PluginSettingValue} :
      MadeSecrets descriptor s → s.updateSecret key value = .ok s' → MadeSecrets descriptor s'

theorem MadeSettings.valid (made : MadeSettings descriptor s) : Valid settingsKind descriptor s := by
  induction made with
  | read done => exact (fromNamespacedValues_valid done).1
  | updatedNamespaced _ done ih => exact updateNamespaced_valid ih done
  | @updated s s' key value _ done ih =>
    rw [PluginSnapshot.update] at done
    cases qualified : s.qualifiedKey settingsKind key with
    | error error =>
      rw [qualified] at done
      cases done
    | ok qualifiedKey =>
      rw [qualified] at done
      exact updateNamespaced_valid ih done

theorem MadeSecrets.valid (made : MadeSecrets descriptor s) : Valid secretKind descriptor s ∧ Pure secretKind s := by
  induction made with
  | read done => exact fromNamespacedValues_valid done
  | updated _ done ih => exact updateSecret_valid ih.1 ih.2 done

/-- Settings without a secret among them. -/
def SettingsBelong (descriptor : PluginDescriptor) (s : PluginSnapshot) : Prop := MadeSettings descriptor s ∧ Pure settingsKind s

theorem settings_faithful {Raw : Type} (serde : Serde Raw) (migrator : PluginSettingsMigrator) (descriptor : PluginDescriptor) :
    Faithful (settingsFormat serde migrator descriptor) (settingsKeys descriptor.id) (SettingsBelong descriptor) := by
  have written : ∀ snapshot raw, encode serde snapshot = .ok raw →
      raw = serde.write ⟨CURRENT_PLUGIN_SETTINGS_FORMAT_VERSION, snapshot.namespacedValues⟩ ∧
        ensurePayloadSize (serde.len raw) = .ok () := by
    intro snapshot raw encodes
    obtain ⟨⟨⟩, fits, done⟩ := bind_ok encodes
    cases done
    exact ⟨rfl, fits⟩
  refine ⟨fun snapshot belongs => ?_, fun nonce snapshot raw belongs encodes => ?_, fun nonce snapshot raw belongs encodes => ?_⟩
  · change settingsKeys snapshot.pluginId = _
    rw [belongs.1.valid.id]
  · obtain ⟨rfl, fits⟩ := written snapshot raw encodes
    change decode serde migrator descriptor _ = _
    simp only [decode, fits, serde.readsBack, bind, Except.bind]
    rw [if_neg (lt_irrefl _)]
    have current : migrate migrator MAX_PLUGIN_SETTINGS_MIGRATION_STEPS CURRENT_PLUGIN_SETTINGS_FORMAT_VERSION
        snapshot.namespacedValues = .ok snapshot.namespacedValues := if_pos rfl
    rw [current]
    dsimp only [Except.mapError]
    rw [fromNamespacedValues_namespacedValues belongs.1.valid belongs.2]
  · obtain ⟨-, fits⟩ := written snapshot raw encodes
    exact fits

theorem secrets_faithful {Nonce : Type} (serde : Serde (List UInt8)) (sealer : Sealer Nonce) (descriptor : PluginDescriptor) :
    Faithful (secretFormat serde sealer descriptor) (secretKeys descriptor.id) (MadeSecrets descriptor) := by
  have written : ∀ nonce snapshot raw, encodeSecrets serde sealer nonce snapshot = .ok raw → ∃ encrypted,
      sealer.sealBytes nonce (serde.write ⟨CURRENT_PLUGIN_SECRET_FORMAT_VERSION, snapshot.namespacedValues⟩) = .ok encrypted ∧
        ensurePlaintextSize (serde.len (serde.write ⟨CURRENT_PLUGIN_SECRET_FORMAT_VERSION, snapshot.namespacedValues⟩)) = .ok () ∧
          raw = ENCRYPTED_PLUGIN_SECRET_PREFIX ++ hexEncode encrypted ∧ ensureStoredSize (byteLen raw) = .ok () := by
    intro nonce snapshot raw encodes
    obtain ⟨⟨⟩, short, done⟩ := bind_ok encodes
    obtain ⟨encrypted, sealed, done⟩ := bind_ok done
    obtain ⟨⟨⟩, fits, done⟩ := bind_ok done
    cases done
    exact ⟨encrypted, mapError_ok sealed, short, rfl, fits⟩
  refine ⟨fun snapshot belongs => ?_, fun nonce snapshot raw belongs encodes => ?_, fun nonce snapshot raw belongs encodes => ?_⟩
  · change secretKeys snapshot.pluginId = _
    rw [belongs.valid.1.id]
  · obtain ⟨encrypted, sealed, short, rfl, fits⟩ := written nonce snapshot raw encodes
    change decodeSecrets serde sealer descriptor _ = _
    simp only [decodeSecrets, fits, stripPrefix_append, hexDecode_hexEncode, sealer.unseals _ _ _ sealed, bind, Except.bind,
      Except.mapError, short, serde.readsBack]
    rw [if_neg (not_not.mpr rfl), fromNamespacedValues_namespacedValues belongs.valid.1 belongs.valid.2]
  · obtain ⟨encrypted, -, -, -, fits⟩ := written nonce snapshot raw encodes
    change ensureStoredSize (byteLen raw) = .ok ()
    exact fits

instance encodableChar : Encodable Char := .ofLeftInjection Char.toNat (fun n => some (Char.ofNat n)) fun c => by rw [Char.ofNat_toNat]

instance : Encodable PluginSettingValue :=
  .ofLeftInjection (α := Bool ⊕ Int ⊕ Text ⊕ List Text)
    (fun
      | .Boolean value => .inl value
      | .Integer value => .inr (.inl value)
      | .String value => .inr (.inr (.inl value))
      | .StringList values => .inr (.inr (.inr values)))
    (fun
      | .inl value => some (.Boolean value)
      | .inr (.inl value) => some (.Integer value)
      | .inr (.inr (.inl value)) => some (.String value)
      | .inr (.inr (.inr values)) => some (.StringList values))
    fun value => by cases value <;> rfl

instance : Encodable StoredPluginValues :=
  .ofLeftInjection (fun stored => (stored.formatVersion, stored.values.entries))
    (fun parts => if ordered : parts.2.Pairwise (·.1 < ·.1) then some ⟨parts.1, parts.2, ordered⟩ else none)
    fun stored => dif_pos stored.values.ordered

def emptyJson : List UInt8 := "\x7b\"format_version\":1,\"values\":\x7b\x7d\x7d".toList.map fun c => UInt8.ofNat c.toNat

/-- Empty envelopes are written as they are; all others by their number. -/
def plainSerde : Serde (List UInt8) where
  write stored :=
    if stored.formatVersion = 1 ∧ stored.values.entries = [] then emptyJson
    else 0 :: List.replicate (Encodable.encode stored) 1
  read raw :=
    if raw = emptyJson then some ⟨1, .empty⟩
    else
      match raw with
      | 0 :: rest => Encodable.decode rest.length
      | _ => none
  len := List.length
  readsBack stored := by
    obtain ⟨version, entries, ordered⟩ := stored
    by_cases plain : version = 1 ∧ entries = []
    · obtain ⟨rfl, rfl⟩ := plain
      rfl
    have other : (0 :: List.replicate (Encodable.encode (⟨version, entries, ordered⟩ : StoredPluginValues)) 1 : List UInt8) ≠
        emptyJson := fun same => absurd (List.cons.inj same).1 (by decide)
    dsimp only
    rw [if_neg plain, if_neg other]
    change Encodable.decode (List.replicate _ (1 : UInt8)).length = _
    rw [List.length_replicate, Encodable.encodek]

def plainSealer : Sealer Unit where
  sealBytes _ plain := .ok plain
  unsealBytes sealed := .ok sealed
  unseals _ _ _ same := same ▸ rfl

def plainPlugin : PluginDescriptor := .new ⟨"ssh"⟩ "SSH" "ssh"

def plainSnapshot : PluginSnapshot := ⟨plainPlugin.id, namespaceFor plainPlugin.id, .empty, .empty⟩

abbrev plainFormat : RecordFormat Unit PluginSnapshot (List UInt8) PluginSettingsStoreError :=
  settingsFormat plainSerde (fun _ => none) plainPlugin

theorem plainSnapshot_belongs : SettingsBelong plainPlugin plainSnapshot := by
  have made : fromNamespacedValues settingsKind plainPlugin [] = .ok plainSnapshot := by rfl
  exact ⟨.read made, (fromNamespacedValues_valid made).2⟩

def savedOnce : Kept PluginSnapshot (List UInt8) := Kept.start.move plainFormat (settingsKeys plainPlugin.id) (.save () plainSnapshot ⟨none, none⟩)

/-- What is saved belongs to the plugin. -/
def Storing : Move Unit PluginSnapshot (List UInt8) → Prop
  | .save _ snapshot _ => SettingsBelong plainPlugin snapshot
  | _ => True

def plainStep : Kept PluginSnapshot (List UInt8) → Move Unit PluginSnapshot (List UInt8) → Option (Kept PluginSnapshot (List UInt8)) :=
  step plainFormat (settingsKeys plainPlugin.id)

def Plain (s : Kept PluginSnapshot (List UInt8)) (move : Move Unit PluginSnapshot (List UInt8)) : Prop :=
  Possible plainFormat (settingsKeys plainPlugin.id) s move ∧ Storing move

def plainLoad (s : Kept PluginSnapshot (List UInt8)) : Except PluginSettingsStoreError (RecordLoad PluginSnapshot) :=
  loadRecord plainFormat (settingsKeys plainPlugin.id) (emptySettings plainPlugin) s.prefs

/-- The settings are saved, and the record is damaged. -/
def damagedMoves : List (Move Unit PluginSnapshot (List UInt8)) :=
  [.save () plainSnapshot ⟨none, none⟩, .damagePrimary (some [])]

/-- The settings are saved twice, and the first record is damaged. -/
def damagedAgainMoves : List (Move Unit PluginSnapshot (List UInt8)) := .save () plainSnapshot ⟨none, none⟩ :: damagedMoves

def runMoves (moves : List (Move Unit PluginSnapshot (List UInt8))) : Kept PluginSnapshot (List UInt8) :=
  moves.foldl (fun s move => s.move plainFormat (settingsKeys plainPlugin.id) move) .start

theorem empty_damaged : Damaged plainFormat (some []) := by
  rintro _ ⟨⟩ snapshot read
  cases read

end Ramag.PluginSettingsKept
