import Mathlib.Algebra.Order.BigOperators.Group.List
import Mathlib.Algebra.Order.Ring.Nat
import Ramag.ConnectionRepo

/-!
Batches of connections are saved as a whole or not at all, and after any run of
writes the store keeps to the limits of its list, which therefore shows every
connection as it was last saved (`connections_kept`).
-/
namespace Ramag.ConnectionRepo
open Strings Domain BoundedJson OrderedTables Uuids List Function

section
variable {Nonce ρ : Type} {codec : Codec Nonce ρ}

variable {encrypted : EncryptedConnection}

theorem intoPlain_fromPlain {nonce : Nonce} {plain : ConnectionConfig}
    (written : fromPlain codec nonce plain = .ok encrypted) : intoPlain codec encrypted = .ok plain := by
  obtain ⟨⟨⟩, valid, written⟩ := bind_ok written
  obtain ⟨hex, password, written⟩ := bind_ok written
  cases written
  have back := codec.decrypts nonce plain.password hex password
  have again : (validate plain).mapError (fun error => DomainError.Storage ("解密后的连接配置无效：" ++ error)) = .ok () := by
    rw [mapError_ok valid]
    rfl
  unfold intoPlain
  rw [back]
  change ((validate plain).mapError _ >>= _) = _
  rw [again]
  rfl

/-- A prepared record is read as the connection that it was made from. -/
def Holds (codec : Codec Nonce ρ) (config : ConnectionConfig) (entry : Text × ρ) : Prop :=
  entry.1 = config.id.text ∧ decodeConnection codec entry.1 entry.2 = .ok config

theorem holds_record {nonce : Nonce} {config : ConnectionConfig} {json : ρ}
    (written : fromPlain codec nonce config = .ok encrypted) (small : serializeRecord codec encrypted = .ok json) :
    Holds codec config (config.id.text, json) := by
  refine ⟨rfl, ?_⟩
  unfold serializeRecord at small
  split_ifs at small with large
  cases small
  have fits : ensureLen (codec.len (codec.toJson encrypted)) MAX_CONNECTION_RECORD_BYTES
      ("连接记录 " ++ config.id.text) = .ok () := ensureLen_ok.mpr (Nat.not_lt.mp large)
  unfold decodeConnection
  rw [fits]
  rw [codec.parses]
  exact intoPlain_fromPlain written

variable {prepared : List (Text × ρ)} {configs : List ConnectionConfig}

theorem prepare_ok {nonces : Uuid → Nonce} {batchIds : List Text} (done : prepare codec nonces batchIds configs = .ok prepared) :
    List.Forall₂ (Holds codec) configs prepared ∧ (prepared.map (·.1)).Nodup ∧ ∀ id ∈ batchIds, id ∉ prepared.map (·.1) := by
  induction configs generalizing batchIds prepared with
  | nil =>
    cases done
    exact ⟨.nil, .nil, fun _ _ => not_mem_nil⟩
  | cons config configs ih =>
    unfold prepare at done
    dsimp only at done
    split_ifs at done with twice
    simp only [bind_ok_iff] at done
    obtain ⟨encrypted, written, json, small, rest, more, done⟩ := done
    cases done
    obtain ⟨each, nodup, apart⟩ := ih more
    refine ⟨.cons (holds_record written small) each, ?_, ?_⟩
    · exact nodup_cons.mpr ⟨apart _ mem_cons_self, nodup⟩
    intro id mem inside
    rcases mem_cons.mp inside with same | inside
    · rw [same] at mem
      exact twice mem
    · exact apart id (mem_cons_of_mem _ mem) inside

def bytes (codec : Codec Nonce ρ) (entries : List (Text × ρ)) : Nat := (entries.map fun entry => codec.len entry.2).sum

@[simp] theorem bytes_cons (entry : Text × ρ) (entries : List (Text × ρ)) :
    bytes codec (entry :: entries) = codec.len entry.2 + bytes codec entries := rfl

theorem bytes_append (first second : List (Text × ρ)) : bytes codec (first ++ second) = bytes codec first + bytes codec second := by
  simp [bytes]

theorem bytes_perm {first second : List (Text × ρ)} (same : first.Perm second) : bytes codec first = bytes codec second :=
  (same.map _).sum_eq

theorem bytes_filter (entries : List (Text × ρ)) (p : Text × ρ → Bool) :
    bytes codec (entries.filter p) + bytes codec (entries.filter fun entry => !p entry) = bytes codec entries := by
  rw [← bytes_append]
  exact bytes_perm (filter_append_perm p entries)

theorem bytes_sublist {part whole : List (Text × ρ)} (within : part.Sublist whole) : bytes codec part ≤ bytes codec whole :=
  (within.map _).sum_le_sum fun _ _ => Nat.zero_le _

variable {count total : Nat}

theorem nextBudget_ok {item maxItems maxBytes : Nat} {label : Text} {result : Nat × Nat}
    (done : nextCollectionBudget count total item maxItems maxBytes label = .ok result) : result = (count + 1, total + item) := by
  unfold nextCollectionBudget at done
  split_ifs at done
  obtain ⟨⟨⟩, -, done⟩ := bind_ok done
  exact (Except.ok.inj done).symm

variable {entries : List (Text × ρ)} {faults : Faults}

theorem countEntries_ok {index : Nat} {result : Nat × Nat} (done : countEntries codec faults index count total entries = .ok result) :
    result = (count + entries.length, total + bytes codec entries) := by
  induction entries generalizing index count total with
  | nil => exact (Except.ok.inj done).symm
  | cons entry entries ih =>
    obtain ⟨⟨⟩, -, done⟩ := bind_ok done
    obtain ⟨⟨⟩, -, done⟩ := bind_ok done
    obtain ⟨next, counted, done⟩ := bind_ok done
    rw [nextBudget_ok counted] at done
    rw [ih done, length_cons, bytes_cons, Nat.add_assoc, Nat.add_assoc, Nat.add_comm 1]

theorem checkedSum_ok {message : Text} {list : List Nat} {result : Nat} (done : checkedSum message total list = .ok result) :
    result = total + list.sum := by
  induction list generalizing total with
  | nil => exact (Except.ok.inj done).symm
  | cons n list ih =>
    unfold checkedSum at done
    split_ifs at done
    rw [ih done, sum_cons, Nat.add_assoc]

variable {store next : Store ρ}

theorem insertPrepared_get {index : Nat}
    (done : insertPrepared faults index store prepared = .ok next) (nodup : (prepared.map (·.1)).Nodup) (key : Text) (value : ρ) :
    next.get key = some value ↔ (key, value) ∈ prepared ∨ key ∉ prepared.map (·.1) ∧ store.get key = some value := by
  induction prepared generalizing index store with
  | nil =>
    cases done
    simp
  | cons entry prepared ih =>
    obtain ⟨id, json⟩ := entry
    obtain ⟨⟨⟩, -, done⟩ := bind_ok done
    obtain ⟨first, nodup⟩ := nodup_cons.mp nodup
    rw [ih done nodup, Table.get_insert]
    by_cases same : key = id
    · subst same
      have absent : ∀ other, (key, other) ∉ prepared := fun other mem => first (mem_map.mpr ⟨_, mem, rfl⟩)
      simp [absent, first, eq_comm]
    · simp [same]

theorem insertPrepared_perm (done : insertPrepared faults 0 store prepared = .ok next) (nodup : (prepared.map (·.1)).Nodup) :
    next.entries.Perm (prepared ++ store.entries.filter fun entry => !decide (entry.1 ∈ prepared.map (·.1))) := by
  have distinct {table : Store ρ} : table.entries.Nodup :=
    table.ordered.imp fun less same => absurd (congrArg Prod.fst same) (ne_of_lt less)
  have apart : (prepared ++ store.entries.filter fun entry => !decide (entry.1 ∈ prepared.map (·.1))).Nodup := by
    refine .append nodup.of_map (distinct.filter _) fun entry one two => ?_
    have outside := (mem_filter.mp two).2
    simp only [Bool.not_eq_true', decide_eq_false_iff_not] at outside
    exact outside (mem_map.mpr ⟨entry, one, rfl⟩)
  refine (perm_ext_iff_of_nodup distinct apart).mpr fun entry => ?_
  rw [← Table.get_eq_some, insertPrepared_get done nodup, mem_append, mem_filter, Table.get_eq_some]
  simp [and_comm]

/-- The store keeps to the limits of its list. -/
structure Bounded (codec : Codec Nonce ρ) (store : Store ρ) : Prop where
  few : store.entries.length ≤ MAX_CONNECTION_CONFIGS
  small : bytes codec store.entries ≤ MAX_CONNECTION_LIST_BYTES

theorem ensureCollectionBudget_ok {maxItems maxBytes : Nat} {label : Text}
    (done : ensureCollectionBudget count total maxItems maxBytes label = .ok ()) : count ≤ maxItems ∧ total ≤ maxBytes := by
  unfold ensureCollectionBudget at done
  split_ifs at done with many large
  exact ⟨Nat.not_lt.mp many, Nat.not_lt.mp large⟩

theorem writePrepared_ok (done : writePrepared codec faults prepared store = .ok next) (nodup : (prepared.map (·.1)).Nodup) :
    Bounded codec next ∧ insertPrepared faults 0 store prepared = .ok next := by
  obtain ⟨⟨⟩, -, done⟩ := bind_ok done
  obtain ⟨totals, counted, done⟩ := bind_ok done
  obtain rfl := countEntries_ok counted
  dsimp only at done
  split_ifs at done
  simp only [bind_ok_iff] at done
  obtain ⟨replaced, removed, inserted, added, done⟩ := done
  split_ifs at done with overflow
  obtain ⟨⟨⟩, within, done⟩ := bind_ok done
  obtain ⟨few, small⟩ := ensureCollectionBudget_ok within
  have perm := insertPrepared_perm done nodup
  have inside : bytes codec (store.entries.filter fun entry => decide (entry.1 ∈ prepared.map (·.1))) +
      bytes codec (store.entries.filter fun entry => !decide (entry.1 ∈ prepared.map (·.1))) = bytes codec store.entries :=
    bytes_filter store.entries _
  have parts : (store.entries.filter fun entry => decide (entry.1 ∈ prepared.map (·.1))).length +
      (store.entries.filter fun entry => !decide (entry.1 ∈ prepared.map (·.1))).length = store.entries.length := by
    rw [← length_append]
    exact (filter_append_perm _ store.entries).length_eq
  have replacedSum : replaced = bytes codec (store.entries.filter fun entry => decide (entry.1 ∈ prepared.map (·.1))) := by
    rw [checkedSum_ok removed, Nat.zero_add]
    rfl
  have insertedSum : inserted = bytes codec prepared := by
    rw [checkedSum_ok added, Nat.zero_add]
    rfl
  refine ⟨⟨?_, ?_⟩, done⟩
  · rw [perm.length_eq, length_append]
    rw [replacedBytes, length_map] at few
    omega
  · rw [bytes_perm perm, bytes_append]
    omega

theorem inWrite_cases (faults : Faults) (body : Store ρ → Result (Store ρ)) (store : Store ρ) :
    (∃ next, body store = .ok next ∧ inWrite faults body store = (.ok (), next)) ∨
      ∃ error, inWrite faults body store = (.error error, store) := by
  unfold inWrite
  dsimp only
  split
  · rename_i next done
    simp only [bind_ok_iff] at done
    obtain ⟨⟨⟩, -, ⟨⟩, -, other, run, ⟨⟩, -, done⟩ := done
    cases done
    exact .inl ⟨next, run, rfl⟩
  · exact .inr ⟨_, rfl⟩

/-- All connections of the batch are in the second store, and nothing else is other than in the first. -/
structure Committed (codec : Codec Nonce ρ) (configs : List ConnectionConfig) (store next : Store ρ) : Prop where
  all : ∀ config ∈ configs, ∃ record, next.get config.id.text = some record ∧ decodeConnection codec config.id.text record = .ok config
  others : ∀ key, (∀ config ∈ configs, config.id.text ≠ key) → next.get key = store.get key

theorem committed_of_insert (each : List.Forall₂ (Holds codec) configs prepared) (nodup : (prepared.map (·.1)).Nodup)
    (done : insertPrepared faults 0 store prepared = .ok next) : Committed codec configs store next := by
  have get := insertPrepared_get done nodup
  have keys : prepared.map (·.1) = configs.map fun config => config.id.text := by
    clear get done nodup
    induction each with
    | nil => rfl
    | cons holds _ ih => rw [map_cons, map_cons, holds.1, ih]
  constructor
  · intro config mem
    have found : ∃ entry ∈ prepared, Holds codec config entry := by
      clear get done nodup keys
      induction each with
      | nil => cases mem
      | @cons first entry _ _ holds _ ih =>
        rcases mem_cons.mp mem with rfl | mem
        · exact ⟨entry, mem_cons_self, holds⟩
        · obtain ⟨other, inside, holds⟩ := ih mem
          exact ⟨other, mem_cons_of_mem _ inside, holds⟩
    obtain ⟨⟨key, record⟩, inside, own, read⟩ := found
    dsimp only at own read
    rw [own] at inside read
    exact ⟨record, (get _ _).mpr (.inl inside), read⟩
  · intro key apart
    have outside : key ∉ prepared.map (·.1) := by
      rw [keys]
      intro inside
      obtain ⟨config, mem, same⟩ := mem_map.mp inside
      exact apart config mem same
    ext value
    rw [get]
    constructor
    · rintro (inside | ⟨-, held⟩)
      · exact absurd (mem_map.mpr ⟨_, inside, rfl⟩) outside
      · exact held
    · exact fun held => .inr ⟨outside, held⟩

theorem saveMany_cases (nonces : Uuid → Nonce) (configs : List ConnectionConfig) (faults : Faults) (store : Store ρ) :
    (∃ next, saveMany codec nonces configs faults store = (.ok (), next) ∧ Committed codec configs store next ∧
      (Bounded codec store → Bounded codec next)) ∨ ∃ error, saveMany codec nonces configs faults store = (.error error, store) := by
  unfold saveMany
  split_ifs with none' many
  · subst none'
    exact .inl ⟨store, rfl, ⟨by simp, by simp⟩, fun bounded => bounded⟩
  · exact .inr ⟨_, rfl⟩
  cases made : prepare codec nonces [] configs with
  | error error => exact .inr ⟨error, rfl⟩
  | ok prepared =>
    obtain ⟨each, nodup, -⟩ := prepare_ok made
    rcases inWrite_cases faults (writePrepared codec faults prepared) store with ⟨next, written, run⟩ | failed
    · obtain ⟨bounded, inserted⟩ := writePrepared_ok written nodup
      exact .inl ⟨next, run, committed_of_insert each nodup inserted, fun _ => bounded⟩
    · exact .inr failed

theorem importMany_cases (nonces : Uuid → Nonce) (configs : List ConnectionConfig) (faults : Faults) (store : Store ρ) :
    (∃ next, importMany codec nonces configs faults store = (.ok (), next) ∧ Committed codec configs store next ∧
      (Bounded codec store → Bounded codec next)) ∨ ∃ error, importMany codec nonces configs faults store = (.error error, store) := by
  unfold importMany
  split
  · exact .inr ⟨_, rfl⟩
  · exact saveMany_cases nonces configs faults store

theorem delete_cases (id : Text) (faults : Faults) (store : Store ρ) :
    delete id faults store = (.ok (), store.remove id) ∨ ∃ error, delete id faults store = (.error error, store) := by
  rcases inWrite_cases faults (fun store => do refuse "删除失败：" (faults.write 0); .ok (store.remove id)) store with
    ⟨next, body, run⟩ | failed
  · obtain ⟨⟨⟩, -, body⟩ := bind_ok body
    cases body
    exact .inl run
  · exact .inr failed

/-! ### Runs -/

inductive Op (Nonce : Type)
  | save (nonces : Uuid → Nonce) (config : ConnectionConfig) (faults : Faults)
  | saveMany (nonces : Uuid → Nonce) (configs : List ConnectionConfig) (faults : Faults)
  | importMany (nonces : Uuid → Nonce) (configs : List ConnectionConfig) (faults : Faults)
  | delete (id : Uuid) (faults : Faults)

def Op.run (codec : Codec Nonce ρ) (store : Store ρ) : Op Nonce → Result Unit × Store ρ
  | .save nonces config faults => ConnectionRepo.save codec nonces config faults store
  | .saveMany nonces configs faults => ConnectionRepo.saveMany codec nonces configs faults store
  | .importMany nonces configs faults => ConnectionRepo.importMany codec nonces configs faults store
  | .delete id faults => ConnectionRepo.delete id.text faults store

/-- What was saved last for each id. -/
abbrev History := Uuid → Option ConnectionConfig

def remember (history : History) (configs : List ConnectionConfig) : History :=
  configs.foldl (fun history config => Function.update history config.id (some config)) history

/-- What an operation that succeeds saves. -/
def Op.saved (history : History) : Op Nonce → History
  | .save _ config _ => remember history [config]
  | .saveMany _ configs _ | .importMany _ configs _ => remember history configs
  | .delete id _ => Function.update history id none

structure State (ρ : Type) where
  store : Store ρ
  last : History

/-- What was saved counts only when the operation succeeds. -/
def State.after (s : State ρ) (saved : History) : Result Unit × Store ρ → State ρ
  | (.ok (), next) => ⟨next, saved⟩
  | (.error _, next) => ⟨next, s.last⟩

def State.step (codec : Codec Nonce ρ) (s : State ρ) (op : Op Nonce) : State ρ :=
  s.after (op.saved s.last) (op.run codec s.store)

def run (codec : Codec Nonce ρ) (ops : List (Op Nonce)) : State ρ :=
  ops.foldl (State.step codec) ⟨.empty, fun _ => none⟩

/-- The records are those of what was saved last, within the limits. -/
structure Kept (codec : Codec Nonce ρ) (store : Store ρ) (history : History) : Prop where
  own : ∀ key value, store.get key = some value →
    ∃ config, config.id.text = key ∧ history config.id = some config ∧ decodeConnection codec key value = .ok config
  all : ∀ id config, history id = some config → config.id = id ∧ (store.get id.text).isSome = true
  bounded : Bounded codec store

theorem remember_get (configs : List ConnectionConfig) (history : History) (id : Uuid) :
    remember history configs id = history id ∧ (∀ config ∈ configs, config.id ≠ id) ∨
      ∃ config ∈ configs, config.id = id ∧ remember history configs id = some config := by
  induction configs generalizing history with
  | nil => exact .inl ⟨rfl, by simp⟩
  | cons first configs ih =>
    rcases ih (update history first.id (some first)) with ⟨same, none'⟩ | ⟨config, mem, own, found⟩
    · by_cases here : first.id = id
      · refine .inr ⟨first, mem_cons_self, here, ?_⟩
        change remember _ configs id = _
        rw [same, ← here, update_self]
      · refine .inl ⟨?_, forall_mem_cons.mpr ⟨here, none'⟩⟩
        change remember _ configs id = _
        rw [same, update_of_ne (.symm here)]
    · exact .inr ⟨config, mem_cons_of_mem _ mem, own, found⟩

variable {history : History}

theorem Committed.kept (committed : Committed codec configs store next) (kept : Kept codec store history) (bounded : Bounded codec next) :
    Kept codec next (remember history configs) := by
  refine ⟨fun key value found => ?_, fun id config held => ?_, bounded⟩
  · by_cases written : ∃ config ∈ configs, config.id.text = key
    · obtain ⟨config, mem, named⟩ := written
      obtain ⟨record, stored, read⟩ := committed.all config mem
      rw [named, found, Option.some.injEq] at stored
      rw [named, ← stored] at read
      rcases remember_get configs history config.id with ⟨-, none'⟩ | ⟨other, inside, own, last⟩
      · exact absurd rfl (none' config mem)
      obtain ⟨record', stored', read'⟩ := committed.all other inside
      rw [own, named, found, Option.some.injEq] at stored'
      rw [own, named, ← stored', read, Except.ok.injEq] at read'
      exact ⟨config, named, read' ▸ last, read⟩
    · have apart : ∀ config ∈ configs, config.id.text ≠ key := fun config mem same => written ⟨config, mem, same⟩
      rw [committed.others key apart] at found
      obtain ⟨config, named, held, read⟩ := kept.own key value found
      refine ⟨config, named, ?_, read⟩
      rcases remember_get configs history config.id with ⟨same, -⟩ | ⟨other, inside, own, -⟩
      · rw [same, held]
      · exact absurd (own ▸ named) (apart other inside)
  · rcases remember_get configs history id with ⟨same, none'⟩ | ⟨other, inside, own, last⟩
    · rw [same] at held
      obtain ⟨named, stored⟩ := kept.all id config held
      refine ⟨named, ?_⟩
      rw [committed.others id.text fun config mem equal => none' config mem (text_injective equal)]
      exact stored
    · rw [last, Option.some.injEq] at held
      subst held
      obtain ⟨record, stored, -⟩ := committed.all other inside
      refine ⟨own, ?_⟩
      rw [← own, stored]
      rfl

variable {store : Store ρ}

theorem delete_kept (kept : Kept codec store history) (id : Uuid) : Kept codec (store.remove id.text) (update history id none) := by
  refine ⟨fun key value found => ?_, fun other config held => ?_, ?_, ?_⟩
  · rw [Table.get_remove] at found
    split_ifs at found with same
    obtain ⟨config, named, held, read⟩ := kept.own key value found
    have apart : config.id ≠ id := fun equal => same (by rw [← named, equal])
    exact ⟨config, named, by rw [update_of_ne apart, held], read⟩
  · by_cases same : other = id
    · subst same
      simp [update_self] at held
    · rw [update_of_ne same] at held
      obtain ⟨named, stored⟩ := kept.all other config held
      exact ⟨named, by rw [Table.get_remove_ne _ fun equal => same (text_injective equal)]; exact stored⟩
  · exact (filter_sublist.length_le).trans kept.bounded.few
  · exact (bytes_sublist filter_sublist).trans kept.bounded.small

theorem step_kept {s : State ρ} (kept : Kept codec s.store s.last) (op : Op Nonce) :
    Kept codec (s.step codec op).store (s.step codec op).last := by
  have batch {configs : List ConnectionConfig} {result : Result Unit × Store ρ}
      (cases : (∃ next, result = (.ok (), next) ∧ Committed codec configs s.store next ∧
        (Bounded codec s.store → Bounded codec next)) ∨ ∃ error, result = (.error error, s.store)) :
      Kept codec (s.after (remember s.last configs) result).store (s.after (remember s.last configs) result).last := by
    rcases cases with ⟨next, rfl, committed, bounded⟩ | ⟨error, rfl⟩
    · exact committed.kept kept (bounded kept.bounded)
    · exact kept
  cases op with
  | save nonces config faults => exact batch (saveMany_cases nonces [config] faults s.store)
  | saveMany nonces configs faults => exact batch (saveMany_cases nonces configs faults s.store)
  | importMany nonces configs faults => exact batch (importMany_cases nonces configs faults s.store)
  | delete id faults =>
    change Kept codec (s.after _ (ConnectionRepo.delete id.text faults s.store)).store
      (s.after _ (ConnectionRepo.delete id.text faults s.store)).last
    rcases delete_cases id.text faults s.store with same | ⟨error, same⟩ <;> rw [same]
    · exact delete_kept kept id
    · exact kept

theorem run_kept (codec : Codec Nonce ρ) (ops : List (Op Nonce)) : Kept codec (run codec ops).store (run codec ops).last := by
  induction ops using List.reverseRecOn with
  | nil => exact ⟨(fun _ _ no => nomatch no), (fun _ _ no => nomatch no), Nat.zero_le _, Nat.zero_le _⟩
  | append_singleton ops op ih =>
    rw [run, foldl_append]
    exact step_kept ih op

theorem Kept.get (kept : Kept codec store history) (id : Uuid) : ConnectionRepo.get codec store id.text = .ok (history id) := by
  unfold ConnectionRepo.get
  cases found : store.get id.text with
  | none =>
    cases held : history id with
    | none => rfl
    | some config =>
      have stored := (kept.all id config held).2
      simp [found] at stored
  | some value =>
    obtain ⟨config, named, held, read⟩ := kept.own id.text value found
    rw [text_injective named] at held
    rw [held]
    dsimp only
    rw [read]
    rfl

theorem listEntries_ok {configs out : List ConnectionConfig} (each : List.Forall₂ (Holds codec) configs entries)
    (few : out.length + entries.length ≤ MAX_CONNECTION_CONFIGS) (small : total + bytes codec entries ≤ MAX_CONNECTION_LIST_BYTES) :
    listEntries codec total out entries = .ok (out ++ configs) := by
  induction each generalizing out total with
  | nil => simp [listEntries]
  | @cons config entry configs entries holds _ ih =>
    obtain ⟨key, value⟩ := entry
    rw [length_cons] at few
    rw [bytes_cons] at small
    dsimp only at small
    have budget : nextCollectionBudget out.length total (codec.len value) MAX_CONNECTION_CONFIGS MAX_CONNECTION_LIST_BYTES
        "连接列表" = .ok (out.length + 1, total + codec.len value) :=
      nextCollectionBudget_ok (by decide) (by decide) (by omega) (by omega)
    unfold listEntries
    rw [budget]
    rw [holds.2]
    change listEntries codec (total + codec.len value) (out ++ [config]) entries = _
    rw [ih (by rw [length_append, length_singleton]; omega) (by omega), append_assoc]
    rfl

theorem readable (all : ∀ entry ∈ entries, ∃ config, Holds codec config entry) : ∃ configs, List.Forall₂ (Holds codec) configs entries := by
  induction entries with
  | nil => exact ⟨[], .nil⟩
  | cons entry entries ih =>
    obtain ⟨first, rest⟩ := forall_mem_cons.mp all
    obtain ⟨config, holds⟩ := first
    obtain ⟨configs, each⟩ := ih rest
    exact ⟨config :: configs, .cons holds each⟩

theorem mem_readable (each : List.Forall₂ (Holds codec) configs entries) (config : ConnectionConfig) :
    config ∈ configs ↔ ∃ entry ∈ entries, Holds codec config entry := by
  induction each with
  | nil => simp
  | @cons first entry configs entries holds _ ih =>
    have only : ∀ other, Holds codec other entry → other = first := by
      intro other also
      have same := also.2
      rw [holds.2, Except.ok.injEq] at same
      exact same.symm
    rw [mem_cons, ih, exists_mem_cons_iff]
    refine or_congr_left ⟨?_, only config⟩
    rintro rfl
    exact holds

theorem Kept.list (kept : Kept codec store history) :
    ∃ out, ConnectionRepo.list codec store = .ok out ∧ (∀ config, config ∈ out ↔ history config.id = some config) ∧
      out.Pairwise fun first second => first.name ≤ second.name := by
  have all : ∀ entry ∈ store.entries, ∃ config, Holds codec config entry := by
    intro entry mem
    obtain ⟨config, named, -, read⟩ := kept.own entry.1 entry.2 (Table.get_eq_some.mpr mem)
    exact ⟨config, named.symm, read⟩
  obtain ⟨configs, each⟩ := readable all
  have listed : listEntries codec 0 [] store.entries = .ok ([] ++ configs) :=
    listEntries_ok each (by rw [length_nil, Nat.zero_add]; exact kept.bounded.few)
      (by rw [Nat.zero_add]; exact kept.bounded.small)
  refine ⟨configs.insertionSort fun a b => a.name ≤ b.name, ?_, fun config => ?_, ?_⟩
  · rw [ConnectionRepo.list, listed]
    rfl
  · rw [mem_insertionSort, mem_readable each]
    constructor
    · rintro ⟨entry, mem, holds⟩
      obtain ⟨other, named, held, read⟩ := kept.own entry.1 entry.2 (Table.get_eq_some.mpr mem)
      rw [holds.2, Except.ok.injEq] at read
      rwa [read]
    intro held
    obtain ⟨-, stored⟩ := kept.all config.id config held
    obtain ⟨value, found⟩ := Option.isSome_iff_exists.mp stored
    obtain ⟨other, named, held', read⟩ := kept.own _ value found
    rw [text_injective named, held, Option.some.injEq] at held'
    subst held'
    exact ⟨_, Table.get_eq_some.mp found, rfl, read⟩
  · exact pairwise_insertionSort _ configs

/-- What a write does to any store. -/
def Atomic (codec : Codec Nonce ρ) (configs : List ConnectionConfig) (store : Store ρ) (result : Result Unit × Store ρ) : Prop :=
  (result.1 = .ok () ∧ Committed codec configs store result.2) ∨ ((∃ error, result.1 = .error error) ∧ result.2 = store)

/-- Whatever a store holds, a batch is saved as a whole or changes nothing; and after any run the store is within
    the limits, the list shows what was saved last, and so does every lookup. -/
theorem connections_kept (codec : Codec Nonce ρ) :
    (∀ (nonces : Uuid → Nonce) (configs : List ConnectionConfig) (faults : Faults) (store : Store ρ),
      Atomic codec configs store (saveMany codec nonces configs faults store)) ∧
    ∀ ops : List (Op Nonce), Bounded codec (run codec ops).store ∧ (∃ out, list codec (run codec ops).store = .ok out ∧
        (∀ config, config ∈ out ↔ (run codec ops).last config.id = some config) ∧
        out.Pairwise fun first second => first.name ≤ second.name) ∧
      ∀ id : Uuid, get codec (run codec ops).store id.text = .ok ((run codec ops).last id) := by
  constructor
  · intro nonces configs faults store
    rcases saveMany_cases nonces configs faults store with ⟨next, same, committed, -⟩ | ⟨error, same⟩ <;> rw [same]
    · exact .inl ⟨rfl, committed⟩
    · exact .inr ⟨⟨error, rfl⟩, rfl⟩
  · intro ops
    have kept := run_kept codec ops
    exact ⟨kept.bounded, kept.list, kept.get⟩

end

end Ramag.ConnectionRepo
