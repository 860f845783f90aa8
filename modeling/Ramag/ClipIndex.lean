import Ramag.ClipStore
import Mathlib.Data.Option.Basic

/-!
What the tables of the clip store say. The abstract model is a history: the clip
of each id, if any. The tables represent a history (`Represents`); saving,
deleting, pruning, clearing and building the indexes keep that they do. Only the
table of hashes can lose entries, as one id stands there for each hash.
-/
namespace Ramag.ClipIndex
open Strings Domain Fields ClipFilter OrderedTables ClipStore List Function
open DataSyncGate (saturatingAdd)

theorem hexFixed_length (width n : Nat) : (hexFixed width n).length = width := by
  induction width generalizing n with
  | zero => rfl
  | succ width ih => rw [hexFixed, length_append, ih]; rfl

theorem hexFixed_chars {width n : Nat} {c : Char} (mem : c ∈ hexFixed width n) : ∃ d : Fin 16, c = Nat.digitChar d.val := by
  induction width generalizing n with
  | zero => cases mem
  | succ width ih =>
    rw [hexFixed, mem_append, mem_singleton] at mem
    rcases mem with front | rfl
    · exact ih front
    · exact ⟨⟨n % 16, Nat.mod_lt _ (by decide)⟩, rfl⟩

theorem append_lt_append {s t : Text} (same : s.length = t.length) (less : s < t) (a b : Text) : s ++ a < t ++ b := by
  induction s generalizing t with
  | nil =>
    rw [eq_nil_of_length_eq_zero same.symm] at less
    exact absurd less (lt_irrefl _)
  | cons c s ih =>
    obtain ⟨d, t, rfl⟩ := exists_cons_of_length_eq_add_one (by simpa using same.symm)
    rcases cons_lt_cons_iff.mp less with first | ⟨rfl, rest⟩
    · exact cons_lt_cons_iff.mpr (.inl first)
    · exact cons_lt_cons_iff.mpr (.inr ⟨rfl, ih (by simpa using same) rest⟩)

theorem append_lt_left (s : Text) {a b : Text} (less : a < b) : s ++ a < s ++ b := by
  induction s with
  | nil => exact less
  | cons c s ih => exact cons_lt_cons_iff.mpr (.inr ⟨rfl, ih⟩)

theorem hexFixed_lt {width n m : Nat} (less : n < m) (fits : m < 16 ^ width) : hexFixed width n < hexFixed width m := by
  induction width generalizing n m with
  | zero => omega
  | succ width ih =>
    have high : m / 16 < 16 ^ width := by omega
    rw [hexFixed, hexFixed]
    by_cases front : n / 16 < m / 16
    · exact append_lt_append (by rw [hexFixed_length, hexFixed_length]) (ih front high) _ _
    have same : n / 16 = m / 16 := by omega
    have digits : ∀ a b : Fin 16, a < b → Nat.digitChar a.val < Nat.digitChar b.val := by decide
    rw [same]
    refine append_lt_left _ (cons_lt_cons_iff.mpr (.inl ?_))
    exact digits ⟨n % 16, Nat.mod_lt _ (by decide)⟩ ⟨m % 16, Nat.mod_lt _ (by decide)⟩ (by simp only [Fin.mk_lt_mk]; omega)

theorem usedMillis_lt (time : DateTime) : usedMillis time < 2 ^ 63 := by
  have := time.small
  simp only [usedMillis, timestampMillis]
  omega

theorem recencyKey_lt {left right : DateTime} {uuid other : Text}
    (before : usedMillis right < usedMillis left ∨ usedMillis left = usedMillis right ∧ uuid < other) :
    recencyKey left uuid < recencyKey right other := by
  have bound := usedMillis_lt left
  rw [recencyKey, recencyKey]
  rcases before with later | ⟨same, smaller⟩
  · refine append_lt_append (by rw [hexFixed_length, hexFixed_length]) (hexFixed_lt ?_ ?_) _ _
    · simp only [U64_MAX]
      omega
    · simp only [U64_MAX]
      omega
  · rw [same]
    exact append_lt_left _ (cons_lt_cons_iff.mpr (.inr ⟨rfl, smaller⟩))

theorem recencyKey_inj {left right : DateTime} {uuid other : Text} (same : recencyKey left uuid = recencyKey right other) :
    uuid = other := by
  have behind := (append_inj same (by rw [hexFixed_length, hexFixed_length])).2
  exact (List.cons.inj behind).2

theorem recencyKey_plain (time : DateTime) (id : ClipId) : '\t' ∉ recencyKey time id.text := by
  intro mem
  rw [recencyKey, mem_append, mem_cons] at mem
  rcases mem with hex | colon | uuid
  · obtain ⟨d, same⟩ := hexFixed_chars hex
    have all : ∀ d : Fin 16, '\t' ≠ Nat.digitChar d.val := by decide
    exact all d same
  · exact absurd colon (by decide)
  · exact absurd (id.plain '\t' uuid) (by decide)

section
variable {ρ : Type} {cipher : Cipher ρ}

abbrev History := Text → Option ClipItem

def itemKey (item : ClipItem) : Text := recencyKey item.lastUsedAt item.id.text

def itemMeta (item : ClipItem) : Text := encodeMeta (itemKey item) item.contentHash

theorem decodeMeta_itemMeta (item : ClipItem) (uuid : Text) (found : Text × Text) :
    decodeMeta uuid (itemMeta item) = .ok found → found = (itemKey item, item.contentHash) := by
  intro read
  have plain : '\t' ∉ itemKey item := recencyKey_plain item.lastUsedAt item.id
  rw [decodeMeta, itemMeta, encodeMeta, splitOnce_part plain] at read
  dsimp only at read
  split_ifs at read
  exact (Except.ok.inj read).symm

/-- The tables say of each clip of the history what they should, and nothing else. -/
structure Represents (cipher : Cipher ρ) (store : ClipTables ρ) (history : History) : Prop where
  named : ∀ {uuid item}, history uuid = some item → item.id.text = uuid
  clips : ∀ uuid, Option.Rel (fun record item => cipher.encode item = .ok record) (store.clips.get uuid) (history uuid)
  metas : ∀ uuid, store.uuidMeta.get uuid = (history uuid).map itemMeta
  times : ∀ rk uuid, store.byTime.get rk = some uuid ↔ ∃ item, history uuid = some item ∧ itemKey item = rk
  filters : ∀ rk filter, store.searchFilters.get rk = some filter ↔
    ∃ uuid item, history uuid = some item ∧ itemKey item = rk ∧ cipher.filter item = filter
  owners : ∀ {hash uuid}, store.byHash.get hash = some uuid → ∃ item, history uuid = some item ∧ item.contentHash = hash

variable {history : History} {store : ClipTables ρ} {item : ClipItem}

variable {uuid : Text}

theorem Represents.self (rep : Represents cipher store history) (held : history uuid = some item) : history item.id.text = some item := by
  rw [rep.named held, held]

theorem Represents.key_inj (rep : Represents cipher store history)
    {other : Text} {item clip : ClipItem} (held : history uuid = some item) (held' : history other = some clip)
    (same : itemKey item = itemKey clip) : uuid = other := by
  rw [← rep.named held, ← rep.named held']
  exact recencyKey_inj same

theorem represents_empty (ready : Bool) : Represents cipher (.empty ready) fun _ => none where
  named := nofun
  clips := fun _ => .none
  metas := fun _ => rfl
  times := fun rk uuid => by simp [ClipTables.empty]
  filters := fun rk filter => by simp [ClipTables.empty]
  owners := nofun

theorem removeEntry_represents (rep : Represents cipher store history) (held : history uuid = some item) :
    Represents cipher (removeEntry uuid (itemKey item) item.contentHash store) (update history uuid none) where
  named {other clip} kept := by
    rw [update_apply] at kept
    split_ifs at kept
    exact rep.named kept
  clips other := by
    rw [removeEntry, Table.get_remove, update_apply]
    split_ifs
    · exact .none
    · exact rep.clips other
  metas other := by
    rw [removeEntry, Table.get_remove, update_apply]
    split_ifs
    · rfl
    · exact rep.metas other
  times rk other := by
    rw [removeEntry, Table.get_remove, update_apply]
    split_ifs with key same same
    · simp
    · refine iff_of_false nofun fun ⟨clip, kept, equal⟩ => same ?_
      exact rep.key_inj kept held (equal.trans key)
    · refine iff_of_false (fun found => key ?_) fun ⟨clip, kept, _⟩ => nomatch kept
      obtain ⟨clip, kept, equal⟩ := (rep.times rk other).mp found
      rw [same, held] at kept
      cases kept
      exact equal.symm
    · exact rep.times rk other
  filters rk filter := by
    rw [removeEntry, Table.get_remove]
    split_ifs with key
    · refine iff_of_false nofun fun ⟨other, clip, kept, equal, _⟩ => ?_
      rw [update_apply] at kept
      split_ifs at kept with same
      exact same (rep.key_inj kept held (equal.trans key))
    rw [rep.filters]
    refine exists_congr fun other => exists_congr fun clip => and_congr_left fun ⟨equal, _⟩ => ?_
    rw [update_apply]
    split_ifs with same
    · refine iff_of_false (fun kept => key ?_) fun kept => nomatch kept
      rw [same, held] at kept
      cases kept
      exact equal.symm
    · exact .rfl
  owners {hash other} found := by
    rw [removeEntry, removeHashIfOwned] at found
    have kept : store.byHash.get hash = some other ∧ ¬ (other = uuid) := by
      split_ifs at found with owned
      · rw [Table.get_remove] at found
        split_ifs at found with same
        refine ⟨found, ?_⟩
        rintro rfl
        obtain ⟨clip, kept, equal⟩ := rep.owners found
        rw [held] at kept
        cases kept
        exact same equal.symm
      · refine ⟨found, ?_⟩
        rintro rfl
        obtain ⟨clip, kept, equal⟩ := rep.owners found
        rw [held] at kept
        cases kept
        rw [equal] at owned
        exact owned found
    obtain ⟨clip, stored, equal⟩ := rep.owners kept.1
    exact ⟨clip, by rw [update_of_ne kept.2, stored], equal⟩

/-- Puts an entry into the tables. -/
def putEntry (cipher : Cipher ρ) (item : ClipItem) (enc : ρ) (store : ClipTables ρ) : ClipTables ρ :=
  { store with
    clips := store.clips.insert item.id.text enc
    byTime := store.byTime.insert (itemKey item) item.id.text
    searchFilters := store.searchFilters.insert (itemKey item) (cipher.filter item)
    byHash := store.byHash.insert item.contentHash item.id.text
    uuidMeta := store.uuidMeta.insert item.id.text (itemMeta item) }

theorem putEntry_represents (rep : Represents cipher store history)
    (free : history item.id.text = none) {enc : ρ} (encoded : cipher.encode item = .ok enc) :
    Represents cipher (putEntry cipher item enc store) (update history item.id.text (some item)) := by
  have other {clip : ClipItem} {uuid : Text} (held : history uuid = some clip) : uuid ≠ item.id.text := by
    rintro rfl
    rw [free] at held
    cases held
  have keys {clip : ClipItem} {uuid : Text} (held : history uuid = some clip) : itemKey clip ≠ itemKey item := by
    intro same
    refine other held ?_
    rw [← rep.named held]
    exact recencyKey_inj same
  refine ⟨?_, ?_, ?_, ?_, ?_, ?_⟩
  · intro uuid clip held
    rw [update_apply] at held
    split_ifs at held with same
    · cases held
      exact same.symm
    · exact rep.named held
  · intro uuid
    rw [putEntry, Table.get_insert, update_apply]
    split_ifs
    · exact .some encoded
    · exact rep.clips uuid
  · intro uuid
    rw [putEntry, Table.get_insert, update_apply]
    split_ifs
    · rfl
    · exact rep.metas uuid
  · intro rk uuid
    rw [putEntry, Table.get_insert, update_apply]
    split_ifs with key same same
    · simp [same, key]
    · refine iff_of_false (fun equal => same (Option.some.inj equal).symm) fun ⟨clip, held, equal⟩ => ?_
      exact keys held (equal.trans key)
    · refine iff_of_false (fun found => ?_) fun ⟨clip, held, equal⟩ => ?_
      · obtain ⟨clip, held, -⟩ := (rep.times rk uuid).mp found
        exact other held same
      · cases held
        exact key equal.symm
    · exact rep.times rk uuid
  · intro rk filter
    rw [putEntry, Table.get_insert]
    split_ifs with key
    · constructor
      · intro equal
        exact ⟨item.id.text, item, update_self .., key.symm, Option.some.inj equal⟩
      rintro ⟨uuid, clip, held, equal, rfl⟩
      rw [update_apply] at held
      split_ifs at held with same
      · cases held
        rfl
      · exact absurd (equal.trans key) (keys held)
    · rw [rep.filters]
      refine exists_congr fun uuid => exists_congr fun clip => and_congr_left fun ⟨equal, _⟩ => ?_
      rw [update_apply]
      split_ifs with same
      · refine iff_of_false (fun held => other held same) fun held => ?_
        cases held
        exact key equal.symm
      · exact .rfl
  · intro hash uuid found
    rw [putEntry, Table.get_insert] at found
    split_ifs at found with same
    · cases found
      exact ⟨item, update_self .., same.symm⟩
    · obtain ⟨clip, held, equal⟩ := rep.owners found
      exact ⟨clip, by rw [update_of_ne (other held), held], equal⟩

theorem storedMeta_ok (rep : Represents cipher store history)
    {refusal : Text} {found : Option (Text × Text)} (read : storedMeta store uuid refusal = .ok found) :
    found = (history uuid).map fun item => (itemKey item, item.contentHash) := by
  rw [storedMeta, rep.metas] at read
  cases held : history uuid with
  | none =>
    rw [held] at read
    dsimp only [Option.map_none] at read
    split_ifs at read
    exact (Except.ok.inj read).symm
  | some item =>
    rw [held] at read
    dsimp only [Option.map_some] at read
    cases entry : decodeMeta uuid (itemMeta item) with
    | error error =>
      rw [entry] at read
      cases read
    | ok pair =>
      rw [entry] at read
      rw [decodeMeta_itemMeta item uuid pair entry] at read
      exact (Except.ok.inj read).symm

theorem removeHash_insert (byHash : Table Text Text) (oldHash hash uuid : Text) :
    (if oldHash ≠ hash then removeHashIfOwned byHash oldHash uuid else byHash).insert hash uuid =
      (removeHashIfOwned byHash oldHash uuid).insert hash uuid := by
  split_ifs with other
  · rfl
  rw [not_not.mp other, removeHashIfOwned]
  split_ifs
  · rw [Table.insert_remove]
  · rfl

variable {store : ClipTables ρ}

section
variable {next : ClipTables ρ} (rep : Represents cipher store history) (done : save cipher item store = .ok next)
include rep done

theorem save_cases : ∃ enc, cipher.encode item = .ok enc ∧
      ((history item.id.text = none ∧ next = putEntry cipher item enc store) ∨ ∃ old, history item.id.text = some old ∧
          next = putEntry cipher item enc (removeEntry item.id.text (itemKey old) old.contentHash store)) := by
  obtain ⟨enc, encoded, done⟩ := bind_ok done
  obtain ⟨found, read, done⟩ := bind_ok done
  have is := storedMeta_ok rep read
  refine ⟨enc, encoded, ?_⟩
  cases held : history item.id.text with
  | none =>
    rw [held] at is
    subst is
    exact .inl ⟨rfl, (Except.ok.inj done).symm⟩
  | some old =>
    rw [held] at is
    subst is
    refine .inr ⟨old, rfl, ?_⟩
    rw [← Except.ok.inj done, putEntry, removeEntry]
    simp only [Option.map_some, Table.insert_remove, removeHash_insert]
    rfl

theorem save_represents :
    Represents cipher next (update history item.id.text (some item)) := by
  obtain ⟨enc, encoded, ⟨free, rfl⟩ | ⟨old, held, rfl⟩⟩ := save_cases rep done
  · exact putEntry_represents rep free encoded
  · have removed := removeEntry_represents rep held
    have put := putEntry_represents removed (update_self item.id.text none history) encoded
    rwa [update_idem] at put

end

variable {id : Text}

section
variable {next : ClipTables ρ} (rep : Represents cipher store history) (done : delete id store = .ok next)
include rep done

theorem delete_cases : (history id = none ∧ next = store) ∨
      ∃ old, history id = some old ∧ next = removeEntry id (itemKey old) old.contentHash store := by
  obtain ⟨found, read, done⟩ := bind_ok done
  have is := storedMeta_ok rep read
  cases held : history id with
  | none =>
    rw [held] at is
    subst is
    refine .inl ⟨rfl, ?_⟩
    have noMeta : store.uuidMeta.get id = none := by rw [rep.metas, held]; rfl
    have noClip : store.clips.get id = none := by
      have both := rep.clips id
      rw [held] at both
      generalize store.clips.get id = found at both
      cases both
      rfl
    rw [← Except.ok.inj done, Table.remove_absent noMeta, Table.remove_absent noClip]
  | some old =>
    rw [held] at is
    subst is
    exact .inr ⟨old, rfl, (Except.ok.inj done).symm⟩

theorem delete_represents : Represents cipher next (update history id none) := by
  obtain ⟨free, rfl⟩ | ⟨old, held, rfl⟩ := delete_cases rep done
  · rwa [← free, update_eq_self]
  · exact removeEntry_represents rep held

end

theorem removeEntry_byHash (rep : Represents cipher store history) (held : history uuid = some item) (hash : Text) :
    (removeEntry uuid (itemKey item) item.contentHash store).byHash.get hash =
      (store.byHash.get hash).filter fun other => decide (other ≠ uuid) := by
  have own : store.byHash.get hash = some uuid → item.contentHash = hash := by
    intro found
    obtain ⟨clip, kept, equal⟩ := rep.owners found
    rw [held] at kept
    cases kept
    exact equal
  rw [removeEntry, removeHashIfOwned]
  cases found : store.byHash.get hash with
  | none =>
    split_ifs
    · rw [Table.get_remove, found, ite_self]
      rfl
    · exact found
  | some other =>
    by_cases same : other = uuid
    · subst same
      have hashes := own found
      rw [hashes, if_pos found, Table.get_remove_self, Option.filter_some, if_neg (by simp)]
    have kept : (if store.byHash.get item.contentHash = some uuid then store.byHash.remove item.contentHash
        else store.byHash).get hash = some other := by
      split_ifs with owned
      · rw [Table.get_remove_ne _ ?_, found]
        rintro rfl
        rw [owned] at found
        exact same (Option.some.inj found).symm
      · exact found
    rw [kept, Option.filter_some, if_pos (by simpa using same)]

theorem removeDoomed_represents (doomed : List Text) {next : ClipTables ρ}
    (rep : Represents cipher store history) (done : removeDoomed store doomed = .ok next) :
    Represents cipher next (fun uuid => if uuid ∈ doomed then none else history uuid) ∧
      ∀ hash, next.byHash.get hash = (store.byHash.get hash).filter fun uuid => decide (uuid ∉ doomed) := by
  induction doomed generalizing store history with
  | nil =>
    cases done
    refine ⟨by simpa using rep, fun hash => ?_⟩
    cases next.byHash.get hash <;> rfl
  | cons uuid doomed ih =>
    rw [removeDoomed, rep.metas] at done
    cases held : history uuid with
    | none =>
      rw [held] at done
      cases done
    | some item =>
      rw [held] at done
      obtain ⟨pair, read, done⟩ := bind_ok done
      rw [decodeMeta_itemMeta item uuid pair read] at done
      obtain ⟨represents, hashes⟩ := ih (removeEntry_represents rep held) done
      constructor
      · convert represents using 1
        funext other
        simp only [update_apply, mem_cons]
        by_cases same : other = uuid <;> by_cases later : other ∈ doomed <;> simp [same]
      · intro hash
        rw [hashes, removeEntry_byHash rep held, Option.filter_filter]
        simp

/-- The indexes while they are built: the filters of the clips that were reached, and all the others as
    before. -/
structure Migrating (cipher : Cipher ρ) (store : ClipTables ρ) (history : History) (reached : List Text) (state : ClipTables ρ) : Prop where
  clips : state.clips = store.clips
  times : state.byTime = store.byTime
  metas : state.uuidMeta = store.uuidMeta
  filters : ∀ rk filter, state.searchFilters.get rk = some filter ↔
    ∃ uuid ∈ reached, ∃ item, history uuid = some item ∧ itemKey item = rk ∧ cipher.filter item = filter
  owners : ∀ {hash uuid}, state.byHash.get hash = some uuid → ∃ item, history uuid = some item ∧ item.contentHash = hash
  found : ∀ hash, (store.byHash.get hash).isSome = true → (state.byHash.get hash).isSome = true

theorem migrateEntries_spec (rep : Represents cipher store history)
    (entries : List (Text × ρ)) (given : ∀ entry ∈ entries, store.clips.get entry.1 = some entry.2)
    {reached : List Text} {state next : ClipTables ρ} (inv : Migrating cipher store history reached state)
    (done : migrateEntries cipher state entries = .ok next) : Migrating cipher store history (reached ++ entries.map (·.1)) next := by
  induction entries generalizing reached state with
  | nil =>
    cases done
    simpa using inv
  | cons entry entries ih =>
    obtain ⟨uuid, value⟩ := entry
    obtain ⟨own, given⟩ := forall_mem_cons.mp given
    obtain ⟨item, read, done⟩ := bind_ok done
    have held : history uuid = some item := by
      have both := rep.clips uuid
      rw [show store.clips.get uuid = some value from own] at both
      generalize history uuid = clip at both
      cases both with
      | some encoded =>
        rw [cipher.readsBack _ _ encoded] at read
        rw [Except.ok.inj read]
    have named := rep.named held
    have key : recencyKey item.lastUsedAt uuid = itemKey item := by rw [itemKey, named]
    have time : store.byTime.get (itemKey item) = some uuid := (rep.times _ _).mpr ⟨item, held, rfl⟩
    have about : store.uuidMeta.get uuid = some (itemMeta item) := by rw [rep.metas, held]; rfl
    rw [map_cons, append_cons]
    dsimp only at done
    rw [key] at done
    refine @ih given _ _ ?_ done
    refine ⟨inv.clips, ?_, ?_, fun rk filter => ?_, fun {hash other} found => ?_, fun hash found => ?_⟩
    · rw [inv.times, Table.insert_held time]
    · rw [inv.metas]
      exact Table.insert_held about
    · rw [Table.get_insert]
      split_ifs with same
      · constructor
        · intro equal
          exact ⟨uuid, by simp, item, held, same.symm, Option.some.inj equal⟩
        rintro ⟨other, -, clip, kept, equal, rfl⟩
        have alike := rep.key_inj kept held (equal.trans same)
        rw [alike, held] at kept
        cases kept
        rfl
      · rw [inv.filters]
        constructor
        · rintro ⟨other, mem, rest⟩
          exact ⟨other, mem_append_left _ mem, rest⟩
        rintro ⟨other, mem, clip, kept, equal, rest⟩
        rcases mem_append.mp mem with earlier | now
        · exact ⟨other, earlier, clip, kept, equal, rest⟩
        · rw [mem_singleton.mp now, held] at kept
          cases kept
          exact absurd equal.symm same
    · rw [Table.get_insert] at found
      split_ifs at found with same
      · cases found
        exact ⟨item, held, same.symm⟩
      · exact inv.owners found
    · rw [Table.get_insert]
      split_ifs
      · rfl
      · exact inv.found hash found

theorem migrateIndexes_represents {next : ClipTables ρ}
    (rep : Represents cipher store history) (seen : ClipTables ρ) (done : migrateIndexes cipher seen store = .ok next) :
    Represents cipher next history ∧ ∀ hash, (store.byHash.get hash).isSome = true → (next.byHash.get hash).isSome = true := by
  rw [migrateIndexes] at done
  split_ifs at done
  · obtain ⟨built, loop, done⟩ := bind_ok done
    have start : Migrating cipher store history [] { store with searchFilters := .empty } :=
      ⟨rfl, rfl, rfl, fun rk filter => by simp, rep.owners, fun _ found => found⟩
    have inv := migrateEntries_spec rep store.clips.entries (fun entry mem => Table.get_eq_some.mpr mem) start loop
    rw [← Except.ok.inj done]
    refine ⟨⟨rep.named, ?_, ?_, ?_, ?_, inv.owners⟩, inv.found⟩
    · rw [inv.clips]
      exact rep.clips
    · rw [inv.metas]
      exact rep.metas
    · rw [inv.times]
      exact rep.times
    · intro rk filter
      rw [inv.filters]
      constructor
      · rintro ⟨uuid, -, rest⟩
        exact ⟨uuid, rest⟩
      rintro ⟨uuid, item, held, rest⟩
      refine ⟨uuid, ?_, item, held, rest⟩
      have both := rep.clips uuid
      rw [held] at both
      have mem : uuid ∈ store.clips.keys := by
        rw [Table.mem_keys]
        generalize store.clips.get uuid = record at both
        cases both
        rfl
      exact mem
  · cases done
    exact ⟨rep, fun _ found => found⟩

/-! ### Runs -/

/-- A transaction, with the earlier stores that its reading parts may have seen. -/
inductive Op (ρ : Type)
  | save (item : ClipItem)
  | delete (id : Text)
  | prune (maxItems : Nat) (cutoff : Int) (seen shown : ClipTables ρ)
  | clear
  | migrateIndexes (seen : ClipTables ρ)

def Op.run (cipher : Cipher ρ) (store : ClipTables ρ) : Op ρ → Result (ClipTables ρ)
  | .save item => ClipStore.save cipher item store
  | .delete id => ClipStore.delete id store
  | .prune maxItems cutoff seen shown => (ClipStore.prune cipher maxItems cutoff seen shown store).map (·.1)
  | .clear => .ok ClipStore.clear
  | .migrateIndexes seen => ClipStore.migrateIndexes cipher seen store

/-- A transaction that fails is not committed. -/
def Op.next (cipher : Cipher ρ) (store : ClipTables ρ) (op : Op ρ) : ClipTables ρ :=
  match op.run cipher store with
  | .ok next => next
  | .error _ => store

/-- The stores of a run, from its start to its end. -/
def stores (cipher : Cipher ρ) (store : ClipTables ρ) : List (Op ρ) → List (ClipTables ρ)
  | [] => [store]
  | op :: ops => store :: stores cipher (op.next cipher store) ops

/-- The clip is stored. -/
def Holds (cipher : Cipher ρ) (store : ClipTables ρ) (item : ClipItem) : Prop :=
  ∃ record, store.clips.get item.id.text = some record ∧ cipher.encode item = .ok record

/-- The later of two times comes first in the order of the keys. -/
def Told (left right : ClipItem) : Prop :=
  left.lastUsedAt.nanos < right.lastUsedAt.nanos → usedMillis left.lastUsedAt < usedMillis right.lastUsedAt ∨
      usedMillis right.lastUsedAt = usedMillis left.lastUsedAt ∧ right.id.text < left.id.text

/-- When the clip that stands for a hash goes, so do all other clips with this hash. -/
def TakesAll (cipher : Cipher ρ) (store : ClipTables ρ) (gone : Text → Prop) : Prop :=
  ∀ old, Holds cipher store old → gone old.id.text → store.byHash.get old.contentHash = some old.id.text →
    ∀ other, Holds cipher store other → other.contentHash = old.contentHash → gone other.id.text

/-- The transaction keeps every hash findable, and the times of what it saves are told apart. -/
def Op.Fair (cipher : Cipher ρ) (store : ClipTables ρ) : Op ρ → Prop
  | .save item =>
    (∀ other, Holds cipher store other → other.id.text ≠ item.id.text → Told item other ∧ Told other item) ∧
      ∀ old, Holds cipher store old → old.id.text = item.id.text → old.contentHash ≠ item.contentHash →
        store.byHash.get old.contentHash = some item.id.text →
          ∀ other, Holds cipher store other → other.contentHash = old.contentHash → other.id.text = item.id.text
  | .delete id => TakesAll cipher store (· = id)
  | .prune maxItems cutoff seen _ =>
    ∀ doomed, selectPruneCandidates seen.byTime maxItems cutoff = .ok doomed → TakesAll cipher store (· ∈ doomed)
  | .clear | .migrateIndexes _ => True

def FairRun (cipher : Cipher ρ) (store : ClipTables ρ) : List (Op ρ) → Prop
  | [] => True
  | op :: ops => op.Fair cipher store ∧ FairRun cipher (op.next cipher store) ops

theorem Represents.holds (rep : Represents cipher store history)
    (item : ClipItem) : Holds cipher store item ↔ history item.id.text = some item := by
  have both := rep.clips item.id.text
  rw [Holds]
  generalize store.clips.get item.id.text = record at both ⊢
  generalize history item.id.text = clip at both ⊢
  cases both with
  | none => simp
  | @some record clip encoded =>
    simp only [Option.some.injEq, exists_eq_left']
    constructor
    · intro other
      have read := cipher.readsBack item record other []
      rw [cipher.readsBack clip record encoded] at read
      exact Except.ok.inj read
    · rintro rfl
      exact encoded

theorem prune_cases {next : ClipTables ρ} {maxItems : Nat} {cutoff : Int}
    {seen shown : ClipTables ρ} (done : (Op.prune maxItems cutoff seen shown).run cipher store = .ok next) : next = store ∨
      ∃ doomed, selectPruneCandidates seen.byTime maxItems cutoff = .ok doomed ∧ removeDoomed store doomed = .ok next := by
  rw [Op.run] at done
  cases pruned : prune cipher maxItems cutoff seen shown store with
  | error error =>
    rw [pruned] at done
    cases done
  | ok result =>
    rw [pruned] at done
    have same : result.1 = next := Except.ok.inj done
    obtain ⟨doomed, chosen, rest⟩ := bind_ok pruned
    split_ifs at rest with empty
    · rw [← same, ← Except.ok.inj rest]
      exact .inl rfl
    simp only [bind_ok_iff] at rest
    obtain ⟨images, -, kept, removed, rest⟩ := rest
    rw [← same, ← Except.ok.inj rest]
    exact .inr ⟨doomed, chosen, removed⟩

section
variable (rep : Represents cipher store history)
include rep

theorem next_represents (op : Op ρ) : ∃ later, Represents cipher (op.next cipher store) later := by
  rw [Op.next]
  cases done : op.run cipher store with
  | error _ => exact ⟨history, rep⟩
  | ok next =>
    cases op with
    | save item => exact ⟨_, save_represents rep done⟩
    | delete id => exact ⟨_, delete_represents rep done⟩
    | prune maxItems cutoff seen shown =>
      rcases prune_cases done with rfl | ⟨doomed, -, removed⟩
      · exact ⟨history, rep⟩
      · exact ⟨_, (removeDoomed_represents doomed rep removed).1⟩
    | clear =>
      cases done
      exact ⟨_, represents_empty true⟩
    | migrateIndexes seen => exact ⟨history, (migrateIndexes_represents rep seen done).1⟩

theorem foldl_represents (ops : List (Op ρ)) :
    ∃ later, Represents cipher (ops.foldl (fun store op => op.next cipher store) store) later := by
  induction ops generalizing store history with
  | nil => exact ⟨history, rep⟩
  | cons op ops ih =>
    obtain ⟨later, rep⟩ := next_represents rep op
    exact ih rep

theorem stores_represents
    (ops : List (Op ρ)) : ∀ later ∈ stores cipher store ops, ∃ history, Represents cipher later history := by
  induction ops generalizing store history with
  | nil =>
    intro later mem
    rw [mem_singleton.mp mem]
    exact ⟨history, rep⟩
  | cons op ops ih =>
    intro later mem
    rcases mem_cons.mp mem with rfl | mem
    · exact ⟨history, rep⟩
    · obtain ⟨next, rep⟩ := next_represents rep op
      exact ih rep later mem

end

/-- Every clip is found by its hash, and any two have times that the keys tell apart. -/
structure Kept (cipher : Cipher ρ) (store : ClipTables ρ) (history : History) : Prop where
  represents : Represents cipher store history
  found : ∀ {uuid item}, history uuid = some item → (store.byHash.get item.contentHash).isSome = true
  told : ∀ {uuid other item clip}, history uuid = some item → history other = some clip → Told item clip

theorem kept_empty (ready : Bool) : Kept cipher (.empty ready) fun _ => none := ⟨represents_empty ready, nofun, nofun⟩

theorem save_kept {next : ClipTables ρ} (kept : Kept cipher store history)
    (fair : (Op.save item).Fair cipher store) (done : save cipher item store = .ok next) :
    Kept cipher next (update history item.id.text (some item)) := by
  have rep := kept.represents
  have held {uuid : Text} {clip : ClipItem} (own : history uuid = some clip) : Holds cipher store clip :=
    (rep.holds clip).mpr (rep.self own)
  refine ⟨save_represents rep done, ?_, ?_⟩
  · intro uuid clip own
    have put (byHash : Table Text Text) : clip.contentHash ≠ item.contentHash → (byHash.get clip.contentHash).isSome = true →
        ((byHash.insert item.contentHash item.id.text).get clip.contentHash).isSome = true := by
      intro other found
      rwa [Table.get_insert_ne _ _ other]
    by_cases same : clip.contentHash = item.contentHash
    · obtain ⟨enc, -, ⟨-, rfl⟩ | ⟨old, -, rfl⟩⟩ := save_cases rep done <;> rw [putEntry, same, Table.get_insert_self] <;> rfl
    rw [update_apply] at own
    split_ifs at own with self
    · cases own
      exact absurd rfl same
    have found := kept.found own
    obtain ⟨enc, -, ⟨-, rfl⟩ | ⟨old, stored, rfl⟩⟩ := save_cases rep done
    · exact put _ same found
    refine put _ same ?_
    rw [removeEntry_byHash rep stored]
    obtain ⟨owner, is⟩ := Option.isSome_iff_exists.mp found
    rw [is, Option.filter_some]
    rw [if_pos]
    · rfl
    refine decide_eq_true fun equal => self ?_
    obtain ⟨holder, holds, hash⟩ := rep.owners is
    rw [equal, stored] at holds
    cases holds
    rw [equal] at is
    have all := fair.2 old (held stored) (rep.named stored) (by rwa [hash]) (by rwa [hash]) clip (held own) hash.symm
    rw [← rep.named own, all]
  · intro uuid other clip second own own'
    rw [update_apply] at own own'
    split_ifs at own own' with self self'
    · cases own
      cases own'
      exact fun less => absurd less (Int.lt_irrefl _)
    · cases own
      exact (fair.1 second (held own') (by rwa [rep.named own'])).1
    · cases own'
      exact (fair.1 clip (held own) (by rwa [rep.named own])).2
    · exact kept.told own own'

theorem takesAll_found (kept : Kept cipher store history) {gone : Text → Prop}
    [DecidablePred gone] (all : TakesAll cipher store gone) (held : history uuid = some item) (stays : ¬ gone uuid) :
    ((store.byHash.get item.contentHash).filter fun other => decide (¬ gone other)).isSome = true := by
  have rep := kept.represents
  obtain ⟨owner, is⟩ := Option.isSome_iff_exists.mp (kept.found held)
  obtain ⟨holder, holds, hash⟩ := rep.owners is
  rw [is, Option.filter_some, if_pos]
  · rfl
  refine decide_eq_true fun leaves => stays ?_
  have named := rep.named holds
  have away := all holder ((rep.holds holder).mpr (rep.self holds)) (by rwa [named]) (by rw [hash, named, is]) item
    ((rep.holds item).mpr (rep.self held)) hash.symm
  rwa [rep.named held] at away

theorem delete_kept {next : ClipTables ρ} (kept : Kept cipher store history) (fair : (Op.delete id).Fair cipher store)
    (done : delete id store = .ok next) : Kept cipher next (update history id none) := by
  have rep := kept.represents
  have stays {uuid : Text} {item : ClipItem} (own : update history id none uuid = some item) :
      uuid ≠ id ∧ history uuid = some item := by
    rw [update_apply] at own
    split_ifs at own with same
    exact ⟨same, own⟩
  refine ⟨delete_represents rep done, ?_, fun own own' => kept.told (stays own).2 (stays own').2⟩
  intro uuid item own
  obtain ⟨other, own⟩ := stays own
  have all : TakesAll cipher store (· = id) := fair
  obtain ⟨-, rfl⟩ | ⟨old, held, rfl⟩ := delete_cases rep done
  · exact kept.found own
  · rw [removeEntry_byHash rep held]
    exact takesAll_found kept all own other

theorem removeDoomed_kept {next : ClipTables ρ} (kept : Kept cipher store history)
    {doomed : List Text} (all : TakesAll cipher store (· ∈ doomed)) (done : removeDoomed store doomed = .ok next) :
    Kept cipher next fun uuid => if uuid ∈ doomed then none else history uuid := by
  obtain ⟨rep, hashes⟩ := removeDoomed_represents doomed kept.represents done
  have stays {uuid : Text} {item : ClipItem} (own : (if uuid ∈ doomed then none else history uuid) = some item) :
      uuid ∉ doomed ∧ history uuid = some item := by
    split_ifs at own with gone
    exact ⟨gone, own⟩
  refine ⟨rep, fun own => ?_, fun own own' => kept.told (stays own).2 (stays own').2⟩
  rw [hashes]
  exact takesAll_found kept all (stays own).2 (stays own).1

theorem next_kept (kept : Kept cipher store history) (op : Op ρ)
    (fair : op.Fair cipher store) : ∃ later, Kept cipher (op.next cipher store) later := by
  rw [Op.next]
  cases done : op.run cipher store with
  | error _ => exact ⟨history, kept⟩
  | ok next =>
    cases op with
    | save item => exact ⟨_, save_kept kept fair done⟩
    | delete id => exact ⟨_, delete_kept kept fair done⟩
    | prune maxItems cutoff seen shown =>
      rcases prune_cases done with rfl | ⟨doomed, chosen, removed⟩
      · exact ⟨history, kept⟩
      · exact ⟨_, removeDoomed_kept kept (fair doomed chosen) removed⟩
    | clear =>
      cases done
      exact ⟨_, kept_empty true⟩
    | migrateIndexes seen =>
      obtain ⟨rep, more⟩ := migrateIndexes_represents kept.represents seen done
      exact ⟨history, rep, fun own => more _ (kept.found own), kept.told⟩

theorem stores_kept (kept : Kept cipher store history) {ops : List (Op ρ)} (fair : FairRun cipher store ops) :
    ∀ later ∈ stores cipher store ops, ∃ history, Kept cipher later history := by
  induction ops generalizing store history with
  | nil =>
    intro later mem
    rw [mem_singleton.mp mem]
    exact ⟨history, kept⟩
  | cons op ops ih =>
    obtain ⟨now, rest⟩ := fair
    intro later mem
    rcases mem_cons.mp mem with rfl | mem
    · exact ⟨history, kept⟩
    · obtain ⟨next, kept⟩ := next_kept kept op now
      exact ih kept rest later mem

/-- The clips in the order of the times. -/
def Listed (history : History) : List (Text × Text) → List ClipItem → Prop :=
  List.Forall₂ fun entry item => history entry.2 = some item ∧ itemKey item = entry.1

theorem listed_exists (rep : Represents cipher store history) : ∃ items, Listed history store.byTime.entries items := by
  have each : ∀ entry ∈ store.byTime.entries, ∃ item, history entry.2 = some item ∧ itemKey item = entry.1 :=
    fun entry mem => (rep.times entry.1 entry.2).mp (Table.get_eq_some.mpr mem)
  generalize store.byTime.entries = entries at each ⊢
  induction entries with
  | nil => exact ⟨[], .nil⟩
  | cons entry entries ih =>
    obtain ⟨own, rest⟩ := forall_mem_cons.mp each
    obtain ⟨item, own⟩ := own
    obtain ⟨items, rest⟩ := ih rest
    exact ⟨item :: items, .cons own rest⟩

variable {entries : List (Text × Text)} {items : List ClipItem}

theorem Listed.keys (listed : Listed history entries items) : items.map itemKey = entries.map (·.1) := by
  induction listed with
  | nil => rfl
  | cons own _ ih => rw [map_cons, map_cons, own.2, ih]

theorem Listed.ids (rep : Represents cipher store history) (listed : Listed history entries items) :
    items.map (·.id.text) = entries.map (·.2) := by
  induction listed with
  | nil => rfl
  | cons own _ ih => rw [map_cons, map_cons, rep.named own.1, ih]

theorem Listed.held (listed : Listed history entries items) : ∀ item ∈ items, ∃ uuid, history uuid = some item := by
  induction listed with
  | nil => exact fun item mem => absurd mem not_mem_nil
  | cons own _ ih => exact forall_mem_cons.mpr ⟨⟨_, own.1⟩, ih⟩

theorem loadIndexedClip_held (rep : Represents cipher store history) (held : history uuid = some item) (rk : Text) :
    loadIndexedClip cipher store.clips rk uuid = .ok item := by
  have both := rep.clips uuid
  rw [held] at both
  rw [loadIndexedClip]
  generalize store.clips.get uuid = record at both
  cases both with
  | some encoded => exact cipher.readsBack item _ encoded uuid

theorem listEntries_all (rep : Represents cipher store history) (listed : Listed history entries items) (out : List ClipItem)
    {total : Nat} (small : total + (items.map inlinePayloadBytes).sum < U64_MAX) :
    listEntries cipher store.clips U64_MAX out total entries = .ok (out ++ items) := by
  induction listed generalizing out total with
  | nil => rw [listEntries, append_nil]
  | @cons entry item entries items own _ ih =>
    rw [map_cons, sum_cons] at small
    have exact' : min (total + inlinePayloadBytes item) U64_MAX = total + inlinePayloadBytes item := by omega
    have below : ¬ total + inlinePayloadBytes item > U64_MAX := by omega
    have under : ¬ total + inlinePayloadBytes item ≥ U64_MAX := by omega
    rw [listEntries, loadIndexedClip_held rep own.1 entry.1]
    change (if !out.isEmpty && decide (min (total + inlinePayloadBytes item) U64_MAX > U64_MAX) then Except.ok out
      else if min (total + inlinePayloadBytes item) U64_MAX ≥ U64_MAX then .ok (out ++ [item])
      else listEntries cipher store.clips U64_MAX (out ++ [item]) (min (total + inlinePayloadBytes item) U64_MAX) entries) = _
    rw [exact', decide_eq_false below, Bool.and_false, if_neg (by decide), if_neg under, ih (out ++ [item]) (by omega), append_assoc]
    rfl

theorem findByHash_held {history : History} (rep : Represents cipher store history) {hash : Text} :
    (∀ item, findByHash cipher store hash = .ok (some item) → (∃ uuid, history uuid = some item) ∧ item.contentHash = hash) ∧
      ((store.byHash.get hash).isSome = true → ∃ item, findByHash cipher store hash = .ok (some item)) := by
  rw [findByHash]
  cases owner : store.byHash.get hash with
  | none => exact ⟨fun item found => absurd (Except.ok.inj found).symm (Option.some_ne_none item), fun absent => Bool.noConfusion absent⟩
  | some uuid =>
    obtain ⟨item, held, equal⟩ := rep.owners owner
    have load := loadIndexedClip_held rep held []
    rw [loadIndexedClip] at load
    dsimp only
    generalize store.clips.get uuid = record at load ⊢
    cases record with
    | none => cases load
    | some record =>
      dsimp only at load ⊢
      rw [load]
      refine ⟨fun other found => ?_, fun _ => ⟨item, rfl⟩⟩
      cases found
      exact ⟨⟨uuid, held⟩, equal⟩

/-- The tables agree with the stored clips, the clips come by falling time, and each is found by its hash. -/
structure Consistent (cipher : Cipher ρ) (store : ClipTables ρ) : Prop where
  times : (store.byTime.entries.map (·.2)).Perm store.clips.keys
  metas : store.uuidMeta.keys = store.clips.keys
  filters : store.searchFilters.keys = store.byTime.keys
  contents : ∀ item, Holds cipher store item → store.byTime.get (itemKey item) = some item.id.text ∧
    store.uuidMeta.get item.id.text = some (itemMeta item) ∧ store.searchFilters.get (itemKey item) = some (cipher.filter item)
  recent : ∃ items : List ClipItem, (∀ item ∈ items, Holds cipher store item) ∧ (items.map (·.id.text)).Perm store.clips.keys ∧
    items.Pairwise (fun first second => second.lastUsedAt.nanos ≤ first.lastUsedAt.nanos) ∧
    ∀ limit, (items.map inlinePayloadBytes).sum < U64_MAX → listRecent cipher store limit = .ok (items.take limit)
  found : ∀ hash, (∃ item, findByHash cipher store hash = .ok (some item) ∧ item.contentHash = hash) ↔
    ∃ item, Holds cipher store item ∧ item.contentHash = hash

section
variable (rep : Represents cipher store history)
include rep

theorem Represents.clips_isSome
    (uuid : Text) : (store.clips.get uuid).isSome = (history uuid).isSome := by
  have both := rep.clips uuid
  generalize store.clips.get uuid = record at both
  generalize history uuid = item at both
  cases both <;> rfl

theorem times_perm : (store.byTime.entries.map (·.2)).Perm store.clips.keys := by
  have distinct : (store.byTime.entries.map (·.2)).Nodup := by
    refine pairwise_map.mpr (store.byTime.ordered.imp_of_mem fun {first second} one two less same => ?_)
    obtain ⟨item, held, key⟩ := (rep.times first.1 first.2).mp (Table.get_eq_some.mpr one)
    obtain ⟨clip, held', key'⟩ := (rep.times second.1 second.2).mp (Table.get_eq_some.mpr two)
    rw [same, held'] at held
    cases held
    rw [← key, ← key'] at less
    exact absurd less (lt_irrefl _)
  refine (perm_ext_iff_of_nodup distinct (store.clips.keys_ordered.imp ne_of_lt)).mpr fun uuid => ?_
  rw [Table.mem_keys, rep.clips_isSome, Option.isSome_iff_exists, mem_map]
  constructor
  · rintro ⟨entry, mem, rfl⟩
    obtain ⟨item, held, -⟩ := (rep.times entry.1 entry.2).mp (Table.get_eq_some.mpr mem)
    exact ⟨item, held⟩
  · rintro ⟨item, held⟩
    exact ⟨(itemKey item, uuid), Table.get_eq_some.mp ((rep.times _ _).mpr ⟨item, held, rfl⟩), rfl⟩

theorem filters_keys : store.searchFilters.keys = store.byTime.keys := by
  refine Table.keys_congr fun rk => ?_
  rw [Bool.eq_iff_iff, Option.isSome_iff_exists, Option.isSome_iff_exists]
  constructor
  · rintro ⟨filter, found⟩
    obtain ⟨uuid, item, held, key, -⟩ := (rep.filters rk filter).mp found
    exact ⟨uuid, (rep.times rk uuid).mpr ⟨item, held, key⟩⟩
  · rintro ⟨uuid, found⟩
    obtain ⟨item, held, key⟩ := (rep.times rk uuid).mp found
    exact ⟨cipher.filter item, (rep.filters rk _).mpr ⟨uuid, item, held, key, rfl⟩⟩

end

theorem kept_consistent (kept : Kept cipher store history) : Consistent cipher store := by
  have rep := kept.represents
  have stored {uuid : Text} {item : ClipItem} (held : history uuid = some item) : Holds cipher store item :=
    (rep.holds item).mpr (rep.self held)
  refine ⟨times_perm rep, Table.keys_congr fun uuid => ?_, filters_keys rep, fun item holds => ?_, ?_, fun hash => ?_⟩
  · rw [rep.metas, rep.clips_isSome, Option.isSome_map]
  · have held := (rep.holds item).mp holds
    refine ⟨(rep.times _ _).mpr ⟨item, held, rfl⟩, ?_, (rep.filters _ _).mpr ⟨_, item, held, rfl, rfl⟩⟩
    rw [rep.metas, held]
    rfl
  · obtain ⟨items, listed⟩ := listed_exists rep
    refine ⟨items, fun item mem => ?_, ?_, ?_, fun limit small => ?_⟩
    · obtain ⟨uuid, held⟩ := listed.held item mem
      exact stored held
    · rw [listed.ids rep]
      exact times_perm rep
    · have ordered : (items.map itemKey).Pairwise (· < ·) := by
        rw [listed.keys]
        exact store.byTime.keys_ordered
      refine (pairwise_map.mp ordered).imp_of_mem fun {first second} one two before => ?_
      obtain ⟨uuid, held⟩ := listed.held first one
      obtain ⟨other, held'⟩ := listed.held second two
      by_contra later
      have told := kept.told held held' (by omega)
      exact absurd (before.trans (recencyKey_lt told)) (lt_irrefl _)
    · have taken := forall₂_take limit listed
      refine listEntries_all rep taken [] ?_
      have parts := congrArg (fun items => (items.map inlinePayloadBytes).sum) (take_append_drop limit items)
      simp only [map_append, sum_append] at parts
      omega
  · obtain ⟨sound, complete⟩ := @findByHash_held _ cipher _ _ rep hash
    constructor
    · rintro ⟨item, found, equal⟩
      obtain ⟨⟨uuid, held⟩, -⟩ := sound item found
      exact ⟨item, stored held, equal⟩
    · rintro ⟨item, holds, rfl⟩
      obtain ⟨clip, found⟩ := complete (kept.found ((rep.holds item).mp holds))
      exact ⟨clip, found, (sound clip found).2⟩

/-- In a run from the empty store whose transactions keep every hash findable and save times that are told
    apart, the tables agree with the clips all along. -/
theorem stores_consistent (cipher : Cipher ρ) (ready : Bool) {ops : List (Op ρ)}
    (fair : FairRun cipher (.empty ready) ops) : ∀ store ∈ stores cipher (.empty ready) ops, Consistent cipher store := by
  intro store mem
  obtain ⟨history, kept⟩ := stores_kept (kept_empty ready) fair store mem
  exact kept_consistent kept

end

/-- Records that are not encrypted. -/
def plainCipher : Cipher ClipItem where
  encode := .ok
  decodeRecord := fun _ record => .ok record
  unicode := asciiUnicode
  searchTokenHash := fun _ => 0
  readsBack := fun item record written uuid => by rw [← Except.ok.inj written]

def sampleId (c : Char) (digit : c.isDigit = true) : ClipId where
  text := [c]
  held := List.cons_ne_nil c []
  plain := List.forall_mem_singleton.mpr (.inl digit)

def sample (id : ClipId) : ClipItem := ⟨id, some ['x'], none, none, none, [], ['x'], ['h'], ⟨0, epoch_small⟩⟩

theorem isDigit_one : '1'.isDigit = true := rfl
theorem isDigit_two : '2'.isDigit = true := rfl
theorem isDigit_three : '3'.isDigit = true := rfl

def firstSample : ClipItem := sample (sampleId '1' isDigit_one)
def secondSample : ClipItem := sample (sampleId '2' isDigit_two)

/-- The store after a clip was saved and deleted. -/
theorem stores_consistent_delete :
    Consistent plainCipher ((Op.delete ['1']).next plainCipher ((Op.save firstSample).next plainCipher (.empty true))) := by
  have fair : FairRun plainCipher (.empty true) [.save firstSample, .delete ['1']] := by
    refine ⟨⟨?_, ?_⟩, ?_, trivial⟩
    · rintro other ⟨record, found, -⟩
      cases found
    · rintro old ⟨record, found, -⟩
      cases found
    intro old holds gone owned other ⟨record, found, written⟩ same
    have clips : ((Op.save firstSample).next plainCipher (.empty true)).clips = Table.empty.insert ['1'] firstSample := rfl
    rw [clips, Table.get_insert] at found
    split_ifs at found with own
    · exact own
    · cases found
  exact stores_consistent plainCipher true fair _ (mem_cons_of_mem _ (mem_cons_of_mem _ mem_cons_self))

/-- The store after two clips with one hash were saved and the second was deleted. -/
def collided : ClipTables ClipItem :=
  [Op.save firstSample, .save secondSample, .delete ['2']].foldl (fun store op => op.next plainCipher store) (.empty true)

/-- The first clip is still there, and is not found by its hash. -/
theorem find_after_delete : ¬ ∀ ops : List (Op ClipItem), ∀ store ∈ stores plainCipher (.empty true) ops, Consistent plainCipher store := by
  intro law
  have last : Consistent plainCipher collided := law [.save firstSample, .save secondSample, .delete ['2']] collided
    (mem_cons_of_mem _ (mem_cons_of_mem _ (mem_cons_of_mem _ mem_cons_self)))
  have lost : findByHash plainCipher collided ['h'] = .ok none := rfl
  obtain ⟨item, found, -⟩ := (last.found ['h']).mpr ⟨firstSample, ⟨firstSample, rfl, rfl⟩, rfl⟩
  rw [lost] at found
  cases found

end Ramag.ClipIndex
