import Mathlib.Data.List.Pairwise
import Ramag.RankedLists
import Ramag.ResultMemory

/-!
The shared budget keeps its limit and pushes out no more than it must, as long
as the clock of its uses has not run over.
-/
namespace Ramag.ResultMemory
open DataSyncGate (saturatingAdd)
open RankedLists List

@[simp] theorem bytesOf_nil : bytesOf [] = 0 := rfl

@[simp] theorem bytesOf_cons (entry : BudgetEntry) (entries : List BudgetEntry) :
    bytesOf (entry :: entries) = entry.bytes + bytesOf entries := by
  rw [bytesOf, map_cons, sum_cons, ← bytesOf]

theorem bytesOf_filter_cons (p : BudgetEntry → Bool) (entry : BudgetEntry) (entries : List BudgetEntry) :
    bytesOf ((entry :: entries).filter p) = (if p entry then entry.bytes else 0) + bytesOf (entries.filter p) := by
  rw [filter_cons]
  split
  · rw [bytesOf_cons]
  · rw [Nat.zero_add]

theorem bytesOf_filter_le (p : BudgetEntry → Bool) (entries : List BudgetEntry) : bytesOf (entries.filter p) ≤ bytesOf entries := by
  induction entries with
  | nil => exact Nat.le_refl 0
  | cons entry entries ih =>
    rw [bytesOf_filter_cons, bytesOf_cons]
    split <;> omega

theorem bytesOf_append (front back : List BudgetEntry) : bytesOf (front ++ back) = bytesOf front + bytesOf back := by
  rw [bytesOf, map_append, sum_append, ← bytesOf, ← bytesOf]

theorem bytesOf_prefix {part whole : List BudgetEntry} (begins : part <+: whole) : bytesOf part ≤ bytesOf whole := by
  obtain ⟨rest, rfl⟩ := begins
  rw [bytesOf_append]
  exact Nat.le_add_right _ _

theorem totalBytes_eq (entries : List BudgetEntry) : totalBytes entries = min (bytesOf entries) (2 ^ 64 - 1) := by
  have from' : ∀ total ≤ 2 ^ 64 - 1, entries.foldl (fun total entry => saturatingAdd total entry.bytes) total =
      min (total + bytesOf entries) (2 ^ 64 - 1) := by
    induction entries with
    | nil =>
      intro total small
      exact (Nat.min_eq_left small).symm
    | cons entry entries ih =>
      intro total small
      rw [foldl_cons, saturatingAdd, ih _ (Nat.min_le_right _ _), bytesOf_cons]
      omega
  have whole := from' 0 (Nat.zero_le _)
  rwa [Nat.zero_add] at whole

variable {entries : List BudgetEntry}

theorem totalBytes_le : totalBytes entries ≤ MAX_GLOBAL_RESULT_BYTES ↔ bytesOf entries ≤ MAX_GLOBAL_RESULT_BYTES := by
  have limit : MAX_GLOBAL_RESULT_BYTES < 2 ^ 64 - 1 := by decide
  rw [totalBytes_eq]
  omega

variable {entries : List BudgetEntry}

theorem totalBytes_of_le (fits : bytesOf entries ≤ MAX_GLOBAL_RESULT_BYTES) : totalBytes entries = bytesOf entries := by
  have limit : MAX_GLOBAL_RESULT_BYTES < 2 ^ 64 - 1 := by decide
  rw [totalBytes_eq]
  omega

/-- No two entries have one id. -/
def Distinct (entries : List BudgetEntry) : Prop := (entries.map BudgetEntry.id).Nodup

theorem Distinct.same (distinct : Distinct entries) {a b : BudgetEntry} (inA : a ∈ entries)
    (inB : b ∈ entries) (ids : a.id = b.id) : a = b := inj_on_of_nodup_map distinct inA inB ids

/-- The change of all entries with the id. -/
def changeAll (id : Nat) (change : BudgetEntry → BudgetEntry) (entries : List BudgetEntry) : List BudgetEntry :=
  entries.map fun entry => if entry.id = id then change entry else entry

variable {change : BudgetEntry → BudgetEntry}

variable {id : Nat}

theorem changeAll_absent (absent : ∀ entry ∈ entries, entry.id ≠ id) : changeAll id change entries = entries := by
  refine (map_congr_left fun entry mem => ?_).trans (map_id entries)
  rw [if_neg (absent entry mem)]
  rfl

theorem changeEntry_eq (distinct : Distinct entries) : changeEntry id change entries = changeAll id change entries := by
  induction entries with
  | nil => rfl
  | cons entry entries ih =>
    obtain ⟨apart, rest⟩ := nodup_cons.mp distinct
    rw [changeEntry, changeAll, map_cons, ← changeAll]
    split_ifs with here
    · rw [changeAll_absent]
      intro other mem same
      exact apart (mem_map.mpr ⟨other, mem, same.trans here.symm⟩)
    · rw [ih rest]

variable {entry : BudgetEntry}

theorem modify_eq {index : Nat} (distinct : Distinct entries) (there : entries[index]? = some entry) :
    entries.modify index change = changeAll entry.id change entries := by
  refine ext_getElem? fun i => ?_
  rw [getElem?_modify, changeAll, getElem?_map]
  cases found : entries[i]? with
  | none => rfl
  | some other =>
    refine congrArg some ?_
    show (if index = i then change other else other) = if other.id = entry.id then change other else other
    by_cases here : index = i
    · obtain rfl := here
      obtain rfl := Option.some_inj.mp (there.symm.trans found)
      rw [if_pos rfl, if_pos rfl]
    have apart : other.id ≠ entry.id := by
      intro same
      have equal := distinct.same (List.mem_of_getElem? found) (List.mem_of_getElem? there) same
      obtain ⟨inside, value⟩ := List.getElem?_eq_some_iff.mp there
      obtain ⟨inside', value'⟩ := List.getElem?_eq_some_iff.mp found
      have nodup : entries.Nodup := List.Nodup.of_map _ distinct
      exact here ((List.Nodup.getElem_inj_iff nodup).mp (value.trans (equal.symm.trans value'.symm)))
    rw [if_neg here, if_neg apart]

theorem changeAll_ids (kept : ∀ entry, (change entry).id = entry.id)
    (entries : List BudgetEntry) : (changeAll id change entries).map BudgetEntry.id = entries.map BudgetEntry.id := by
  rw [changeAll, map_map]
  refine map_congr_left fun entry _ => ?_
  show (if entry.id = id then change entry else entry).id = entry.id
  split
  · exact kept entry
  · rfl

theorem bytesOf_evicted (distinct : Distinct entries) (mem : entry ∈ entries) :
    bytesOf (changeAll entry.id BudgetEntry.evicted entries) + entry.bytes = bytesOf entries := by
  induction entries with
  | nil => cases mem
  | cons first entries ih =>
    obtain ⟨apart, rest⟩ := nodup_cons.mp distinct
    rw [changeAll, map_cons, ← changeAll, bytesOf_cons, bytesOf_cons]
    rcases mem_cons.mp mem with rfl | later
    · rw [if_pos rfl, changeAll_absent]
      · show 0 + _ + _ = _
        omega
      · intro other mem same
        exact apart (mem_map.mpr ⟨other, mem, same⟩)
    · have other : first.id ≠ entry.id := fun same => apart (mem_map.mpr ⟨entry, later, same.symm⟩)
      rw [if_neg other]
      have := ih rest later
      omega

/-- What is left when these are pushed out. -/
def without (ids : List Nat) (entries : List BudgetEntry) : List BudgetEntry :=
  entries.map fun entry => if entry.id ∈ ids then entry.evicted else entry

theorem without_nil (entries : List BudgetEntry) : without [] entries = entries := by
  refine (map_congr_left fun entry _ => ?_).trans (map_id entries)
  rfl

theorem without_cons (id : Nat) (ids : List Nat) (entries : List BudgetEntry) :
    without ids (changeAll id BudgetEntry.evicted entries) = without (id :: ids) entries := by
  rw [without, changeAll, map_map]
  refine map_congr_left fun entry _ => ?_
  rw [Function.comp_apply]
  by_cases here : entry.id = id
  · rw [if_pos here, if_pos (mem_cons.mpr (Or.inl here))]
    split <;> rfl
  rw [if_neg here]
  by_cases later : entry.id ∈ ids
  · rw [if_pos later, if_pos (mem_cons_of_mem _ later)]
  · rw [if_neg later, if_neg fun mem => (mem_cons.mp mem).elim here later]

variable {spare : List BudgetEntry}

theorem evictLoop_spec {places : List (Nat × Nat)} (distinct : Distinct entries)
    (there : List.Forall₂ (fun entry place => entries[place.2]? = some entry) spare places) (apart : Distinct spare) :
    ∃ out, Shortest (bytesOf entries) spare out ∧ (evictLoop places entries).1 = out.map BudgetEntry.id ∧
      (evictLoop places entries).2 = without (out.map BudgetEntry.id) entries ∧
      bytesOf (evictLoop places entries).2 + bytesOf out = bytesOf entries := by
  induction spare generalizing places entries with
  | nil =>
    cases there
    exact ⟨[], ⟨prefix_rfl, Or.inr rfl, fun part _ _ => nil_prefix⟩, rfl, (without_nil entries).symm, rfl⟩
  | cons entry spare ih =>
    obtain ⟨place, places, found, rest, rfl⟩ := forall₂_cons_left_iff.mp there
    rw [evictLoop]
    by_cases fits : totalBytes entries ≤ MAX_GLOBAL_RESULT_BYTES
    · rw [if_pos fits]
      exact ⟨[], ⟨ nil_prefix, Or.inl (totalBytes_le.mp fits), fun part _ _ => nil_prefix⟩, rfl, (without_nil entries).symm, rfl⟩
    rw [totalBytes_le] at fits
    obtain ⟨fresh, apart'⟩ := nodup_cons.mp apart
    rw [if_neg (by rw [totalBytes_le]; exact fits), found, modify_eq distinct found]
    have distinct' : Distinct (changeAll entry.id BudgetEntry.evicted entries) := by
      rw [Distinct, changeAll_ids fun entry => (rfl : entry.evicted.id = entry.id)]
      exact distinct
    have there' : List.Forall₂ (fun other place => (changeAll entry.id BudgetEntry.evicted entries)[place.2]? = some other)
        spare places := by
      have others : ∀ other ∈ spare, other.id ≠ entry.id := fun other mem same => fresh (mem_map.mpr ⟨other, mem, same⟩)
      refine ((forall₂_and_left _ _).mpr ⟨others, rest⟩).imp fun other place ⟨apart, here⟩ => ?_
      rw [changeAll, getElem?_map, here, Option.map_some, if_neg apart]
    have freed := bytesOf_evicted distinct (List.mem_of_getElem? found)
    obtain ⟨out, ⟨first, enough, least⟩, callbacks, left, sum⟩ := ih distinct' there' apart'
    refine ⟨entry :: out, ⟨cons_prefix_cons.mpr ⟨rfl, first⟩, ?_, ?_⟩, ?_, ?_, ?_⟩
    · rw [bytesOf_cons]
      rcases enough with enough | all
      · exact Or.inl (by omega)
      · exact Or.inr (by rw [all])
    · intro part begins fits'
      cases part with
      | nil => exact absurd fits' fits
      | cons head part =>
        obtain ⟨rfl, begins'⟩ := cons_prefix_cons.mp begins
        rw [bytesOf_cons] at fits'
        exact cons_prefix_cons.mpr ⟨rfl, least part begins' (by omega)⟩
    · rw [map_cons, ← callbacks]
    · rw [map_cons, ← without_cons, ← left]
    · rw [bytesOf_cons]
      dsimp only
      omega

theorem mem_candidates {place : Nat × Nat} :
    place ∈ candidates id entries ↔ ∃ entry, entries[place.2]? = some entry ∧ entry.spare id = true ∧ place.1 = entry.lastUsed := by
  rw [candidates, mem_insertionSort, mem_map]
  constructor
  · rintro ⟨⟨entry, index⟩, mem, rfl⟩
    obtain ⟨there, spare⟩ := mem_filter.mp mem
    exact ⟨entry, mem_zipIdx_iff_getElem?.mp there, spare, rfl⟩
  · rintro ⟨entry, there, spare, used⟩
    exact ⟨(entry, place.2), mem_filter.mpr ⟨mem_zipIdx_iff_getElem?.mpr there, spare⟩, Prod.ext used.symm rfl⟩

theorem candidates_ranked (id : Nat) (apart : entries.Pairwise fun a b => a.lastUsed ≠ b.lastUsed) :
    Ranked Prod.fst (candidates id entries) := by
  have places : (entries.zipIdx.map Prod.fst).Pairwise fun a b => a.lastUsed ≠ b.lastUsed := by rwa [zipIdx_map_fst]
  have zipped : entries.zipIdx.Pairwise fun a b => a.1.lastUsed ≠ b.1.lastUsed := by rwa [pairwise_map] at places
  exact ranked_insertionSort (pairwise_map.mpr (zipped.filter _))

theorem candidates_spare (apart : entries.Pairwise fun a b => a.lastUsed ≠ b.lastUsed) (ranked : Ranked BudgetEntry.lastUsed spare)
    (members : ∀ entry, entry ∈ spare ↔ entry ∈ entries ∧ entry.spare id = true) :
    List.Forall₂ (fun entry place => entries[place.2]? = some entry) spare (candidates id entries) := by
  have read : ∀ place ∈ candidates id entries, (entries[place.2]?).map BudgetEntry.lastUsed = some place.1 := by
    intro place mem
    obtain ⟨entry, there, -, used⟩ := mem_candidates.mp mem
    rw [there, Option.map_some, used]
  have all : ∀ places : List (Nat × Nat), (∀ place ∈ places, (entries[place.2]?).map BudgetEntry.lastUsed = some place.1) →
      List.Forall₂ (fun entry place => entries[place.2]? = some entry) (places.filterMap fun place => entries[place.2]?) places ∧
      (places.filterMap fun place => entries[place.2]?).map BudgetEntry.lastUsed = places.map Prod.fst := by
    intro places read
    induction places with
    | nil => exact ⟨.nil, rfl⟩
    | cons place places ih =>
      obtain ⟨entry, there, used⟩ := Option.map_eq_some_iff.mp (read place mem_cons_self)
      obtain ⟨rest, keys⟩ := ih fun other mem => read other (mem_cons_of_mem place mem)
      have step : (place :: places).filterMap (fun place => entries[place.2]?) =
          entry :: places.filterMap fun place => entries[place.2]? := filterMap_cons_some there
      rw [step]
      exact ⟨.cons there rest, by rw [map_cons, map_cons, keys, used]⟩
  obtain ⟨found, keys⟩ := all _ read
  have ordered : Ranked BudgetEntry.lastUsed ((candidates id entries).filterMap fun place => entries[place.2]?) := by
    have sorted := pairwise_map.mpr (candidates_ranked id apart)
    rw [← keys] at sorted
    exact pairwise_map.mp sorted
  rwa [ordered.unique ranked] at found
  intro entry
  rw [members, mem_filterMap]
  constructor
  · rintro ⟨place, mem, there⟩
    obtain ⟨entry', there', spare, -⟩ := mem_candidates.mp mem
    obtain rfl := Option.some_inj.mp (there'.symm.trans there)
    exact ⟨List.mem_of_getElem? there, spare⟩
  · rintro ⟨mem, spare⟩
    obtain ⟨index, there⟩ := mem_iff_getElem?.mp mem
    exact ⟨(entry.lastUsed, index), mem_candidates.mpr ⟨entry, there, spare, rfl⟩, there⟩

/-- The result `i` was used before the result `j`. -/
def Before (entries : List BudgetEntry) (i j : Nat) : Prop :=
  ∀ a ∈ entries, ∀ b ∈ entries, a.id = i → b.id = j → a.lastUsed < b.lastUsed

/-- What every step keeps while the clock does not run over. -/
structure Sound (run : Run) : Prop where
  distinct : Distinct run.state.entries
  numbered : ∀ entry ∈ run.state.entries, entry.id ≤ run.state.nextId
  clocked : ∀ entry ∈ run.state.entries, entry.lastUsed ≤ run.state.clock
  known : ∀ id, id ∈ run.recency ↔ ∃ entry ∈ run.state.entries, entry.id = id
  once : run.recency.Nodup
  order : run.recency.Pairwise (Before run.state.entries)
  fits : bytesOf run.state.entries ≤ MAX_GLOBAL_RESULT_BYTES
  held : ∀ entry ∈ run.state.entries, entry.bytes = run.held entry.id

variable {run : Run}

theorem known_iff : run.known id = true ↔ ∃ entry ∈ run.state.entries, entry.id = id := by
  rw [Run.known, any_eq_true]
  simp

/-- Two results differ in their last use. -/
def UsedApart (entries : List BudgetEntry) (i j : Nat) : Prop :=
  ∀ a ∈ entries, ∀ b ∈ entries, a.id = i → b.id = j → a.lastUsed ≠ b.lastUsed

instance (entries : List BudgetEntry) : Std.Symm (UsedApart entries) where
  symm _ _ apart a inA b inB idA idB := (apart b inB a inA idB idA).symm

theorem Sound.apart (sound : Sound run) : run.state.entries.Pairwise fun a b => a.lastUsed ≠ b.lastUsed := by
  have ordered : run.recency.Pairwise (UsedApart run.state.entries) :=
    sound.order.imp fun before a inA b inB idA idB => (before a inA b inB idA idB).ne
  refine (List.Nodup.of_map _ sound.distinct).pairwise_of_forall_ne fun a inA b inB other => ?_
  have ids : a.id ≠ b.id := fun equal => other (sound.distinct.same inA inB equal)
  have known (entry : BudgetEntry) (mem : entry ∈ run.state.entries) : entry.id ∈ run.recency := (sound.known _).mpr ⟨entry, mem, rfl⟩
  exact ordered.forall (known a inA) (known b inB) ids a inA b inB rfl rfl

theorem entry_eq (sound : Sound run) : run.entry id = some entry ↔ entry ∈ run.state.entries ∧ entry.id = id := by
  have here {other : BudgetEntry} (found : run.entry id = some other) : other ∈ run.state.entries ∧ other.id = id := by
    have same := find?_some found
    exact ⟨mem_of_find?_eq_some found, of_decide_eq_true same⟩
  constructor
  · exact here
  rintro ⟨mem, same⟩
  cases found : run.entry id with
  | none => exact absurd (decide_eq_true same) (find?_eq_none.mp found entry mem)
  | some other =>
    obtain ⟨there, same'⟩ := here found
    rw [sound.distinct.same there mem (same'.trans same.symm)]

theorem mem_spare (sound : Sound run) : entry ∈ run.spare id ↔ entry ∈ run.state.entries ∧ entry.spare id = true := by
  rw [Run.spare, mem_filter, mem_filterMap]
  refine and_congr_left fun _ => ?_
  constructor
  · rintro ⟨other, -, found⟩
    exact ((entry_eq sound).mp found).1
  · intro mem
    exact ⟨entry.id, (sound.known _).mpr ⟨entry, mem, rfl⟩, (entry_eq sound).mpr ⟨mem, rfl⟩⟩

theorem spare_ranked (sound : Sound run) (id : Nat) : Ranked BudgetEntry.lastUsed (run.spare id) := by
  refine List.Pairwise.filter _ (pairwise_filterMap.mpr (sound.order.imp ?_))
  intro i j before a foundA b foundB
  obtain ⟨inA, idA⟩ := (entry_eq sound).mp foundA
  obtain ⟨inB, idB⟩ := (entry_eq sound).mp foundB
  exact before a inA b inB idA idB

/-- The entries after a report, before anything is pushed out. -/
def reported (clock id bytes : Nat) (entries : List BudgetEntry) : List BudgetEntry :=
  changeAll id (fun entry => { entry with bytes, lastUsed := clock }) entries

def cleaned (id : Nat) (entries : List BudgetEntry) : List Nat × List BudgetEntry :=
  if MAX_GLOBAL_RESULT_BYTES < totalBytes entries then evictLoop (candidates id entries) entries else ([], entries)

variable {clock bytes : Nat}

theorem mem_reported (other : entry.id ≠ id) : entry ∈ reported clock id bytes entries ↔ entry ∈ entries := by
  rw [reported, changeAll, mem_map]
  constructor
  · rintro ⟨before, mem, rfl⟩
    by_cases here : before.id = id
    · rw [if_pos here] at other
      exact absurd here other
    · rwa [if_neg here]
  · intro mem
    exact ⟨entry, mem, if_neg other⟩

theorem reported_distinct (distinct : Distinct entries) (clock id bytes : Nat) : Distinct (reported clock id bytes entries) := by
  have ids : (reported clock id bytes entries).map BudgetEntry.id = entries.map BudgetEntry.id :=
    changeAll_ids (fun entry => (rfl : ({ entry with bytes, lastUsed := clock } : BudgetEntry).id = entry.id)) entries
  rw [Distinct, ids]
  exact distinct

theorem bytesOf_reported (distinct : Distinct entries) (known : ∃ entry ∈ entries, entry.id = id) (clock bytes : Nat) :
    bytesOf (reported clock id bytes entries) = bytesOf (entries.filter fun entry => entry.id ≠ id) + bytes := by
  have absent (entries : List BudgetEntry) (apart : ∀ entry ∈ entries, entry.id ≠ id) :
      entries.filter (fun entry => entry.id ≠ id) = entries := filter_eq_self.mpr fun entry mem => by
    simpa using apart entry mem
  induction entries with
  | nil =>
    obtain ⟨entry, mem, -⟩ := known
    cases mem
  | cons first entries ih =>
    obtain ⟨apart, rest⟩ := nodup_cons.mp distinct
    rw [reported, changeAll, map_cons, ← changeAll, bytesOf_cons]
    by_cases here : first.id = id
    · have others : ∀ entry ∈ entries, entry.id ≠ id := by
        intro entry mem same
        exact apart (mem_map.mpr ⟨entry, mem, same.trans here.symm⟩)
      rw [if_pos here, changeAll_absent others, filter_cons_of_neg (by simpa using here), absent entries others]
      show bytes + _ = _
      omega
    · obtain ⟨entry, mem, same⟩ := known
      have later : entry ∈ entries := by
        rcases mem_cons.mp mem with rfl | later
        · exact absurd same here
        · exact later
      have sum := ih rest ⟨entry, later, same⟩
      rw [reported] at sum
      rw [if_neg here, filter_cons_of_pos (by simpa using here), bytesOf_cons, sum]
      omega

theorem Sound.reported_apart (sound : Sound run) (later : run.state.clock < clock) :
    (reported clock id bytes run.state.entries).Pairwise fun a b => a.lastUsed ≠ b.lastUsed := by
  have ids : run.state.entries.Pairwise fun a b => a.id ≠ b.id := pairwise_map.mp sound.distinct
  rw [reported, changeAll, pairwise_map]
  refine (ids.and sound.apart).imp_of_mem fun {a b} inA inB ⟨apart, used⟩ => ?_
  have beforeA := sound.clocked a inA
  have beforeB := sound.clocked b inB
  by_cases here : a.id = id
  · have other : b.id ≠ id := fun same => apart (here.trans same.symm)
    rw [if_pos here, if_neg other]
    show clock ≠ b.lastUsed
    omega
  rw [if_neg here]
  by_cases other : b.id = id
  · rw [if_pos other]
    show a.lastUsed ≠ clock
    omega
  · rwa [if_neg other]

theorem spare_ne (spare : entry.spare id = true) : entry.id ≠ id := by
  simp only [BudgetEntry.spare, Bool.and_eq_true, bne_iff_ne] at spare
  exact spare.1.1

theorem Sound.spare_distinct (sound : Sound run) (id : Nat) : Distinct (run.spare id) := by
  have nodup : (run.spare id).Nodup := (spare_ranked sound id).imp fun {a b} less same => by
    rw [same] at less
    exact lt_irrefl _ less
  refine nodup.map_on fun a inA b inB same => ?_
  exact sound.distinct.same ((mem_spare sound).mp inA).1 ((mem_spare sound).mp inB).1 same

theorem cleaned_spec (sound : Sound run) (later : run.state.clock < clock) (id bytes : Nat) :
    ∃ out, Shortest (bytesOf (reported clock id bytes run.state.entries)) (run.spare id) out ∧
      (cleaned id (reported clock id bytes run.state.entries)).1 = out.map BudgetEntry.id ∧
      (cleaned id (reported clock id bytes run.state.entries)).2 =
        without (out.map BudgetEntry.id) (reported clock id bytes run.state.entries) ∧
      bytesOf (cleaned id (reported clock id bytes run.state.entries)).2 + bytesOf out =
        bytesOf (reported clock id bytes run.state.entries) := by
  rw [cleaned]
  split_ifs with fits
  · refine evictLoop_spec (reported_distinct sound.distinct clock id bytes) ?_ (sound.spare_distinct id)
    refine candidates_spare (sound.reported_apart later) (spare_ranked sound id) fun entry => ?_
    rw [mem_spare sound]
    refine and_congr_left fun spare => (mem_reported (spare_ne spare)).symm
  · have fits' := totalBytes_le.mp (not_lt.mp fits)
    exact ⟨[], ⟨ nil_prefix, Or.inl fits', fun _ _ _ => nil_prefix⟩, rfl, (without_nil _).symm, rfl⟩

theorem updateEntry_unknown {state : BudgetState} (unknown : ∀ entry ∈ state.entries, entry.id ≠ id) (bytes : Nat) :
    state.updateEntry id bytes = ([], {}, state.tick) := by
  have none : state.tick.entries.findIdx? (·.id = id) = none :=
    findIdx?_eq_none_iff.mpr fun entry mem => by simpa using unknown entry mem
  rw [BudgetState.updateEntry]
  rw [none]

theorem updateEntry_known {state : BudgetState} (distinct : Distinct state.entries)
    (known : ∃ entry ∈ state.entries, entry.id = id) (bytes : Nat) : ∃ entry index, state.entries[index]? = some entry ∧ entry.id = id ∧
      let changed := reported state.tick.clock id bytes state.entries
      let (callbacks, entries) := cleaned id changed
      let currentEvicted := decide (MAX_GLOBAL_RESULT_BYTES < totalBytes entries) && entries[index]?.any fun entry => 0 < entry.bytes
      let left := if currentEvicted then entries.modify index BudgetEntry.evicted else entries
      state.updateEntry id bytes = (callbacks, {
        warning := decide (GLOBAL_RESULT_WARNING_BYTES ≤ totalBytes changed)
        currentEvicted
        evictedResults := callbacks.length
        totalBytes := totalBytes left }, { state.tick with entries := left }) := by
  obtain ⟨entry, mem, same⟩ := known
  have isSome : (state.entries.findIdx? (·.id = id)).isSome := by
    rw [findIdx?_isSome, any_eq_true]
    exact ⟨entry, mem, by simpa using same⟩
  obtain ⟨index, found⟩ := Option.isSome_iff_exists.mp isSome
  obtain ⟨inside, here, -⟩ := findIdx?_eq_some_iff_getElem.mp found
  have there := getElem?_eq_getElem inside
  have same' : state.entries[index].id = id := of_decide_eq_true here
  have changed : (state.entries.modify index fun entry => { entry with bytes, lastUsed := state.tick.clock }) =
      reported state.tick.clock id bytes state.entries := by
    rw [modify_eq distinct there, same', reported]
  refine ⟨_, index, there, same', ?_⟩
  rw [BudgetState.updateEntry]
  rw [show state.tick.entries.findIdx? (·.id = id) = some index from found]
  dsimp only
  rw [show state.tick.entries = state.entries from rfl, changed]
  rfl

theorem bytesOf_others (sound : Sound run) (id : Nat) :
    bytesOf (run.others id) = bytesOf ((run.others id).filter fun entry => entry.active) + bytesOf (run.spare id) := by
  have perm : (run.spare id).Perm (run.state.entries.filter fun entry => entry.spare id) := by
    refine (perm_ext_iff_of_nodup (List.Nodup.of_map _ (sound.spare_distinct id))
      ((List.Nodup.of_map _ sound.distinct).filter _)).mpr fun entry => ?_
    rw [mem_spare sound, mem_filter]
  have same : bytesOf (run.spare id) = bytesOf (run.state.entries.filter fun entry => entry.spare id) :=
    (perm.map BudgetEntry.bytes).sum_nat
  rw [same, Run.others]
  simp only [ne_eq]
  generalize run.state.entries = entries
  induction entries with
  | nil => rfl
  | cons entry entries ih =>
    rw [bytesOf_filter_cons (fun entry => entry.spare id), bytesOf_filter_cons, filter_cons]
    by_cases here : entry.id = id
    · have kept : entry.spare id = false := by simp [BudgetEntry.spare, here]
      simp only [here, kept, not_true_eq_false, decide_false, Bool.false_eq_true, if_false]
      omega
    simp only [here, not_false_eq_true, decide_true, if_true]
    rw [bytesOf_filter_cons fun entry => entry.active]
    by_cases active : entry.active = true
    · have kept : entry.spare id = false := by simp [BudgetEntry.spare, active]
      rw [if_pos active, kept, if_neg Bool.false_ne_true]
      omega
    rw [if_neg active]
    by_cases holds : 0 < entry.bytes
    · have spare : entry.spare id = true := by simp [BudgetEntry.spare, here, active, holds]
      rw [if_pos spare]
      omega
    · have kept : entry.spare id = false := by simp [BudgetEntry.spare, holds]
      rw [kept, if_neg Bool.false_ne_true]
      omega

/-- What happens to a result when another one, or itself, reports. -/
def afterReport (clock id bytes : Nat) (out : List BudgetEntry) (refused : Bool) (entry : BudgetEntry) : BudgetEntry :=
  if entry.id = id then { entry with bytes := if refused then 0 else bytes, lastUsed := clock }
  else if entry ∈ out then entry.evicted else entry

theorem afterReport_distinct (distinct : Distinct entries) (clock id bytes : Nat)
    (out : List BudgetEntry) (refused : Bool) : Distinct (entries.map (afterReport clock id bytes out refused)) := by
  have ids : (entries.map (afterReport clock id bytes out refused)).map BudgetEntry.id = entries.map BudgetEntry.id := by
    rw [map_map]
    refine map_congr_left fun other _ => ?_
    rw [Function.comp_apply, afterReport]
    split
    · rfl
    · split <;> rfl
  rw [Distinct, ids]
  exact distinct

theorem left_eq (sound : Sound run) {index : Nat} {out : List BudgetEntry}
    (within : ∀ other ∈ out, other ∈ run.spare id) (there : run.state.entries[index]? = some entry) (same : entry.id = id)
    (clock bytes : Nat) (refused : Bool) :
    (if refused then (without (out.map BudgetEntry.id) (reported clock id bytes run.state.entries)).modify index BudgetEntry.evicted
      else without (out.map BudgetEntry.id) (reported clock id bytes run.state.entries)) =
    run.state.entries.map (afterReport clock id bytes out refused) := by
  have notOut : id ∉ out.map BudgetEntry.id := by
    intro mem
    obtain ⟨other, inside, equal⟩ := mem_map.mp mem
    exact spare_ne ((mem_spare sound).mp (within other inside)).2 equal
  have outIff {other : BudgetEntry} (mem : other ∈ run.state.entries) :
      other.id ∈ out.map BudgetEntry.id ↔ other ∈ out := by
    rw [mem_map]
    constructor
    · rintro ⟨pushed, inside, equal⟩
      have spare := (mem_spare sound).mp (within pushed inside)
      rwa [sound.distinct.same mem spare.1 equal.symm]
    · intro inside
      exact ⟨other, inside, rfl⟩
  have plain : without (out.map BudgetEntry.id) (reported clock id bytes run.state.entries) =
      run.state.entries.map (afterReport clock id bytes out false) := by
    rw [without, reported, changeAll, map_map]
    refine map_congr_left fun other mem => ?_
    rw [Function.comp_apply, afterReport]
    by_cases here : other.id = id
    · rw [if_pos here, if_pos here, if_neg (by rw [show _ = other.id from rfl, here]; exact notOut)]
      rfl
    · rw [if_neg here, if_neg here]
      simp only [outIff mem]
  cases refused with
  | false => exact plain
  | true =>
    have distinct := afterReport_distinct sound.distinct clock id bytes out false
    have here : (run.state.entries.map (afterReport clock id bytes out false))[index]? =
        some (afterReport clock id bytes out false entry) := by rw [getElem?_map, there, Option.map_some]
    have kept : (afterReport clock id bytes out false entry).id = id := by
      rw [afterReport, if_pos same]
      exact same
    rw [if_pos rfl, plain, modify_eq distinct here, kept, changeAll, map_map]
    refine map_congr_left fun other _ => ?_
    rw [Function.comp_apply, afterReport, afterReport]
    by_cases mine : other.id = id
    · rw [if_pos mine, if_pos mine, if_pos (show _ = id from mine)]
      rfl
    rw [if_neg mine, if_neg mine]
    split
    · exact if_neg mine
    · rfl

theorem updated (sound : Sound run) (known : run.known id = true) (later : run.state.clock < run.state.tick.clock) (bytes : Nat) :
    ∃ out, Updated run id bytes out ∧ bytesOf (run.state.updateEntry id bytes).2.2.entries ≤ MAX_GLOBAL_RESULT_BYTES := by
  obtain ⟨entry, index, there, same, outcome⟩ := updateEntry_known sound.distinct (known_iff.mp known) bytes
  obtain ⟨out, shortest, callbacks, left, freed⟩ := cleaned_spec sound later id bytes
  have total := bytesOf_reported sound.distinct (known_iff.mp known) run.state.tick.clock bytes
  rw [← Run.others] at total
  rw [total] at shortest freed
  have within : ∀ other ∈ out, other ∈ run.spare id := fun other mem => shortest.first.subset mem
  have others := bytesOf_others sound id
  have activeFit : bytesOf ((run.others id).filter fun entry => entry.active) ≤ MAX_GLOBAL_RESULT_BYTES :=
    ((bytesOf_filter_le _ _).trans (bytesOf_filter_le _ _)).trans sound.fits
  have part := bytesOf_prefix shortest.first
  have leftAre := left_eq sound within there same run.state.tick.clock bytes
  dsimp only at outcome
  rw [callbacks, left] at outcome
  rw [left] at freed
  have current : (without (out.map BudgetEntry.id) (reported run.state.tick.clock id bytes run.state.entries))[index]? =
      some { entry with bytes, lastUsed := run.state.tick.clock } := by
    have plain := leftAre false
    rw [if_neg Bool.false_ne_true] at plain
    rw [plain, getElem?_map, there, Option.map_some, afterReport, if_pos same]
    rfl
  generalize without (out.map BudgetEntry.id) (reported run.state.tick.clock id bytes run.state.entries) = kept at *
  rw [current, Option.any_some] at outcome
  -- it is refused exactly when the active others leave no room for it
  have refusedIff : (decide (MAX_GLOBAL_RESULT_BYTES < totalBytes kept) && decide (0 < bytes)) = true ↔
      MAX_GLOBAL_RESULT_BYTES < bytesOf ((run.others id).filter fun entry => entry.active) + bytes := by
    have fits := @totalBytes_le kept
    rw [Bool.and_eq_true, decide_eq_true_eq, decide_eq_true_eq]
    constructor
    · rcases shortest.enough with enough | all
      · omega
      · rw [all] at freed
        omega
    · omega
  generalize decided : (decide (MAX_GLOBAL_RESULT_BYTES < totalBytes kept) && decide (0 < bytes)) = refused at outcome refusedIff
  rw [leftAre refused] at outcome
  have fits : bytesOf (run.state.entries.map (afterReport run.state.tick.clock id bytes out refused)) ≤ MAX_GLOBAL_RESULT_BYTES := by
    rw [← leftAre refused]
    cases refused with
    | false =>
      rw [if_neg Bool.false_ne_true]
      have little := refusedIff.not.mp Bool.false_ne_true
      rcases shortest.enough with enough | all
      · omega
      · rw [all] at freed
        omega
    | true =>
      have plain := leftAre false
      rw [if_neg Bool.false_ne_true] at plain
      have distinct : Distinct kept := plain ▸ afterReport_distinct sound.distinct _ _ _ _ _
      have freed' := bytesOf_evicted distinct (List.mem_of_getElem? current)
      rw [if_pos rfl, modify_eq distinct current]
      rcases shortest.enough with enough | all
      · omega
      · rw [all] at freed
        dsimp only at freed' ⊢
        omega
  refine ⟨out, ⟨shortest, ?_, ?_, ?_, ?_, ?_, ?_⟩, ?_⟩
  · rw [outcome]
  · exact (sound.spare_distinct id).sublist (shortest.first.sublist.map BudgetEntry.id)
  · rw [outcome, length_map]
  · rw [outcome]
    exact refusedIff
  · rw [outcome]
    rfl
  · rw [outcome]
    exact totalBytes_of_le fits
  · rw [outcome]
    exact fits

/-! ### Every step keeps it -/

variable {recency : List Nat}

theorem mem_use {i : Nat} : i ∈ use id recency ↔ i = id ∨ i ∈ recency := by
  rw [use, mem_append, mem_singleton, mem_filter, decide_eq_true_eq]
  by_cases here : i = id <;> simp [here]

theorem use_nodup (once : recency.Nodup) : (use id recency).Nodup := by
  rw [use, nodup_append]
  refine ⟨once.filter _, nodup_singleton id, fun a inA b inB => ?_⟩
  obtain ⟨-, other⟩ := mem_filter.mp inA
  rw [mem_singleton.mp inB]
  exact of_decide_eq_true other

/-- The entry was there with this last use. -/
def Was (old : List BudgetEntry) (entry : BudgetEntry) : Prop :=
  ∃ before ∈ old, before.id = entry.id ∧ before.lastUsed = entry.lastUsed

variable {old new : List BudgetEntry}

theorem order_kept (order : recency.Pairwise (Before old)) (were : ∀ entry ∈ new, Was old entry) : recency.Pairwise (Before new) := by
  refine order.imp fun {i j} before a inA b inB idA idB => ?_
  obtain ⟨a', inA', sameA, usedA⟩ := were a inA
  obtain ⟨b', inB', sameB, usedB⟩ := were b inB
  have less := before a' inA' b' inB' (sameA.trans idA) (sameB.trans idB)
  omega

theorem order_used (order : recency.Pairwise (Before old))
    (clocked : ∀ entry ∈ old, entry.lastUsed ≤ clock) (others : ∀ entry ∈ new, entry.id ≠ id → Was old entry)
    (mine : ∀ entry ∈ new, entry.id = id → clock < entry.lastUsed) : (use id recency).Pairwise (Before new) := by
  rw [use, pairwise_append]
  refine ⟨?_, pairwise_singleton _ _, ?_⟩
  · refine (order.filter _).imp_of_mem fun {i j} inI inJ before a inA b inB idA idB => ?_
    have apartI : i ≠ id := of_decide_eq_true (mem_filter.mp inI).2
    have apartJ : j ≠ id := of_decide_eq_true (mem_filter.mp inJ).2
    obtain ⟨a', inA', sameA, usedA⟩ := others a inA (by rwa [idA])
    obtain ⟨b', inB', sameB, usedB⟩ := others b inB (by rwa [idB])
    have less := before a' inA' b' inB' (sameA.trans idA) (sameB.trans idB)
    omega
  · intro i inI j inJ a inA b inB idA idB
    have apart : i ≠ id := of_decide_eq_true (mem_filter.mp inI).2
    obtain ⟨a', inA', sameA, usedA⟩ := others a inA (by rwa [idA])
    have early := clocked a' inA'
    have late := mine b inB (idB.trans (mem_singleton.mp inJ))
    omega

theorem known_of_ids (known : ∀ id, id ∈ recency ↔ ∃ entry ∈ old, entry.id = id)
    (ids : new.map BudgetEntry.id = old.map BudgetEntry.id) (id : Nat) : id ∈ recency ↔ ∃ entry ∈ new, entry.id = id := by
  rw [known, ← mem_map, ← mem_map, ids]

theorem held_cons (event : Event) (state : BudgetState) (recency : List Nat) (events : List Event) (id : Nat) :
    ({ state, recency, events := event :: events } : Run).held id =
      if event.id = id then
        match event with
        | .reported _ bytes => bytes
        | .evicted _ => 0
      else ({ state, recency, events } : Run).held id := by
  rw [Run.held, find?_cons]
  by_cases here : event.id = id
  · rw [decide_eq_true here, if_pos here]
    cases event <;> rfl
  · rw [decide_eq_false here, if_neg here]
    rfl

theorem held_evictions (ids : List Nat) (state : BudgetState) (recency : List Nat) (events : List Event) (id : Nat) :
    ({ state, recency, events := ids.map Event.evicted ++ events } : Run).held id =
      if id ∈ ids then 0 else ({ state, recency, events } : Run).held id := by
  induction ids with
  | nil => rfl
  | cons evicted ids ih =>
    rw [map_cons, cons_append, held_cons, ih]
    by_cases here : evicted = id
    · rw [if_pos (show (Event.evicted evicted).id = id from here), if_pos (mem_cons.mpr (Or.inl here.symm))]
    · have iff : id ∈ evicted :: ids ↔ id ∈ ids := by simp [Ne.symm here]
      rw [if_neg (show ¬(Event.evicted evicted).id = id from here)]
      simp [iff]

theorem wrappingNext_eq {n : Nat} (room : n + 1 < 2 ^ 64) : wrappingNext n = n + 1 := by
  rw [wrappingNext, Nat.mod_eq_of_lt room]
  omega

variable {f : BudgetEntry → BudgetEntry}

section
variable (sound : Sound run) (room : run.state.clock + 1 < 2 ^ 64)
include sound room

theorem Sound.mapped {events : List Event} (ids : ∀ entry, (f entry).id = entry.id)
    (uses : ∀ entry ∈ run.state.entries, (f entry).lastUsed = entry.lastUsed ∨ (f entry).lastUsed = run.state.tick.clock)
    (same : ∀ id, id ∈ recency ↔ id ∈ run.recency) (once : recency.Nodup) (order : recency.Pairwise (Before (run.state.entries.map f)))
    (fits : bytesOf (run.state.entries.map f) ≤ MAX_GLOBAL_RESULT_BYTES)
    (held : ∀ entry ∈ run.state.entries, (f entry).bytes = ({ state := run.state, recency, events } : Run).held entry.id) :
    Sound { state := { run.state.tick with entries := run.state.entries.map f }, recency, events } := by
  have clock : run.state.tick.clock = run.state.clock + 1 := wrappingNext_eq room
  have sameIds : (run.state.entries.map f).map BudgetEntry.id = run.state.entries.map BudgetEntry.id := by
    rw [map_map]
    exact map_congr_left fun entry _ => ids entry
  constructor
  · rw [Distinct, sameIds]
    exact sound.distinct
  · intro entry mem
    obtain ⟨before, inside, rfl⟩ := mem_map.mp mem
    rw [ids]
    exact sound.numbered before inside
  · intro entry mem
    obtain ⟨before, inside, rfl⟩ := mem_map.mp mem
    have early := sound.clocked before inside
    show _ ≤ run.state.tick.clock
    rcases uses before inside with kept | used <;> omega
  · intro id
    exact (same id).trans (known_of_ids sound.known sameIds id)
  · exact once
  · exact order
  · exact fits
  · intro entry mem
    obtain ⟨before, inside, rfl⟩ := mem_map.mp mem
    rw [ids]
    exact held before inside

theorem Sound.mapped_use {events : List Event} (known : run.known id = true) (ids : ∀ entry, (f entry).id = entry.id)
    (mine : ∀ entry ∈ run.state.entries, entry.id = id → (f entry).lastUsed = run.state.tick.clock)
    (others : ∀ entry ∈ run.state.entries, entry.id ≠ id → (f entry).lastUsed = entry.lastUsed)
    (fits : bytesOf (run.state.entries.map f) ≤ MAX_GLOBAL_RESULT_BYTES) (held : ∀ entry ∈ run.state.entries,
      (f entry).bytes = ({ state := run.state, recency := use id run.recency, events } : Run).held entry.id) :
    Sound { state := { run.state.tick with entries := run.state.entries.map f }, recency := use id run.recency, events } := by
  have clock : run.state.tick.clock = run.state.clock + 1 := wrappingNext_eq room
  refine sound.mapped room ids ?_ ?_ (use_nodup sound.once) ?_ fits held
  · intro entry mem
    by_cases here : entry.id = id
    · exact Or.inr (mine entry mem here)
    · exact Or.inl (others entry mem here)
  · intro i
    rw [mem_use]
    refine or_iff_right_of_imp fun here => ?_
    rw [here, sound.known]
    exact known_iff.mp known
  · refine order_used sound.order sound.clocked ?_ ?_
    · intro entry mem other
      obtain ⟨before, inside, rfl⟩ := mem_map.mp mem
      rw [ids] at other
      exact ⟨before, inside, (ids before).symm, (others before inside other).symm⟩
    intro entry mem here
    obtain ⟨before, inside, rfl⟩ := mem_map.mp mem
    rw [ids] at here
    rw [mine before inside here, clock]
    exact Nat.lt_succ_self _

theorem Sound.mapped_kept (ids : ∀ entry, (f entry).id = entry.id)
    (kept : ∀ entry ∈ run.state.entries, (f entry).lastUsed = entry.lastUsed ∧ (f entry).bytes = entry.bytes) :
    Sound { run with state := { run.state.tick with entries := run.state.entries.map f } } := by
  refine sound.mapped room ids (fun entry mem => Or.inl (kept entry mem).1) (fun _ => Iff.rfl) sound.once ?_ ?_ ?_
  · refine order_kept sound.order fun entry mem => ?_
    obtain ⟨before, inside, rfl⟩ := mem_map.mp mem
    exact ⟨before, inside, (ids before).symm, (kept before inside).1.symm⟩
  · have bytes : bytesOf (run.state.entries.map f) = bytesOf run.state.entries := by
      rw [bytesOf, map_map, bytesOf]
      exact congrArg List.sum (map_congr_left fun entry mem => (kept entry mem).2)
    rw [bytes]
    exact sound.fits
  · intro entry mem
    rw [(kept entry mem).2]
    exact sound.held entry mem

theorem Sound.register (ids : run.state.nextId + 1 < 2 ^ 64) : Sound (run.step .register) := by
  have clock : run.state.tick.clock = run.state.clock + 1 := wrappingNext_eq room
  have next : wrappingNext run.state.nextId = run.state.nextId + 1 := wrappingNext_eq ids
  have fresh : ∀ entry ∈ run.state.entries, entry.id ≠ run.state.nextId + 1 := by
    intro entry mem
    have := sound.numbered entry mem
    omega
  have after : run.step .register = {
      state := {
        entries := run.state.entries ++ [{ id := run.state.nextId + 1, bytes := 0, active := false, lastUsed := run.state.clock + 1 }]
        nextId := run.state.nextId + 1
        clock := run.state.clock + 1 }
      recency := use (run.state.nextId + 1) run.recency
      events := .reported (run.state.nextId + 1) 0 :: run.events } := by
    rw [← clock, ← next]
    rfl
  rw [after]
  constructor
  · rw [Distinct, map_append, nodup_append]
    refine ⟨sound.distinct, nodup_singleton _, fun i inI j inJ => ?_⟩
    obtain ⟨entry, mem, rfl⟩ := mem_map.mp inI
    rw [mem_singleton.mp inJ]
    exact fresh entry mem
  · intro entry mem
    rcases mem_append.mp mem with before | new
    · exact (sound.numbered entry before).trans (Nat.le_succ _)
    · rw [mem_singleton.mp new]
  · intro entry mem
    rcases mem_append.mp mem with before | new
    · exact (sound.clocked entry before).trans (Nat.le_succ _)
    · rw [mem_singleton.mp new]
  · intro id
    rw [mem_use, sound.known]
    simp only [mem_append, mem_singleton, or_and_right, exists_or, exists_eq_left]
    rw [or_comm, eq_comm]
  · exact use_nodup sound.once
  · refine order_used sound.order sound.clocked ?_ ?_
    · intro entry mem other
      rcases mem_append.mp mem with before | new
      · exact ⟨entry, before, rfl, rfl⟩
      · rw [mem_singleton.mp new] at other
        exact absurd rfl other
    · intro entry mem here
      rcases mem_append.mp mem with before | new
      · exact absurd here (fresh entry before)
      · rw [mem_singleton.mp new]
        exact Nat.lt_succ_self _
  · rw [bytesOf_append, bytesOf_cons, bytesOf_nil]
    exact sound.fits
  · intro entry mem
    rw [held_cons]
    rcases mem_append.mp mem with before | new
    · rw [if_neg fun same => fresh entry before same.symm]
      exact sound.held entry before
    · rw [mem_singleton.mp new]
      exact (if_pos rfl).symm

end

theorem Sound.drop (sound : Sound run) (id : Nat) : Sound (run.step (.drop id)) := by
  have were : ∀ entry ∈ run.state.entries.filter fun entry => entry.id ≠ id, entry ∈ run.state.entries :=
    fun entry mem => (mem_filter.mp mem).1
  constructor
  · exact sound.distinct.sublist (filter_sublist.map _)
  · exact fun entry mem => sound.numbered entry (were entry mem)
  · exact fun entry mem => sound.clocked entry (were entry mem)
  · intro i
    show i ∈ run.recency.filter (· ≠ id) ↔ ∃ entry ∈ run.state.entries.filter fun entry => entry.id ≠ id, entry.id = i
    simp only [mem_filter, decide_eq_true_eq, sound.known]
    constructor
    · rintro ⟨⟨entry, mem, rfl⟩, other⟩
      exact ⟨entry, ⟨mem, other⟩, rfl⟩
    · rintro ⟨entry, ⟨mem, other⟩, rfl⟩
      exact ⟨⟨entry, mem, rfl⟩, other⟩
  · exact sound.once.filter _
  · exact order_kept (sound.order.filter _) fun entry mem => ⟨entry, were entry mem, rfl, rfl⟩
  · exact (bytesOf_filter_le _ _).trans sound.fits
  · exact fun entry mem => sound.held entry (were entry mem)

theorem Sound.changed (sound : Sound run) (room : run.state.clock + 1 < 2 ^ 64) (id : Nat) {change : BudgetEntry → BudgetEntry}
    (used : Bool) (ids : ∀ entry, (change entry).id = entry.id) (bytes : ∀ entry, (change entry).bytes = entry.bytes)
    (uses : ∀ entry, (change entry).lastUsed = if used then run.state.tick.clock else entry.lastUsed) : Sound { run with
      state := { run.state.tick with entries := changeEntry id change run.state.entries }
      recency := if used && run.known id then use id run.recency else run.recency } := by
  rw [changeEntry_eq sound.distinct, changeAll]
  have ids' (entry : BudgetEntry) : (if entry.id = id then change entry else entry).id = entry.id := by
    split
    · exact ids entry
    · rfl
  have bytes' (entry : BudgetEntry) : (if entry.id = id then change entry else entry).bytes = entry.bytes := by
    split
    · exact bytes entry
    · rfl
  cases known : used && run.known id with
  | true =>
    obtain ⟨isUsed, isKnown⟩ := Bool.and_eq_true_iff.mp known
    refine sound.mapped_use room isKnown ids' ?_ ?_ ?_ ?_
    · intro entry _ here
      rw [if_pos here, uses, if_pos isUsed]
    · intro entry _ other
      rw [if_neg other]
    · rw [bytesOf, map_map]
      exact (congrArg List.sum (map_congr_left fun entry _ => bytes' entry)).trans_le sound.fits
    · intro entry mem
      rw [bytes']
      exact sound.held entry mem
  | false =>
    refine sound.mapped_kept room ids' fun entry mem => ⟨?_, bytes' entry⟩
    split_ifs with here
    · rw [uses, if_neg]
      intro isUsed
      rw [isUsed, Bool.true_and] at known
      simp [known_iff.mpr ⟨entry, mem, here⟩] at known
    · rfl

theorem updateEntry_state (state : BudgetState) (id bytes : Nat) :
    (state.updateEntry id bytes).2.2 = { state.tick with entries := (state.updateEntry id bytes).2.2.entries } := by
  rw [BudgetState.updateEntry]
  split <;> rfl

theorem Sound.updateBytes (sound : Sound run) (room : run.state.clock + 1 < 2 ^ 64) (id bytes : Nat) :
    Sound (run.step (.updateBytes id bytes)) := by
  have clock : run.state.tick.clock = run.state.clock + 1 := wrappingNext_eq room
  cases known : run.known id with
  | false =>
    have unknown : ∀ entry ∈ run.state.entries, entry.id ≠ id := fun entry mem same => by simp [known_iff.mpr ⟨entry, mem, same⟩] at known
    have after : run.step (.updateBytes id bytes) =
        { run with state := { run.state.tick with entries := run.state.entries.map fun entry => entry } } := by
      rw [map_id', Run.step, updateEntry_unknown unknown]
      dsimp only
      rw [known, if_neg Bool.false_ne_true]
      rfl
    rw [after]
    exact sound.mapped_kept room (fun _ => rfl) fun _ _ => ⟨rfl, rfl⟩
  | true =>
    obtain ⟨out, updated, fits⟩ := updated sound known (by omega) bytes
    have entries := updated.entries
    have callbacks := updated.callbacks
    have spared : ∀ other ∈ out, other ∈ run.state.entries ∧ other.id ≠ id := fun other mem =>
      have spare := (mem_spare sound).mp (updated.shortest.first.subset mem)
      ⟨spare.1, spare_ne spare.2⟩
    rw [Run.step]
    dsimp only
    rw [known, if_pos rfl, updateEntry_state, callbacks]
    rw [entries] at fits ⊢
    generalize (run.state.updateEntry id bytes).2.1.currentEvicted = refused at *
    refine sound.mapped_use room known ?_ ?_ ?_ fits ?_
    · intro entry
      split
      · rfl
      · split <;> rfl
    · intro entry _ here
      rw [if_pos here]
    · intro entry _ other
      rw [if_neg other]
      split <;> rfl
    · intro entry mem
      have pushed : entry.id ∈ (out.map BudgetEntry.id).reverse ↔ entry ∈ out := by
        rw [mem_reverse, mem_map]
        constructor
        · rintro ⟨other, inside, same⟩
          rwa [← sound.distinct.same (spared other inside).1 mem same]
        · intro inside
          exact ⟨entry, inside, rfl⟩
      have refusal : (if refused then [Event.evicted id] else []) = (if refused then [id] else []).map Event.evicted := by
        cases refused <;> rfl
      rw [← map_reverse, append_assoc, refusal, held_evictions, held_evictions, held_cons]
      simp only [pushed]
      by_cases here : entry.id = id
      · have kept : entry ∉ out := fun inside => (spared entry inside).2 here
        rw [if_pos here, if_neg kept, if_pos (show (Event.reported id bytes).id = entry.id from here.symm)]
        cases refused with
        | false => rfl
        | true => exact (if_pos (by simp [here])).symm
      · have others : entry.id ∉ (if refused then [id] else []) := by
          cases refused
          · exact not_mem_nil
          · simpa using here
        rw [if_neg here, if_neg others]
        split
        · rfl
        · rw [if_neg (show ¬(Event.reported id bytes).id = entry.id from fun same => here same.symm)]
          exact sound.held entry mem

theorem Sound.step (sound : Sound run) (room : run.state.clock + 1 < 2 ^ 64) (ids : run.state.nextId + 1 < 2 ^ 64) (op : Op) :
    Sound (run.step op) := by
  cases op with
  | register => exact sound.register room ids
  | updateBytes id bytes => exact sound.updateBytes room id bytes
  | setActive id active => refine sound.changed room id active ?_ ?_ ?_ <;> intro entry <;> split <;> rfl
  | touch id => exact sound.changed room id true (fun _ => rfl) (fun _ => rfl) fun _ => rfl
  | drop id => exact sound.drop id

theorem wrappingNext_le (n : Nat) : wrappingNext n ≤ n + 1 := by
  rw [wrappingNext]
  omega

theorem step_counts (run : Run) (op : Op) :
    (run.step op).state.clock ≤ run.state.clock + 1 ∧ (run.step op).state.nextId ≤ run.state.nextId + 1 := by
  have clock := wrappingNext_le run.state.clock
  cases op with
  | register => exact ⟨clock, wrappingNext_le _⟩
  | updateBytes id bytes =>
    have state : (run.step (.updateBytes id bytes)).state = (run.state.updateEntry id bytes).2.2 := by
      rw [Run.step]
      dsimp only
      split <;> rfl
    rw [state, updateEntry_state]
    exact ⟨clock, Nat.le_succ _⟩
  | setActive id active | touch id => exact ⟨clock, Nat.le_succ _⟩

  | drop id => exact ⟨Nat.le_succ _, Nat.le_succ _⟩

theorem runOps_snoc (ops : List Op) (op : Op) : runOps (ops ++ [op]) = (runOps ops).step op := by
  rw [runOps, foldl_append, ← runOps]
  rfl

theorem runOps_sound (ops : List Op) (few : ops.length < 2 ^ 64) :
    Sound (runOps ops) ∧ (runOps ops).state.clock ≤ ops.length ∧ (runOps ops).state.nextId ≤ ops.length := by
  induction ops using List.reverseRecOn with
  | nil =>
    refine ⟨⟨nodup_nil, ?_, ?_, ?_, nodup_nil, List.Pairwise.nil, Nat.zero_le _, ?_⟩, Nat.le_refl 0, Nat.le_refl 0⟩
    · exact fun _ mem => absurd mem not_mem_nil
    · exact fun _ mem => absurd mem not_mem_nil
    · intro id
      exact ⟨fun mem => absurd mem not_mem_nil, fun ⟨_, mem, _⟩ => absurd mem not_mem_nil⟩
    · exact fun _ mem => absurd mem not_mem_nil
  | append_singleton ops op ih =>
    rw [length_append, length_singleton] at few
    obtain ⟨sound, clock, ids⟩ := ih (by omega)
    obtain ⟨clock', ids'⟩ := step_counts (runOps ops) op
    rw [runOps_snoc, length_append, length_singleton]
    exact ⟨sound.step (by omega) (by omega) op, by omega, by omega⟩

/-- In every run the limit is kept, what a result holds is what it last reported
unless it was pushed out since, and a report pushes out the least recently used
inactive results that hold bytes, as few as it takes. -/
theorem shared_budget_kept (ops : List Op) (few : ops.length + 1 < 2 ^ 64) : bytesOf (runOps ops).state.entries ≤ MAX_GLOBAL_RESULT_BYTES ∧
    (∀ entry ∈ (runOps ops).state.entries, entry.bytes = (runOps ops).held entry.id) ∧
    ∀ id bytes, (runOps ops).known id = true → ∃ out, Updated (runOps ops) id bytes out := by
  obtain ⟨sound, clock, -⟩ := runOps_sound ops (by omega)
  refine ⟨sound.fits, sound.held, fun id bytes known => ?_⟩
  have ticked : (runOps ops).state.tick.clock = (runOps ops).state.clock + 1 := wrappingNext_eq (by omega)
  obtain ⟨out, promised, -⟩ := updated sound known (by omega) bytes
  exact ⟨out, promised⟩

/-- 256 MiB, so that two such results fill the budget. -/
def half : Nat := 256 * 1024 * 1024

theorem shared_budget_kept_full :
    let run := runOps [.register, .register, .register, .updateBytes 1 half, .updateBytes 2 half, .setActive 1 true]
    ∃ out, Updated run 3 half out :=
  (shared_budget_kept _ (by decide)).2.2 3 half (by decide)

/-- The first result holds nothing and is the least recently used one. -/
def holdsNothing : List Op := [.register, .register, .register, .updateBytes 2 (half + 1)]

/-- So many uses that the clock is about to start again. -/
def beforeWrap : List Op :=
  [.register, .register, .register, .updateBytes 1 half, .touch 3] ++ List.replicate (2 ^ 64 - 6) (.touch 3)

/-- The run after so many uses, where the third result was used last. -/
def used (clock : Nat) : Run where
  state := {
    entries := [⟨1, half, false, 4⟩, ⟨2, 0, false, 2⟩, ⟨3, 0, false, clock⟩]
    nextId := 3
    clock }
  recency := [2, 1, 3]
  events := [.reported 1 half, .reported 3 0, .reported 2 0, .reported 1 0]

theorem used_step (room : clock + 1 < 2 ^ 64) : (used clock).step (.touch 3) = used (clock + 1) := by
  simp [used, Run.step, BudgetState.touch, BudgetState.tick, wrappingNext_eq room, changeEntry, use]

theorem used_steps {n : Nat} (room : clock + n < 2 ^ 64) :
    (List.replicate n (Op.touch 3)).foldl Run.step (used clock) = used (clock + n) := by
  induction n generalizing clock with
  | zero => rfl
  | succ n ih =>
    rw [replicate_succ, foldl_cons, used_step (by omega), ih (by omega)]
    congr 1
    omega

theorem beforeWrap_used : runOps beforeWrap = used (2 ^ 64 - 1) := by
  rw [beforeWrap, runOps, foldl_append]
  exact used_steps (by decide)

/-- A report pushes out the shortest first part of these results that is enough. -/
def PushesFirst (run : Run) (spare : List BudgetEntry) (id bytes : Nat) : Prop :=
  ∃ out, Shortest (bytesOf (run.others id) + bytes) spare out ∧ (run.state.updateEntry id bytes).1 = out.map BudgetEntry.id

theorem PushesFirst.begins {run : Run} (pushes : PushesFirst run spare id bytes) :
    (run.state.updateEntry id bytes).1 <+: spare.map BudgetEntry.id := by
  obtain ⟨out, shortest, callbacks⟩ := pushes
  rw [callbacks]
  exact shortest.first.map BudgetEntry.id

/-- A result that holds nothing is passed over, and when the clock starts again
the most recently used one goes first. -/
theorem shared_budget_broken : ¬PushesFirst (runOps holdsNothing) ((runOps holdsNothing).inactive 3) 3 half ∧
    ¬PushesFirst (runOps (beforeWrap ++ [.updateBytes 2 half])) ((runOps (beforeWrap ++ [.updateBytes 2 half])).spare 3) 3 1 := by
  constructor
  · intro pushes
    have pushed : ((runOps holdsNothing).state.updateEntry 3 half).1 = [2] := by decide
    have ids : ((runOps holdsNothing).inactive 3).map BudgetEntry.id = [1, 2] := by decide
    have begins := pushes.begins
    rw [pushed, ids] at begins
    revert begins
    decide
  · rw [runOps_snoc, beforeWrap_used]
    intro pushes
    have pushed : (((used (2 ^ 64 - 1)).step (.updateBytes 2 half)).state.updateEntry 3 1).1 = [2] := by decide
    have ids : (((used (2 ^ 64 - 1)).step (.updateBytes 2 half)).spare 3).map BudgetEntry.id = [1, 2] := by decide
    have begins := pushes.begins
    rw [pushed, ids] at begins
    revert begins
    decide

end Ramag.ResultMemory
