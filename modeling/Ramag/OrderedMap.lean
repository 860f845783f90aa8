import Mathlib.Data.List.Sort

/-!
Finite maps whose entries stand in the strict order of their keys. What a map
holds is said by `lookup`, which agrees with the entries (`lookup_iff`), and an
insertion changes it at one key only (`lookup_insert`, `keys_insert`).
-/
namespace Ramag.OrderedMap
open List List

variable {κ ν μ : Type} [LinearOrder κ]

/-- Each key is smaller than all later ones. -/
def Sorted (entries : List (κ × ν)) : Prop := entries.Pairwise fun a b => a.1 < b.1

def insertEntry (key : κ) (value : ν) : List (κ × ν) → List (κ × ν)
  | [] => [(key, value)]
  | entry :: entries =>
    if key < entry.1 then (key, value) :: entry :: entries
    else if key = entry.1 then (key, value) :: entries
    else entry :: insertEntry key value entries

section
variable {key : κ} {value : ν} {entries : List (κ × ν)} (sorted : Sorted entries)
include sorted

/-- What is there afterwards: the new entry, and the entries of other keys. -/
theorem mem_insertEntry {entry : κ × ν} :
    entry ∈ insertEntry key value entries ↔ entry = (key, value) ∨ entry ∈ entries ∧ entry.1 ≠ key := by
  induction entries with
  | nil => simp [insertEntry]
  | cons first entries ih =>
    obtain ⟨above, rest⟩ := pairwise_cons.mp sorted
    have later {k : κ} (less : k ≤ first.1) : ∀ other ∈ entries, other.1 ≠ k := fun other mem same =>
      absurd (above other mem) (not_lt.mpr (same ▸ less))
    rw [insertEntry]
    by_cases before : key < first.1
    · rw [if_pos before, mem_cons]
      refine or_congr_right ⟨fun mem => ⟨mem, ?_⟩, And.left⟩
      rcases mem_cons.mp mem with rfl | inside
      · exact before.ne'
      · exact later before.le entry inside
    · rw [if_neg before]
      split_ifs with here
      · rw [mem_cons]
        refine or_congr_right ⟨fun mem => ⟨mem_cons_of_mem first mem, later here.le entry mem⟩, ?_⟩
        rintro ⟨mem, other⟩
        rcases mem_cons.mp mem with rfl | inside
        · exact absurd here.symm other
        · exact inside
      · rw [mem_cons, ih rest, mem_cons]
        constructor
        · rintro (rfl | same | ⟨inside, other⟩)
          · exact Or.inr ⟨Or.inl rfl, Ne.symm here⟩
          · exact Or.inl same
          · exact Or.inr ⟨Or.inr inside, other⟩
        rintro (same | ⟨rfl | inside, other⟩)
        · exact Or.inr (Or.inl same)
        · exact Or.inl rfl
        · exact Or.inr (Or.inr ⟨inside, other⟩)

theorem insertEntry_sorted :
    Sorted (insertEntry key value entries) := by
  induction entries with
  | nil => exact pairwise_singleton _ _
  | cons first entries ih =>
    obtain ⟨above, rest⟩ := pairwise_cons.mp sorted
    rw [insertEntry]
    by_cases before : key < first.1
    · rw [if_pos before]
      refine pairwise_cons.mpr ⟨fun entry mem => ?_, sorted⟩
      rcases mem_cons.mp mem with rfl | inside
      · exact before
      · exact before.trans (above entry inside)
    · rw [if_neg before]
      split_ifs with here
      · refine pairwise_cons.mpr ⟨fun entry mem => ?_, rest⟩
        rw [here]
        exact above entry mem
      refine pairwise_cons.mpr ⟨fun entry mem => ?_, ih rest⟩
      rcases (mem_insertEntry rest).mp mem with rfl | ⟨inside, -⟩
      · exact lt_of_le_of_ne (not_lt.mp before) (Ne.symm here)
      · exact above entry inside

end

end Ramag.OrderedMap

/-- A map in the order of its keys. -/
structure Ramag.OrderedMap (κ ν : Type) [LinearOrder κ] where
  entries : List (κ × ν)
  sorted : OrderedMap.Sorted entries

namespace Ramag.OrderedMap

variable {κ ν μ : Type} [LinearOrder κ]

def empty : OrderedMap κ ν := ⟨[], List.Pairwise.nil⟩

def size (m : OrderedMap κ ν) : Nat := m.entries.length
def keys (m : OrderedMap κ ν) : List κ := m.entries.map Prod.fst
def values (m : OrderedMap κ ν) : List ν := m.entries.map Prod.snd

def lookup (m : OrderedMap κ ν) (key : κ) : Option ν := (m.entries.find? fun entry => entry.1 = key).map Prod.snd

def insert (m : OrderedMap κ ν) (key : κ) (value : ν) : OrderedMap κ ν :=
  ⟨insertEntry key value m.entries, insertEntry_sorted m.sorted⟩

/-- The same keys with other values. -/
def mapValues (f : κ → ν → μ) (m : OrderedMap κ ν) : OrderedMap κ μ :=
  ⟨m.entries.map fun entry => (entry.1, f entry.1 entry.2), by rw [Sorted, List.pairwise_map]; exact m.sorted⟩

theorem keys_nodup (m : OrderedMap κ ν) : m.keys.Nodup := List.pairwise_map.mpr (m.sorted.imp ne_of_lt)

variable {m : OrderedMap κ ν} {key : κ} {value : ν}

theorem lookup_iff : m.lookup key = some value ↔ (key, value) ∈ m.entries := by
  rw [lookup, Option.map_eq_some_iff]
  constructor
  · rintro ⟨entry, found, rfl⟩
    have same := List.find?_some found
    rw [← of_decide_eq_true same]
    exact List.mem_of_find?_eq_some found
  intro mem
  cases found : m.entries.find? fun entry => entry.1 = key with
  | none => exact absurd rfl (of_decide_eq_false (Bool.eq_false_iff.mpr (List.find?_eq_none.mp found _ mem)))
  | some entry =>
    have there := List.mem_of_find?_eq_some found
    have same := List.find?_some found
    have equal : entry = (key, value) := List.inj_on_of_nodup_map m.keys_nodup there mem (of_decide_eq_true same)
    exact ⟨entry, rfl, by rw [equal]⟩

theorem mem_keys_iff : key ∈ m.keys ↔ ∃ value, m.lookup key = some value := by simp [lookup_iff, keys]

theorem lookup_none_iff : m.lookup key = none ↔ key ∉ m.keys := by rw [mem_keys_iff, Option.eq_none_iff_forall_ne_some, not_exists]

theorem lookup_insert (m : OrderedMap κ ν) (key : κ) (value : ν) (other : κ) :
    (m.insert key value).lookup other = if other = key then some value else m.lookup other := by
  refine Option.ext fun found => ?_
  rw [lookup_iff, insert, mem_insertEntry m.sorted, ← lookup_iff]
  by_cases same : other = key
  · simp [same, eq_comm]
  · simp [same]

theorem mem_keys_insert {other : κ} : other ∈ (m.insert key value).keys ↔ other = key ∨ other ∈ m.keys := by
  simp only [mem_keys_iff, lookup_insert]
  by_cases same : other = key <;> simp [same]

theorem size_keys (m : OrderedMap κ ν) : m.size = m.keys.length := (List.length_map _).symm

theorem size_insert_new (absent : key ∉ m.keys) (value : ν) : (m.insert key value).size = m.size + 1 := by
  have perm : (m.insert key value).keys.Perm (key :: m.keys) := by
    refine (List.perm_ext_iff_of_nodup (keys_nodup _) (List.nodup_cons.mpr ⟨absent, m.keys_nodup⟩)).mpr fun other => ?_
    rw [mem_keys_insert, List.mem_cons]
  rw [size_keys, perm.length_eq, List.length_cons, size_keys]

theorem size_insert_old (there : key ∈ m.keys) (value : ν) : (m.insert key value).size = m.size := by
  have perm : (m.insert key value).keys.Perm m.keys := by
    refine (List.perm_ext_iff_of_nodup (keys_nodup _) m.keys_nodup).mpr fun other => ?_
    rw [mem_keys_insert]
    exact or_iff_right_of_imp fun same => same ▸ there
  rw [size_keys, perm.length_eq, size_keys]

variable (f : κ → ν → μ)

@[simp] theorem keys_mapValues (m : OrderedMap κ ν) : (m.mapValues f).keys = m.keys := by
  rw [keys, mapValues, List.map_map, keys]
  rfl

@[simp] theorem size_mapValues (m : OrderedMap κ ν) : (m.mapValues f).size = m.size := List.length_map _

theorem lookup_mapValues (m : OrderedMap κ ν) (key : κ) : (m.mapValues f).lookup key = (m.lookup key).map (f key) := by
  refine Option.ext fun found => ?_
  rw [lookup_iff, mapValues, Option.map_eq_some_iff]
  simp only [List.mem_map, lookup_iff, Prod.exists, Prod.mk.injEq]
  constructor
  · rintro ⟨k, value, mem, rfl, rfl⟩
    exact ⟨value, mem, rfl⟩
  · rintro ⟨value, mem, rfl⟩
    exact ⟨key, value, mem, rfl, rfl⟩

theorem mem_values : value ∈ m.values ↔ ∃ key, m.lookup key = some value := by simp [values, lookup_iff]

end Ramag.OrderedMap
