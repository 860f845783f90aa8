import Mathlib.Order.Lattice
import Mathlib.Algebra.Order.Ring.Int
import Mathlib.Algebra.Order.Ring.Nat
import Mathlib.Order.Basic
import Mathlib.Data.List.Perm.Subperm

/-!
Tables whose entries are in the order of their keys, as key-value stores keep
them. Two tables are the same when every key has the same value in both.
-/
namespace Ramag.OrderedTables
open List

/-- A table: its entries, in the order of their keys and with each key once. -/
@[ext] structure Table (κ ν : Type) [LinearOrder κ] where
  entries : List (κ × ν)
  ordered : entries.Pairwise (·.1 < ·.1)

variable {κ ν : Type} [LinearOrder κ]

def insertEntry (key : κ) (value : ν) : List (κ × ν) → List (κ × ν)
  | [] => [(key, value)]
  | entry :: entries =>
    if key < entry.1 then (key, value) :: entry :: entries
    else if key = entry.1 then (key, value) :: entries
    else entry :: insertEntry key value entries

variable {entries : List (κ × ν)}

section
variable (ordered : entries.Pairwise (·.1 < ·.1))
include ordered

theorem mem_insertEntry (key : κ) (value : ν)
    (entry : κ × ν) : entry ∈ insertEntry key value entries ↔ entry = (key, value) ∨ entry ∈ entries ∧ entry.1 ≠ key := by
  induction entries with
  | nil => simp [insertEntry]
  | cons first entries ih =>
    obtain ⟨above, ordered⟩ := pairwise_cons.mp ordered
    rw [insertEntry]
    split_ifs with less same
    · have apart : ∀ other ∈ first :: entries, other.1 ≠ key := by
        refine forall_mem_cons.mpr ⟨ne_of_gt less, fun other mem => ne_of_gt ?_⟩
        exact less.trans (above other mem)
      rw [mem_cons, and_iff_left_of_imp (apart entry)]
    · have apart : ∀ other ∈ entries, other.1 ≠ key := fun other mem => ne_of_gt (same ▸ above other mem)
      rw [mem_cons, mem_cons]
      constructor
      · rintro (rfl | mem)
        · exact .inl rfl
        · exact .inr ⟨.inr mem, apart entry mem⟩
      rintro (rfl | ⟨rfl | mem, other⟩)
      · exact .inl rfl
      · exact absurd same.symm other
      · exact .inr mem
    · rw [mem_cons, ih ordered, mem_cons]
      constructor
      · rintro (rfl | rfl | ⟨mem, other⟩)
        · exact .inr ⟨.inl rfl, fun equal => same equal.symm⟩
        · exact .inl rfl
        · exact .inr ⟨.inr mem, other⟩
      rintro (rfl | ⟨rfl | mem, other⟩)
      · exact .inr (.inl rfl)
      · exact .inl rfl
      · exact .inr (.inr ⟨mem, other⟩)

theorem insertEntry_ordered (key : κ) (value : ν) :
    (insertEntry key value entries).Pairwise (·.1 < ·.1) := by
  induction entries with
  | nil => exact pairwise_singleton _ _
  | cons first entries ih =>
    have whole := ordered
    obtain ⟨above, ordered⟩ := pairwise_cons.mp ordered
    rw [insertEntry]
    split_ifs with less same
    · refine pairwise_cons.mpr ⟨forall_mem_cons.mpr ⟨less, fun other mem => ?_⟩, whole⟩
      exact less.trans (above other mem)
    · exact pairwise_cons.mpr ⟨fun other mem => same ▸ above other mem, ordered⟩
    refine pairwise_cons.mpr ⟨fun other mem => ?_, ih ordered⟩
    rcases (mem_insertEntry ordered key value other).mp mem with rfl | ⟨mem, -⟩
    · exact lt_of_le_of_ne (not_lt.mp less) (Ne.symm same)
    · exact above other mem

theorem value_unique {key : κ} {value other : ν}
    (first : (key, value) ∈ entries) (second : (key, other) ∈ entries) : value = other := by
  induction entries with
  | nil => cases first
  | cons entry entries ih =>
    obtain ⟨above, ordered⟩ := pairwise_cons.mp ordered
    rcases mem_cons.mp first with rfl | earlier
    · rcases mem_cons.mp second with same | later
      · exact (congrArg Prod.snd same).symm
      · exact absurd (above (key, other) later) (lt_irrefl key)
    · rcases mem_cons.mp second with rfl | later
      · exact absurd (above (key, value) earlier) (lt_irrefl key)
      · exact ih ordered earlier later

end

/-! ### Tables -/

namespace Table

private theorem entries_nil : ([] : List (κ × ν)).Pairwise (·.1 < ·.1) := .nil

def empty : Table κ ν := ⟨[], entries_nil⟩

def get (table : Table κ ν) (key : κ) : Option ν := (table.entries.find? fun entry => decide (entry.1 = key)).map (·.2)

def insert (table : Table κ ν) (key : κ) (value : ν) : Table κ ν :=
  ⟨insertEntry key value table.entries, insertEntry_ordered table.ordered key value⟩

def remove (table : Table κ ν) (key : κ) : Table κ ν :=
  ⟨table.entries.filter fun entry => decide (entry.1 ≠ key), table.ordered.filter _⟩

def keys (table : Table κ ν) : List κ := table.entries.map (·.1)

def map {μ : Type} (f : ν → μ) (table : Table κ ν) : Table κ μ :=
  ⟨table.entries.map fun entry => (entry.1, f entry.2), List.pairwise_map.mpr table.ordered⟩

variable {table : Table κ ν} {key : κ}

theorem get_eq_some {value : ν} : table.get key = some value ↔ (key, value) ∈ table.entries := by
  unfold get
  constructor
  · intro found
    obtain ⟨entry, first, rfl⟩ := Option.map_eq_some_iff.mp found
    have same : entry.1 = key := by simpa using find?_some first
    rw [← same]
    exact mem_of_find?_eq_some first
  · intro mem
    rcases found : table.entries.find? fun entry => decide (entry.1 = key) with _ | entry
    · have := find?_eq_none.mp found (key, value) mem
      simp at this
    have same : entry.1 = key := by simpa using find?_some found
    have other : (key, entry.2) ∈ table.entries := by
      rw [← same]
      exact mem_of_find?_eq_some found
    rw [found, Option.map_some, value_unique table.ordered other mem]

@[simp] theorem get_empty (key : κ) : (empty : Table κ ν).get key = none := rfl

theorem get_insert (table : Table κ ν) (key other : κ) (value : ν) :
    (table.insert key value).get other = if other = key then some value else table.get other := by
  ext found
  rw [get_eq_some, insert, mem_insertEntry table.ordered]
  split_ifs with same
  · subst same
    simp [eq_comm]
  · rw [get_eq_some]
    simp [same]

theorem get_remove (table : Table κ ν) (key other : κ) : (table.remove key).get other = if other = key then none else table.get other := by
  ext found
  rw [get_eq_some, remove, mem_filter]
  split_ifs with same
  · simp [same]
  · rw [get_eq_some]
    simp [same]

@[simp] theorem get_insert_self (table : Table κ ν) (key : κ) (value : ν) :
    (table.insert key value).get key = some value := by rw [get_insert, if_pos rfl]

@[simp] theorem get_remove_self (table : Table κ ν) (key : κ) : (table.remove key).get key = none := by rw [get_remove, if_pos rfl]

@[simp] theorem get_map {μ : Type} (f : ν → μ) (table : Table κ ν) (key : κ) : (table.map f).get key = (table.get key).map f := by
  simp only [get, map, find?_map, Option.map_map]
  rfl

theorem get_insert_ne (table : Table κ ν) {other : κ} (value : ν) (apart : other ≠ key) :
    (table.insert key value).get other = table.get other := by rw [get_insert, if_neg apart]

theorem get_remove_ne (table : Table κ ν) {other : κ} (apart : other ≠ key) :
    (table.remove key).get other = table.get other := by rw [get_remove, if_neg apart]

theorem ext_get {left right : Table κ ν} (same : ∀ key, left.get key = right.get key) : left = right := by
  have mem (entry : κ × ν) : entry ∈ left.entries ↔ entry ∈ right.entries := by rw [← @get_eq_some _ _ _ _ entry.1, same, get_eq_some]
  have nodup {table : Table κ ν} : table.entries.Nodup := table.ordered.imp fun less same => absurd (congrArg Prod.fst same) (ne_of_lt less)
  have perm : left.entries.Perm right.entries := (perm_ext_iff_of_nodup nodup nodup).mpr mem
  refine Table.ext (perm.eq_of_pairwise ?_ left.ordered right.ordered)
  exact fun first second _ _ less more => absurd (less.trans more) (lt_irrefl _)

/-- Putting in again what is there changes nothing. -/
theorem insert_held {value : ν} (held : table.get key = some value) : table.insert key value = table := by
  refine ext_get fun other => ?_
  rw [get_insert]
  split_ifs with same
  · rw [same, held]
  · rfl

theorem remove_absent (absent : table.get key = none) : table.remove key = table := by
  refine ext_get fun other => ?_
  rw [get_remove]
  split_ifs with same
  · rw [same, absent]
  · rfl

/-- What is put in does not depend on what was there. -/
theorem insert_remove (table : Table κ ν) (key : κ) (value : ν) : (table.remove key).insert key value = table.insert key value := by
  refine ext_get fun other => ?_
  rw [get_insert, get_insert, get_remove]
  split_ifs <;> rfl

theorem mem_keys : key ∈ table.keys ↔ (table.get key).isSome = true := by
  rw [Option.isSome_iff_exists]
  constructor
  · intro mem
    obtain ⟨entry, own, rfl⟩ := mem_map.mp mem
    exact ⟨entry.2, get_eq_some.mpr own⟩
  · rintro ⟨value, found⟩
    exact mem_map.mpr ⟨(key, value), get_eq_some.mp found, rfl⟩

theorem keys_ordered (table : Table κ ν) : table.keys.Pairwise (· < ·) := pairwise_map.mpr table.ordered

/-- Tables with the same keys have them in the same order. -/
theorem keys_congr {μ : Type} {left : Table κ ν} {right : Table κ μ}
    (same : ∀ key, (left.get key).isSome = (right.get key).isSome) : left.keys = right.keys := by
  have nodup {keys : List κ} (ordered : keys.Pairwise (· < ·)) : keys.Nodup := ordered.imp ne_of_lt
  have perm : left.keys.Perm right.keys :=
    (perm_ext_iff_of_nodup (nodup left.keys_ordered) (nodup right.keys_ordered)).mpr fun key => by rw [mem_keys, mem_keys, same]
  refine perm.eq_of_pairwise ?_ left.keys_ordered right.keys_ordered
  exact fun first second _ _ less more => absurd (less.trans more) (lt_irrefl _)

end Table

/-- Every entry of the first table is in the second. -/
def PartOf {ν : Type} (part whole : Table κ ν) : Prop := ∀ key value, part.get key = some value → whole.get key = some value

/-- A change of a table that fixes for each key whether its value stays or what it becomes. -/
structure Edit (κ ν : Type) [LinearOrder κ] where
  apply : Table κ ν → Table κ ν
  stays : κ → Bool
  given : κ → Option ν
  get_apply : ∀ table key, (apply table).get key = if stays key then table.get key else given key

namespace Edit

def nothing : Edit κ ν := ⟨fun table => table, fun _ => true, fun _ => none, fun _ _ => rfl⟩

/-- The table becomes this one, whatever it was. -/
def become (table : Table κ ν) : Edit κ ν := ⟨fun _ => table, fun _ => false, table.get, fun _ _ => rfl⟩

def put (key : κ) (value : ν) : Edit κ ν where
  apply table := table.insert key value
  stays other := decide (other ≠ key)
  given _ := some value
  get_apply table other := by
    rw [Table.get_insert]
    by_cases same : other = key <;> simp [same]

def drop (key : κ) : Edit κ ν where
  apply table := table.remove key
  stays other := decide (other ≠ key)
  given _ := none
  get_apply table other := by
    rw [Table.get_remove]
    by_cases same : other = key <;> simp [same]

def andThen (first second : Edit κ ν) : Edit κ ν where
  apply table := second.apply (first.apply table)
  stays key := second.stays key && first.stays key
  given key := if second.stays key then first.given key else second.given key
  get_apply table key := by
    rw [second.get_apply, first.get_apply]
    cases second.stays key <;> simp

theorem partOf {part whole : Table κ ν} (edit : Edit κ ν) (within : PartOf part whole) : PartOf (edit.apply part) (edit.apply whole) := by
  intro key value found
  rw [edit.get_apply] at found ⊢
  split_ifs at found ⊢
  · exact within key value found
  · exact found

/-- What is in the second table after the edit is in the first, if it was there before where it stayed. -/
theorem isSome_apply {part whole : Table κ ν} (edit : Edit κ ν) {key : κ}
    (there : (whole.get key).isSome = true → (part.get key).isSome = true)
    (found : ((edit.apply whole).get key).isSome = true) : ((edit.apply part).get key).isSome = true := by
  rw [edit.get_apply] at found ⊢
  split_ifs at found ⊢
  · exact there found
  · exact found

end Edit

namespace Table

theorem foldl_insert_get (entries : List (κ × ν)) (ordered : entries.Pairwise (·.1 < ·.1)) (table : Table κ ν) (key : κ) :
    (entries.foldl (fun table entry => table.insert entry.1 entry.2) table).get key =
      ((entries.find? fun entry => decide (entry.1 = key)).map (·.2)).or (table.get key) := by
  induction entries generalizing table with
  | nil => rfl
  | cons entry entries ih =>
    obtain ⟨above, ordered⟩ := pairwise_cons.mp ordered
    rw [foldl_cons, ih ordered, get_insert, find?_cons]
    by_cases same : entry.1 = key
    · have later : entries.find? (fun entry => decide (entry.1 = key)) = none := by
        refine find?_eq_none.mpr fun other mem => ?_
        simpa [same] using (ne_of_gt (above other mem) : other.1 ≠ entry.1)
      rw [later]
      simp [same]
    · simp [same, Ne.symm same]

/-- A table is its entries put in one after the other. -/
theorem foldl_insert (table : Table κ ν) : table.entries.foldl (fun table entry => table.insert entry.1 entry.2) .empty = table := by
  refine ext_get fun key => ?_
  rw [foldl_insert_get table.entries table.ordered, get_empty, Option.or_none]
  rfl

end Table

end Ramag.OrderedTables
