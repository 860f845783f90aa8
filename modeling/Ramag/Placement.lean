import Mathlib.Data.List.Nodup
import Mathlib.Data.List.Perm.Basic

/-!
Moving an item of a list to a place among the shown items. The other items are
found in the same order afterwards, and the shown ones close up around the item
at the place that was asked for.
-/
namespace Ramag.Placement
open List

variable {α : Type}

/-- The first item of a kind, with its index. -/
def position (l : List α) (kind : α → Bool) : Option (Nat × α) :=
  (l.findIdx? kind).bind fun index => l[index]?.map fun item => (index, item)

variable {l : List α}

theorem position_some {kind : α → Bool} {index : Nat} {item : α}
    (found : position l kind = some (index, item)) : l[index]? = some item ∧ kind item = true := by
  obtain ⟨place, first, there⟩ := Option.bind_eq_some_iff.mp found
  obtain ⟨other, here, same⟩ := Option.map_eq_some_iff.mp there
  cases same
  obtain ⟨inside, holds, _⟩ := findIdx?_eq_some_iff_getElem.mp first
  rw [getElem?_eq_getElem inside] at here
  cases here
  exact ⟨getElem?_eq_getElem inside, holds⟩

theorem position_none {kind : α → Bool} (missing : position l kind = none) : ∀ item ∈ l, kind item = false := by
  cases first : l.findIdx? kind with
  | none => exact fun item mem => by simpa using findIdx?_eq_none_iff.mp first item mem
  | some index =>
    obtain ⟨inside, _⟩ := findIdx?_eq_some_iff_getElem.mp first
    simp [position, first, inside] at missing

variable {x : α}

/-- With keys that differ, the first item with a key is the one that has it. -/
theorem position_key {κ : Type} [DecidableEq κ] (key : α → κ) (unique : (l.map key).Nodup)
    (mem : x ∈ l) : ∃ index, l[index]? = some x ∧ position l (fun y => key y = key x) = some (index, x) := by
  cases found : position l fun y => key y = key x with
  | none =>
    have := position_none found x mem
    simp at this
  | some place =>
    obtain ⟨here, same⟩ := position_some found
    have equal : place.2 = x := inj_on_of_nodup_map unique (mem_of_getElem? here) mem (of_decide_eq_true same)
    rw [equal] at here
    exact ⟨place.1, here, by rw [← equal]⟩

variable {i : Nat}

theorem perm_move {j : Nat} (here : l[i]? = some x) (inside : j ≤ (l.eraseIdx i).length) : ((l.eraseIdx i).insertIdx j x).Perm l := by
  obtain ⟨bound, rfl⟩ := List.getElem?_eq_some_iff.mp here
  exact (List.perm_insertIdx _ _ inside).trans (List.getElem_cons_eraseIdx_perm bound)

variable {p : α → Bool}

theorem filter_insertIdx_neg (hidden : p x = false) (l : List α) (j : Nat) : (l.insertIdx j x).filter p = l.filter p := by
  induction l generalizing j with
  | nil => cases j <;> simp [hidden]
  | cons y l ih =>
    cases j with
    | zero => simp [hidden]
    | succ j => rw [insertIdx_succ_cons, filter_cons, filter_cons, ih]

theorem filter_eraseIdx_neg (here : l[i]? = some x) (hidden : p x = false) : (l.eraseIdx i).filter p = l.filter p := by
  induction l generalizing i with
  | nil => cases here
  | cons y l ih =>
    cases i with
    | zero =>
      obtain rfl : y = x := by simpa using here
      rw [eraseIdx_zero, tail_cons, filter_cons_of_neg (by simp [hidden])]
    | succ i => rw [eraseIdx_cons_succ, filter_cons, filter_cons, ih (by simpa using here)]

/-- The items that are not the moved one stay in their order. -/
theorem filter_move (here : l[i]? = some x) (hidden : p x = false) (j : Nat) : ((l.eraseIdx i).insertIdx j x).filter p = l.filter p := by
  rw [filter_insertIdx_neg hidden, filter_eraseIdx_neg here hidden]

/-- With keys that differ, an item is removed by its key as well as by its
    place. -/
theorem eraseIdx_eq_filter {κ : Type} [DecidableEq κ] {key : α → κ} (unique : (l.map key).Nodup)
    (here : l[i]? = some x) : l.eraseIdx i = l.filter fun y => key y ≠ key x := by
  induction l generalizing i with
  | nil => cases here
  | cons y l ih =>
    obtain ⟨fresh, unique⟩ := nodup_cons.mp unique
    cases i with
    | zero =>
      obtain rfl : y = x := by simpa using here
      have others : ∀ z ∈ l, key z ≠ key y := fun z mem same => fresh (same ▸ mem_map_of_mem mem)
      rw [eraseIdx_zero, tail_cons, filter_cons_of_neg (by simp)]
      exact (filter_eq_self.mpr (by simpa using others)).symm
    | succ i =>
      have there : l[i]? = some x := by simpa using here
      have other : key y ≠ key x := fun same => fresh (same ▸ mem_map_of_mem (mem_of_getElem? there))
      rw [eraseIdx_cons_succ, filter_cons_of_pos (by simpa using other), ih unique there]

/-! ### Slots -/

/-- The place of the shown item with `n` shown items before it, or the end. -/
def slot (shown : α → Bool) : List α → Nat → Nat
  | [], _ => 0
  | x :: l, n =>
    if shown x then
      match n with
      | 0 => 0
      | n + 1 => slot shown l n + 1
    else slot shown l n + 1

theorem slot_le (shown : α → Bool) (l : List α) (n : Nat) : slot shown l n ≤ l.length := by
  induction l generalizing n with
  | nil => exact Nat.le_refl _
  | cons x l ih =>
    unfold slot
    split_ifs
    · cases n with
      | zero => exact Nat.zero_le _
      | succ n => exact Nat.succ_le_succ (ih n)
    · exact Nat.succ_le_succ (ih n)

/-- With too few shown items the slot is the end. -/
theorem slot_end {shown : α → Bool} {n : Nat} (few : (l.filter shown).length ≤ n) : slot shown l n = l.length := by
  induction l generalizing n with
  | nil => rfl
  | cons x l ih =>
    unfold slot
    by_cases shows : shown x = true
    · rw [filter_cons_of_pos shows, length_cons] at few
      cases n with
      | zero => omega
      | succ n =>
        rw [if_pos shows]
        show slot shown l n + 1 = l.length + 1
        rw [ih (by omega)]
    · rw [filter_cons_of_neg shows] at few
      rw [if_neg shows, ih few, length_cons]

/-- The slot as the index of the `n`th shown item. -/
theorem zipIdx_slot (shown : α → Bool) (l : List α) (n start : Nat) :
    ((l.zipIdx start).filter fun item => shown item.1)[n]?.elim (start + l.length) (·.2) = start + slot shown l n := by
  induction l generalizing n start with
  | nil => rfl
  | cons x l ih =>
    have next (n : Nat) := ih n (start + 1)
    have length : start + (x :: l).length = start + 1 + l.length := by simp; omega
    rw [zipIdx_cons, filter_cons, length]
    unfold slot
    split_ifs with shows
    · cases n with
      | zero => rfl
      | succ n =>
        rw [getElem?_cons_succ, next]
        show _ = start + (slot shown l n + 1)
        omega
    · rw [next]
      omega

/-- An item put into a slot is shown at that place among the shown items. -/
theorem filter_insertIdx_slot {shown : α → Bool} (shows : shown x = true) (l : List α) (n : Nat) :
    (l.insertIdx (slot shown l n) x).filter shown = (l.filter shown).insertIdx (min n (l.filter shown).length) x := by
  induction l generalizing n with
  | nil => simp [slot, shows]
  | cons y l ih =>
    unfold slot
    split_ifs with known
    · cases n with
      | zero => simp [shows]
      | succ n =>
        rw [insertIdx_succ_cons, filter_cons_of_pos known, ih, filter_cons_of_pos known,
          length_cons, Nat.succ_min_succ, insertIdx_succ_cons]
    · rw [insertIdx_succ_cons, filter_cons_of_neg known, ih, filter_cons_of_neg known]

end Ramag.Placement
