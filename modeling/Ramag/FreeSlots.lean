import Mathlib.Data.List.DropRight
import Mathlib.Data.List.Sort
import Mathlib.Order.Bounds.Basic

/-!
Numbered slots with a lazy heap of free ones. A released slot stays on the heap
when the slots behind it are cut off, so the heap may hold slots that do not
exist or that are taken again; what counts is that it holds every free one.
-/
namespace Ramag.FreeSlots
open List

/-- The slots, with the heap of released ones from the smallest up. -/
structure Slots where
  occupied : List Bool := []
  free : List Nat := []

namespace Slots

/-- The smallest slot on the heap that is free; what lies before it is dropped. -/
def popFree (occupied : List Bool) : List Nat → Option (Nat × List Nat)
  | [] => none
  | slot :: rest => if occupied[slot]? = some false then some (slot, rest) else popFree occupied rest

def allocate (s : Slots) : Nat × Slots :=
  match popFree s.occupied s.free with
  | some (slot, free) => (slot, { occupied := s.occupied.set slot true, free := free })
  | none => (s.occupied.length, { occupied := s.occupied ++ [true], free := [] })

def release (s : Slots) (slot : Nat) : Slots :=
  if s.occupied[slot]? = some true then
    { occupied := s.occupied.set slot false, free := s.free.orderedInsert (· ≤ ·) slot }
  else s

/-- The free slots behind the last occupied one are cut off. -/
def truncate (s : Slots) : Slots := { s with occupied := s.occupied.rdropWhile (! ·) }

/-- An assignment to a slot, which must be there. -/
def mark (s : Slots) (slot : Nat) : Option Slots :=
  if slot < s.occupied.length then some { s with occupied := s.occupied.set slot true } else none

/-- The slot is in use. -/
def Taken (s : Slots) (slot : Nat) : Prop := s.occupied[slot]? = some true

/-- The heap holds every free slot, in order. -/
structure Covered (s : Slots) : Prop where
  ordered : s.free.Pairwise (· ≤ ·)
  free : ∀ slot, s.occupied[slot]? = some false → slot ∈ s.free

variable {slot : Nat}

theorem popFree_some {occupied : List Bool} {heap rest : List Nat} (popped : popFree occupied heap = some (slot, rest)) :
    ∃ stale, heap = stale ++ slot :: rest ∧ occupied[slot]? = some false ∧ ∀ i ∈ stale, occupied[i]? ≠ some false := by
  induction heap with
  | nil => cases popped
  | cons top heap ih =>
    rw [popFree] at popped
    split_ifs at popped with free
    · cases popped
      exact ⟨[], rfl, free, nofun⟩
    · obtain ⟨stale, same, here, older⟩ := ih popped
      refine ⟨top :: stale, by rw [same]; rfl, here, ?_⟩
      exact forall_mem_cons.mpr ⟨free, older⟩

theorem popFree_none {occupied : List Bool} {heap : List Nat} (popped : popFree occupied heap = none) :
    ∀ i ∈ heap, occupied[i]? ≠ some false := by
  induction heap with
  | nil => exact nofun
  | cons top heap ih =>
    rw [popFree] at popped
    split_ifs at popped with free
    exact forall_mem_cons.mpr ⟨free, ih popped⟩

/-! ### The operations -/

variable {s : Slots}

theorem taken_or_free (inside : slot < s.occupied.length) : s.Taken slot ∨ s.occupied[slot]? = some false := by
  unfold Taken
  rw [getElem?_eq_getElem inside]
  cases s.occupied[slot] <;> simp

theorem Taken.inside (taken : s.Taken slot) : slot < s.occupied.length :=
  (List.getElem?_eq_some_iff.mp taken).1

/-- A slot in use may be marked again. -/
theorem mark_taken (taken : s.Taken slot) : s.mark slot = some s := by
  obtain ⟨inside, value⟩ := List.getElem?_eq_some_iff.mp taken
  have same : s.occupied.set slot true = s.occupied := by
    rw [← value]
    exact set_getElem_self inside
  rw [mark, if_pos inside, same]

theorem covered_start : Covered {} := ⟨List.Pairwise.nil, by simp⟩

/-- The smallest slot that is not in use is handed out, whatever lies on the heap. -/
theorem allocate_least (covered : s.Covered) : IsLeast {slot | ¬ s.Taken slot} s.allocate.1 := by
  unfold allocate
  cases popped : popFree s.occupied s.free with
  | some next =>
    obtain ⟨slot, rest⟩ := next
    obtain ⟨stale, heap, free, older⟩ := popFree_some popped
    constructor
    · simp [Taken, free]
    intro i unused
    show slot ≤ i
    by_contra below
    have inside : i < s.occupied.length := by
      have := (List.getElem?_eq_some_iff.mp free).1
      omega
    have open' := (taken_or_free inside).resolve_left unused
    have onHeap := covered.free i open'
    have order := covered.ordered
    rw [heap] at onHeap order
    rcases mem_append.mp onHeap with early | late
    · exact older i early open'
    have rest := (pairwise_append.mp order).2.1
    rcases mem_cons.mp late with same | later
    · omega
    · have := rel_of_pairwise_cons rest later
      omega
  | none =>
    have stale := popFree_none popped
    constructor
    · simp [Taken]
    intro i unused
    show s.occupied.length ≤ i
    by_contra below
    have open' := (taken_or_free (by omega : i < s.occupied.length)).resolve_left unused
    exact stale i (covered.free i open') open'

theorem allocate_taken (s : Slots) (slot : Nat) : s.allocate.2.Taken slot ↔ slot = s.allocate.1 ∨ s.Taken slot := by
  unfold allocate
  cases popped : popFree s.occupied s.free with
  | some next =>
    obtain ⟨free, rest⟩ := next
    obtain ⟨stale, heap, open', older⟩ := popFree_some popped
    have inside := (List.getElem?_eq_some_iff.mp open').1
    show (s.occupied.set free true)[slot]? = some true ↔ slot = free ∨ s.occupied[slot]? = some true
    by_cases same : free = slot
    · subst same
      simp [inside]
    · simp [same, Ne.symm same]
  | none =>
    show (s.occupied ++ [true])[slot]? = some true ↔ slot = s.occupied.length ∨ s.occupied[slot]? = some true
    rcases Nat.lt_trichotomy slot s.occupied.length with below | same | above
    · rw [List.getElem?_append_left below]
      exact ⟨.inr, fun taken => taken.resolve_left (by omega)⟩
    · simp [same]
    have gone : s.occupied[slot]? = none := getElem?_eq_none (by omega)
    have later : (s.occupied ++ [true])[slot]? = none := getElem?_eq_none (by simp; omega)
    rw [gone, later]
    simp
    omega

theorem allocate_covered (covered : s.Covered) : s.allocate.2.Covered := by
  unfold allocate
  cases popped : popFree s.occupied s.free with
  | some next =>
    obtain ⟨free, rest⟩ := next
    obtain ⟨stale, heap, open', older⟩ := popFree_some popped
    have order := covered.ordered
    rw [heap] at order
    refine ⟨(pairwise_append.mp order).2.1.of_cons, fun slot unused => ?_⟩
    have other : free ≠ slot := by
      rintro rfl
      rw [List.getElem?_set_self (List.getElem?_eq_some_iff.mp open').1] at unused
      cases unused
    rw [List.getElem?_set_ne other] at unused
    have onHeap := covered.free slot unused
    rw [heap] at onHeap
    rcases mem_append.mp onHeap with early | late
    · exact absurd unused (older slot early)
    · exact (mem_cons.mp late).resolve_left (Ne.symm other)
  | none =>
    have stale := popFree_none popped
    refine ⟨List.Pairwise.nil, fun slot unused => ?_⟩
    have inside : slot < s.occupied.length := by
      have := (List.getElem?_eq_some_iff.mp unused).1
      by_contra out
      have last : slot = s.occupied.length := by
        rw [length_append, length_singleton] at this
        omega
      rw [last, getElem?_append_right le_rfl] at unused
      simp at unused
    rw [List.getElem?_append_left inside] at unused
    exact absurd unused (stale slot (covered.free slot unused))

theorem release_taken (s : Slots) (slot i : Nat) : (s.release slot).Taken i ↔ i ≠ slot ∧ s.Taken i := by
  unfold release
  split_ifs with taken
  · have inside := Taken.inside taken
    show (s.occupied.set slot false)[i]? = some true ↔ _
    by_cases same : slot = i
    · subst same
      simp [inside]
    · simp [same, Ne.symm same, Taken]
  · refine ⟨fun other => ⟨?_, other⟩, And.right⟩
    rintro rfl
    exact taken other

theorem release_covered (covered : s.Covered) (slot : Nat) : (s.release slot).Covered := by
  unfold release
  split_ifs with taken
  · refine ⟨covered.ordered.orderedInsert slot _, fun i unused => ?_⟩
    rw [mem_orderedInsert]
    by_cases same : i = slot
    · exact .inl same
    · rw [List.getElem?_set_ne (Ne.symm same)] at unused
      exact .inr (covered.free i unused)
  · exact covered

theorem truncate_prefix (s : Slots) : ∃ cut, s.occupied = s.truncate.occupied ++ cut ∧ ∀ b ∈ cut, b = false := by
  refine ⟨s.occupied.rtakeWhile (! ·), rdropWhile_append_rtakeWhile.symm, fun b mem => ?_⟩
  simpa using mem_rtakeWhile_imp mem

theorem truncate_taken (s : Slots) (slot : Nat) : s.truncate.Taken slot ↔ s.Taken slot := by
  obtain ⟨cut, whole, free⟩ := s.truncate_prefix
  show s.truncate.occupied[slot]? = some true ↔ s.occupied[slot]? = some true
  rw [whole]
  by_cases inside : slot < s.truncate.occupied.length
  · rw [List.getElem?_append_left inside]
  rw [getElem?_append_right (by omega), getElem?_eq_none (by omega)]
  constructor
  · exact nofun
  · intro taken
    cases free true (mem_of_getElem? taken)

theorem truncate_covered (covered : s.Covered) : s.truncate.Covered := by
  obtain ⟨cut, whole, free⟩ := s.truncate_prefix
  refine ⟨covered.ordered, fun slot unused => covered.free slot ?_⟩
  have inside := (List.getElem?_eq_some_iff.mp unused).1
  rw [whole, List.getElem?_append_left inside]
  exact unused

/-- The slots that any operations in any order lead to. -/
inductive Reachable : Slots → Prop
  | start : Reachable {}
  | allocate {s : Slots} : Reachable s → Reachable s.allocate.2
  | release {s : Slots} (slot : Nat) : Reachable s → Reachable (s.release slot)
  | truncate {s : Slots} : Reachable s → Reachable s.truncate

theorem Reachable.covered (reachable : Reachable s) : s.Covered := by
  induction reachable with
  | start => exact covered_start
  | allocate _ ih => exact allocate_covered ih
  | release slot _ ih => exact release_covered ih slot
  | truncate _ ih => exact truncate_covered ih

end Slots

end Ramag.FreeSlots
