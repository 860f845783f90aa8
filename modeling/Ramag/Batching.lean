import Mathlib.Algebra.Order.Ring.Int
import Mathlib.Algebra.Order.Ring.Nat
import Mathlib.Data.List.Basic

/-!
Items collected into batches: an open batch is closed when the next item does
not fit, or when it is full. A sender hands the batches on, one after the other,
until a request stops it.
-/
namespace Ramag.Batching
open List

variable {α β : Type}

/-! ### Batches -/

section
variable (fits : List α → α → Bool) (full : List α → Bool)

/-- The batches that an item closes, and the batch that is open behind it. -/
def push (pending : List α) (x : α) : List (List α) × List α :=
  if pending ≠ [] ∧ fits pending x = false then
    if full [x] then ([pending, [x]], []) else ([pending], [x])
  else if full (pending ++ [x]) then ([pending ++ [x]], [])
  else ([], pending ++ [x])

/-- The batches that the items close, and the batch that is left open. -/
def collect : List α → List α → List (List α) × List α
  | pending, [] => ([], pending)
  | pending, x :: xs =>
    ((push fits full pending x).1 ++ (collect (push fits full pending x).2 xs).1, (collect (push fits full pending x).2 xs).2)

/-- The last batch, when it holds anything. -/
def last (pending : List α) : List (List α) := if pending = [] then [] else [pending]

/-- The batches of the items, the last one closed at the end. -/
def batches (pending xs : List α) : List (List α) :=
  (collect fits full pending xs).1 ++ last (collect fits full pending xs).2

end

section
variable {fits : List α → α → Bool} {full : List α → Bool}

theorem flatten_last (pending : List α) : (last pending).flatten = pending := by
  unfold last
  split_ifs with empty
  · rw [empty, flatten_nil]
  · simp

theorem flatten_push (pending : List α) (x : α) :
    (push fits full pending x).1.flatten ++ (push fits full pending x).2 = pending ++ [x] := by
  unfold push
  split_ifs <;> simp

theorem flatten_collect (pending xs : List α) :
    (collect fits full pending xs).1.flatten ++ (collect fits full pending xs).2 = pending ++ xs := by
  induction xs generalizing pending with
  | nil => simp [collect]
  | cons x xs ih =>
    rw [collect, flatten_append, append_assoc, ih, ← append_assoc, flatten_push, append_assoc]
    rfl

/-- No item is lost, repeated or moved. -/
theorem flatten_batches (pending xs : List α) : (batches fits full pending xs).flatten = pending ++ xs := by
  rw [batches, flatten_append, flatten_last, flatten_collect]

/-- Batches of a front of the images are the images of batches. -/
theorem parts_of_flatten {f : α → β} {parts : List (List β)} {l : List α} (whole : parts.flatten <+: l.map f) :
    ∃ own : List (List α), parts = own.map (List.map f) ∧ own.flatten <+: l := by
  induction parts generalizing l with
  | nil => exact ⟨[], rfl, nil_prefix⟩
  | cons part parts ih =>
    obtain ⟨rest, whole⟩ := whole
    rw [flatten_cons, append_assoc] at whole
    obtain ⟨front, back, rfl, rfl, later⟩ := map_eq_append_iff.mp whole.symm
    obtain ⟨own, rfl, start⟩ := ih ⟨rest, later.symm⟩
    exact ⟨front :: own, rfl, (prefix_append_right_inj front).mpr start⟩

/-- What holds of single items and is kept by a fitting item holds of every batch. -/
theorem push_all {good : List α → Prop} {pending : List α} {x : α} (start : pending ≠ [] → good pending)
    (single : good [x]) (fitting : pending ≠ [] → good pending → fits pending x = true → good (pending ++ [x])) :
    (∀ batch ∈ (push fits full pending x).1, good batch) ∧ ((push fits full pending x).2 ≠ [] → good (push fits full pending x).2) := by
  have joined (keeps : ¬ (pending ≠ [] ∧ fits pending x = false)) : good (pending ++ [x]) := by
    by_cases empty : pending = []
    · rw [empty]
      exact single
    · exact fitting empty (start empty) (by simpa [empty] using keeps)
  unfold push
  split_ifs with closes alone whole
  · simp [start closes.1, single]
  · simp [start closes.1, single]
  · simp [joined closes]
  · simp [joined closes]

theorem collect_all {good : List α → Prop} {pending xs : List α} (start : pending ≠ [] → good pending) (single : ∀ x ∈ xs, good [x])
    (fitting : ∀ batch, ∀ x ∈ xs, batch ≠ [] → good batch → fits batch x = true → good (batch ++ [x])) :
    (∀ batch ∈ (collect fits full pending xs).1, good batch) ∧
      ((collect fits full pending xs).2 ≠ [] → good (collect fits full pending xs).2) := by
  induction xs generalizing pending with
  | nil => exact ⟨by simp [collect], start⟩
  | cons x xs ih =>
    obtain ⟨closed, left⟩ := @push_all _ fits full _ _ _ start (single x (by simp)) (fitting pending x (by simp))
    obtain ⟨later, behind⟩ := ih left (fun y mem => single y (by simp [mem]))
      fun batch y mem => fitting batch y (by simp [mem])
    exact ⟨forall_mem_append.mpr ⟨closed, later⟩, behind⟩

theorem batches_all {good : List α → Prop} {xs : List α} (single : ∀ x ∈ xs, good [x])
    (fitting : ∀ batch, ∀ x ∈ xs, batch ≠ [] → good batch → fits batch x = true → good (batch ++ [x])) :
    ∀ batch ∈ batches fits full [] xs, good batch := by
  obtain ⟨closed, left⟩ := @collect_all _ fits full good [] xs (absurd rfl) single fitting
  refine forall_mem_append.mpr ⟨closed, fun batch late => ?_⟩
  unfold last at late
  split_ifs at late with empty
  · cases late
  · exact mem_singleton.mp late ▸ left empty

theorem batches_cons (pending : List α) (x : α) (xs : List α) :
    batches fits full pending (x :: xs) = (push fits full pending x).1 ++ batches fits full (push fits full pending x).2 xs :=
  append_assoc _ _ _

end

/-- Nonempty batches that hold the items in their order, none of them above the
    item limit, and only single items above the limit of their sizes. -/
structure Partition (size : α → Nat) (maxItems maxSize : Nat) (xs : List α) (parts : List (List α)) : Prop where
  whole : parts.flatten = xs
  filled : ∀ part ∈ parts, part ≠ []
  short : ∀ part ∈ parts, part.length ≤ maxItems
  light : ∀ part ∈ parts, (part.map size).sum ≤ maxSize ∨ part.length = 1

theorem partition_batches {size : α → Nat} {maxItems maxSize : Nat} {fits : List α → α → Bool} (room : 0 < maxItems)
    (within : ∀ batch x, fits batch x = true → batch.length < maxItems ∧ (batch.map size).sum + size x ≤ maxSize)
    (xs : List α) : Partition size maxItems maxSize xs (batches fits (fun _ => false) [] xs) := by
  have each := @batches_all _ fits (fun _ => false)
    (fun part => part ≠ [] ∧ part.length ≤ maxItems ∧ ((part.map size).sum ≤ maxSize ∨ part.length = 1)) xs
    (fun x _ => ⟨cons_ne_nil x [], room, .inr rfl⟩) fun batch x _ _ _ fit => by
      obtain ⟨short, light⟩ := within batch x fit
      simp only [length_append, map_append, sum_append, map_cons, map_nil, sum_cons, sum_nil, length_cons, length_nil]
      exact ⟨by simp, by omega, .inl (by omega)⟩
  exact ⟨flatten_batches [] xs, fun part mem => (each part mem).1, fun part mem => (each part mem).2.1, fun part mem => (each part mem).2.2⟩

section
variable (stops : List β → β → Bool)

/-- Some request stops the sender. -/
def stopped : List β → List β → Bool
  | _, [] => false
  | done, x :: xs => stops done x || stopped (done ++ [x]) xs

/-- The requests that are sent, the one that stops the sender included. -/
def untilStop : List β → List β → List β
  | _, [] => []
  | done, x :: xs => x :: if stops done x then [] else untilStop (done ++ [x]) xs

end

section
variable {stops : List β → β → Bool}

theorem untilStop_isPrefix (done xs : List β) : untilStop stops done xs <+: xs := by
  induction xs generalizing done with
  | nil => exact prefix_rfl
  | cons x xs ih =>
    rw [untilStop]
    split_ifs
    · simp
    · simpa using ih (done ++ [x])

theorem stopped_append (done xs ys : List β) :
    stopped stops done (xs ++ ys) = (stopped stops done xs || stopped stops (done ++ xs) ys) := by
  induction xs generalizing done with
  | nil => simp [stopped]
  | cons x xs ih => simp [stopped, ih, Bool.or_assoc]

theorem untilStop_append (done xs ys : List β) : untilStop stops done (xs ++ ys) =
      if stopped stops done xs then untilStop stops done xs else xs ++ untilStop stops (done ++ xs) ys := by
  induction xs generalizing done with
  | nil => simp [stopped]
  | cons x xs ih =>
    by_cases stop : stops done x = true
    · simp [untilStop, stopped, stop]
    · simp only [cons_append, untilStop, stopped, stop, ih, Bool.false_or, Bool.false_eq_true, if_false]
      split_ifs <;> simp

theorem untilStop_all {done xs : List β} (free : stopped stops done xs = false) : untilStop stops done xs = xs := by
  have whole := @untilStop_append _ stops done xs []
  rw [free] at whole
  simpa [untilStop] using whole

/-- A sender that is stopped has sent the request that stops it last. -/
theorem stopped_untilStop {done xs : List β} (stop : stopped stops done xs = true) :
    ∃ before x, untilStop stops done xs = before ++ [x] ∧ stops (done ++ before) x = true := by
  induction xs generalizing done with
  | nil => cases stop
  | cons x xs ih =>
    by_cases here : stops done x = true
    · exact ⟨[], x, by simp [untilStop, here], by simpa using here⟩
    · obtain ⟨before, y, sent, stop⟩ := @ih (done ++ [x]) (by simpa [stopped, here] using stop)
      exact ⟨x :: before, y, by simp [untilStop, here, sent], by simpa using stop⟩

/-- Nothing is sent behind the request that stops the sender. -/
theorem untilStop_last {done xs before after : List β} {x : β} (sent : untilStop stops done xs = before ++ x :: after)
    (stop : stops (done ++ before) x = true) : after = [] := by
  induction before generalizing done xs with
  | nil =>
    cases xs with
    | nil => cases sent
    | cons y xs =>
      obtain ⟨rfl, tail⟩ := cons_eq_cons.mp sent
      rw [← tail, if_pos (by simpa using stop)]
  | cons b before ih =>
    cases xs with
    | nil => cases sent
    | cons y xs =>
      obtain ⟨rfl, tail⟩ := cons_eq_cons.mp sent
      split_ifs at tail
      · simp at tail
      · exact ih tail (by simpa using stop)

end

end Ramag.Batching
