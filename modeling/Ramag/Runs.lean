import Mathlib.Data.List.Basic
import Mathlib.Data.List.Count

/-!
Runs of a system that takes one step after another. A step may be impossible in
a state, and a run may be held to steps that are allowed. What holds at the
start and is kept by every allowed step holds in every state of a run.
-/
namespace Ramag.Runs
open List

variable {σ α : Type}

/-- The states that allowed steps lead to. -/
inductive Reached (step : σ → α → Option σ) (allowed : σ → α → Prop) (start : σ) : σ → Prop
  | start : Reached step allowed start start
  | next {s s' : σ} {a : α} : Reached step allowed start s → allowed s a → step s a = some s' → Reached step allowed start s'

variable {step : σ → α → Option σ} {allowed : σ → α → Prop} {start s : σ}

theorem Reached.keeps {P : σ → Prop} (reached : Reached step allowed start s) (first : P start)
    (kept : ∀ s s' a, P s → allowed s a → step s a = some s' → P s') : P s := by
  induction reached with
  | start => exact first
  | next _ fair stepped ih => exact kept _ _ _ ih fair stepped

/-- The steps of a list, where each must be possible and allowed. -/
def Follows (step : σ → α → Option σ) (allowed : σ → α → Prop) : σ → List α → σ → Prop
  | s, [], last => s = last
  | s, a :: acts, last => allowed s a ∧ ∃ s', step s a = some s' ∧ Follows step allowed s' acts last

theorem Reached.follows {acts : List α} {last : σ} (reached : Reached step allowed start s)
    (follows : Follows step allowed s acts last) : Reached step allowed start last := by
  induction acts generalizing s with
  | nil => exact follows ▸ reached
  | cons a acts ih =>
    obtain ⟨fair, s', stepped, rest⟩ := follows
    exact ih (reached.next fair stepped) rest

/-! ### Parties in a list -/

variable {κ : Type} {parties : List κ} {i : Nat} {old new : κ}

variable {P : κ → Prop}

theorem set_forall (every : ∀ party ∈ parties, P party) (holds : P new) : ∀ party ∈ parties.set i new, P party := by
  intro party mem
  rcases mem_or_eq_of_mem_set mem with there | same
  · exact every party there
  · exact same ▸ holds

theorem set_exists_new (there : parties[i]? = some old) (holds : P new) : ∃ party ∈ parties.set i new, P party := by
  obtain ⟨inside, -⟩ := List.getElem?_eq_some_iff.mp there
  exact ⟨new, List.mem_iff_getElem.mpr ⟨i, by simpa using inside, by simp⟩, holds⟩

/-- A party of some kind stays, unless it is the one that moves. -/
theorem set_exists (there : parties[i]? = some old) (held : ∃ party ∈ parties, P party) : P old ∨ ∃ party ∈ parties.set i new, P party := by
  obtain ⟨party, mem, holds⟩ := held
  obtain ⟨j, inside, found⟩ := mem_iff_getElem.mp mem
  by_cases same : j = i
  · subst same
    rw [getElem?_eq_getElem inside, found, Option.some_inj] at there
    exact .inl (there ▸ holds)
  · refine .inr ⟨party, List.mem_iff_getElem.mpr ⟨j, by simpa using inside, ?_⟩, holds⟩
    rw [getElem_set_ne (Ne.symm same), found]

theorem countP_set_add (p : κ → Bool) (new : κ) (there : parties[i]? = some old) :
    (parties.set i new).countP p + (if p old then 1 else 0) = parties.countP p + if p new then 1 else 0 := by
  induction parties generalizing i with
  | nil => simp at there
  | cons party parties ih =>
    cases i with
    | zero =>
      cases there
      simp only [set_cons_zero, countP_cons]
      omega
    | succ i =>
      have moved := ih (i := i) (by simpa using there)
      simp only [set_cons_succ, countP_cons]
      omega

variable {p : κ → Bool}

theorem eq_of_countP (one : parties.countP p ≤ 1) {a b : κ} (first : a ∈ parties) (second : b ∈ parties)
    (holds : p a = true) (holds' : p b = true) : a = b := by
  rw [countP_eq_length_filter] at one
  have firstIn : a ∈ parties.filter p := mem_filter.mpr ⟨first, holds⟩
  have secondIn : b ∈ parties.filter p := mem_filter.mpr ⟨second, holds'⟩
  match parties.filter p, one, firstIn, secondIn with
  | [only], _, firstIn, secondIn => rw [mem_singleton.mp firstIn, mem_singleton.mp secondIn]

theorem count_flatMap_one {β : Type} [DecidableEq β] (things : κ → List β) (x : β) (there : parties[i]? = some old) :
    (things old).count x ≤ (parties.flatMap things).count x :=
  (sublist_flatten_of_mem (mem_map_of_mem (mem_of_getElem? there))).count_le x

theorem count_flatMap_two {β : Type} [DecidableEq β] (things : κ → List β) (x : β) {j : Nat} {other : κ} (apart : j ≠ i)
    (there : parties[i]? = some old) (second : parties[j]? = some other) :
    (things old).count x + (things other).count x ≤ (parties.flatMap things).count x := by
  induction parties generalizing i j with
  | nil => simp at there
  | cons party parties ih =>
    rw [flatMap_cons, count_append]
    cases i with
    | zero =>
      cases there
      cases j with
      | zero => exact absurd rfl apart
      | succ j => exact Nat.add_le_add_left (count_flatMap_one things x (i := j) second) _
    | succ i =>
      cases j with
      | zero =>
        cases second
        rw [Nat.add_comm]
        exact Nat.add_le_add_left (count_flatMap_one things x (i := i) there) _
      | succ j =>
        have rest := ih (i := i) (j := j) (fun same => apart (congrArg Nat.succ same)) there second
        omega

theorem set_split (new : κ) (there : parties[i]? = some old) :
    ∃ front behind, parties = front ++ old :: behind ∧ parties.set i new = front ++ new :: behind := by
  obtain ⟨inside, rfl⟩ := List.getElem?_eq_some_iff.mp there
  refine ⟨parties.take i, parties.drop (i + 1), ?_, List.set_eq_take_cons_drop _ inside⟩
  rw [List.getElem_cons_drop inside, List.take_append_drop]

theorem filter_set_other (there : parties[i]? = some old) (without : p old = false) (none : p new = false) :
    (parties.set i new).filter p = parties.filter p := by
  obtain ⟨front, behind, split, moved⟩ := set_split new there
  rw [moved, split, filter_append, filter_append, filter_cons_of_neg (by simp [none]),
    filter_cons_of_neg (by simp [without])]

theorem filter_set_one {only : κ} (new : κ) (there : parties[i]? = some old) (holds : p old = true)
    (one : parties.filter p = [only]) : only = old ∧ (parties.set i new).filter p = [new].filter p := by
  obtain ⟨front, behind, split, moved⟩ := set_split new there
  rw [split, filter_append, filter_cons_of_pos holds, append_eq_singleton_iff] at one
  rcases one with ⟨first, last⟩ | ⟨-, last⟩
  · obtain ⟨same, rest⟩ := List.cons.inj last
    refine ⟨same.symm, ?_⟩
    rw [moved, filter_append, first, nil_append, filter_cons, filter_cons, rest, filter_nil]
  · cases last

theorem filter_set_none (there : parties[i]? = some old) (holds : p new = true) (none : parties.filter p = []) :
    (parties.set i new).filter p = [new] := by
  obtain ⟨front, behind, split, moved⟩ := set_split new there
  rw [split, filter_append, append_eq_nil_iff] at none
  have rest : behind.filter p = [] := by
    refine filter_eq_nil_iff.mpr fun party mem => ?_
    exact filter_eq_nil_iff.mp none.2 party (mem_cons_of_mem _ mem)
  rw [moved, filter_append, none.1, nil_append, filter_cons_of_pos holds, rest]

end Ramag.Runs
