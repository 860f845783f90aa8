import Ramag.CommitGraph
import Mathlib.Data.List.Perm.Basic

/-!
What the lanes of the commit graph keep over every history: a commit that is
still to come has one lane, no two share one, and the occupied lanes are exactly
these. The lanes go by the smallest free number, and by what was reserved first.
-/
namespace Ramag.GraphLanes
open Strings FreeSlots CommitGraph List Function

section
variable {κ : Type} [DecidableEq κ]

/-- The lane that is reserved for a key. -/
def lookup (active : ActiveLanes κ) (key : κ) : Option Nat :=
  match active.large with
  | some large => large key
  | none => (active.small.find? fun entry => decide (entry.1 = key)).map Prod.snd

/-- The vector has one entry for a key. -/
def Distinct (active : ActiveLanes κ) : Prop := (active.small.map Prod.fst).Nodup

variable {entries : List (κ × Nat)}

theorem find_entry (distinct : (entries.map Prod.fst).Nodup) {key : κ} {lane : Nat} :
    (entries.find? fun entry => decide (entry.1 = key)).map Prod.snd = some lane ↔ (key, lane) ∈ entries := by
  induction entries with
  | nil => simp
  | cons entry entries ih =>
    rw [map_cons, nodup_cons] at distinct
    by_cases same : entry.1 = key
    · subst same
      rw [find?_cons_of_pos (by simp), Option.map_some, Option.some_inj, mem_cons]
      constructor
      · rintro rfl
        exact .inl rfl
      · rintro (here | later)
        · exact (congrArg Prod.snd here).symm
        · exact absurd (mem_map_of_mem later) distinct.1
    · rw [find?_cons_of_neg (by simpa using same), ih distinct.2, mem_cons]
      constructor
      · exact .inr
      · rintro (rfl | later)
        · exact absurd rfl same
        · exact later

theorem swapRemove_perm {α : Type} {xs : List α} {index : Nat} (inside : index < xs.length) :
    (swapRemove xs index).Perm (xs.eraseIdx index) := by
  obtain ⟨front, last, rfl⟩ : ∃ front last, xs = front ++ [last] :=
    ⟨xs.dropLast, xs.getLast (by rintro rfl; simp at inside), (dropLast_append_getLast _).symm⟩
  have done : swapRemove (front ++ [last]) index = ((front ++ [last]).set index last).dropLast := by
    unfold swapRemove
    rw [getLast?_concat]
  rw [length_append, length_singleton] at inside
  rw [done]
  by_cases inner : index < front.length
  · rw [set_append_left _ _ inner, dropLast_concat, eraseIdx_append_of_lt_length inner]
    exact (set_perm_cons_eraseIdx inner last).trans (perm_append_singleton last _).symm
  have end' : index = front.length := by omega
  subst end'
  rw [set_append_right _ _ le_rfl, eraseIdx_append_of_length_le le_rfl]
  simp

variable {active : ActiveLanes κ}

theorem remove_spec (distinct : Distinct active) (key : κ) : (active.remove key).1 = lookup active key ∧ Distinct (active.remove key).2 ∧
      ∀ other, lookup (active.remove key).2 other = if other = key then none else lookup active other := by
  unfold ActiveLanes.remove
  cases representation : active.large with
  | some large =>
    refine ⟨by simp [lookup, representation], distinct, fun other => ?_⟩
    show update large key none other = _
    rw [update_apply]
    simp [lookup, representation]
  | none =>
    have found (other : κ) (lane : Nat) : lookup active other = some lane ↔ (other, lane) ∈ active.small := by
      unfold lookup
      rw [representation]
      exact find_entry distinct
    cases position : active.small.findIdx? fun entry => decide (entry.1 = key) with
    | none =>
      rw [findIdx?_eq_none_iff] at position
      have absent : lookup active key = none := by
        refine Option.eq_none_iff_forall_not_mem.mpr fun lane there => ?_
        simpa using position _ ((found key lane).mp there)
      refine ⟨absent.symm, distinct, fun other => ?_⟩
      split_ifs with same
      · rw [same]
        exact absent
      · rfl
    | some index =>
      rw [findIdx?_eq_some_iff_getElem] at position
      obtain ⟨inside, same, -⟩ := position
      rw [decide_eq_true_eq] at same
      have kept := swapRemove_perm inside
      have whole := getElem_cons_eraseIdx_perm inside
      have apart : (active.small[index] :: active.small.eraseIdx index).map Prod.fst |>.Nodup := (whole.map Prod.fst).nodup_iff.mpr distinct
      have distinct' : Distinct ⟨swapRemove active.small index, none⟩ := (kept.map Prod.fst).nodup_iff.mpr apart.of_cons
      have entry : active.small[index] = (key, active.small[index].2) := Prod.ext same rfl
      refine ⟨?_, distinct', fun other => ?_⟩
      · have here : lookup active key = some active.small[index].2 := (found key _).mpr (entry ▸ getElem_mem inside)
        show active.small[index]?.map Prod.snd = _
        rw [here, getElem?_eq_getElem inside]
        rfl
      · have mem (lane : Nat) : lookup ⟨swapRemove active.small index, none⟩ other = some lane ↔
            (other, lane) ∈ active.small.eraseIdx index := (find_entry distinct').trans kept.mem_iff
        refine Option.ext fun lane => ?_
        refine (mem lane).trans ?_
        have all := @List.Perm.mem_iff _ (other, lane) _ _ whole
        split_ifs with hit
        · subst hit
          refine ⟨fun stays => ?_, nofun⟩
          rw [map_cons, nodup_cons, same] at apart
          exact absurd (mem_map_of_mem stays) apart.1
        · rw [found, ← all, mem_cons, entry]
          exact ⟨.inr, fun either => either.resolve_left fun equal => hit (congrArg Prod.fst equal)⟩

theorem foldl_update (distinct : (entries.map Prod.fst).Nodup) (start : κ → Option Nat) (key : κ) :
    entries.foldl (fun (map : κ → Option Nat) entry => update map entry.1 (some entry.2)) start key =
      ((entries.find? fun entry => decide (entry.1 = key)).map Prod.snd).or (start key) := by
  induction entries generalizing start with
  | nil => simp
  | cons entry entries ih =>
    rw [map_cons, nodup_cons] at distinct
    rw [foldl_cons, ih distinct.2, update_apply]
    by_cases same : entry.1 = key
    · have gone : entries.find? (fun entry => decide (entry.1 = key)) = none := by
        refine find?_eq_none.mpr fun other mem hit => ?_
        rw [decide_eq_true_eq, ← same] at hit
        exact distinct.1 (hit ▸ mem_map_of_mem mem)
      rw [gone, find?_cons_of_pos (by simpa using same), if_pos same.symm]
      rfl
    · rw [find?_cons_of_neg (by simpa using same), if_neg (Ne.symm same)]

theorem insertIfAbsent_spec (distinct : Distinct active) (key : κ) (lane : Nat) :
    (active.insertIfAbsent key lane).1 = (lookup active key).isNone ∧ Distinct (active.insertIfAbsent key lane).2 ∧
      ∀ other, lookup (active.insertIfAbsent key lane).2 other =
        if other = key ∧ lookup active key = none then some lane else lookup active other := by
  unfold ActiveLanes.insertIfAbsent
  cases representation : active.large with
  | some large =>
    have own (other : κ) : lookup active other = large other := by simp [lookup, representation]
    cases there : large key with
    | some old =>
      simp only [there]
      exact ⟨by simp [own, there], distinct, fun other => by simp [own, there]⟩
    | none =>
      simp only [there]
      refine ⟨by simp [own, there], distinct, fun other => ?_⟩
      show update large key (some lane) other = _
      rw [update_apply, own, own, there]
      simp
  | none =>
    have own (other : κ) : lookup active other =
        (active.small.find? fun entry => decide (entry.1 = other)).map Prod.snd := by
      simp [lookup, representation]
    by_cases there : (active.small.any fun entry => decide (entry.1 = key)) = true
    · rw [if_pos there]
      have some' : (lookup active key).isNone = false := by
        rw [own, Option.isNone_map]
        simpa using there
      have reserved : lookup active key ≠ none := by
        intro absent
        simp [absent] at some'
      exact ⟨some'.symm, distinct, fun other => by simp [reserved]⟩
    · rw [if_neg there]
      have fresh : ∀ entry ∈ active.small, entry.1 ≠ key :=
        fun entry mem same => there (any_eq_true.mpr ⟨entry, mem, by simpa using same⟩)
      have absent : lookup active key = none := by
        rw [own, Option.map_eq_none_iff, find?_eq_none]
        simpa using fresh
      split_ifs with fits
      · refine ⟨by simp [absent], ?_, fun other => ?_⟩
        · show ((active.small ++ [(key, lane)]).map Prod.fst).Nodup
          rw [map_append, nodup_append]
          refine ⟨distinct, by simp, ?_⟩
          rintro old mem new added rfl
          obtain ⟨entry, inside, rfl⟩ := mem_map.mp mem
          exact fresh entry inside (by simpa using added)
        · rw [own other]
          unfold lookup
          rw [representation]
          rw [find?_append]
          by_cases same : other = key
          · subst same
            have gone : active.small.find? (fun entry => decide (entry.1 = other)) = none := by simpa using fresh
            simp [gone]
          · simp [same, Ne.symm same]
      · refine ⟨by simp [absent], nodup_nil, fun other => ?_⟩
        show update (active.small.foldl _ fun _ => none) key (some lane) other = _
        rw [update_apply, foldl_update distinct, own other]
        simp [absent]

/-! Answers are those of a map, whatever holds the entries. -/

inductive MapCall (κ : Type)
  | remove (key : κ)
  | insertIfAbsent (key : κ) (lane : Nat)

/-- What a run of calls answers: the lane that is taken out, or whether the key was new. -/
def answers (active : ActiveLanes κ) : List (MapCall κ) → List (Option Nat ⊕ Bool)
  | [] => []
  | .remove key :: calls => .inl (active.remove key).1 :: answers (active.remove key).2 calls
  | .insertIfAbsent key lane :: calls => .inr (active.insertIfAbsent key lane).1 :: answers (active.insertIfAbsent key lane).2 calls

/-- What a plain map answers. -/
def mapAnswers (map : κ → Option Nat) : List (MapCall κ) → List (Option Nat ⊕ Bool)
  | [] => []
  | .remove key :: calls => .inl (map key) :: mapAnswers (Function.update map key none) calls
  | .insertIfAbsent key lane :: calls =>
    .inr (map key).isNone :: mapAnswers (if map key = none then Function.update map key (some lane) else map) calls

theorem answers_map (distinct : Distinct active) (calls : List (MapCall κ)) : answers active calls = mapAnswers (lookup active) calls := by
  induction calls generalizing active with
  | nil => rfl
  | cons call calls ih =>
    cases call with
    | remove key =>
      obtain ⟨answer, distinct', left⟩ := remove_spec distinct key
      have map : lookup (active.remove key).2 = update (lookup active) key none := by
        funext other
        rw [left, update_apply]
      rw [answers, mapAnswers, answer, ih distinct', map]
    | insertIfAbsent key lane =>
      obtain ⟨answer, distinct', left⟩ := insertIfAbsent_spec distinct key lane
      have map : lookup (active.insertIfAbsent key lane).2 =
          if lookup active key = none then update (lookup active) key (some lane) else lookup active := by
        funext other
        rw [left]
        by_cases absent : lookup active key = none
        · simp [absent, update_apply]
        · simp [absent]
      rw [answers, mapAnswers, answer, ih distinct', map]

end

/-! ### What a commit leaves -/

/-- The lane that a commit has reserved for another one that is still to come. -/
def reserved (s : CommitLaneState) (key : CommitKey) : Option Nat := lookup s.laneByCommit key

/-- The lanes between two statements: the occupied ones are those that are reserved for one
    commit each, and the one in hand. -/
structure Kept (s : CommitLaneState) (hand : Option Nat) : Prop where
  covered : s.slots.Covered
  distinct : Distinct s.laneByCommit
  apart : ∀ key other lane, reserved s key = some lane → reserved s other = some lane → key = other
  spare : ∀ key lane, reserved s key = some lane → hand ≠ some lane
  taken : ∀ lane, s.slots.Taken lane ↔ hand = some lane ∨ ∃ key, reserved s key = some lane

theorem kept_start : Kept {} none where
  covered := Slots.covered_start
  distinct := nodup_nil
  apart := by simp [reserved, lookup]
  spare := by simp
  taken := by simp [reserved, lookup, Slots.Taken]

variable {s : CommitLaneState}

theorem takeLane_spec (kept : Kept s none) (key : CommitKey) : Kept (s.takeLane key).2 (some (s.takeLane key).1) ∧
      (∀ lane, reserved s key = some lane → (s.takeLane key).1 = lane) ∧
      (reserved s key = none → IsLeast {lane | ¬ s.slots.Taken lane} (s.takeLane key).1) ∧
      ∀ other, reserved (s.takeLane key).2 other = if other = key then none else reserved s other := by
  obtain ⟨answer, distinct, left⟩ := remove_spec kept.distinct key
  unfold CommitLaneState.takeLane
  cases removed : s.laneByCommit.remove key with
  | mk found active =>
    rw [removed] at answer distinct left
    change found = reserved s key at answer
    change ∀ other, lookup active other = if other = key then none else reserved s other at left
    have elsewhere {other : CommitKey} {lane : Nat} (there : lookup active other = some lane) :
        other ≠ key ∧ reserved s other = some lane := by
      rw [left] at there
      split_ifs at there with same
      exact ⟨same, there⟩
    have stays {other : CommitKey} (different : other ≠ key) : lookup active other = reserved s other := by rw [left, if_neg different]
    cases found with
    | some lane =>
      refine ⟨⟨kept.covered, distinct, ?_, ?_, ?_⟩, ?_, ?_, left⟩
      · intro first second shared own other
        exact kept.apart first second shared (elsewhere own).2 (elsewhere other).2
      · rintro other shared there ⟨⟩
        exact (elsewhere there).1 (kept.apart other key lane (elsewhere there).2 answer.symm)
      · intro other
        rw [kept.taken]
        constructor
        · rintro (⟨⟨⟩⟩ | ⟨owner, there⟩)
          by_cases same : owner = key
          · rw [same, ← answer] at there
            exact .inl there
          · exact .inr ⟨owner, (stays same).trans there⟩
        · rintro (⟨⟨⟩⟩ | ⟨owner, there⟩)
          · exact .inr ⟨key, answer.symm⟩
          · exact .inr ⟨owner, (elsewhere there).2⟩
      · intro other there
        rw [← answer] at there
        exact Option.some.inj there
      · intro absent
        simp [← answer] at absent
    | none =>
      have same : lookup active = reserved s := by
        funext other
        by_cases hit : other = key
        · rw [left, if_pos hit, hit]
          exact answer
        · exact stays hit
      have least := Slots.allocate_least kept.covered
      refine ⟨⟨Slots.allocate_covered kept.covered, distinct, ?_, ?_, ?_⟩, ?_, fun _ => least, left⟩
      · intro first second shared own other
        exact kept.apart first second shared (elsewhere own).2 (elsewhere other).2
      · rintro other lane there ⟨⟩
        exact least.1 ((kept.taken _).mpr (.inr ⟨other, (elsewhere there).2⟩))
      · intro lane
        show s.slots.allocate.2.Taken lane ↔ some s.slots.allocate.1 = some lane ∨ ∃ key, lookup active key = some lane
        rw [Slots.allocate_taken, kept.taken, same]
        constructor
        · rintro (rfl | ⟨⟨⟩⟩ | there)
          · exact .inl rfl
          · exact .inr there
        · rintro (same | there)
          · exact .inl (Option.some.inj same).symm
          · exact .inr (.inr there)
      · intro lane there
        simp [← answer] at there

variable {lane : Nat}

theorem reserve_spec (kept : Kept s (some lane)) (key : CommitKey) :
    (reserved s key = none → Kept ⟨s.slots, (s.laneByCommit.insertIfAbsent key lane).2⟩ none) ∧
      (reserved s key ≠ none → Kept ⟨s.slots.release lane, (s.laneByCommit.insertIfAbsent key lane).2⟩ none) := by
  obtain ⟨answer, distinct, left⟩ := insertIfAbsent_spec kept.distinct key lane
  change ∀ other, lookup (s.laneByCommit.insertIfAbsent key lane).2 other =
    if other = key ∧ reserved s key = none then some lane else reserved s other at left
  constructor
  · intro absent
    have own : lookup (s.laneByCommit.insertIfAbsent key lane).2 key = some lane := by rw [left, if_pos ⟨rfl, absent⟩]
    have stays {other : CommitKey} (different : other ≠ key) :
        lookup (s.laneByCommit.insertIfAbsent key lane).2 other = reserved s other := by
      rw [left, if_neg fun both => different both.1]
    refine ⟨kept.covered, distinct, ?_, nofun, ?_⟩
    · intro first second shared one two
      change lookup _ first = _ at one
      change lookup _ second = _ at two
      by_cases hit : first = key
      · by_cases also : second = key
        · rw [hit, also]
        · rw [stays also] at two
          rw [hit, own] at one
          exact absurd one (kept.spare second shared two)
      · rw [stays hit] at one
        by_cases also : second = key
        · rw [also, own] at two
          exact absurd two (kept.spare first shared one)
        · rw [stays also] at two
          exact kept.apart first second shared one two
    · intro other
      rw [kept.taken]
      constructor
      · rintro (same | ⟨owner, there⟩)
        · exact .inr ⟨key, own.trans same⟩
        · refine .inr ⟨owner, (stays ?_).trans there⟩
          rintro rfl
          simp [absent] at there
      · rintro (⟨⟨⟩⟩ | ⟨owner, there⟩)
        change lookup _ owner = _ at there
        by_cases hit : owner = key
        · rw [hit, own] at there
          exact .inl there
        · rw [stays hit] at there
          exact .inr ⟨owner, there⟩
  · intro there
    have same : lookup (s.laneByCommit.insertIfAbsent key lane).2 = reserved s := by
      funext other
      rw [left, if_neg fun both => there both.2]
    refine ⟨Slots.release_covered kept.covered lane, distinct, ?_, nofun, ?_⟩
    · intro first second shared one two
      change lookup _ first = _ at one
      change lookup _ second = _ at two
      rw [same] at one two
      exact kept.apart first second shared one two
    · intro other
      show (s.slots.release lane).Taken other ↔ none = some other ∨ ∃ key, lookup _ key = some other
      rw [Slots.release_taken, kept.taken, same]
      constructor
      · rintro ⟨different, hand | waits⟩
        · exact absurd (Option.some.inj hand).symm different
        · exact .inr waits
      rintro (⟨⟨⟩⟩ | ⟨owner, waits⟩)
      refine ⟨?_, .inr ⟨owner, waits⟩⟩
      rintro rfl
      exact kept.spare owner other waits rfl

/-- What some reservations change: an old one stays, and exactly the given commits get a new one. -/
structure Reserves (s next : CommitLaneState) (keys : List CommitKey) : Prop where
  keeps : ∀ key lane, reserved s key = some lane → reserved next key = some lane
  fresh : ∀ key, reserved next key = none ↔ key ∉ keys ∧ reserved s key = none

theorem Reserves.nothing (s : CommitLaneState) (slots : Slots) : Reserves s ⟨slots, s.laneByCommit⟩ [] :=
  ⟨fun _ _ there => there, fun key => by simp [reserved]⟩

theorem Reserves.trans {s next last : CommitLaneState} {keys more : List CommitKey} (head : Reserves s next keys)
    (tail : Reserves next last more) : Reserves s last (keys ++ more) where
  keeps key lane there := tail.keeps key lane (head.keeps key lane there)
  fresh key := by
    rw [tail.fresh, head.fresh, mem_append]
    tauto

theorem insert_reserves (distinct : Distinct s.laneByCommit) (slots : Slots) (key : CommitKey)
    (lane : Nat) : Reserves s ⟨slots, (s.laneByCommit.insertIfAbsent key lane).2⟩ [key] := by
  obtain ⟨-, -, left⟩ := insertIfAbsent_spec distinct key lane
  constructor
  · intro other old there
    show lookup _ other = _
    rw [left]
    split_ifs with new
    · rw [← new.1] at new
      exact absurd (there.symm.trans new.2) nofun
    · exact there
  · intro other
    show lookup _ other = none ↔ other ∉ [key] ∧ lookup s.laneByCommit other = none
    rw [left, mem_singleton]
    by_cases same : other = key
    · subst same
      by_cases absent : lookup s.laneByCommit other = none <;> simp [absent]
    · simp [same]

theorem reserveFirst_spec (kept : Kept s (some lane)) (parent : Option CommitId) :
    ∃ next, s.reserveFirst lane parent = some next ∧ Kept next none ∧ Reserves s next (parent.toList.map CommitKey.ofId) ∧
      (s.slots.Reachable → next.slots.Reachable) := by
  cases parent with
  | none =>
    refine ⟨⟨s.slots.release lane, s.laneByCommit⟩, rfl, ?_, .nothing s _, .release lane⟩
    refine ⟨Slots.release_covered kept.covered lane, kept.distinct, kept.apart, nofun, fun other => ?_⟩
    rw [Slots.release_taken, kept.taken]
    constructor
    · rintro ⟨different, hand | waits⟩
      · exact absurd (Option.some.inj hand).symm different
      · exact .inr waits
    rintro (⟨⟨⟩⟩ | ⟨owner, waits⟩)
    refine ⟨?_, .inr ⟨owner, waits⟩⟩
    rintro rfl
    exact kept.spare owner other waits rfl
  | some parent =>
    obtain ⟨new, old⟩ := reserve_spec kept (.ofId parent)
    obtain ⟨answer, -, -⟩ := insertIfAbsent_spec kept.distinct (.ofId parent) lane
    have marked : s.slots.mark lane = some s.slots := Slots.mark_taken ((kept.taken lane).mpr (.inl rfl))
    have grown (slots : Slots) := insert_reserves kept.distinct slots (.ofId parent) lane
    unfold CommitLaneState.reserveFirst
    cases inserted : s.laneByCommit.insertIfAbsent (.ofId parent) lane with
    | mk added active =>
      rw [inserted] at answer new old grown
      cases added with
      | true =>
        have absent : reserved s (.ofId parent) = none := by simpa [reserved] using answer.symm
        refine ⟨⟨s.slots, active⟩, ?_, new absent, grown s.slots, id⟩
        simp [inserted, marked]
      | false =>
        have waits : reserved s (.ofId parent) ≠ none := by
          intro absent
          change false = (reserved s (.ofId parent)).isNone at answer
          simp [absent] at answer
        refine ⟨⟨s.slots.release lane, active⟩, ?_, old waits, grown _, .release lane⟩
        simp [inserted]

theorem reserveParent_spec (kept : Kept s none) (parent : CommitId) :
    Kept (s.reserveParent parent) none ∧ Reserves s (s.reserveParent parent) [.ofId parent] ∧
      (s.slots.Reachable → (s.reserveParent parent).slots.Reachable) := by
  have least := Slots.allocate_least kept.covered
  have given : Kept ⟨s.slots.allocate.2, s.laneByCommit⟩ (some s.slots.allocate.1) := by
    refine ⟨Slots.allocate_covered kept.covered, kept.distinct, kept.apart, ?_, fun lane => ?_⟩
    · rintro key lane there ⟨⟩
      exact least.1 ((kept.taken _).mpr (.inr ⟨key, there⟩))
    · show s.slots.allocate.2.Taken lane ↔ some s.slots.allocate.1 = some lane ∨ ∃ key, reserved s key = some lane
      rw [Slots.allocate_taken, kept.taken, Option.some_inj]
      simp [eq_comm]
  obtain ⟨new, old⟩ := reserve_spec given (.ofId parent)
  obtain ⟨answer, -, -⟩ := insertIfAbsent_spec kept.distinct (.ofId parent) s.slots.allocate.1
  have grown (slots : Slots) := insert_reserves kept.distinct slots (.ofId parent) s.slots.allocate.1
  unfold CommitLaneState.reserveParent
  cases inserted : s.laneByCommit.insertIfAbsent (.ofId parent) s.slots.allocate.1 with
  | mk added active =>
    rw [inserted] at answer grown
    simp only [inserted] at new old
    cases added with
    | true => exact ⟨new (by simpa [reserved] using answer.symm), grown _, .allocate⟩
    | false =>
      refine ⟨old fun absent => ?_, grown _, fun reachable => .release _ (.allocate reachable)⟩
      change false = (reserved s (.ofId parent)).isNone at answer
      simp [show reserved s (.ofId parent) = none from absent] at answer

theorem reserveParents_spec (kept : Kept s none) (parents : List CommitId) : Kept (parents.foldl CommitLaneState.reserveParent s) none ∧
      Reserves s (parents.foldl CommitLaneState.reserveParent s) (parents.map CommitKey.ofId) ∧
      (s.slots.Reachable → (parents.foldl CommitLaneState.reserveParent s).slots.Reachable) := by
  induction parents generalizing s with
  | nil => exact ⟨kept, .nothing s s.slots, id⟩
  | cons parent parents ih =>
    obtain ⟨first, grown, reach⟩ := reserveParent_spec kept parent
    obtain ⟨rest, more, further⟩ := ih first
    exact ⟨rest, grown.trans more, further ∘ reach⟩

theorem lay_spec (kept : Kept s none) (c : Commit) :
    ∃ lane next, s.lay c = some (lane, next) ∧ Kept next none ∧ (s.slots.Reachable → next.slots.Reachable) ∧
      (∀ own, reserved s (.ofId c.id) = some own → lane = own) ∧
      (reserved s (.ofId c.id) = none → IsLeast {lane | ¬ s.slots.Taken lane} lane) ∧
      (∀ key lane, key ≠ .ofId c.id → reserved s key = some lane → reserved next key = some lane) ∧ (∀ key, reserved next key = none ↔
        key ∉ c.parents.map CommitKey.ofId ∧ (key = .ofId c.id ∨ reserved s key = none)) := by
  obtain ⟨taken, own, new, left⟩ := takeLane_spec kept (.ofId c.id)
  obtain ⟨first, ran, held, grown, reach⟩ := reserveFirst_spec taken c.parents.head?
  obtain ⟨whole, more, further⟩ := reserveParents_spec held (c.parents.drop 1)
  have parents : c.parents.head?.toList.map CommitKey.ofId ++ (c.parents.drop 1).map CommitKey.ofId =
      c.parents.map CommitKey.ofId := by
    cases c.parents <;> rfl
  have all := grown.trans more
  rw [parents] at all
  have done : s.lay c = some ((s.takeLane (.ofId c.id)).1,
      { (c.parents.drop 1).foldl CommitLaneState.reserveParent first with
        slots := ((c.parents.drop 1).foldl CommitLaneState.reserveParent first).slots.truncate }) := by
    simp [CommitLaneState.lay, ran]
  refine ⟨_, _, done, ?_, ?_, own, new, ?_, ?_⟩
  · exact ⟨Slots.truncate_covered whole.covered, whole.distinct, whole.apart, whole.spare,
      fun lane => (Slots.truncate_taken _ lane).trans (whole.taken lane)⟩
  · intro reachable
    refine .truncate (further (reach ?_))
    unfold CommitLaneState.takeLane
    split
    · exact reachable
    · exact .allocate reachable
  · intro key lane different there
    refine all.keeps key lane ?_
    rw [left, if_neg different]
    exact there
  · intro key
    refine (all.fresh key).trans (and_congr_right fun _ => ?_)
    rw [left]
    split_ifs with same <;> simp [same]

theorem append_pair (s : CommitLaneState) (front back : List Commit) : s.append (front ++ back) = (s.append front).bind fun (rows, next) =>
      (next.append back).map fun (more, last) => (rows ++ more, last) := by
  induction front generalizing s with
  | nil => cases h : s.append back <;> simp [CommitLaneState.append]
  | cons c front ih =>
    cases laid : s.lay c with
    | none => simp [CommitLaneState.append, laid]
    | some placed =>
      obtain ⟨lane, next⟩ := placed
      simp only [cons_append, CommitLaneState.append, laid, ih, Option.bind_eq_bind, Option.bind_some]
      cases next.append front with
      | none => rfl
      | some result =>
        obtain ⟨rows, middle⟩ := result
        simp only [Option.bind_some]
        cases middle.append back <;> rfl

/-- A history that comes page by page. -/
def appendPages (s : CommitLaneState) : List (List Commit) → Option (List CommitGraphRow × CommitLaneState)
  | [] => some ([], s)
  | page :: pages => (s.append page).bind fun (rows, next) => (appendPages next pages).map fun (more, last) => (rows ++ more, last)

theorem appendPages_flatten (s : CommitLaneState) (pages : List (List Commit)) : appendPages s pages = s.append pages.flatten := by
  induction pages generalizing s with
  | nil => rfl
  | cons page pages ih =>
    rw [appendPages, flatten_cons, append_pair]
    simp [ih]

theorem append_concat {s next : CommitLaneState} {before : List Commit} {rows : List CommitGraphRow}
    (ran : s.append before = some (rows, next)) (c : Commit) : s.append (before ++ [c]) = (next.lay c).map fun (lane, last) =>
      (rows ++ [last.graphRow lane (decide (1 < c.parents.length))], last) := by
  rw [append_pair, ran]
  cases laid : next.lay c <;> simp [CommitLaneState.append, laid]

variable (history : List Commit)

/-- The commit was announced as a parent, and has not been placed since. -/
def Pending (id : CommitId) : Prop :=
  ∃ early a late, history = early ++ a :: late ∧ id ∈ a.parents ∧ ∀ c ∈ late, c.id ≠ id

theorem pending_concat (c : Commit) (id : CommitId) : Pending (history ++ [c]) id ↔ id ∈ c.parents ∨ c.id ≠ id ∧ Pending history id := by
  constructor
  · rintro ⟨early, a, late, whole, announced, since⟩
    rcases eq_nil_or_concat late with rfl | ⟨late, last, rfl⟩
    · obtain ⟨-, same⟩ := append_inj' whole rfl
      rw [(cons_eq_cons.mp same).1]
      exact .inl announced
    rw [concat_eq_append, ← cons_append, ← append_assoc] at whole
    obtain ⟨front, same⟩ := append_inj' whole rfl
    rw [(cons_eq_cons.mp same).1]
    exact .inr ⟨since last (by simp), early, a, late, front, announced, fun d mem => since d (by simp [mem])⟩
  · rintro (announced | ⟨other, early, a, late, rfl, announced, since⟩)
    · exact ⟨history, c, [], rfl, announced, nofun⟩
    refine ⟨early, a, late ++ [c], by simp, announced, fun d mem => ?_⟩
    rcases mem_append.mp mem with inside | last
    · exact since d inside
    · rw [mem_singleton.mp last]
      exact other

theorem append_spec : ∃ rows s, CommitLaneState.append {} history = some (rows, s) ∧ Kept s none ∧ s.slots.Reachable ∧
      ∀ id, reserved s (.ofId id) = none ↔ ¬ Pending history id := by
  induction history using List.reverseRecOn with
  | nil =>
    refine ⟨[], {}, rfl, kept_start, .start, fun id => iff_of_true rfl ?_⟩
    rintro ⟨early, a, late, whole, -⟩
    simp at whole
  | append_singleton history c ih =>
    obtain ⟨rows, s, ran, kept, reachable, waits⟩ := ih
    obtain ⟨lane, next, laid, kept', reach, -, -, -, fresh⟩ := lay_spec kept c
    have whole : CommitLaneState.append {} (history ++ [c]) =
        some (rows ++ [next.graphRow lane (decide (1 < c.parents.length))], next) := by
      rw [append_concat ran, laid]
      rfl
    refine ⟨_, next, whole, kept', reach reachable, fun id => ?_⟩
    · rw [fresh, waits, pending_concat, CommitKey.ofId_injective.eq_iff, mem_map_of_injective CommitKey.ofId_injective]
      tauto

theorem append_keeps (kept : Kept s none) {id : CommitId} (there : reserved s (.ofId id) = some lane) {late : List Commit}
    (since : ∀ c ∈ late, c.id ≠ id) : ∃ rows next, s.append late = some (rows, next) ∧ reserved next (.ofId id) = some lane := by
  induction late generalizing s with
  | nil => exact ⟨[], s, rfl, there⟩
  | cons c late ih =>
    obtain ⟨at', next, laid, kept', -, -, -, keeps, -⟩ := lay_spec kept c
    have different : CommitKey.ofId id ≠ .ofId c.id := fun same => since c mem_cons_self (CommitKey.ofId_injective same).symm
    obtain ⟨rows, last, ran, stays⟩ := ih kept' (keeps _ lane different there)
      fun d mem => since d (mem_cons_of_mem c mem)
    have whole : s.append (c :: late) =
        some (next.graphRow at' (decide (1 < c.parents.length)) :: rows, last) := by
      rw [CommitLaneState.append, laid]
      simp [ran]
    exact ⟨_, last, whole, stays⟩

/-- The lane of a commit behind a history. -/
def laneOf (c : Commit) : Option Nat :=
  (CommitLaneState.append {} history).bind fun (_, s) => (s.lay c).map Prod.fst

/-- The lane that waits for a commit behind a history. -/
def reservedAfter (id : CommitId) : Option Nat :=
  (CommitLaneState.append {} history).bind fun (_, s) => reserved s (.ofId id)

/-- No two commits that are still to come share a lane, and theirs are the occupied lanes. -/
def OneLaneEach (s : CommitLaneState) : Prop :=
  (∀ key other lane, reserved s key = some lane → reserved s other = some lane → key = other) ∧
    ∀ lane, s.slots.Taken lane ↔ ∃ key, reserved s key = some lane

theorem Kept.oneLaneEach (kept : Kept s none) : OneLaneEach s :=
  ⟨kept.apart, fun lane => (kept.taken lane).trans (by simp)⟩

theorem graphRow_lane (s : CommitLaneState) (lane : Nat) (isMerge : Bool) :
    (s.graphRow lane isMerge).lane.toNat = min lane (MAX_RENDERED_LANES - 1) := by
  have small : min lane (MAX_RENDERED_LANES - 1) ≤ 63 := Nat.min_le_right _ _
  show ((CommitLaneState.u8TryFrom (min lane (MAX_RENDERED_LANES - 1))).getD 255).toNat = _
  rw [CommitLaneState.u8TryFrom, if_pos (by omega), Option.getD_some, UInt8.toNat_ofNat']
  omega

/-- The lanes over every history, in whatever pages it comes. -/
theorem append_lanes (pages : List (List Commit)) : appendPages {} pages = CommitLaneState.append {} pages.flatten ∧
      (∀ before c after, pages.flatten = before ++ c :: after →
        ∃ rows s lane next row, CommitLaneState.append {} before = some (rows, s) ∧ s.lay c = some (lane, next) ∧
          CommitLaneState.append {} (before ++ [c]) = some (rows ++ [row], next) ∧
          row.lane.toNat = min lane (MAX_RENDERED_LANES - 1) ∧ OneLaneEach next ∧ next.slots.Reachable ∧
          (∀ early a late, before = early ++ a :: late → c.id ∈ a.parents → (∀ d ∈ late, d.id ≠ c.id) →
            a.id = c.id ∨ ¬ Pending early c.id → reservedAfter (early ++ [a]) c.id = some lane) ∧
          (¬ Pending before c.id → IsLeast {lane | ¬ s.slots.Taken lane} lane)) ∧
      (∀ slots : Slots, slots.Reachable → IsLeast {lane | ¬ slots.Taken lane} slots.allocate.1) ∧
      ∀ calls, answers ({} : ActiveLanes CommitKey) calls = mapAnswers (fun _ => none) calls := by
  refine ⟨appendPages_flatten {} pages, ?_, fun slots reachable => Slots.allocate_least reachable.covered, answers_map nodup_nil⟩
  intro before c after _
  obtain ⟨rows, s, ran, kept, reachable, waits⟩ := append_spec before
  obtain ⟨lane, next, laid, kept', reach, own, new, -, -⟩ := lay_spec kept c
  refine ⟨rows, s, lane, next, next.graphRow lane (decide (1 < c.parents.length)), ran, laid, ?_, graphRow_lane next lane _, kept'.oneLaneEach,
    reach reachable, ?_, fun free => new ((waits c.id).mpr free)⟩
  · rw [append_concat ran, laid]
    rfl
  rintro early a late rfl announced since -
  obtain ⟨rows', s', ran', kept', -, waits'⟩ := append_spec (early ++ [a])
  have pending : Pending (early ++ [a]) c.id := (pending_concat early a c.id).mpr (.inl announced)
  obtain ⟨first, there⟩ := Option.ne_none_iff_exists'.mp fun absent => (waits' c.id).mp absent pending
  obtain ⟨more, last, further, stays⟩ := append_keeps kept' there since
  have whole : CommitLaneState.append {} (early ++ a :: late) = some (rows' ++ more, last) := by
    rw [append_cons, append_pair, ran']
    simp [further]
  rw [whole] at ran
  obtain ⟨-, rfl⟩ := Prod.mk.inj (Option.some.inj ran)
  rw [own first stays, reservedAfter, ran']
  exact there

/-- A commit that comes twice. Its second row does not sit where the first commit that announced it
    had reserved a lane. -/
theorem append_lanes_again : ¬ ∀ (before : List Commit) (c : Commit) (early : List Commit) (a : Commit) (late : List Commit),
      before = early ++ a :: late → c.id ∈ a.parents → (∀ d ∈ early, c.id ∉ d.parents) →
        laneOf before c = reservedAfter (early ++ [a]) c.id := by
  intro first
  have there := first [⟨⟨['a']⟩, [⟨['c']⟩]⟩, ⟨⟨['c']⟩, [⟨['d']⟩]⟩, ⟨⟨['b']⟩, [⟨['c']⟩]⟩] ⟨⟨['c']⟩, []⟩ []
    ⟨⟨['a']⟩, [⟨['c']⟩]⟩ _ rfl (by decide) nofun
  revert there
  decide +kernel

end Ramag.GraphLanes
