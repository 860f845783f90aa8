import Mathlib.Data.List.Sort
import Mathlib.Data.List.Lex
import Mathlib.Data.List.Count
import Mathlib.Data.List.DropRight

/-!
Binary search in sorted lists, and the ranges of positions it finds. A range that
two searches give holds exactly the elements that lie together in the order; some
ranges, merged into separate ones, cut a list into what they hold and the rest.
-/
namespace Ramag.SortedSearch
open List

variable {α β : Type}

/-- The loop halves the window until one position is left. -/
def narrow (cmp : α → Ordering) (xs : List α) : Nat → Nat → Nat → Nat
  | 0, base, _ => base
  | rounds + 1, base, size =>
    if size ≤ 1 then base
    else
      match xs[base + size / 2]? with
      | some x => narrow cmp xs rounds (if cmp x = .gt then base else base + size / 2) (size - size / 2)
      | none => base

/-- A position that compares equal, or the one where such an element belongs. -/
def binarySearchBy (cmp : α → Ordering) (xs : List α) : Except Nat Nat :=
  let base := narrow cmp xs xs.length 0 xs.length
  match xs[base]? with
  | some x =>
    match cmp x with
    | .eq => .ok base
    | .lt => .error (base + 1)
    | .gt => .error base
  | none => .error 0

/-- The first position behind the elements that pass. -/
def partitionPoint (p : α → Bool) (xs : List α) : Nat :=
  match binarySearchBy (fun x => if p x then .lt else .gt) xs with
  | .ok index => index
  | .error index => index

variable {cmp : α → Ordering}

/-- The window keeps the border between two halves. -/
theorem narrow_border {xs : List α} {border : Nat}
    (before : ∀ i x, xs[i]? = some x → i < border → cmp x = .lt) (after : ∀ i x, xs[i]? = some x → border ≤ i → cmp x = .gt)
    (rounds base size : Nat) (enough : size ≤ rounds) (some' : 0 < size) (inside : base + size ≤ xs.length)
    (low : base ≤ border) (high : border ≤ base + size) :
    narrow cmp xs rounds base size ≤ border ∧ border ≤ narrow cmp xs rounds base size + 1 ∧ narrow cmp xs rounds base size < xs.length := by
  induction rounds generalizing base size with
  | zero => omega
  | succ rounds ih =>
    rw [narrow]
    split_ifs with single
    · exact ⟨low, by omega, by omega⟩
    have middle : base + size / 2 < xs.length := by omega
    simp only [getElem?_eq_getElem middle]
    have there := getElem?_eq_getElem middle
    by_cases left : base + size / 2 < border
    · have less := before _ _ there left
      rw [if_neg (by rw [less]; exact nofun)]
      exact ih (base + size / 2) (size - size / 2) (by omega) (by omega) (by omega) (by omega) (by omega)
    · have greater := after _ _ there (by omega)
      rw [if_pos greater]
      exact ih base (size - size / 2) (by omega) (by omega) (by omega) (by omega) (by omega)

theorem partitionPoint_append {p : α → Bool} {front back : List α} (pass : ∀ x ∈ front, p x = true)
    (fail : ∀ x ∈ back, p x = false) : partitionPoint p (front ++ back) = front.length := by
  have border := @narrow_border _ (fun x => if p x then .lt else .gt) (front ++ back) front.length
    (by
      intro i x there left
      rw [getElem?_append_left left] at there
      simp [pass x (mem_of_getElem? there)])
    (by
      intro i x there right
      rw [getElem?_append_right right] at there
      simp [fail x (mem_of_getElem? there)])
  unfold partitionPoint binarySearchBy
  by_cases empty : front ++ back = []
  · rw [append_eq_nil_iff] at empty
    simp [empty]
  have some' : 0 < (front ++ back).length := length_pos_iff.mpr empty
  obtain ⟨low, high, inside⟩ := border (front ++ back).length 0 (front ++ back).length le_rfl some' (by omega)
    (Nat.zero_le _) (by simp)
  generalize narrow (fun x => if p x then .lt else .gt) (front ++ back) (front ++ back).length 0
    (front ++ back).length = base at low high inside
  dsimp only
  rw [getElem?_eq_getElem inside]
  by_cases left : base < front.length
  · have passes : p (front ++ back)[base] = true := by
      rw [getElem_append_left left]
      exact pass _ (getElem_mem left)
    simp only [passes, if_true]
    omega
  · have fails : p (front ++ back)[base] = false := by
      rw [getElem_append_right (by omega)]
      exact fail _ (getElem_mem _)
    simp only [fails, Bool.false_eq_true, if_false]
    omega

variable {xs : List α}

/-- When no element that passes comes behind one that fails, the border is where the first fails. -/
theorem partitionPoint_takeWhile {p : α → Bool} (sorted : xs.Pairwise fun a b => p b = true → p a = true) :
    partitionPoint p xs = (xs.takeWhile p).length := by
  have split := takeWhile_append_dropWhile (p := p) (l := xs)
  conv_lhs => rw [← split]
  refine partitionPoint_append (fun x mem => mem_takeWhile_imp mem) fun x mem => ?_
  rw [← split] at sorted
  have behind := (pairwise_append.mp sorted).2.1
  cases rest : xs.dropWhile p with
  | nil => simp [rest] at mem
  | cons first tail =>
    have fails : p first = false := by
      have := head?_dropWhile_not p xs
      rw [rest] at this
      simpa using this
    rw [rest] at mem behind
    rcases mem_cons.mp mem with rfl | later
    · exact fails
    · by_contra passes
      have := rel_of_pairwise_cons behind later (by simpa using passes)
      simp [fails] at this

/-- A search in a sorted list finds an element that is there. -/
theorem binarySearchBy_found (sorted : xs.Pairwise fun a b => (cmp b = .lt → cmp a = .lt) ∧ (cmp a = .gt → cmp b = .gt))
    (there : ∃ x ∈ xs, cmp x = .eq) : ∃ i x, binarySearchBy cmp xs = .ok i ∧ xs[i]? = some x ∧ cmp x = .eq := by
  have window (rounds base size : Nat) (enough : size ≤ rounds) (inside : base + size ≤ xs.length)
      (held : ∃ j x, base ≤ j ∧ j < base + size ∧ xs[j]? = some x ∧ cmp x = .eq) :
      ∃ x, xs[narrow cmp xs rounds base size]? = some x ∧ cmp x = .eq := by
    induction rounds generalizing base size with
    | zero => omega
    | succ rounds ih =>
      obtain ⟨j, x, low, high, at', equal⟩ := held
      rw [narrow]
      split_ifs with single
      · have same : j = base := by omega
        exact ⟨x, same ▸ at', equal⟩
      have middle : base + size / 2 < xs.length := by omega
      simp only [getElem?_eq_getElem middle]
      have ordered (i k : Nat) (a b : α) (less : i < k) (first : xs[i]? = some a) (second : xs[k]? = some b) :
          (cmp b = .lt → cmp a = .lt) ∧ (cmp a = .gt → cmp b = .gt) := by
        obtain ⟨hi, rfl⟩ := List.getElem?_eq_some_iff.mp first
        obtain ⟨hk, rfl⟩ := List.getElem?_eq_some_iff.mp second
        exact List.pairwise_iff_getElem.mp sorted i k hi hk less
      have here := getElem?_eq_getElem middle
      split_ifs with greater
      · refine ih _ _ (by omega) (by omega) ⟨j, x, low, ?_, at', equal⟩
        by_contra right
        rcases Nat.lt_or_ge (base + size / 2) j with past | same
        · have := (ordered _ _ _ _ past here at').2 greater
          simp [equal] at this
        · have same : j = base + size / 2 := by omega
          rw [same, here] at at'
          simp [Option.some.inj at', equal] at greater
      · by_cases less : cmp xs[base + size / 2] = .lt
        · refine ih _ _ (by omega) (by omega) ⟨j, x, ?_, by omega, at', equal⟩
          by_contra left
          have := (ordered _ _ _ _ (by omega) at' here).1 less
          simp [equal] at this
        have same : cmp xs[base + size / 2] = .eq := by
          cases h : cmp xs[base + size / 2]
          · exact absurd h less
          · rfl
          · exact absurd h greater
        exact ih _ _ (by omega) (by omega) ⟨_, _, le_rfl, by omega, here, same⟩
  obtain ⟨x, mem, equal⟩ := there
  obtain ⟨j, inside, rfl⟩ := getElem_of_mem mem
  obtain ⟨x, found, equal⟩ := window xs.length 0 xs.length le_rfl (by omega)
    ⟨j, _, Nat.zero_le j, by omega, getElem?_eq_getElem inside, equal⟩
  refine ⟨_, x, ?_, found, equal⟩
  unfold binarySearchBy
  dsimp only
  rw [found]
  simp [equal]

variable {i : Nat}

theorem binarySearchBy_ok (found : binarySearchBy cmp xs = .ok i) : ∃ x, xs[i]? = some x ∧ cmp x = .eq := by
  unfold binarySearchBy at found
  dsimp only at found
  split at found
  · rename_i x there
    split at found
    · rename_i equal
      cases found
      exact ⟨x, there, equal⟩
    · cases found
    · cases found
  · cases found

structure Range where
  start : Nat
  stop : Nat

def Range.Holds (range : Range) (i : Nat) : Prop := range.start ≤ i ∧ i < range.stop

instance (range : Range) (i : Nat) : Decidable (range.Holds i) := inferInstanceAs (Decidable (_ ∧ _))

/-- Some range holds the position. -/
def held (ranges : List Range) (i : Nat) : Bool := ranges.any fun range => decide (range.Holds i)

variable {ranges : List Range}

theorem held_iff : held ranges i = true ↔ ∃ range ∈ ranges, range.Holds i := by simp [held]

/-- Ranges in the order of their starts, joined to the last one where they meet it. -/
def joinRanges (last : Range) : List Range → List Range
  | [] => [last]
  | range :: ranges =>
    if range.start ≤ last.stop then joinRanges { last with stop := max last.stop range.stop } ranges
    else last :: joinRanges range ranges

def mergeRanges (ranges : List Range) : List Range :=
  match ranges.mergeSort fun a b => decide (a.start ≤ b.start) with
  | [] => []
  | first :: rest => joinRanges first rest

/-- One range ends before the next one starts. -/
def Separate (ranges : List Range) : Prop :=
  (∀ range ∈ ranges, range.start ≤ range.stop) ∧ ranges.Pairwise fun a b => a.stop ≤ b.start

variable {last : Range}

theorem joinRanges_held (sorted : (last :: ranges).Pairwise (·.start ≤ ·.start))
    (i : Nat) : held (joinRanges last ranges) i = held (last :: ranges) i := by
  induction ranges generalizing last with
  | nil => rfl
  | cons range ranges ih =>
    have first := rel_of_pairwise_cons sorted (mem_cons_self)
    rw [joinRanges]
    split_ifs with meets
    · have sorted' : (⟨last.start, max last.stop range.stop⟩ :: ranges).Pairwise (·.start ≤ ·.start) := by
        rw [pairwise_cons] at sorted ⊢
        exact ⟨fun r mem => sorted.1 r (mem_cons_of_mem range mem), sorted.2.of_cons⟩
      rw [ih sorted']
      have both : (⟨last.start, max last.stop range.stop⟩ : Range).Holds i ↔ last.Holds i ∨ range.Holds i := by
        unfold Range.Holds
        dsimp only
        omega
      simp [held, both, Bool.or_assoc]
    · show (decide (last.Holds i) || held (joinRanges range ranges) i) = _
      rw [ih sorted.of_cons]
      rfl

theorem joinRanges_start (sorted : (last :: ranges).Pairwise (·.start ≤ ·.start)) :
    ∀ range ∈ joinRanges last ranges, last.start ≤ range.start := by
  induction ranges generalizing last with
  | nil => simp [joinRanges]
  | cons range ranges ih =>
    have first := rel_of_pairwise_cons sorted (mem_cons_self)
    rw [joinRanges]
    split_ifs with meets
    · refine @ih ⟨last.start, max last.stop range.stop⟩ ?_
      rw [pairwise_cons] at sorted ⊢
      exact ⟨fun r mem => sorted.1 r (mem_cons_of_mem range mem), sorted.2.of_cons⟩
    · refine forall_mem_cons.mpr ⟨le_rfl, fun r mem => ?_⟩
      exact first.trans (ih sorted.of_cons r mem)

theorem joinRanges_separate (proper : ∀ range ∈ last :: ranges, range.start ≤ range.stop)
    (sorted : (last :: ranges).Pairwise (·.start ≤ ·.start)) : Separate (joinRanges last ranges) := by
  induction ranges generalizing last with
  | nil => exact ⟨proper, pairwise_singleton _ _⟩
  | cons range ranges ih =>
    obtain ⟨own, rest⟩ := forall_mem_cons.mp proper
    rw [joinRanges]
    split_ifs with meets
    · refine @ih ⟨last.start, max last.stop range.stop⟩ ?_ ?_
      · exact forall_mem_cons.mpr ⟨own.trans (Nat.le_max_left _ _), fun r mem => rest r (mem_cons_of_mem range mem)⟩
      · rw [pairwise_cons] at sorted ⊢
        exact ⟨fun r mem => sorted.1 r (mem_cons_of_mem range mem), sorted.2.of_cons⟩
    obtain ⟨proper', apart⟩ := ih rest sorted.of_cons
    refine ⟨forall_mem_cons.mpr ⟨own, proper'⟩, pairwise_cons.mpr ⟨fun r mem => ?_, apart⟩⟩
    have := joinRanges_start sorted.of_cons r mem
    omega

theorem mergeSort_start (ranges : List Range) : (ranges.mergeSort fun a b => decide (a.start ≤ b.start)).Pairwise (·.start ≤ ·.start) := by
  have sorted := @pairwise_mergeSort Range (fun a b => decide (a.start ≤ b.start))
    (fun a b c ab bc => by simp only [decide_eq_true_eq] at *; omega) (fun a b => by simp; omega) ranges
  simpa using sorted

/-- Merging changes no position. -/
theorem mergeRanges_held (ranges : List Range) (i : Nat) : held (mergeRanges ranges) i = held ranges i := by
  have sorted := mergeSort_start ranges
  have same : held (ranges.mergeSort fun a b => decide (a.start ≤ b.start)) i = held ranges i := by
    rw [Bool.eq_iff_iff, held_iff, held_iff]
    simp
  rw [← same]
  unfold mergeRanges
  cases sort : ranges.mergeSort fun a b => decide (a.start ≤ b.start) with
  | nil => rfl
  | cons first rest =>
    rw [sort] at sorted
    exact joinRanges_held sorted i

theorem mergeRanges_separate (proper : ∀ range ∈ ranges, range.start ≤ range.stop) : Separate (mergeRanges ranges) := by
  have sorted := mergeSort_start ranges
  have proper' : ∀ range ∈ ranges.mergeSort fun a b => decide (a.start ≤ b.start), range.start ≤ range.stop :=
    fun range mem => proper range (mem_mergeSort.mp mem)
  unfold mergeRanges
  cases sort : ranges.mergeSort fun a b => decide (a.start ≤ b.start) with
  | nil => exact ⟨nofun, List.Pairwise.nil⟩
  | cons first rest =>
    rw [sort] at sorted proper'
    exact joinRanges_separate proper' sorted

/-- The elements in the ranges, one range after the other. -/
def takeRanges (xs : List α) (ranges : List Range) : List α :=
  ranges.flatMap fun range => (xs.drop range.start).take (range.stop - range.start)

/-- The elements outside the ranges, by one walk over both. -/
def dropRanges : Nat → List α → List Range → List α
  | _, [], _ => []
  | i, x :: xs, ranges =>
    let ahead := ranges.dropWhile fun range => decide (range.stop ≤ i)
    match ahead with
    | range :: _ => if range.Holds i then dropRanges (i + 1) xs ahead else x :: dropRanges (i + 1) xs ahead
    | [] => x :: dropRanges (i + 1) xs ahead

/-- The elements at the positions that pass, counted from `i`. -/
def pick (p : Nat → Bool) : Nat → List α → List α
  | _, [] => []
  | i, x :: xs => if p i then x :: pick p (i + 1) xs else pick p (i + 1) xs

theorem pick_append (p : Nat → Bool) (i : Nat) (xs ys : List α) : pick p i (xs ++ ys) = pick p i xs ++ pick p (i + xs.length) ys := by
  induction xs generalizing i with
  | nil => rfl
  | cons x xs ih =>
    have next : i + 1 + xs.length = i + (x :: xs).length := by simp; omega
    rw [cons_append, pick, pick, ih, next]
    split_ifs <;> rfl

variable {p : Nat → Bool}

theorem pick_congr {q : Nat → Bool} (same : ∀ j, i ≤ j → j < i + xs.length → p j = q j) : pick p i xs = pick q i xs := by
  induction xs generalizing i with
  | nil => rfl
  | cons x xs ih => rw [pick, pick, same i le_rfl (by simp), ih fun j low high => same j (by omega) (by simp; omega)]

theorem pick_none (none' : ∀ j, i ≤ j → j < i + xs.length → p j = false) : pick p i xs = [] := by
  induction xs generalizing i with
  | nil => rfl
  | cons x xs ih => rw [pick, none' i le_rfl (by simp), if_neg (by simp), ih fun j low high => none' j (by omega) (by simp; omega)]

theorem pick_all (all : ∀ j, i ≤ j → j < i + xs.length → p j = true) : pick p i xs = xs := by
  induction xs generalizing i with
  | nil => rfl
  | cons x xs ih => rw [pick, all i le_rfl (by simp), if_pos rfl, ih fun j low high => all j (by omega) (by simp; omega)]

/-- Positions that are told by their elements make a filter. -/
theorem pick_filter {q : α → Bool} (told : ∀ j x, xs[j]? = some x → p (i + j) = q x) : pick p i xs = xs.filter q := by
  induction xs generalizing i with
  | nil => rfl
  | cons x xs ih =>
    have here : p i = q x := told 0 x rfl
    have rest := @ih (i + 1) fun j y there => by
      rw [← told (j + 1) y there]
      congr 1
      omega
    rw [pick, here, rest, filter_cons]

theorem pick_perm (p : Nat → Bool) (i : Nat) (xs : List α) : (pick (fun j => !p j) i xs ++ pick p i xs).Perm xs := by
  induction xs generalizing i with
  | nil => exact .nil
  | cons x xs ih =>
    rw [pick, pick]
    cases p i with
    | true => exact perm_middle.trans ((ih (i + 1)).cons x)
    | false => exact (ih (i + 1)).cons x

section
variable [BEq α] [LawfulBEq α]

theorem pick_count_none {p : Nat → Bool} {i : Nat} {xs : List α} {x : α} (none' : ∀ j, xs[j]? = some x → p (i + j) = false) :
    (pick p i xs).count x = 0 := by
  induction xs generalizing i with
  | nil => rfl
  | cons y xs ih =>
    have rest := @ih (i + 1) fun j there => by
      rw [← none' (j + 1) there]
      congr 1
      omega
    rw [pick]
    split_ifs with passes
    · have other : y ≠ x := by
        rintro rfl
        have := none' 0 rfl
        simp [Nat.add_zero, passes] at this
      rw [count_cons_of_ne other, rest]
    · exact rest

/-- One position that passes gives one copy. -/
theorem pick_count_one {p : Nat → Bool} {i k : Nat} {xs : List α} {x : α} (there : xs[k]? = some x)
    (only : ∀ j, xs[j]? = some x → (p (i + j) = true ↔ j = k)) : (pick p i xs).count x = 1 := by
  induction xs generalizing i k with
  | nil => cases there
  | cons y xs ih =>
    cases k with
    | zero =>
      have same : y = x := Option.some.inj there
      subst same
      have passes : p i = true := (only 0 rfl).mpr rfl
      have rest := @pick_count_none _ _ _ p (i + 1) xs y fun j at' => by
        have := only (j + 1) at'
        rw [show i + (j + 1) = i + 1 + j by omega] at this
        simpa using this
      rw [pick, if_pos passes, count_cons_self, rest]
    | succ k =>
      have rest := @ih (i + 1) k there fun j at' => by
        have := only (j + 1) at'
        rw [show i + (j + 1) = i + 1 + j by omega] at this
        simpa using this
      rw [pick]
      split_ifs with passes
      · have other : y ≠ x := by
          rintro rfl
          have := (only 0 rfl).mp passes
          omega
        rw [count_cons_of_ne other, rest]
      · exact rest

omit [LawfulBEq α] in
theorem pick_count_add (p : Nat → Bool) (i : Nat) (xs : List α) (x : α) :
    (pick (fun j => !p j) i xs).count x + (pick p i xs).count x = xs.count x := by
  rw [← count_append, (pick_perm p i xs).count_eq]

end

theorem pick_sublist (p : Nat → Bool) (i : Nat) (xs : List α) : (pick p i xs).Sublist xs := by
  induction xs generalizing i with
  | nil => exact .slnil
  | cons x xs ih =>
    rw [pick]
    split_ifs
    · exact (ih (i + 1)).cons_cons x
    · exact (ih (i + 1)).cons x

theorem Separate.tail {range : Range} (separate : Separate (range :: ranges)) : Separate ranges :=
  ⟨fun r mem => separate.1 r (mem_cons_of_mem range mem), separate.2.of_cons⟩

theorem Separate.later {range other : Range} (separate : Separate (range :: ranges))
    (mem : other ∈ ranges) : range.stop ≤ other.start := rel_of_pairwise_cons separate.2 mem

theorem takeRanges_pick (separate : Separate ranges) (xs : List α) (i : Nat)
    (ahead : ∀ range ∈ ranges, i ≤ range.start) : takeRanges xs ranges = pick (held ranges) i (xs.drop i) := by
  induction ranges generalizing i with
  | nil => exact (pick_none fun j _ _ => rfl).symm
  | cons range ranges ih =>
    have low := ahead range mem_cons_self
    have proper := separate.1 range mem_cons_self
    have rest := ih separate.tail range.stop fun r mem => separate.later mem
    -- what lies before the range, in it and behind it
    have parts : xs.drop i = (xs.drop i).take (range.start - i) ++
        ((xs.drop range.start).take (range.stop - range.start) ++ xs.drop range.stop) := by
      have behind : (xs.drop range.start).drop (range.stop - range.start) = xs.drop range.stop := by
        rw [drop_drop, Nat.add_sub_cancel' proper]
      have after : (xs.drop i).drop (range.start - i) = xs.drop range.start := by rw [drop_drop, Nat.add_sub_cancel' low]
      rw [← behind, take_append_drop, ← after, take_append_drop]
    have before : pick (held (range :: ranges)) i ((xs.drop i).take (range.start - i)) = [] := by
      refine pick_none fun j _ high => ?_
      rw [length_take] at high
      rw [← Bool.not_eq_true, held_iff]
      rintro ⟨r, mem, start, -⟩
      rcases mem_cons.mp mem with rfl | there
      · omega
      · have := separate.later there
        omega
    by_cases short : xs.length ≤ range.start
    · have gone : xs.drop range.start = [] := drop_eq_nil_of_le short
      have gone' : xs.drop range.stop = [] := drop_eq_nil_of_le (by omega)
      rw [gone, gone', take_nil, append_nil, append_nil] at parts
      have empty : takeRanges xs ranges = [] := by rw [rest, gone']; rfl
      rw [parts, before]
      show (xs.drop range.start).take _ ++ takeRanges xs ranges = _
      rw [gone, take_nil, empty]
      rfl
    · have start : i + ((xs.drop i).take (range.start - i)).length = range.start := by
        rw [length_take, length_drop]
        omega
      have inside : pick (held (range :: ranges)) range.start ((xs.drop range.start).take (range.stop - range.start)) =
          (xs.drop range.start).take (range.stop - range.start) := by
        refine pick_all fun j below high => ?_
        rw [length_take] at high
        exact held_iff.mpr ⟨range, mem_cons_self, below, by omega⟩
      rw [parts, pick_append, before, start, pick_append, inside, nil_append]
      show (xs.drop range.start).take (range.stop - range.start) ++ takeRanges xs ranges = _
      rw [rest]
      congr 1
      by_cases whole : xs.length ≤ range.stop
      · rw [drop_eq_nil_of_le whole]
        rfl
      have stop : range.start + ((xs.drop range.start).take (range.stop - range.start)).length = range.stop := by
        rw [length_take, length_drop]
        omega
      rw [stop]
      refine pick_congr fun j below _ => ?_
      rw [Bool.eq_iff_iff, held_iff, held_iff]
      constructor
      · rintro ⟨r, mem, holds⟩
        exact ⟨r, mem_cons_of_mem range mem, holds⟩
      rintro ⟨r, mem, holds⟩
      rcases mem_cons.mp mem with rfl | there
      · have := holds.2
        omega
      · exact ⟨r, there, holds⟩

theorem dropRanges_pick (separate : Separate ranges) (i : Nat) (xs : List α) :
    dropRanges i xs ranges = pick (fun j => !held ranges j) i xs := by
  induction xs generalizing i ranges with
  | nil => rfl
  | cons x xs ih =>
    have split := takeWhile_append_dropWhile (p := fun range : Range => decide (range.stop ≤ i)) (l := ranges)
    -- ranges that end here hold nothing that is still to come
    have ended (j : Nat) (late : i ≤ j) :
        held (ranges.dropWhile fun range => decide (range.stop ≤ i)) j = held ranges j := by
      rw [Bool.eq_iff_iff, held_iff, held_iff]
      constructor
      · rintro ⟨r, mem, holds⟩
        exact ⟨r, (dropWhile_sublist _).subset mem, holds⟩
      rintro ⟨r, mem, holds⟩
      rw [← split] at mem
      rcases mem_append.mp mem with past | there
      · have ends := mem_takeWhile_imp past
        rw [decide_eq_true_eq] at ends
        have := holds.2
        omega
      · exact ⟨r, there, holds⟩
    have separate' : Separate (ranges.dropWhile fun range => decide (range.stop ≤ i)) :=
      ⟨fun r mem => separate.1 r ((dropWhile_sublist _).subset mem), separate.2.sublist (dropWhile_sublist _)⟩
    have rest : dropRanges (i + 1) xs (ranges.dropWhile fun range => decide (range.stop ≤ i)) =
        pick (fun j => !held ranges j) (i + 1) xs := by
      rw [ih separate' (i + 1)]
      exact pick_congr fun j low _ => by rw [ended j (by omega)]
    rw [dropRanges, pick, ← ended i le_rfl, rest]
    cases ahead : ranges.dropWhile fun range => decide (range.stop ≤ i) with
    | nil => rfl
    | cons range others =>
      rw [ahead] at separate'
      have open' : i < range.stop := by
        have := head?_dropWhile_not (fun range : Range => decide (range.stop ≤ i)) ranges
        rw [ahead] at this
        simpa using this
      have only : held (range :: others) i = decide (range.Holds i) := by
        rw [Bool.eq_iff_iff, held_iff, decide_eq_true_eq]
        constructor
        · rintro ⟨r, mem, holds⟩
          rcases mem_cons.mp mem with rfl | there
          · exact holds
          · have := separate'.later there
            have := holds.1
            omega
        · exact fun holds => ⟨range, mem_cons_self, holds⟩
      rw [only]
      by_cases holds : range.Holds i <;> simp

/-! ### Two sorted lists as one -/

/-- The smaller head goes first; of two equal ones the choice stays. -/
def mergeSorted (cmp : α → α → Ordering) (choice : α → α → α) : List α → List α → List α
  | [], right => right
  | left, [] => left
  | x :: left, y :: right =>
    match cmp x y with
    | .lt => x :: mergeSorted cmp choice left (y :: right)
    | .eq => choice x y :: mergeSorted cmp choice left right
    | .gt => y :: mergeSorted cmp choice (x :: left) right
termination_by left right => left.length + right.length

/-- Neighbours that are equal become one. -/
def dedup [DecidableEq α] : List α → List α
  | [] => []
  | [x] => [x]
  | x :: y :: xs => if x = y then dedup (y :: xs) else x :: dedup (y :: xs)

/-- The comparison is that of the keys in their order. -/
structure Compares {κ : Type} [LinearOrder κ] (cmp : α → α → Ordering) (key : α → κ) : Prop where
  lt : ∀ x y, cmp x y = .lt ↔ key x < key y
  eq : ∀ x y, cmp x y = .eq ↔ key x = key y

section
variable {κ : Type} [LinearOrder κ] {key : α → κ} {cmp : α → α → Ordering} {choice : α → α → α}

theorem Compares.gt (compares : Compares cmp key) (x y : α) : cmp x y = .gt ↔ key y < key x := by
  have less := compares.lt x y
  have equal := compares.eq x y
  cases order : cmp x y with
  | lt => exact iff_of_false nofun (less.mp order).asymm
  | eq => exact iff_of_false nofun (by rw [equal.mp order]; exact lt_irrefl _)
  | gt =>
    rw [order] at less equal
    refine iff_of_true rfl ?_
    rcases lt_trichotomy (key x) (key y) with low | same | high
    · cases less.mpr low
    · cases equal.mpr same
    · exact high

theorem mergeSorted_nil (cmp : α → α → Ordering) (choice : α → α → α) (left : List α) : mergeSorted cmp choice left [] = left := by
  cases left with
  | nil => rw [mergeSorted]
  | cons x left =>
    rw [mergeSorted]
    exact nofun

theorem mem_mergeSorted (chosen : ∀ x y, choice x y = x ∨ choice x y = y)
    {z : α} (left right : List α) (mem : z ∈ mergeSorted cmp choice left right) : z ∈ left ∨ z ∈ right := by
  induction left, right using mergeSorted.induct cmp with
  | case1 right =>
    rw [mergeSorted] at mem
    exact .inr mem
  | case2 left _ =>
    rw [mergeSorted_nil] at mem
    exact .inl mem
  | case3 x left y right less ih =>
    rw [mergeSorted, less] at mem
    rcases mem_cons.mp mem with rfl | later
    · exact .inl mem_cons_self
    · exact (ih later).imp_left (mem_cons_of_mem x)
  | case4 x left y right equal ih =>
    rw [mergeSorted, equal] at mem
    rcases mem_cons.mp mem with head | later
    · rcases chosen x y with first | second
      · rw [head, first]
        exact .inl mem_cons_self
      · rw [head, second]
        exact .inr mem_cons_self
    · exact (ih later).imp (mem_cons_of_mem x) (mem_cons_of_mem y)
  | case5 x left y right greater ih =>
    rw [mergeSorted, greater] at mem
    rcases mem_cons.mp mem with rfl | later
    · exact .inr mem_cons_self
    · exact (ih later).imp_right (mem_cons_of_mem y)

section
variable (compares : Compares cmp key)
include compares

theorem mergeSorted_sorted (chosen : ∀ x y, choice x y = x ∨ choice x y = y)
    (left right : List α) (sorted : left.Pairwise (key · ≤ key ·)) (sorted' : right.Pairwise (key · ≤ key ·)) :
    (mergeSorted cmp choice left right).Pairwise (key · ≤ key ·) := by
  induction left, right using mergeSorted.induct cmp with
  | case1 right =>
    rw [mergeSorted]
    exact sorted'
  | case2 left _ =>
    rw [mergeSorted_nil]
    exact sorted
  | case3 x left y right less ih =>
    rw [mergeSorted, less]
    refine pairwise_cons.mpr ⟨fun z mem => ?_, ih sorted.of_cons sorted'⟩
    have low := ((compares.lt x y).mp less).le
    rcases mem_mergeSorted chosen _ _ mem with own | other
    · exact rel_of_pairwise_cons sorted own
    · rcases mem_cons.mp other with rfl | later
      · exact low
      · exact low.trans (rel_of_pairwise_cons sorted' later)
  | case4 x left y right equal ih =>
    rw [mergeSorted, equal]
    have same := (compares.eq x y).mp equal
    have head : key (choice x y) = key x := by
      rcases chosen x y with first | second
      · rw [first]
      · rw [second, same]
    refine pairwise_cons.mpr ⟨fun z mem => ?_, ih sorted.of_cons sorted'.of_cons⟩
    rw [head]
    rcases mem_mergeSorted chosen _ _ mem with own | other
    · exact rel_of_pairwise_cons sorted own
    · exact same ▸ rel_of_pairwise_cons sorted' other
  | case5 x left y right greater ih =>
    rw [mergeSorted, greater]
    refine pairwise_cons.mpr ⟨fun z mem => ?_, ih sorted sorted'.of_cons⟩
    have low := ((compares.gt x y).mp greater).le
    rcases mem_mergeSorted chosen _ _ mem with own | other
    · rcases mem_cons.mp own with rfl | later
      · exact low
      · exact low.trans (rel_of_pairwise_cons sorted later)
    · exact rel_of_pairwise_cons sorted' other

/-- Lists without a common key lose nothing. -/
theorem mergeSorted_perm (left right : List α)
    (apart : ∀ x ∈ left, ∀ y ∈ right, key x ≠ key y) : (mergeSorted cmp choice left right).Perm (left ++ right) := by
  induction left, right using mergeSorted.induct cmp with
  | case1 right =>
    rw [mergeSorted]
    exact .refl _
  | case2 left _ => rw [mergeSorted_nil, append_nil]
  | case3 x left y right less ih =>
    rw [mergeSorted, less]
    exact (ih fun z mem => apart z (mem_cons_of_mem x mem)).cons x
  | case4 x left y right equal ih => exact absurd ((compares.eq x y).mp equal) (apart x mem_cons_self y mem_cons_self)
  | case5 x left y right greater ih =>
    rw [mergeSorted, greater]
    have rest := ih fun z own w other => apart z own w (mem_cons_of_mem y other)
    exact (rest.cons y).trans perm_middle.symm

/-- What only the right list holds can be told apart again. -/
theorem filter_mergeSorted {p : α → Bool} (told : ∀ x y, key x = key y → p x = p y)
    (left right : List α) (fails : ∀ x ∈ left, p x = false) (passes : ∀ y ∈ right, p y = true) :
    (mergeSorted cmp choice left right).filter p = right := by
  induction left, right using mergeSorted.induct cmp with
  | case1 right =>
    rw [mergeSorted]
    exact filter_eq_self.mpr passes
  | case2 left _ =>
    rw [mergeSorted_nil]
    exact filter_eq_nil_iff.mpr fun x mem => by simp [fails x mem]
  | case3 x left y right less ih =>
    rw [mergeSorted, less, filter_cons_of_neg (by simp [fails x mem_cons_self])]
    exact ih (fun z mem => fails z (mem_cons_of_mem x mem)) passes
  | case4 x left y right equal ih =>
    have same := told x y ((compares.eq x y).mp equal)
    simp [fails x mem_cons_self, passes y mem_cons_self] at same
  | case5 x left y right greater ih =>
    rw [mergeSorted, greater, filter_cons_of_pos (passes y mem_cons_self)]
    exact congrArg (y :: ·) (ih fails fun z mem => passes z (mem_cons_of_mem y mem))

/-- A sorted list that is divided by its keys is put together again. -/
theorem mergeSorted_filter {p : α → Bool} (told : ∀ x y, key x = key y → p x = p y)
    (xs : List α) (sorted : xs.Pairwise (key · ≤ key ·)) : mergeSorted cmp choice (xs.filter fun x => !p x) (xs.filter p) = xs := by
  induction xs with
  | nil => rw [filter_nil, filter_nil, mergeSorted]
  | cons x xs ih =>
    have rest := ih sorted.of_cons
    cases passes : p x with
    | true =>
      rw [filter_cons_of_neg (by simp [passes]), filter_cons_of_pos passes]
      cases left : xs.filter fun x => !p x with
      | nil =>
        rw [left, mergeSorted] at rest
        rw [mergeSorted, rest]
      | cons y ys =>
        have mem : y ∈ xs.filter fun x => !p x := left ▸ mem_cons_self
        obtain ⟨inside, fails⟩ := mem_filter.mp mem
        have order := rel_of_pairwise_cons sorted inside
        have greater : cmp y x = .gt := by
          refine (compares.gt y x).mpr (lt_of_le_of_ne order fun same => ?_)
          simp [← told x y same, passes] at fails
        rw [mergeSorted, greater, ← left]
        exact congrArg (x :: ·) rest
    | false =>
      rw [filter_cons_of_pos (by simp [passes]), filter_cons_of_neg (by simp [passes])]
      cases right : xs.filter p with
      | nil =>
        rw [right, mergeSorted_nil] at rest
        rw [mergeSorted_nil, rest]
      | cons y ys =>
        have mem : y ∈ xs.filter p := right ▸ mem_cons_self
        obtain ⟨inside, holds⟩ := mem_filter.mp mem
        have order := rel_of_pairwise_cons sorted inside
        have less : cmp x y = .lt := by
          refine (compares.lt x y).mpr (lt_of_le_of_ne order fun same => ?_)
          simp [← told x y same, passes] at holds
        rw [mergeSorted, less, ← right]
        exact congrArg (x :: ·) rest

end

end

/-- Two searches find the positions of the elements that lie together in the order. -/
theorem block_positions {below inside : α → Bool} (sorted : xs.Pairwise fun a b => (below b = true → below a = true) ∧
      (below a = false → inside b = true → inside a = true))
    (apart : ∀ x, inside x = true → below x = false) (i : Nat) (x : α) (there : xs[i]? = some x) : (partitionPoint below xs ≤ i ∧
      i < partitionPoint below xs + partitionPoint inside (xs.drop (partitionPoint below xs))) ↔ inside x = true := by
  have start := partitionPoint_takeWhile (sorted.imp And.left)
  have split := takeWhile_append_dropWhile (p := below) (l := xs)
  have rest : xs.drop (xs.takeWhile below).length = xs.dropWhile below := by
    have whole := @drop_left _ (xs.takeWhile below) (xs.dropWhile below)
    rwa [split] at whole
  have above : ∀ y ∈ xs.dropWhile below, below y = false := by
    intro y mem
    cases tail : xs.dropWhile below with
    | nil => simp [tail] at mem
    | cons first tail' =>
      have first' : below first = false := by
        have := head?_dropWhile_not below xs
        rw [tail] at this
        simpa using this
      rw [← split] at sorted
      have order := (pairwise_append.mp sorted).2.1
      rw [tail] at mem order
      rcases mem_cons.mp mem with rfl | later
      · exact first'
      · by_contra low
        simp [(rel_of_pairwise_cons order later).1 (by simpa using low)] at first'
  have sorted' : (xs.dropWhile below).Pairwise fun a b => inside b = true → inside a = true := by
    rw [← split] at sorted
    have order := (pairwise_append.mp sorted).2.1
    refine order.imp_of_mem fun first _ both => both.2 (above _ first)
  have count := partitionPoint_takeWhile sorted'
  rw [start, rest, count]
  have split' := takeWhile_append_dropWhile (p := inside) (l := xs.dropWhile below)
  rw [← split, ← split'] at there
  by_cases early : i < (xs.takeWhile below).length
  · rw [getElem?_append_left early] at there
    have low := mem_takeWhile_imp (mem_of_getElem? there)
    constructor
    · omega
    · intro within
      simp [apart x within] at low
  · rw [getElem?_append_right (by omega)] at there
    by_cases within : i - (xs.takeWhile below).length < ((xs.dropWhile below).takeWhile inside).length
    · rw [getElem?_append_left within] at there
      exact iff_of_true ⟨by omega, by omega⟩ (mem_takeWhile_imp (mem_of_getElem? there))
    rw [getElem?_append_right (by omega)] at there
    refine iff_of_false (by omega) ?_
    have mem := mem_of_getElem? there
    cases tail : (xs.dropWhile below).dropWhile inside with
    | nil => simp [tail] at mem
    | cons first tail' =>
      have first' : inside first = false := by
        have := head?_dropWhile_not inside (xs.dropWhile below)
        rw [tail] at this
        simpa using this
      rw [← split'] at sorted'
      have order := (pairwise_append.mp sorted').2.1
      rw [tail] at mem order
      rcases mem_cons.mp mem with rfl | later
      · simp [first']
      · intro passes
        simp [rel_of_pairwise_cons order later passes] at first'

theorem cons_le_cons [LinearOrder α] {a b : α} {s t : List α} : a :: s ≤ b :: t ↔ a < b ∨ a = b ∧ s ≤ t := by
  rw [le_iff_lt_or_eq, le_iff_lt_or_eq, cons_lt_cons_iff, List.cons.injEq]
  tauto

/-- A text between a prefix and a text that starts with it starts with it too. -/
theorem prefix_between [LinearOrder α] {p x y : List α} (low : p ≤ x) (high : x ≤ y) (starts : p <+: y) : p <+: x := by
  induction p generalizing x y with
  | nil => exact nil_prefix
  | cons a p ih =>
    obtain ⟨y, rfl⟩ : ∃ t, y = a :: t := by
      obtain ⟨t, rfl⟩ := starts
      exact ⟨p ++ t, rfl⟩
    cases x with
    | nil => exact absurd low (not_le.mpr (nil_lt_cons a p))
    | cons b x =>
      rw [cons_le_cons] at low high
      rw [cons_prefix_cons] at starts ⊢
      rcases low with less | ⟨rfl, low⟩
      · rcases high with less' | ⟨rfl, -⟩
        · exact absurd (less.trans less') (lt_irrefl a)
        · exact absurd less (lt_irrefl _)
      · rcases high with less' | ⟨-, high⟩
        · exact absurd less' (lt_irrefl a)
        · exact ⟨rfl, ih low high starts.2⟩

end Ramag.SortedSearch
