import Ramag.StatusMerge
import Mathlib.Data.Char
import Mathlib.Data.Prod.Lex
import Mathlib.Order.WithBot

/-!
When a partial refresh leaves what a full one would. The entries that a search
finds under a prefix are those that are under it, because they lie together in
the order; a merge of what stays and what comes in is then the new list.
-/
namespace Ramag.StatusRefresh
open Strings SortedSearch StatusMerge Fields
open List hiding dedup

/-- The path itself, or a path inside it. -/
def Under (base path : Text) : Prop := path = base ∨ base ++ ['/'] <+: path

instance (base path : Text) : Decidable (Under base path) := inferInstanceAs (Decidable (_ ∨ _))

def UnderAny (paths : List Text) (path : Text) : Prop := ∃ base ∈ paths, Under base path

instance (paths : List Text) (path : Text) : Decidable (UnderAny paths path) :=
  inferInstanceAs (Decidable (∃ base ∈ paths, Under base path))

theorem inside_parent {base parent part : Text} (free : '/' ∉ part) :
    base ++ ['/'] <+: parent ++ '/' :: part ↔ base = parent ∨ base ++ ['/'] <+: parent := by
  constructor
  · rintro ⟨rest, whole⟩
    rw [append_assoc] at whole
    rcases append_eq_append_iff.mp whole with ⟨more, same, tail⟩ | ⟨more, same, tail⟩
    · cases more with
      | nil => exact .inl (by simpa using same.symm)
      | cons c more =>
        obtain ⟨rfl, rest'⟩ := cons_eq_cons.mp tail
        exact .inr ⟨more, by rw [same, append_assoc]; rfl⟩
    · cases more with
      | nil => exact .inl (by simpa using same)
      | cons c more =>
        obtain ⟨rfl, rest'⟩ := cons_eq_cons.mp tail
        exact absurd (rest' ▸ by simp) free
  · rintro (rfl | ⟨rest, whole⟩)
    · exact ⟨part, by simp⟩
    · exact ⟨rest ++ '/' :: part, by rw [← whole, append_assoc, append_assoc, append_assoc]⟩

theorem ancestorMatches_iff (prefixes : List Text) (rounds : Nat) (path : Text) (enough : path.length ≤ rounds) :
    ancestorMatches prefixes rounds path = true ↔ ∃ base ∈ prefixes, base ++ ['/'] <+: path := by
  induction rounds generalizing path with
  | zero =>
    have empty : path = [] := length_eq_zero_iff.mp (by omega)
    simp [ancestorMatches, empty]
  | succ rounds ih =>
    rw [ancestorMatches]
    by_cases free : '/' ∈ path
    · obtain ⟨front, part, rfl, last⟩ : ∃ front part, path = front ++ '/' :: part ∧ '/' ∉ part := by
        obtain ⟨back, front, whole, first⟩ := append_of_mem (mem_reverse.mpr free) |> fun _ => eq_append_cons_of_mem (mem_reverse.mpr free)
        refine ⟨front.reverse, back.reverse, ?_, by simpa using first⟩
        have := congrArg reverse whole
        simpa using this
      rw [rsplitOnce_part front last]
      have shorter : front.length ≤ rounds := by
        rw [length_append, length_cons] at enough
        omega
      simp only [inside_parent last]
      split_ifs with here
      · exact iff_of_true rfl ⟨front, here, .inl rfl⟩
      rw [ih front shorter]
      refine exists_congr fun base => and_congr_right fun mem => ⟨.inr, fun either => either.resolve_left ?_⟩
      rintro rfl
      exact here mem
    · rw [rsplitOnce_free free]
      refine iff_of_false nofun ?_
      rintro ⟨base, -, rest, whole⟩
      exact free (whole ▸ by simp)

theorem pathMatchesPrefixes_iff (path : Text) (prefixes : List Text) :
    pathMatchesPrefixes path prefixes = true ↔ UnderAny prefixes path := by
  unfold pathMatchesPrefixes UnderAny Under
  split_ifs with here
  · exact iff_of_true rfl ⟨path, here, .inl rfl⟩
  rw [ancestorMatches_iff prefixes path.length path le_rfl]
  refine exists_congr fun base => and_congr_right fun mem => ⟨.inr, fun either => either.resolve_left ?_⟩
  rintro rfl
  exact here mem

section
variable {α : Type} {name : α → Text}

theorem blockRange_proper (below inside : α → Bool) (xs : List α) : ∀ range ∈ blockRange below inside xs, range.start ≤ range.stop := by
  intro range mem
  unfold blockRange at mem
  dsimp only at mem
  split_ifs at mem with some'
  · rw [mem_singleton.mp mem]
    dsimp only
    omega
  · cases mem

variable {xs : List α}

theorem blockRange_held {below inside : α → Bool} (sorted : xs.Pairwise fun a b => (below b = true → below a = true) ∧
      (below a = false → inside b = true → inside a = true))
    (apart : ∀ x, inside x = true → below x = false) {i : Nat} {x : α} (there : xs[i]? = some x) :
    held (blockRange below inside xs) i = inside x := by
  have positions := block_positions sorted apart i x there
  rw [Bool.eq_iff_iff, ← positions, held_iff]
  unfold blockRange
  dsimp only
  split_ifs with some'
  · simp [Range.Holds]
  · refine iff_of_false (by simp) ?_
    omega

theorem exact_held (sorted : xs.Pairwise (name · ≤ name ·)) (path : Text) {i : Nat} {x : α} (there : xs[i]? = some x) :
    held (blockRange (fun x => decide (name x < path)) (fun x => decide (name x = path)) xs) i = decide (name x = path) := by
  refine blockRange_held (sorted.imp fun {a b} order => ?_) (fun x same => ?_) there
  · simp only [decide_eq_true_eq, decide_eq_false_iff_not, not_lt]
    refine ⟨order.trans_lt, fun high same => ?_⟩
    rw [same] at order
    exact le_antisymm order high
  · rw [decide_eq_true_eq] at same
    simp [same]

theorem prefix_le {p x : Text} (starts : p <+: x) : p ≤ x := by
  induction p generalizing x with
  | nil => exact not_lt.mp (not_lt_nil x)
  | cons c p ih =>
    obtain ⟨rest, rfl⟩ := starts
    exact cons_le_cons.mpr (.inr ⟨rfl, ih (prefix_append p rest)⟩)

theorem prefix_held (sorted : xs.Pairwise (name · ≤ name ·)) (p : Text) {i : Nat} {x : α} (there : xs[i]? = some x) :
    held (blockRange (fun x => decide (name x < p)) (fun x => p.isPrefixOf (name x)) xs) i = p.isPrefixOf (name x) := by
  refine blockRange_held (sorted.imp fun {a b} order => ?_) (fun x starts => ?_) there
  · simp only [decide_eq_true_eq, decide_eq_false_iff_not, not_lt, isPrefixOf_iff_prefix]
    exact ⟨order.trans_lt, fun high starts => prefix_between high order starts⟩
  · rw [ isPrefixOf_iff_prefix] at starts
    simpa using prefix_le starts

end

theorem held_append (front back : List Range) (i : Nat) : held (front ++ back) i = (held front i || held back i) :=
  any_append

theorem held_flatMap {β : Type} (xs : List β) (ranges : β → List Range) (i : Nat) :
    held (xs.flatMap ranges) i = xs.any fun x => held (ranges x) i := by
  simp [held]

/-- What tells two entries apart: the path and the old path. -/
def identity (file : FileStatus) : Text ×ₗ WithBot Text := toLex (file.path, file.oldPath)

theorem compareText_compares : Compares compareText id where
  lt left right := by
    unfold compareText
    split_ifs with less same <;> simp [less]
  eq left right := by
    unfold compareText
    split_ifs with less same
    · exact iff_of_false nofun less.ne
    · exact iff_of_true rfl same
    · exact iff_of_false nofun same

theorem compareOption_compares : @Compares (Option Text) (WithBot Text) _ compareOption id where
  lt left right := by
    cases left with
    | none =>
      cases right with
      | none => exact iff_of_false nofun (lt_irrefl (⊥ : WithBot Text))
      | some right => exact iff_of_true rfl (WithBot.bot_lt_coe right)
    | some left =>
      cases right with
      | none => exact iff_of_false nofun (WithBot.bot_lt_coe left).asymm
      | some right => exact (compareText_compares.lt left right).trans WithBot.coe_lt_coe.symm
  eq left right := by
    cases left with
    | none =>
      cases right with
      | none => exact iff_of_true rfl rfl
      | some right => exact iff_of_false nofun nofun
    | some left =>
      cases right with
      | none => exact iff_of_false nofun nofun
      | some right => exact (compareText_compares.eq left right).trans (Option.some_inj).symm

theorem compareFileStatus_compares : Compares compareFileStatus identity where
  lt left right := by
    have paths := compareText_compares.lt left.path right.path
    have same := compareText_compares.eq left.path right.path
    have olds := compareOption_compares.lt left.oldPath right.oldPath
    rw [compareFileStatus, Ordering.then_eq_lt, paths, same, olds]
    exact (@Prod.Lex.toLex_lt_toLex Text (WithBot Text) _ _ (left.path, left.oldPath) (right.path, right.oldPath)).symm
  eq left right := by
    have same := compareText_compares.eq left.path right.path
    have olds := compareOption_compares.eq left.oldPath right.oldPath
    rw [compareFileStatus, Ordering.then_eq_eq, same, olds]
    exact ⟨fun both => Prod.ext both.1 both.2, fun equal => ⟨congrArg Prod.fst equal, congrArg Prod.snd equal⟩⟩

/-- The entries in the order of their paths and old paths. -/
def Sorted (files : List FileStatus) : Prop := files.Pairwise (identity · ≤ identity ·)

variable {files : List FileStatus}

theorem Sorted.paths (sorted : Sorted files) : files.Pairwise (·.path ≤ ·.path) :=
  sorted.imp fun {a b} order => by
    rcases Prod.Lex.le_iff.mp order with less | ⟨same, -⟩
    · exact le_of_lt less
    · exact le_of_eq same

theorem mergeSort_keys {α κ : Type} [LinearOrder κ] {cmp : α → α → Ordering} {key : α → κ} (compares : Compares cmp key)
    (xs : List α) : (xs.mergeSort fun left right => cmp left right != .gt).Pairwise (key · ≤ key ·) := by
  have le_iff (a b : α) : (cmp a b != .gt) = true ↔ key a ≤ key b := by rw [bne_iff_ne, Ne, compares.gt, not_lt]
  have sorted := @pairwise_mergeSort _ (fun left right => cmp left right != .gt)
    (fun a b c ab bc => by rw [le_iff] at *; exact ab.trans bc)
    (fun a b => by rw [Bool.or_eq_true, le_iff, le_iff]; exact le_total _ _) xs
  exact sorted.imp fun {a b} order => (le_iff a b).mp order

/-- The paths and old paths of some entries. -/
def mentioned (files : List FileStatus) : List Text := files.flatMap fun file => file.path :: file.oldPath.toList

/-- The entry gives way: its path or its old path is under the prefixes, or is mentioned. -/
def Affected (paths names : List Text) (file : FileStatus) : Prop :=
  UnderAny paths file.path ∨ file.path ∈ names ∨ ∃ old ∈ file.oldPath, UnderAny paths old ∨ old ∈ names

instance (paths names : List Text) (file : FileStatus) : Decidable (Affected paths names file) :=
  inferInstanceAs (Decidable (_ ∨ _ ∨ _))

variable {paths : List Text}

theorem Affected.congr {names : List Text} {file other : FileStatus} (same : identity file = identity other) :
    Affected paths names file ↔ Affected paths names other := by
  have both := Prod.ext_iff.mp (toLex.injective same)
  have path : file.path = other.path := both.1
  have old : file.oldPath = other.oldPath := both.2
  unfold Affected
  rw [path, old]

/-- The ranges of a partial refresh. -/
def statusRanges (files : List FileStatus) (paths names : List Text) : List Range :=
  affectedStatusRanges files paths ++ names.flatMap (pushExactStatusRange files) ++ (files.zipIdx.filter fun (file, _) =>
      file.oldPath.any fun old => pathMatchesPrefixes old paths || decide (old ∈ names)).map
        fun (_, index) => ⟨index, index + 1⟩

theorem statusRanges_proper (files : List FileStatus) (paths names : List Text) :
    ∀ range ∈ statusRanges files paths names, range.start ≤ range.stop := by
  intro range mem
  rcases mem_append.mp mem with front | single
  · rcases mem_append.mp front with under | exact'
    · obtain ⟨base, -, here⟩ := mem_flatMap.mp under
      rcases mem_append.mp here with own | inner
      · exact blockRange_proper _ _ _ range own
      · exact blockRange_proper _ _ _ range inner
    · obtain ⟨name, -, here⟩ := mem_flatMap.mp exact'
      exact blockRange_proper _ _ _ range here
  · obtain ⟨⟨file, index⟩, -, rfl⟩ := mem_map.mp single
    exact Nat.le_succ index

theorem statusRanges_held (sorted : Sorted files) (paths names : List Text) {i : Nat} {file : FileStatus} (there : files[i]? = some file) :
    held (statusRanges files paths names) i = decide (Affected paths names file) := by
  have exact' (path : Text) : held (pushExactStatusRange files path) i = decide (file.path = path) := exact_held sorted.paths path there
  have inner (base : Text) : held (blockRange (fun file => decide (file.path < base ++ ['/']))
      (fun file => (base ++ ['/']).isPrefixOf file.path) files) i = (base ++ ['/']).isPrefixOf file.path :=
    prefix_held sorted.paths (base ++ ['/']) there
  have single : held ((files.zipIdx.filter fun (file, _) =>
      file.oldPath.any fun old => pathMatchesPrefixes old paths || decide (old ∈ names)).map
        fun (_, index) => ⟨index, index + 1⟩) i =
      file.oldPath.any fun old => pathMatchesPrefixes old paths || decide (old ∈ names) := by
    rw [Bool.eq_iff_iff, held_iff]
    constructor
    · rintro ⟨range, mem, holds⟩
      obtain ⟨⟨other, index⟩, passes, rfl⟩ := mem_map.mp mem
      obtain ⟨place, renamed⟩ := mem_filter.mp passes
      have low : index ≤ i := holds.1
      have high : i < index + 1 := holds.2
      have same : index = i := by omega
      rw [mem_zipIdx_iff_getElem?] at place
      rw [same, there] at place
      cases place
      exact renamed
    · intro renamed
      refine ⟨⟨i, i + 1⟩, mem_map.mpr ⟨(file, i), mem_filter.mpr ⟨?_, renamed⟩, rfl⟩, le_rfl, Nat.lt_succ_self i⟩
      exact mem_zipIdx_iff_getElem?.mpr there
  rw [statusRanges, held_append, held_append, held_flatMap, single, affectedStatusRanges, held_flatMap]
  simp only [held_append, exact', inner]
  rw [Bool.eq_iff_iff, decide_eq_true_iff]
  simp only [Affected, UnderAny, Under, Bool.or_eq_true, any_eq_true, decide_eq_true_eq,
    isPrefixOf_iff_prefix, Option.any_eq_true, pathMatchesPrefixes_iff, or_assoc]
  refine or_congr Iff.rfl (or_congr ?_ Iff.rfl)
  exact ⟨fun ⟨name, mem, same⟩ => same ▸ mem, fun mem => ⟨_, mem, rfl⟩⟩

/-- The incoming entries, in order. -/
def arrived (incoming : List FileStatus) : List FileStatus :=
  incoming.mergeSort fun left right => compareFileStatus left right != .gt

/-- The old entries that do not give way. -/
def stays (files : List FileStatus) (paths : List Text) (incoming : List FileStatus) : List FileStatus :=
  files.filter fun file => !decide (Affected paths (mentioned incoming) file)

theorem mentioned_perm {other : List FileStatus} (same : files.Perm other) (name : Text) :
    name ∈ mentioned files ↔ name ∈ mentioned other := (same.flatMap_right _).mem_iff

theorem Affected.names {names other : List Text} (same : ∀ name, name ∈ names ↔ name ∈ other) (file : FileStatus) :
    Affected paths names file ↔ Affected paths other file := by
  unfold Affected
  simp [same]

variable {incoming : List FileStatus}

theorem arrived_affected {file : FileStatus} (mem : file ∈ incoming) : Affected paths (mentioned incoming) file :=
  .inr (.inl (mem_flatMap.mpr ⟨file, mem, mem_cons_self⟩))

theorem mergePartialStatus_spec (sorted : Sorted files) (paths : List Text) (incoming : List FileStatus) :
    (mergePartialStatus files paths incoming).2 = mergeSortedStatuses (stays files paths incoming) (arrived incoming) ∧
      ((mergePartialStatus files paths incoming).1 = false ↔ (mergePartialStatus files paths incoming).2 = files) := by
  have names (name : Text) : name ∈ (mentioned (arrived incoming)).dedup ↔ name ∈ mentioned incoming := by
    rw [mem_dedup]
    exact mentioned_perm (mergeSort_perm _ _) name
  have proper := mergeRanges_separate (statusRanges_proper files paths (mentioned (arrived incoming)).dedup)
  have told (i : Nat) (file : FileStatus) (there : files[i]? = some file) :
      held (mergeRanges (statusRanges files paths (mentioned (arrived incoming)).dedup)) i =
        decide (Affected paths (mentioned incoming) file) := by
    rw [mergeRanges_held, statusRanges_held sorted paths _ there, decide_eq_decide]
    exact Affected.names names file
  have taken : takeRanges files (mergeRanges (statusRanges files paths (mentioned (arrived incoming)).dedup)) =
      files.filter fun file => decide (Affected paths (mentioned incoming) file) := by
    rw [takeRanges_pick proper files 0 (fun _ _ => Nat.zero_le _), drop_zero]
    exact pick_filter fun i file there => by rw [Nat.zero_add]; exact told i file there
  have dropped : dropRanges 0 files (mergeRanges (statusRanges files paths (mentioned (arrived incoming)).dedup)) =
      stays files paths incoming := by
    rw [dropRanges_pick proper 0 files]
    exact pick_filter fun i file there => by rw [Nat.zero_add, told i file there]
  have run : mergePartialStatus files paths incoming =
      if (files.filter fun file => decide (Affected paths (mentioned incoming) file)) = arrived incoming then (false, files)
      else (true, mergeSortedStatuses (stays files paths incoming) (arrived incoming)) := by
    rw [← taken, ← dropped]
    rfl
  have whole : mergeSortedStatuses (stays files paths incoming)
      (files.filter fun file => decide (Affected paths (mentioned incoming) file)) = files :=
    mergeSorted_filter compareFileStatus_compares (fun _ _ same => decide_eq_decide.mpr (Affected.congr same)) files sorted
  rw [run]
  split_ifs with unchanged
  · exact ⟨by rw [← unchanged, whole], iff_of_true rfl rfl⟩
  refine ⟨rfl, iff_of_false nofun fun same => unchanged ?_⟩
  -- the entries that give way are the incoming ones in the new list
  have new : (mergeSortedStatuses (stays files paths incoming) (arrived incoming)).filter
      (fun file => decide (Affected paths (mentioned incoming) file)) = arrived incoming :=
    filter_mergeSorted compareFileStatus_compares (fun x y alike => decide_eq_decide.mpr (Affected.congr alike))
      (stays files paths incoming) (arrived incoming) (fun x old => by simpa using (mem_filter.mp old).2)
      (fun y fresh => decide_eq_true (arrived_affected (mem_mergeSort.mp fresh)))
  rw [← new]
  exact congrArg _ same.symm

variable {paths : List Text}

theorem mergePartialStatus_refresh {old new : List FileStatus} (sorted : Sorted old)
    (ordered : new.Pairwise (·.path < ·.path)) (plain : ∀ file ∈ new, file.oldPath = none)
    (agree : (old.filter fun file => !decide (UnderAny paths file.path)) = new.filter fun file => !decide (UnderAny paths file.path))
    (given : incoming.Perm (new.filter fun file => decide (UnderAny paths file.path))) : (mergePartialStatus old paths incoming).2 = new ∧
      ((mergePartialStatus old paths incoming).1 = false ↔ new = old) := by
  obtain ⟨result, flag⟩ := mergePartialStatus_spec sorted paths incoming
  have inside {file : FileStatus} (mem : file ∈ incoming) : file ∈ new ∧ UnderAny paths file.path := by simpa using given.subset mem
  have affected : ∀ file ∈ old, Affected paths (mentioned incoming) file ↔ UnderAny paths file.path := by
    refine fun file mem => ⟨fun gives => ?_, .inl⟩
    by_contra outside
    have kept : file ∈ old.filter fun file => !decide (UnderAny paths file.path) :=
      mem_filter.mpr ⟨mem, by simpa using outside⟩
    rw [agree] at kept
    have none' := plain file (mem_filter.mp kept).1
    rcases gives with under | named | ⟨name, is, -⟩
    · exact outside under
    · obtain ⟨other, fresh, named⟩ := mem_flatMap.mp named
      rw [plain other (inside fresh).1] at named
      rw [mem_singleton.mp named] at outside
      exact outside (inside fresh).2
    · rw [none'] at is
      cases is
  have left : stays old paths incoming = new.filter fun file => !decide (UnderAny paths file.path) := by
    rw [← agree]
    exact filter_congr fun file mem => by rw [decide_eq_decide.mpr (affected file mem)]
  have identities : new.Pairwise (identity · ≤ identity ·) := ordered.imp fun {a b} less => (Prod.Lex.toLex_lt_toLex.mpr (.inl less)).le
  have right : arrived incoming = new.filter fun file => decide (UnderAny paths file.path) := by
    have perm := (mergeSort_perm incoming fun left right => compareFileStatus left right != .gt).trans given
    refine perm.eq_of_pairwise ?_ (mergeSort_keys compareFileStatus_compares incoming)
      (identities.sublist filter_sublist)
    intro a b first second low high
    have same : a.path = b.path := congrArg (fun key => (ofLex key).1) (le_antisymm low high)
    have distinct : (new.map (·.path)).Nodup := List.Pairwise.map _ (fun _ _ less => ne_of_lt less) ordered
    exact inj_on_of_nodup_map distinct (inside (mem_mergeSort.mp first)).1 (mem_filter.mp second).1 same
  have whole : (mergePartialStatus old paths incoming).2 = new := by
    rw [result, left, right]
    refine mergeSorted_filter compareFileStatus_compares (fun a b same => ?_) new identities
    have path : a.path = b.path := congrArg (fun key => (ofLex key).1) same
    rw [path]
  exact ⟨whole, by rw [flag, whole]⟩

/-- With renames too the list stays sorted, takes every incoming entry and keeps what is not affected;
    an entry is there once when it was once among those that stay and those that came. -/
theorem mergePartialStatus_renames {old : List FileStatus} (sorted : Sorted old) (paths : List Text) (incoming : List FileStatus) :
    Sorted (mergePartialStatus old paths incoming).2 ∧ (∀ file ∈ incoming, file ∈ (mergePartialStatus old paths incoming).2) ∧
      (∀ file ∈ old, ¬ Affected paths (mentioned incoming) file → file ∈ (mergePartialStatus old paths incoming).2) ∧
      ((mergePartialStatus old paths incoming).1 = false ↔ (mergePartialStatus old paths incoming).2 = old) ∧
      (((mergePartialStatus old paths incoming).2.map identity).Nodup ↔
        (incoming.map identity).Nodup ∧ ((stays old paths incoming).map identity).Nodup) := by
  obtain ⟨result, flag⟩ := mergePartialStatus_spec sorted paths incoming
  have apart : ∀ x ∈ stays old paths incoming, ∀ y ∈ arrived incoming, identity x ≠ identity y := by
    intro x stay y fresh alike
    have new := @arrived_affected paths incoming y (mem_mergeSort.mp fresh)
    have kept := (mem_filter.mp stay).2
    rw [← Affected.congr alike] at new
    simp [new] at kept
  have perm : (mergePartialStatus old paths incoming).2.Perm (stays old paths incoming ++ incoming) := by
    rw [result]
    refine (mergeSorted_perm compareFileStatus_compares _ _ apart).trans ?_
    exact (mergeSort_perm incoming _).append_left _
  refine ⟨?_, fun file mem => ?_, fun file mem free => ?_, flag, ?_⟩
  · rw [result]
    exact mergeSorted_sorted compareFileStatus_compares (fun _ _ => .inr rfl) _ _ (sorted.sublist filter_sublist)
      (mergeSort_keys compareFileStatus_compares incoming)
  · exact perm.mem_iff.mpr (mem_append_right _ mem)
  · exact perm.mem_iff.mpr (mem_append_left _ (mem_filter.mpr ⟨mem, by simpa using free⟩))
  · rw [(perm.map identity).nodup_iff, map_append, nodup_append]
    constructor
    · exact fun ⟨left, right, _⟩ => ⟨right, left⟩
    rintro ⟨right, left⟩
    refine ⟨left, right, ?_⟩
    rintro key first other second rfl
    obtain ⟨x, stay, rfl⟩ := mem_map.mp first
    obtain ⟨y, fresh, alike⟩ := mem_map.mp second
    exact apart x stay y (mem_mergeSort.mpr fresh) alike.symm

/-! ### Project files -/

/-- The paths that came in, in order and each once. -/
def arrivedPaths (paths incoming : List Text) : List Text :=
  dedup ((incoming.filter (pathMatchesPrefixes · paths)).mergeSort fun left right => compareText left right != .gt)

/-- A prefix that is not inside another one. -/
def Lone (paths : List Text) (path : Text) : Prop := path ∈ paths ∧ ¬ ∃ base ∈ paths, base ++ ['/'] <+: path

theorem mem_dedup (xs : List Text) (x : Text) : x ∈ dedup xs ↔ x ∈ xs := by
  induction xs using dedup.induct with
  | case1 => rfl
  | case2 y => rfl
  | case3 y xs ih =>
    rw [dedup, if_pos rfl, ih]
    simp
  | case4 y z xs different ih =>
    rw [dedup, if_neg different, mem_cons, ih]
    exact mem_cons.symm

theorem dedup_ordered {xs : List Text} (sorted : xs.Pairwise (· ≤ ·)) : (dedup xs).Pairwise (· < ·) := by
  induction xs using dedup.induct with
  | case1 => exact .nil
  | case2 y => exact pairwise_singleton _ _
  | case3 y xs ih =>
    rw [dedup, if_pos rfl]
    exact ih sorted.of_cons
  | case4 y z xs different ih =>
    rw [dedup, if_neg different]
    refine pairwise_cons.mpr ⟨fun x mem => ?_, ih sorted.of_cons⟩
    have first := rel_of_pairwise_cons sorted (mem_cons_self)
    have less : y < z := lt_of_le_of_ne first different
    rcases mem_cons.mp ((mem_dedup (z :: xs) x).mp mem) with rfl | later
    · exact less
    · exact less.trans_le (rel_of_pairwise_cons sorted.of_cons later)

theorem arrivedPaths_ordered (paths incoming : List Text) : (arrivedPaths paths incoming).Pairwise (· < ·) :=
  dedup_ordered (mergeSort_keys compareText_compares _)

theorem mem_arrivedPaths (paths incoming : List Text) (path : Text) :
    path ∈ arrivedPaths paths incoming ↔ path ∈ incoming ∧ UnderAny paths path := by
  rw [arrivedPaths, mem_dedup, mem_mergeSort, mem_filter, pathMatchesPrefixes_iff]

theorem count_mergeSortedPaths (left right : List Text) (sorted : left.Pairwise (· ≤ ·)) (ordered : right.Pairwise (· < ·)) (path : Text) :
    (mergeSortedPaths left right).count path = max (left.count path) (right.count path) := by
  unfold mergeSortedPaths
  induction left, right using mergeSorted.induct compareText with
  | case1 right => simp [mergeSorted]
  | case2 left _ => simp [mergeSorted_nil]
  | case3 x left y right less ih =>
    have low : x < y := (compareText_compares.lt x y).mp less
    rw [mergeSorted, less]
    by_cases same : x = path
    · subst same
      have gone : (y :: right).count x = 0 := by
        refine count_eq_zero.mpr fun mem => ?_
        rcases mem_cons.mp mem with here | later
        · exact low.ne here
        · exact (low.trans (rel_of_pairwise_cons ordered later)).ne rfl
      rw [count_cons_self, ih sorted.of_cons ordered, count_cons_self, gone]
      omega
    · rw [count_cons_of_ne same, ih sorted.of_cons ordered, count_cons_of_ne same]
  | case4 x left y right equal ih =>
    have alike : x = y := (compareText_compares.eq x y).mp equal
    subst alike
    rw [mergeSorted, equal]
    by_cases same : x = path
    · subst same
      rw [count_cons_self, ih sorted.of_cons ordered.of_cons, count_cons_self, count_cons_self]
      omega
    · rw [count_cons_of_ne same, ih sorted.of_cons ordered.of_cons, count_cons_of_ne same, count_cons_of_ne same]
  | case5 x left y right greater ih =>
    have low : y < x := (compareText_compares.gt x y).mp greater
    rw [mergeSorted, greater]
    by_cases same : y = path
    · subst same
      have gone : (x :: left).count y = 0 := by
        refine count_eq_zero.mpr fun mem => ?_
        rcases mem_cons.mp mem with here | later
        · exact low.ne here
        · exact (low.trans_le (rel_of_pairwise_cons sorted later)).ne rfl
      rw [count_cons_self, ih sorted ordered.of_cons, count_cons_self, gone]
      omega
    · rw [count_cons_of_ne same, ih sorted ordered.of_cons, count_cons_of_ne same]

/-! How the ranges hold the paths: all that are inside a prefix, and one copy of a prefix itself. -/

theorem projectRanges_proper (files paths : List Text) : ∀ range ∈ affectedProjectRanges files paths, range.start ≤ range.stop := by
  intro range mem
  obtain ⟨base, -, here⟩ := mem_flatMap.mp mem
  rcases mem_append.mp here with own | inner
  · cases found : binarySearchBy (compareText · base) files with
    | ok index =>
      rw [found] at own
      rw [mem_singleton.mp own]
      exact Nat.le_succ index
    | error index =>
      rw [found] at own
      cases own
  · exact blockRange_proper _ _ _ range inner

variable {files : List Text}

theorem compareText_sorted (sorted : files.Pairwise (· ≤ ·)) (base : Text) :
    files.Pairwise fun a b => (compareText b base = .lt → compareText a base = .lt) ∧
      (compareText a base = .gt → compareText b base = .gt) := by
  refine sorted.imp fun {a b} order => ⟨fun less => ?_, fun greater => ?_⟩
  · have low : b < base := (compareText_compares.lt b base).mp less
    exact (compareText_compares.lt a base).mpr (order.trans_lt low)
  · have high : base < a := (compareText_compares.gt a base).mp greater
    exact (compareText_compares.gt b base).mpr (high.trans_le order)

variable {path : Text}

theorem projectRanges_held (sorted : files.Pairwise (· ≤ ·)) (paths : List Text) {i : Nat} (there : files[i]? = some path) :
    held (affectedProjectRanges files paths) i = true ↔ (∃ base ∈ paths, base ++ ['/'] <+: path) ∨
        path ∈ paths ∧ binarySearchBy (compareText · path) files = .ok i := by
  have inner (base : Text) : held (blockRange (fun path => decide (path < base ++ ['/']))
      (fun path => (base ++ ['/']).isPrefixOf path) files) i = (base ++ ['/']).isPrefixOf path :=
    @prefix_held _ id _ sorted (base ++ ['/']) _ _ there
  rw [affectedProjectRanges, held_flatMap, any_eq_true]
  simp only [held_append, inner, Bool.or_eq_true, isPrefixOf_iff_prefix]
  constructor
  · rintro ⟨base, mem, own | starts⟩
    · cases found : binarySearchBy (compareText · base) files with
      | ok index =>
        rw [found, held_iff] at own
        obtain ⟨range, single, low, high⟩ := own
        rw [mem_singleton.mp single] at low high
        have same : index = i := by
          change index ≤ i at low
          change i < index + 1 at high
          omega
        obtain ⟨x, at', equal⟩ := binarySearchBy_ok found
        rw [same, there] at at'
        have alike : path = base := Option.some.inj at' ▸ (compareText_compares.eq x base).mp equal
        exact .inr ⟨alike ▸ mem, alike ▸ same ▸ found⟩
      | error index =>
        rw [found] at own
        cases own
    · exact .inl ⟨base, mem, starts⟩
  · rintro (⟨base, mem, starts⟩ | ⟨mem, found⟩)
    · exact ⟨base, mem, .inr starts⟩
    · refine ⟨path, mem, .inl ?_⟩
      rw [found, held_iff]
      exact ⟨⟨i, i + 1⟩, mem_singleton_self _, le_rfl, Nat.lt_succ_self i⟩

/-- The paths in the ranges. -/
def takenPaths (files paths : List Text) : List Text := pick (held (affectedProjectRanges files paths)) 0 files

/-- The paths outside the ranges. -/
def leftPaths (files paths : List Text) : List Text := pick (fun i => !held (affectedProjectRanges files paths) i) 0 files

theorem counts_add (files paths : List Text) (path : Text) :
    (leftPaths files paths).count path + (takenPaths files paths).count path = files.count path :=
  pick_count_add _ 0 files path

theorem taken_outside (sorted : files.Pairwise (· ≤ ·)) (outside : ¬ UnderAny paths path) : (takenPaths files paths).count path = 0 := by
  refine pick_count_none fun i there => ?_
  rw [Nat.zero_add, ← Bool.not_eq_true, projectRanges_held sorted paths there]
  rintro (⟨base, mem, starts⟩ | ⟨mem, -⟩)
  · exact outside ⟨base, mem, .inr starts⟩
  · exact outside ⟨path, mem, .inl rfl⟩

theorem left_inside (sorted : files.Pairwise (· ≤ ·))
    (inside : ∃ base ∈ paths, base ++ ['/'] <+: path) : (leftPaths files paths).count path = 0 := by
  refine pick_count_none fun i there => ?_
  rw [Nat.zero_add, (projectRanges_held sorted paths there).mpr (.inl inside)]
  rfl

theorem taken_lone (sorted : files.Pairwise (· ≤ ·))
    (lone : Lone paths path) : (takenPaths files paths).count path = min 1 (files.count path) := by
  by_cases mem : path ∈ files
  · obtain ⟨i, x, found, there, equal⟩ := binarySearchBy_found (compareText_sorted sorted path)
      ⟨path, mem, (compareText_compares.eq path path).mpr rfl⟩
    have same : x = path := (compareText_compares.eq x path).mp equal
    subst same
    have one : (takenPaths files paths).count x = 1 := by
      refine pick_count_one there fun j at' => ?_
      rw [Nat.zero_add, projectRanges_held sorted paths at', found]
      constructor
      · rintro (inside | ⟨-, same⟩)
        · exact absurd inside lone.2
        · exact (Except.ok.inj same).symm
      · rintro rfl
        exact .inr ⟨lone.1, rfl⟩
    have some' := count_pos_iff.mpr mem
    omega
  · have none' := count_eq_zero.mpr mem
    have := counts_add files paths path
    omega

theorem mergePartialProjectFiles_spec (files paths incoming : List Text) : mergePartialProjectFiles files paths incoming =
      if takenPaths files paths = arrivedPaths paths incoming then (false, files)
      else (true, mergeSortedPaths (leftPaths files paths) (arrivedPaths paths incoming)) := by
  have proper := mergeRanges_separate (projectRanges_proper files paths)
  have taken : takeRanges files (mergeRanges (affectedProjectRanges files paths)) = takenPaths files paths := by
    rw [takeRanges_pick proper files 0 (fun _ _ => Nat.zero_le _), drop_zero]
    exact pick_congr fun j _ _ => mergeRanges_held _ j
  have left : dropRanges 0 files (mergeRanges (affectedProjectRanges files paths)) = leftPaths files paths := by
    rw [dropRanges_pick proper 0 files]
    exact pick_congr fun j _ _ => by rw [mergeRanges_held]
  rw [← taken, ← left]
  rfl

theorem sorted_ext {xs ys : List Text} (sorted : xs.Pairwise (· ≤ ·)) (sorted' : ys.Pairwise (· ≤ ·))
    (counts : ∀ path, xs.count path = ys.count path) : xs = ys :=
  (perm_iff_count.mpr counts).eq_of_pairwise (fun _ _ _ _ low high => le_antisymm low high) sorted sorted'

theorem lone_or_inside (under : UnderAny paths path) : Lone paths path ∨ ∃ base ∈ paths, base ++ ['/'] <+: path := by
  by_cases inside : ∃ base ∈ paths, base ++ ['/'] <+: path
  · exact .inr inside
  · obtain ⟨base, mem, rfl | starts⟩ := under
    · exact .inl ⟨mem, inside⟩
    · exact absurd ⟨base, mem, starts⟩ inside

theorem leftPaths_sorted (sorted : files.Pairwise (· ≤ ·)) (paths : List Text) :
    (leftPaths files paths).Pairwise (· ≤ ·) := sorted.sublist (pick_sublist _ 0 files)

theorem takenPaths_sorted (sorted : files.Pairwise (· ≤ ·)) (paths : List Text) :
    (takenPaths files paths).Pairwise (· ≤ ·) := sorted.sublist (pick_sublist _ 0 files)

theorem arrivedPaths_once (paths incoming : List Text) (path : Text) : (arrivedPaths paths incoming).count path ≤ 1 :=
  nodup_iff_count_le_one.mp ((arrivedPaths_ordered paths incoming).imp ne_of_lt) path

theorem arrivedPaths_outside (incoming : List Text) (outside : ¬ UnderAny paths path) : (arrivedPaths paths incoming).count path = 0 :=
  count_eq_zero.mpr fun mem => outside ((mem_arrivedPaths paths incoming path).mp mem).2

theorem mergePartialProjectFiles_flag (sorted : files.Pairwise (· ≤ ·)) (paths incoming : List Text) :
    (mergePartialProjectFiles files paths incoming).1 = false ↔ (mergePartialProjectFiles files paths incoming).2 = files := by
  rw [mergePartialProjectFiles_spec]
  split_ifs with unchanged
  · exact iff_of_true rfl rfl
  refine iff_of_false nofun fun same => unchanged ?_
  have ordered := arrivedPaths_ordered paths incoming
  refine sorted_ext (takenPaths_sorted sorted paths) (ordered.imp le_of_lt) fun path => ?_
  have merged := count_mergeSortedPaths _ _ (leftPaths_sorted sorted paths) ordered path
  rw [show mergeSortedPaths (leftPaths files paths) (arrivedPaths paths incoming) = files from same] at merged
  have add := counts_add files paths path
  have once := arrivedPaths_once paths incoming path
  by_cases under : UnderAny paths path
  · rcases lone_or_inside under with lone | inside
    · have := taken_lone sorted lone
      omega
    · have := left_inside sorted inside
      omega
  · have := arrivedPaths_outside incoming under
    omega

/-- A prefix of its own that the old list holds more than once. -/
def Repeated (paths old : List Text) (path : Text) : Prop := Lone paths path ∧ 2 ≤ old.count path

/-- Of the copies of a prefix one is replaced. The list comes out right when there are two, the path is
    still there, and something else under the prefixes has changed. -/
def Recoverable (paths old new : List Text) : Prop :=
  ∀ path, Repeated paths old path → old.count path = 2 ∧ path ∈ new ∧
    ∃ other, UnderAny paths other ∧ ¬ Repeated paths old other ∧ old.count other ≠ new.count other

section
variable {old new incoming paths : List Text} (sorted : old.Pairwise (· ≤ ·)) (ordered : new.Pairwise (· < ·))
  (agree : (old.filter fun path => !decide (UnderAny paths path)) = new.filter fun path => !decide (UnderAny paths path))
  (given : ∀ path, UnderAny paths path → (path ∈ incoming ↔ path ∈ new))

include ordered given in
theorem arrivedPaths_count {path : Text} (under : UnderAny paths path) : (arrivedPaths paths incoming).count path = new.count path := by
  have mem : path ∈ arrivedPaths paths incoming ↔ path ∈ new := by rw [mem_arrivedPaths, given path under, and_iff_left under]
  have once := arrivedPaths_once paths incoming path
  have once' : new.count path ≤ 1 := nodup_iff_count_le_one.mp (ordered.imp ne_of_lt) path
  rw [← count_pos_iff, ← count_pos_iff] at mem
  omega

include agree in
theorem count_outside {path : Text} (outside : ¬ UnderAny paths path) : old.count path = new.count path := by
  have same := congrArg (count path) agree
  rwa [count_filter (by simpa using outside), count_filter (by simpa using outside)] at same

include sorted ordered agree given in
/-- A partial refresh of the project files leaves the new list exactly when no copies are in its way. -/
theorem mergePartialProjectFiles_refresh : (mergePartialProjectFiles old paths incoming).2 = new ∧
        ((mergePartialProjectFiles old paths incoming).1 = false ↔ new = old) ↔ Recoverable paths old new := by
  have flag := mergePartialProjectFiles_flag sorted paths incoming
  have both : (mergePartialProjectFiles old paths incoming).2 = new ∧
      ((mergePartialProjectFiles old paths incoming).1 = false ↔ new = old) ↔ (mergePartialProjectFiles old paths incoming).2 = new :=
    ⟨And.left, fun result => ⟨result, by rw [flag, result]⟩⟩
  have incoming' := arrivedPaths_ordered paths incoming
  have single (path : Text) : new.count path ≤ 1 := nodup_iff_count_le_one.mp (ordered.imp ne_of_lt) path
  have came {path : Text} (under : UnderAny paths path) := arrivedPaths_count ordered given under
  have add := counts_add old paths
  rw [both, mergePartialProjectFiles_spec]
  constructor
  · intro result path repeated
    have lone := taken_lone sorted repeated.1
    have twice := repeated.2
    split_ifs at result with unchanged
    · have := single path
      rw [← show old = new from result] at this
      omega
    have merged := count_mergeSortedPaths _ _ (leftPaths_sorted sorted paths) incoming' path
    rw [show mergeSortedPaths (leftPaths old paths) (arrivedPaths paths incoming) = new from result] at merged
    have := single path
    have := add path
    refine ⟨by omega, count_pos_iff.mp (by omega), ?_⟩
    by_contra! same
    refine unchanged (sorted_ext (takenPaths_sorted sorted paths) (incoming'.imp le_of_lt) fun other => ?_)
    by_cases inner : UnderAny paths other
    · rw [came inner]
      by_cases also : Repeated paths old other
      · have merged := count_mergeSortedPaths _ _ (leftPaths_sorted sorted paths) incoming' other
        rw [show mergeSortedPaths (leftPaths old paths) (arrivedPaths paths incoming) = new from result] at merged
        have := taken_lone sorted also.1
        have := also.2
        have := single other
        have := add other
        omega
      · have equal := same other inner also
        have := add other
        rcases lone_or_inside inner with lone | inside
        · have := taken_lone sorted lone
          have few : old.count other < 2 := by
            by_contra many
            exact also ⟨lone, by omega⟩
          omega
        · have := left_inside sorted inside
          omega
    · rw [taken_outside sorted inner, arrivedPaths_outside incoming inner]
  · intro recoverable
    have counts (path : Text) : max ((leftPaths old paths).count path) ((arrivedPaths paths incoming).count path) =
        new.count path := by
      have := add path
      by_cases under : UnderAny paths path
      · rw [came under]
        rcases lone_or_inside under with lone | inside
        · have := taken_lone sorted lone
          by_cases many : 2 ≤ old.count path
          · obtain ⟨two, mem, -⟩ := recoverable path ⟨lone, many⟩
            have := count_pos_iff.mpr mem
            omega
          · omega
        · have := left_inside sorted inside
          omega
      · have := taken_outside sorted under
        have := arrivedPaths_outside incoming under
        have := count_outside agree under
        omega
    split_ifs with unchanged
    · change old = new
      refine sorted_ext sorted (ordered.imp le_of_lt) fun path => ?_
      have := add path
      have := counts path
      have same : (takenPaths old paths).count path = (arrivedPaths paths incoming).count path := by rw [unchanged]
      by_cases repeated : Repeated paths old path
      · obtain ⟨-, -, other, under, once, different⟩ := recoverable path repeated
        refine absurd ?_ different
        have := add other
        have same : (takenPaths old paths).count other = (arrivedPaths paths incoming).count other := by rw [unchanged]
        rw [came under] at same
        rcases lone_or_inside under with lone | inside
        · have := taken_lone sorted lone
          have few : old.count other < 2 := by
            by_contra many
            exact once ⟨lone, by omega⟩
          omega
        · have := left_inside sorted inside
          omega
      · by_cases under : UnderAny paths path
        · rw [came under] at same
          rcases lone_or_inside under with lone | inside
          · have := taken_lone sorted lone
            have few : old.count path < 2 := by
              by_contra many
              exact repeated ⟨lone, by omega⟩
            omega
          · have := left_inside sorted inside
            omega
        · exact count_outside agree under
    · refine sorted_ext ?_ (ordered.imp le_of_lt) fun path => ?_
      · exact mergeSorted_sorted compareText_compares (fun _ _ => .inl rfl) _ _ (leftPaths_sorted sorted paths)
          (incoming'.imp le_of_lt)
      · exact (count_mergeSortedPaths _ _ (leftPaths_sorted sorted paths) incoming' path).trans (counts path)

end

/-- A partial refresh of the statuses leaves the new list, and with renames it loses nothing and is as free
    of repetition as what goes in. A partial refresh of the project files leaves the new list exactly when
    no copies of a prefix are in its way. -/
theorem mergePartial_refresh (paths : List Text) : (∀ old new incoming : List FileStatus, Sorted old → new.Pairwise (·.path < ·.path) →
      (∀ file ∈ new, file.oldPath = none) → (old.filter fun file => !decide (UnderAny paths file.path)) =
        (new.filter fun file => !decide (UnderAny paths file.path)) →
      incoming.Perm (new.filter fun file => decide (UnderAny paths file.path)) → (mergePartialStatus old paths incoming).2 = new ∧
          ((mergePartialStatus old paths incoming).1 = false ↔ new = old)) ∧ (∀ old incoming : List FileStatus, Sorted old →
      Sorted (mergePartialStatus old paths incoming).2 ∧ (∀ file ∈ incoming, file ∈ (mergePartialStatus old paths incoming).2) ∧
        (∀ file ∈ old, ¬ Affected paths (mentioned incoming) file → file ∈ (mergePartialStatus old paths incoming).2) ∧
        ((mergePartialStatus old paths incoming).1 = false ↔ (mergePartialStatus old paths incoming).2 = old) ∧
        (((mergePartialStatus old paths incoming).2.map identity).Nodup ↔
          (incoming.map identity).Nodup ∧ ((stays old paths incoming).map identity).Nodup)) ∧
    (∀ old new incoming : List Text, old.Pairwise (· ≤ ·) → new.Pairwise (· < ·) →
      (old.filter fun path => !decide (UnderAny paths path)) = (new.filter fun path => !decide (UnderAny paths path)) →
      (∀ path, UnderAny paths path → (path ∈ incoming ↔ path ∈ new)) → ((mergePartialProjectFiles old paths incoming).2 = new ∧
          ((mergePartialProjectFiles old paths incoming).1 = false ↔ new = old) ↔ Recoverable paths old new)) := by
  refine ⟨fun old new incoming sorted ordered plain agree given => ?_, fun old incoming sorted => ?_,
    fun old new incoming sorted ordered agree given => ?_⟩
  · exact mergePartialStatus_refresh sorted ordered plain agree given
  · exact mergePartialStatus_renames sorted paths incoming
  · exact mergePartialProjectFiles_refresh sorted ordered agree given

theorem mergePartial_refresh_delete : (mergePartialStatus [⟨['a'], none, none, some .Modified⟩] [['a']] []).2 = [] ∧
      (mergePartialProjectFiles [['a'], ['b']] [['a']] []).2 = [['b']] := by
  obtain ⟨statuses, -, files⟩ := mergePartial_refresh [['a']]
  have status := statuses [⟨['a'], none, none, some .Modified⟩] [] [] (pairwise_singleton _ _) .nil nofun
    (by decide) .nil
  have absent : ∀ path, UnderAny [['a']] path → (path ∈ ([] : List Text) ↔ path ∈ [['b']]) := by
    rintro path ⟨base, mem, rfl | starts⟩
    · cases mem_singleton.mp mem
      decide
    · cases mem_singleton.mp mem
      obtain ⟨rest, rfl⟩ := starts
      simp
  have file := files [['a'], ['b']] [['b']] [] (by decide) (pairwise_singleton _ _) (by decide) absent
  have once : Recoverable [['a']] [['a'], ['b']] [['b']] := by
    rintro path ⟨lone, twice⟩
    cases mem_singleton.mp lone.1
    exact absurd twice (by decide)
  exact ⟨status.1, (file.mpr once).1⟩

/-- An unmerged path is listed twice. When it is gone, one copy stays. -/
theorem mergePartialProjectFiles_unmerged : ¬ ∀ old new incoming paths : List Text, old.Pairwise (· ≤ ·) → new.Pairwise (· < ·) →
      (old.filter fun path => !decide (UnderAny paths path)) = (new.filter fun path => !decide (UnderAny paths path)) →
      (∀ path, UnderAny paths path → (path ∈ incoming ↔ path ∈ new)) → (mergePartialProjectFiles old paths incoming).2 = new := by
  intro law
  have wrong := law [['a'], ['a']] [] [] [['a']] (by decide) .nil (by decide) (fun _ _ => Iff.rfl)
  have sorted : [['a'], ['a']].Pairwise (· ≤ ·) := by decide
  have flag := mergePartialProjectFiles_flag sorted [['a']] []
  rw [wrong] at flag
  have recoverable := (mergePartialProjectFiles_refresh sorted .nil (by decide) fun _ _ => Iff.rfl).mp ⟨wrong, flag⟩
  obtain ⟨-, mem, -⟩ := recoverable ['a'] ⟨⟨mem_cons_self, by decide⟩, by decide⟩
  exact not_mem_nil mem

end Ramag.StatusRefresh
