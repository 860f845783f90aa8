import Ramag.StatusRefresh

/-!
What the file watcher asks to refresh. Scopes are merged as changes come in; the
paths of a scope are listed once and without those that lie below another one, and
too many of them become a full status.
-/
namespace Ramag.RefreshScopes
open Strings SortedSearch StatusMerge StatusRefresh

def MAX_INCREMENTAL_STATUS_PATHS : Nat := 128
def MAX_INCREMENTAL_STATUS_PATH_BYTES : Nat := 16 * 1024

structure RepoRefresh where
  fullStatus : Bool := false
  refreshRefs : Bool := false
  paths : List Text := []

def statusFull : RepoRefresh := { fullStatus := true }

/-- Whether what stands in front of one of the separators is retained. -/
def hasAncestor (retained : List Text) (path : Text) : Bool :=
  (List.range path.length).any fun separator => path[separator]? = some '/' && decide (path.take separator ∈ retained)

def coalesceFrom (retained : List Text) : List Text → List Text
  | [] => []
  | path :: paths => if hasAncestor retained path then coalesceFrom retained paths else path :: coalesceFrom (path :: retained) paths

def coalescePaths (paths : List Text) : List Text :=
  coalesceFrom [] (dedup (paths.mergeSort fun left right => compareText left right != .gt))

def exceedsLimits (paths : List Text) : Bool :=
  MAX_INCREMENTAL_STATUS_PATHS < paths.length || MAX_INCREMENTAL_STATUS_PATH_BYTES < (paths.map fun path => byteLen path + 1).sum

def RepoRefresh.merge (self other : RepoRefresh) : RepoRefresh :=
  let refreshRefs := self.refreshRefs || other.refreshRefs
  let fullStatus := self.fullStatus || (other.fullStatus || refreshRefs)
  if fullStatus then { fullStatus, refreshRefs }
  else
    let paths := coalescePaths (self.paths ++ other.paths)
    if exceedsLimits paths then statusFull else { fullStatus, refreshRefs, paths }

variable {paths more retained : List Text} {base path : Text}

theorem inside_lt (inside : base ++ ['/'] <+: path) : base < path := by
  obtain ⟨rest, rfl⟩ := inside
  induction base with
  | nil => exact List.nil_lt_cons ..
  | cons c base ih => exact List.cons_lt_cons_iff.mpr (.inr ⟨rfl, ih⟩)

theorem under_trans {top : Text} (first : Under top base) (second : Under base path) : Under top path := by
  rcases first with rfl | first
  · exact second
  · rcases second with rfl | second
    · exact .inr first
    · exact .inr (first.trans ((List.prefix_append ..).trans second))

theorem hasAncestor_iff (retained : List Text) (path : Text) :
    hasAncestor retained path = true ↔ ∃ base ∈ retained, base ++ ['/'] <+: path := by
  simp only [hasAncestor, List.any_eq_true, List.mem_range, Bool.and_eq_true, decide_eq_true_eq]
  constructor
  · rintro ⟨separator, short, slash, mem⟩
    refine ⟨_, mem, ?_⟩
    have whole := List.take_prefix (separator + 1) path
    rw [List.take_add_one, slash] at whole
    exact whole
  · rintro ⟨base, mem, rest, rfl⟩
    exact ⟨base.length, by simp, by simp, by simpa using mem⟩

/-- `done` are the paths that came before, which the retained ones cover. -/
theorem mem_coalesceFrom (done : List Text) (sorted : (done ++ paths).Pairwise (· < ·)) (kept : ∀ base ∈ retained, base ∈ done)
    (covered : ∀ base ∈ done, UnderAny retained base) (path : Text) :
    path ∈ coalesceFrom retained paths ↔ path ∈ paths ∧ ¬ ∃ base ∈ done ++ paths, base ++ ['/'] <+: path := by
  induction paths generalizing done retained with
  | nil => simp [coalesceFrom]
  | cons first paths ih =>
    have apart := List.pairwise_append.mp sorted
    have order := List.pairwise_cons.mp apart.2.1
    have whole : done ++ first :: paths = (done ++ [first]) ++ paths := by simp
    -- an ancestor of the first path came before it
    have ancestor : hasAncestor retained first = true ↔ ∃ base ∈ done ++ first :: paths, base ++ ['/'] <+: first := by
      rw [hasAncestor_iff]
      constructor
      · rintro ⟨base, mem, inside⟩
        exact ⟨base, List.mem_append_left _ (kept base mem), inside⟩
      rintro ⟨base, mem, inside⟩
      have less := inside_lt inside
      rcases List.mem_append.mp mem with before | later
      · obtain ⟨top, held, under⟩ := covered base before
        rcases under_trans under (.inr inside) with rfl | inside'
        · exact absurd (apart.2.2 first (kept first held) first List.mem_cons_self) (lt_irrefl _)
        · exact ⟨top, held, inside'⟩
      · rcases List.mem_cons.mp later with rfl | later
        · exact absurd less (lt_irrefl _)
        · exact absurd (less.trans (order.1 base later)) (lt_irrefl _)
    have other (differ : path ≠ first) : (path ∈ first :: paths ∧ ¬ ∃ base ∈ done ++ first :: paths, base ++ ['/'] <+: path) ↔
        path ∈ paths ∧ ¬ ∃ base ∈ (done ++ [first]) ++ paths, base ++ ['/'] <+: path := by
      rw [whole, List.mem_cons, or_iff_right differ]
    rw [coalesceFrom]
    rw [whole] at sorted
    split_ifs with inside
    · obtain ⟨top, held, starts⟩ := (hasAncestor_iff ..).mp inside
      rw [ih _ sorted (fun base mem => List.mem_append_left _ (kept base mem)) fun base mem => ?_]
      · by_cases same : path = first
        · subst same
          exact iff_of_false (fun both => absurd (order.1 path both.1) (lt_irrefl _)) fun both => both.2 (ancestor.mp inside)
        · exact (other same).symm
      rcases List.mem_append.mp mem with before | new
      · exact covered base before
      · rw [List.mem_singleton.mp new]
        exact ⟨top, held, .inr starts⟩
    · rw [List.mem_cons, ih _ sorted (fun base mem => ?_) fun base mem => ?_]
      · by_cases same : path = first
        · subst same
          exact iff_of_true (.inl rfl) ⟨List.mem_cons_self, fun found => inside (ancestor.mpr found)⟩
        · rw [or_iff_right same]
          exact (other same).symm
      · rcases List.mem_cons.mp mem with rfl | before
        · exact List.mem_append_right _ (List.mem_singleton_self _)
        · exact List.mem_append_left _ (kept base before)
      · rcases List.mem_append.mp mem with before | new
        · obtain ⟨top, held, under⟩ := covered base before
          exact ⟨top, List.mem_cons_of_mem _ held, under⟩
        · exact ⟨first, List.mem_cons_self, .inl (List.mem_singleton.mp new)⟩

theorem mem_coalescePaths (paths : List Text) (path : Text) : path ∈ coalescePaths paths ↔ Lone paths path := by
  have sorted := dedup_ordered (mergeSort_keys compareText_compares paths)
  rw [coalescePaths, mem_coalesceFrom [] sorted (by simp) (by simp)]
  simp [mem_dedup, Lone]

theorem coalesceFrom_sublist (retained paths : List Text) : (coalesceFrom retained paths).Sublist paths := by
  induction paths generalizing retained with
  | nil => exact .slnil
  | cons path paths ih =>
    rw [coalesceFrom]
    split_ifs
    · exact (ih _).cons _
    · exact (ih _).cons_cons _

theorem coalescePaths_sorted (paths : List Text) : (coalescePaths paths).Pairwise (· < ·) :=
  (dedup_ordered (mergeSort_keys compareText_compares _)).sublist (coalesceFrom_sublist ..)

theorem exists_lone (mem : base ∈ paths) : ∃ top, Lone paths top ∧ Under top base := by
  induction size : base.length using Nat.strong_induction_on generalizing base with
  | _ n ih =>
    by_cases inside : ∃ top ∈ paths, top ++ ['/'] <+: base
    · obtain ⟨top, held, starts⟩ := inside
      have shorter := starts.length_le
      rw [List.length_append, List.length_singleton] at shorter
      obtain ⟨lone, found, under⟩ := ih top.length (by omega) held rfl
      exact ⟨lone, found, under_trans under (.inr starts)⟩
    · exact ⟨base, ⟨mem, inside⟩, .inl rfl⟩

theorem under_coalescePaths (paths : List Text) (path : Text) : UnderAny (coalescePaths paths) path ↔ UnderAny paths path := by
  constructor
  · rintro ⟨base, mem, under⟩
    exact ⟨base, ((mem_coalescePaths paths base).mp mem).1, under⟩
  · rintro ⟨base, mem, under⟩
    obtain ⟨top, lone, above⟩ := exists_lone mem
    exact ⟨top, (mem_coalescePaths paths top).mpr lone, under_trans above under⟩

/-- No listed path lies below another one. -/
def Apart (paths : List Text) : Prop := ∀ base ∈ paths, ∀ path ∈ paths, ¬ base ++ ['/'] <+: path

theorem coalescePaths_apart (paths : List Text) : Apart (coalescePaths paths) := fun base mem path held inside =>
  ((mem_coalescePaths paths path).mp held).2 ⟨base, ((mem_coalescePaths paths base).mp mem).1, inside⟩

theorem mem_of_covers (apart : Apart paths) (same : ∀ path, UnderAny paths path ↔ UnderAny more path) (mem : path ∈ paths) :
    path ∈ more := by
  obtain ⟨base, held, under⟩ := (same path).mp ⟨path, mem, .inl rfl⟩
  obtain ⟨top, found, above⟩ := (same base).mpr ⟨base, held, .inl rfl⟩
  rcases under_trans above under with rfl | inside
  · rcases under with rfl | below
    · exact held
    · rcases above with rfl | above
      · exact held
      · exact absurd ((inside_lt above).trans (inside_lt below)) (lt_irrefl _)
  · exact absurd inside (apart top found path mem)

/-- Sorted paths that are not below each other are told by what they cover. -/
theorem paths_ext (sorted : paths.Pairwise (· < ·)) (sorted' : more.Pairwise (· < ·)) (apart : Apart paths) (apart' : Apart more)
    (same : ∀ path, UnderAny paths path ↔ UnderAny more path) : paths = more :=
  ((List.perm_ext_iff_of_nodup (sorted.imp ne_of_lt) (sorted'.imp ne_of_lt)).mpr fun _ =>
    ⟨mem_of_covers apart same, mem_of_covers apart' fun path => (same path).symm⟩).eq_of_pairwise
      (fun _ _ _ _ low high => absurd (low.trans high) (lt_irrefl _)) sorted sorted'

/-! ### Merges -/

/-- Everything, or what is equal to or below a listed path. -/
def RepoRefresh.Covers (refresh : RepoRefresh) (path : Text) : Prop := refresh.fullStatus = true ∨ UnderAny refresh.paths path

/-- Scopes that are merged in some order and grouping. -/
inductive Merges
  | scope (refresh : RepoRefresh)
  | merge (self other : Merges)

def Merges.scopes : Merges → List RepoRefresh
  | .scope refresh => [refresh]
  | .merge self other => self.scopes ++ other.scopes

def Merges.result : Merges → RepoRefresh
  | .scope refresh => refresh
  | .merge self other => self.result.merge other.result

/-- What asks for a full status by itself. -/
def RepoRefresh.wide (refresh : RepoRefresh) : Bool := refresh.fullStatus || refresh.refreshRefs

/-- Whether some merge had too many paths. -/
def Merges.exceeded : Merges → Bool
  | .scope _ => false
  | .merge self other => self.exceeded || other.exceeded || (!(self.result.wide || other.result.wide) &&
      exceedsLimits (coalescePaths (self.result.paths ++ other.result.paths)))

section
variable (self other : RepoRefresh)

theorem merge_refs : (self.merge other).refreshRefs = (self.refreshRefs || other.refreshRefs) := by
  rw [RepoRefresh.merge]
  dsimp only
  split_ifs with full long
  · rfl
  · simp_all [statusFull]
  · rfl

theorem merge_full : (self.merge other).fullStatus =
    (self.wide || other.wide || exceedsLimits (coalescePaths (self.paths ++ other.paths))) := by
  rw [RepoRefresh.merge]
  split_ifs with full long <;> simp only [RepoRefresh.wide, statusFull, Bool.or_eq_true] at * <;> grind

theorem merge_paths : (self.merge other).paths =
    if (self.merge other).fullStatus = true then [] else coalescePaths (self.paths ++ other.paths) := by
  rw [RepoRefresh.merge]
  dsimp only
  split_ifs <;> simp_all [statusFull]

theorem merge_wide : (self.merge other).wide = (self.merge other).fullStatus := by
  rw [RepoRefresh.wide, merge_refs, merge_full]
  simp only [RepoRefresh.wide]
  grind

end

theorem under_append : UnderAny (paths ++ more) path ↔ UnderAny paths path ∨ UnderAny more path := by
  simp [UnderAny, or_and_right, exists_or]

/-- What merges keep of the scopes that they are given. -/
structure Joined (merges : Merges) : Prop where
  refs : merges.result.refreshRefs = merges.scopes.any (·.refreshRefs)
  wide : merges.result.wide = (merges.exceeded || merges.scopes.any (·.wide))
  covers : merges.result.wide = false → ∀ path, UnderAny merges.result.paths path ↔ ∃ refresh ∈ merges.scopes, UnderAny refresh.paths path

theorem merges_joined (merges : Merges) : Joined merges := by
  induction merges with
  | scope refresh => exact ⟨by simp [Merges.result, Merges.scopes], by simp [Merges.result, Merges.scopes, Merges.exceeded],
      by simp [Merges.result, Merges.scopes]⟩
  | merge self other ih ih' =>
    refine ⟨?_, ?_, fun narrow path => ?_⟩
    · rw [Merges.result, merge_refs, ih.refs, ih'.refs, Merges.scopes, List.any_append]
    · rw [Merges.result, merge_wide, merge_full, Merges.exceeded, Merges.scopes, List.any_append, ih.wide, ih'.wide]
      grind
    rw [Merges.result, merge_wide] at narrow
    rw [Merges.result, merge_paths, narrow, if_neg Bool.false_ne_true, under_coalescePaths, under_append]
    rw [merge_full, Bool.or_eq_false_iff, Bool.or_eq_false_iff] at narrow
    rw [ih.covers narrow.1.1, ih'.covers narrow.1.2]
    simp [Merges.scopes, or_and_right, exists_or]

/-- The result of a merge. -/
structure Merged (refresh : RepoRefresh) : Prop where
  refs : refresh.refreshRefs = true → refresh.fullStatus = true
  sorted : refresh.paths.Pairwise (· < ·)
  apart : Apart refresh.paths
  fits : exceedsLimits refresh.paths = false

theorem merge_merged (self other : RepoRefresh) : Merged (self.merge other) := by
  have full := merge_full self other
  refine ⟨fun refs => ?_, ?_, ?_, ?_⟩
  · rw [merge_refs, Bool.or_eq_true] at refs
    rcases refs with refs | refs <;> simp [full, RepoRefresh.wide, refs]
  all_goals
    rw [merge_paths]
    split_ifs with wide
  · exact .nil
  · exact coalescePaths_sorted _
  · exact fun _ mem => absurd mem List.not_mem_nil
  · exact coalescePaths_apart _
  · rfl
  · simp_all

/-- Merges of the same scopes agree, unless only one of them had too many paths. -/
theorem merge_agrees {first second third fourth : Merges}
    (same : (Merges.merge first second).scopes.Perm (Merges.merge third fourth).scopes)
    (alike : (Merges.merge first second).exceeded = (Merges.merge third fourth).exceeded) :
    (Merges.merge first second).result = (Merges.merge third fourth).result := by
  have left := merges_joined (first.merge second)
  have right := merges_joined (third.merge fourth)
  have refs : (first.merge second).result.refreshRefs = (third.merge fourth).result.refreshRefs := by
    rw [left.refs, right.refs, same.any_eq]
  have wide : (first.merge second).result.wide = (third.merge fourth).result.wide := by rw [left.wide, right.wide, alike, same.any_eq]
  have covers := left.covers
  have covers' := right.covers
  simp only [Merges.result] at refs wide covers covers' ⊢
  have full := wide
  rw [merge_wide, merge_wide] at full
  have paths : (first.result.merge second.result).paths = (third.result.merge fourth.result).paths := by
    cases narrow : (first.result.merge second.result).fullStatus with
    | true => rw [merge_paths, merge_paths, ← full, narrow, if_pos rfl, if_pos rfl]
    | false =>
      refine paths_ext (merge_merged ..).sorted (merge_merged ..).sorted (merge_merged ..).apart (merge_merged ..).apart fun path => ?_
      rw [covers (by rw [merge_wide, narrow]), covers' (by rw [merge_wide, ← full, narrow])]
      exact exists_congr fun refresh => and_congr_left' same.mem_iff
  cases left : first.result.merge second.result
  simp_all

/-- Every merge covers what it is given, and neither order nor grouping matters to what fits the limits. -/
theorem refresh_join (self other : Merges) :
    (∀ path, (∃ refresh ∈ (self.merge other).scopes, refresh.Covers path) → (self.merge other).result.Covers path) ∧
    (self.merge other).result.refreshRefs = (self.merge other).scopes.any (·.refreshRefs) ∧
    ((self.merge other).result.refreshRefs = true → (self.merge other).result.fullStatus = true) ∧
    (self.merge other).result.paths.Pairwise (· < ·) ∧ Apart (self.merge other).result.paths ∧
    exceedsLimits (self.merge other).result.paths = false ∧
    ((self.merge other).exceeded = true → (self.merge other).result.fullStatus = true) ∧
    ∀ first second : Merges, (self.merge other).scopes.Perm (first.merge second).scopes →
      (self.merge other).exceeded = (first.merge second).exceeded → (self.merge other).result = (first.merge second).result := by
  have joined := merges_joined (self.merge other)
  have merged := merge_merged self.result other.result
  have full : (self.merge other).result.fullStatus = (self.merge other).result.wide := (merge_wide ..).symm
  refine ⟨fun path ⟨refresh, mem, inside⟩ => ?_, joined.refs, merged.refs, merged.sorted, merged.apart, merged.fits, fun long => ?_,
    fun _ _ => merge_agrees⟩
  · cases narrow : (self.merge other).result.wide with
    | true => exact .inl (full.trans narrow)
    | false =>
      rcases inside with all | below
      · rw [joined.wide, Bool.or_eq_false_iff, List.any_eq_false] at narrow
        exact absurd (by rw [RepoRefresh.wide, all, Bool.true_or]) (narrow.2 refresh mem)
      · exact .inr ((joined.covers narrow path).mpr ⟨refresh, mem, below⟩)
  · rw [full, joined.wide, long, Bool.true_or]

end Ramag.RefreshScopes
