import Ramag.UnifiedDiff

/-!
The rows of a shown diff. Every hunk becomes its header and its lines, one below
the other (`buildUnifiedKeys`) or with deletions on the left and additions on the
right (`buildSplitKeys`), where the inside of a long run of context lines is folded
into one row.
-/
namespace Ramag.DiffKeys
open UnifiedDiff List List

inductive UnifiedKey
  | Header (hunkIdx : Nat)
  | Line (hunkIdx lineIdx : Nat)

inductive SplitKey
  | Header (hunkIdx : Nat)
  | Pair (hunkIdx : Nat) (left right : Option Nat)
  | Spacer (skipped : Nat) (stableKey : UInt64)

def SPLIT_SPACER_THRESHOLD : Nat := 6
def SPLIT_SPACER_KEEP : Nat := 2

/-- With `changesOnly` a hunk of context lines alone has no rows. -/
def hasChange (changesOnly : Bool) (h : Hunk) : Bool := !changesOnly || h.lines.any (·.kind ≠ .Context)

/-- The indices of the lines of some kinds. -/
def linesOf (kinds : DiffLineKind → Bool) (lines : List DiffLine) : List Nat :=
  (lines.zipIdx.filter fun line => kinds line.1.kind).map Prod.snd

/-- The kinds of the lines that are shown. -/
def shownKinds (changesOnly : Bool) (kind : DiffLineKind) : Bool := !(changesOnly && kind = .Context)

def buildUnifiedKeys (diff : FileDiff) (changesOnly : Bool) : List UnifiedKey :=
  diff.hunks.zipIdx.flatMap fun (h, hunkIdx) =>
    if hasChange changesOnly h then .Header hunkIdx :: (linesOf (shownKinds changesOnly) h.lines).map (.Line hunkIdx) else []

/-- The deletions, the additions and the context lines that have no rows yet. -/
structure Pending where
  out : List SplitKey := []
  left : List Nat := []
  right : List Nat := []
  run : List Nat := []

/-- What the loop over the lines of a hunk takes from outside; `stableKey` is the key of a run by its
first line. -/
structure HunkView where
  hunkIdx : Nat
  changesOnly : Bool
  collapse : Bool
  expandedSpacers : List UInt64
  stableKey : Nat → UInt64

variable (view : HunkView)

def Pending.flushPairs (pending : Pending) : Pending :=
  let rows := (range (max pending.left.length pending.right.length)).map fun i =>
    SplitKey.Pair view.hunkIdx pending.left[i]? pending.right[i]?
  { pending with out := pending.out ++ rows, left := [], right := [] }

def contextRows (run : List Nat) : List SplitKey := run.map fun i => .Pair view.hunkIdx (some i) (some i)

/-- The rows of a run of context lines. -/
def runRows (run : List Nat) : List SplitKey :=
  match run with
  | [] => []
  | first :: _ =>
    if view.collapse && !view.changesOnly && SPLIT_SPACER_THRESHOLD ≤ run.length &&
        !view.expandedSpacers.contains (view.stableKey first) then
      contextRows view (run.take SPLIT_SPACER_KEEP) ++ .Spacer (run.length - SPLIT_SPACER_KEEP * 2) (view.stableKey first) ::
        contextRows view (run.drop (run.length - SPLIT_SPACER_KEEP))
    else if !view.changesOnly then contextRows view run
    else []

def Pending.flushCtx (pending : Pending) : Pending := { pending with out := pending.out ++ runRows view pending.run, run := [] }

def Pending.line (pending : Pending) (line : DiffLine × Nat) : Pending :=
  match line.1.kind with
  | .Delete => { pending.flushCtx view with left := pending.left ++ [line.2] }
  | .Add => { pending.flushCtx view with right := pending.right ++ [line.2] }
  | .Context => { pending.flushPairs view with run := pending.run ++ [line.2] }

/-- The rows of a hunk behind its header. -/
def splitHunk (h : Hunk) : List SplitKey := (((h.lines.zipIdx.foldl (Pending.line view) {}).flushPairs view).flushCtx view).out

/-- `stableDiffSpacerKey` hashes what is in a hunk, and the index of a line in it. -/
def buildSplitKeys (stableDiffSpacerKey : FileDiff → Nat → Nat → UInt64) (diff : FileDiff) (changesOnly collapse : Bool)
    (expandedSpacers : List UInt64) : List SplitKey :=
  diff.hunks.zipIdx.flatMap fun (h, hunkIdx) =>
    if hasChange changesOnly h then
      .Header hunkIdx ::
        splitHunk { hunkIdx, changesOnly, collapse, expandedSpacers, stableKey := stableDiffSpacerKey diff hunkIdx } h
    else []

inductive Side
  | left
  | right

def Side.entry : Side → Option Nat → Option Nat → Option Nat
  | .left, l, _ => l
  | .right, _, r => r

/-- The lines that are shown on a side. -/
def Side.kinds (side : Side) (changesOnly : Bool) (kind : DiffLineKind) : Bool :=
  shownKinds changesOnly kind && match side with
    | .left => kind ≠ .Add
    | .right => kind ≠ .Delete

def Side.waiting : Side → Pending → List Nat
  | .left, pending => pending.left
  | .right, pending => pending.right

/-- The lines that the rows show on one side, one after the other. A folded row stands for as many
context lines behind each other. -/
inductive Reads (side : Side) (h : Hunk) : List SplitKey → List Nat → Prop
  | nil : Reads side h [] []
  | pair (left right : Option Nat) {keys : List SplitKey} {lines : List Nat} (reads : Reads side h keys lines) :
      Reads side h (.Pair view.hunkIdx left right :: keys) ((side.entry left right).toList ++ lines)
  | spacer (run first skipped : Nat) {keys : List SplitKey} {lines : List Nat}
      (folded : view.collapse = true ∧ view.changesOnly = false ∧ view.stableKey run ∉ view.expandedSpacers)
      (context : ∀ i, run ≤ i → i < first + skipped → (h.lines[i]?).map DiffLine.kind = some .Context)
      (reads : Reads side h keys lines) :
      Reads side h (.Spacer skipped (view.stableKey run) :: keys) (range' first skipped ++ lines)

variable {view : HunkView} {side : Side} {h : Hunk} {keys more : List SplitKey} {lines behind run : List Nat}

theorem Reads.append (first : Reads view side h keys lines) (second : Reads view side h more behind) :
    Reads view side h (keys ++ more) (lines ++ behind) := by
  induction first with
  | nil => exact second
  | pair left right _ ih => simpa using ih.pair left right
  | spacer run first skipped folded context _ ih => simpa using ih.spacer run first skipped folded context

theorem reads_map (view : HunkView) (side : Side) (h : Hunk) (left right : Nat → Option Nat) (indices : List Nat) :
    Reads view side h (indices.map fun i => .Pair view.hunkIdx (left i) (right i))
      (indices.flatMap fun i => (side.entry (left i) (right i)).toList) := by
  induction indices with
  | nil => exact .nil
  | cons i indices ih => exact ih.pair (left i) (right i)

theorem range_entries (lines : List Nat) {n : Nat} (fits : lines.length ≤ n) : ((range n).flatMap fun i => lines[i]?.toList) = lines := by
  induction lines generalizing n with
  | nil => simp
  | cons line lines ih =>
    obtain ⟨n, rfl⟩ : ∃ m, n = m + 1 := ⟨n - 1, by simp at fits; omega⟩
    rw [range_succ_eq_map, flatMap_cons, flatMap_map]
    simpa using ih (by simpa using fits)

theorem reads_pairs (view : HunkView) (side : Side) (h : Hunk) (pending : Pending) :
    ∃ rows, (pending.flushPairs view).out = pending.out ++ rows ∧ Reads view side h rows (side.waiting pending) := by
  refine ⟨_, rfl, ?_⟩
  have reads := reads_map view side h (pending.left[·]?) (pending.right[·]?)
    (range (max pending.left.length pending.right.length))
  cases side
  · have whole := range_entries pending.left (Nat.le_max_left _ pending.right.length)
    simp only [Side.entry, whole] at reads
    exact reads
  · have whole := range_entries pending.right (Nat.le_max_right pending.left.length _)
    simp only [Side.entry, whole] at reads
    exact reads

theorem reads_context (run : List Nat) : Reads view side h (contextRows view run) run := by
  have reads := reads_map view side h some some run
  cases side <;> simpa [Side.entry, contextRows] using reads

theorem reads_run (view : HunkView) (side : Side) {first n : Nat}
    (context : ∀ i, first ≤ i → i < first + n → (h.lines[i]?).map DiffLine.kind = some .Context) :
    Reads view side h (runRows view (range' first n)) (if view.changesOnly then [] else range' first n) := by
  cases n with
  | zero => simpa [runRows] using Reads.nil
  | succ n =>
    have head : range' first (n + 1) = first :: range' (first + 1) n := range'_succ ..
    have rows : runRows view (range' first (n + 1)) =
        if view.collapse && !view.changesOnly && SPLIT_SPACER_THRESHOLD ≤ n + 1 &&
            !view.expandedSpacers.contains (view.stableKey first) then
          contextRows view ((range' first (n + 1)).take SPLIT_SPACER_KEEP) ++
            .Spacer (n + 1 - SPLIT_SPACER_KEEP * 2) (view.stableKey first) ::
            contextRows view ((range' first (n + 1)).drop (n + 1 - SPLIT_SPACER_KEEP))
        else if !view.changesOnly then contextRows view (range' first (n + 1))
        else [] := by
      rw [head, runRows, ← head, length_range']
    rw [rows]
    by_cases hidden : view.changesOnly = true
    · simpa [hidden] using Reads.nil
    rw [Bool.not_eq_true] at hidden
    simp only [hidden, Bool.not_false, Bool.and_true, if_true, Bool.false_eq_true, if_false]
    split_ifs with folded
    · simp only [Bool.and_eq_true, Bool.not_eq_true', contains_eq_mem, decide_eq_false_iff_not, SPLIT_SPACER_THRESHOLD] at folded
      have long := of_decide_eq_true folded.1.2
      obtain ⟨m, rfl⟩ : ∃ m, n = m + 3 := ⟨n - 3, by omega⟩
      have front : (range' first (m + 3 + 1)).take SPLIT_SPACER_KEEP = range' first 2 :=
        take_range'_of_length_ge (by rw [SPLIT_SPACER_KEEP]; omega)
      have back : (range' first (m + 3 + 1)).drop (m + 3 + 1 - SPLIT_SPACER_KEEP) = range' (first + 2 + m) 2 := by
        rw [drop_range', SPLIT_SPACER_KEEP]
        congr 1 <;> omega
      have parts : range' first (m + 3 + 1) = range' first 2 ++ (range' (first + 2) m ++ range' (first + 2 + m) 2) := by
        rw [range'_append_1, range'_append_1]
        congr 1
        omega
      rw [front, back, parts]
      exact (reads_context _).append (.spacer first (first + 2) m ⟨folded.1.1, hidden, folded.2⟩
        (fun i after before => context i after (by omega)) (reads_context _))
    · exact reads_context _

/-! ### The loop over the lines -/

theorem linesOf_concat (kinds : DiffLineKind → Bool) (lines : List DiffLine) (line : DiffLine) :
    linesOf kinds (lines ++ [line]) = linesOf kinds lines ++ if kinds line.kind then [lines.length] else [] := by
  rw [linesOf, zipIdx_append, filter_append, map_append]
  cases shown : kinds line.kind <;> simp [linesOf, shown]

/-- What holds after some lines: they have rows, or they wait for them. Pairs and context lines do not wait
at a time. -/
structure Kept (view : HunkView) (h : Hunk) (front : List DiffLine) (pending : Pending) : Prop where
  reads : ∀ side : Side, ∃ lines, Reads view side h pending.out lines ∧
    lines ++ side.waiting pending ++ (if view.changesOnly then [] else pending.run) = linesOf (side.kinds view.changesOnly) front
  run : ∃ first, pending.run = range' first pending.run.length ∧ first + pending.run.length = front.length ∧
    ∀ i, first ≤ i → i < front.length → (h.lines[i]?).map DiffLine.kind = some .Context
  apart : pending.run = [] ∨ (pending.left = [] ∧ pending.right = [])

variable {front : List DiffLine} {pending : Pending}

theorem Kept.flushPairs (kept : Kept view h front pending) : Kept view h front (pending.flushPairs view) where
  reads side := by
    obtain ⟨lines, reads, whole⟩ := kept.reads side
    obtain ⟨rows, out, pairs⟩ := reads_pairs view side h pending
    refine ⟨lines ++ side.waiting pending, by rw [out]; exact reads.append pairs, ?_⟩
    rw [← whole]
    cases side <;> simp [Side.waiting, Pending.flushPairs]
  run := kept.run
  apart := .inr ⟨rfl, rfl⟩

theorem Kept.flushCtx (kept : Kept view h front pending) : Kept view h front (pending.flushCtx view) where
  reads side := by
    obtain ⟨lines, reads, whole⟩ := kept.reads side
    obtain ⟨first, range, ends, context⟩ := kept.run
    rw [← ends] at context
    have run := reads_run view side context
    rw [← range] at run
    refine ⟨_, reads.append run, ?_⟩
    rw [← whole]
    rcases kept.apart with none | ⟨left, right⟩
    · cases side <;> simp [Side.waiting, Pending.flushCtx, none]
    · cases side <;> simp [Side.waiting, Pending.flushCtx, left, right]
  run := ⟨front.length, rfl, rfl, fun i after before => absurd after (Nat.not_le.mpr before)⟩
  apart := .inl rfl

theorem Kept.line {line : DiffLine} (kept : Kept view h front pending) (here : h.lines[front.length]? = some line) :
    Kept view h (front ++ [line]) (pending.line view (line, front.length)) := by
  have later : ∃ first, [] = range' first ([] : List Nat).length ∧ first + ([] : List Nat).length = (front ++ [line]).length ∧
      ∀ i, first ≤ i → i < (front ++ [line]).length → (h.lines[i]?).map DiffLine.kind = some .Context :=
    ⟨_, rfl, rfl, fun i after before => absurd after (Nat.not_le.mpr before)⟩
  rw [Pending.line]
  cases kind : line.kind with
  | Delete | Add =>
    refine ⟨fun side => ?_, later, .inl rfl⟩
    obtain ⟨lines, reads, whole⟩ := kept.flushCtx.reads side
    refine ⟨lines, reads, ?_⟩
    rw [linesOf_concat, ← whole, kind]
    cases side <;> simp [Side.waiting, Side.kinds, shownKinds, Pending.flushCtx]
  | Context =>
    obtain ⟨first, range, ends, context⟩ := kept.run
    refine ⟨fun side => ?_, ⟨first, ?_, ?_, fun i after before => ?_⟩, .inr ⟨rfl, rfl⟩⟩
    · obtain ⟨lines, reads, whole⟩ := kept.flushPairs.reads side
      refine ⟨lines, reads, ?_⟩
      rw [linesOf_concat, ← whole, kind]
      cases side <;> cases shown : view.changesOnly <;> simp [Side.waiting, Side.kinds, shownKinds, Pending.flushPairs]
    · rw [length_append, length_singleton, ← range'_append_1, ← range, ends]
      rfl
    · simp only [length_append, length_singleton]
      omega
    · rw [length_append, length_singleton] at before
      rcases Nat.lt_succ_iff_lt_or_eq.mp before with inside | rfl
      · exact context i after inside
      · rw [here, Option.map_some, kind]

theorem kept_lines (view : HunkView) (front : List DiffLine) (inside : front <+: h.lines) :
    Kept view h front (front.zipIdx.foldl (Pending.line view) {}) := by
  induction front using reverseRecOn with
  | nil => exact ⟨fun side => ⟨[], .nil, by cases side <;> cases view.changesOnly <;> rfl⟩, ⟨0, rfl, rfl, by simp⟩, .inl rfl⟩
  | append_singleton front line ih =>
    have kept := ih ((prefix_append ..).trans inside)
    have here : h.lines[front.length]? = some line := by
      obtain ⟨rest, whole⟩ := inside
      rw [← whole, append_assoc, getElem?_append_right (Nat.le_refl _), Nat.sub_self]
      rfl
    rw [zipIdx_append, foldl_append, Nat.zero_add]
    exact kept.line here

theorem splitHunk_reads (view : HunkView) (side : Side) (h : Hunk) :
    Reads view side h (splitHunk view h) (linesOf (side.kinds view.changesOnly) h.lines) := by
  obtain ⟨lines, reads, whole⟩ := (kept_lines view h.lines (prefix_refl _)).flushPairs.flushCtx.reads side
  have all : lines = linesOf (side.kinds view.changesOnly) h.lines := by
    rw [← whole]
    cases side <;> simp [Side.waiting, Pending.flushCtx, Pending.flushPairs]
  rw [← all]
  exact reads

end Ramag.DiffKeys
