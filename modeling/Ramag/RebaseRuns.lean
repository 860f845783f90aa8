import Ramag.RebasePlan
import Mathlib.Data.List.Nodup

/-!
Runs of edits on a rebase plan. Every edit keeps the commits of the plan, and
the todo file has one line for each (`views_commits`, `buildTodoContent_lines`).
The guards look at the first two positions only, so entries that are dropped can
leave a squash without a commit before it; `misleads` says which edits do that.
-/
namespace Ramag.RebaseRuns
open Strings Domain DataSyncGate Fields UnifiedDiff RebasePlan List

inductive Edit
  | changeAction (hash : Text) (action : RebaseAction)
  | move (hash : Text) (up : Bool)

def Edit.run : Edit → VcsView → VcsView
  | .changeAction hash action => changeRebaseAction hash action
  | .move hash up => moveRebaseTodo hash up

/-- The views in a run, from its start to its end. -/
def views (view : VcsView) : List Edit → List VcsView
  | [] => [view]
  | edit :: edits => view :: views (edit.run view) edits

def firstKept (todos : List RebaseTodo) : Option RebaseTodo := todos.find? fun todo => decide (todo.action ≠ .Drop)

/-- The first commit that is kept is not joined to one before it. -/
def Executable (todos : List RebaseTodo) : Prop := ∀ todo ∈ firstKept todos, todo.action.merges = false

instance (todos : List RebaseTodo) : Decidable (Executable todos) :=
  inferInstanceAs (Decidable (∀ todo ∈ firstKept todos, todo.action.merges = false))

theorem firstKept_append (before todos : List RebaseTodo) :
    firstKept (before ++ todos) = (firstKept before).or (firstKept todos) := find?_append

variable {todos : List RebaseTodo}

theorem executable_behind {before : List RebaseTodo} (dropped : firstKept before = none) :
    Executable (before ++ todos) ↔ Executable todos := by
  rw [Executable, firstKept_append, dropped]
  rfl

theorem executable_before {before : List RebaseTodo} (kept : firstKept before ≠ none) (todos : List RebaseTodo) :
    Executable (before ++ todos) ↔ Executable before := by
  obtain ⟨todo, first⟩ := Option.ne_none_iff_exists'.mp kept
  rw [Executable, firstKept_append, Executable, first]
  rfl

theorem executable_cons (todo : RebaseTodo) (todos : List RebaseTodo) :
    Executable (todo :: todos) ↔ if todo.action = .Drop then Executable todos else todo.action.merges = false := by
  unfold Executable firstKept
  by_cases dropped : todo.action = .Drop <;> simp [dropped]

theorem executable_iff_any (todos : List RebaseTodo) : Executable todos ↔ (firstKept todos).any (·.action.merges) = false := by
  unfold Executable
  cases firstKept todos <;> simp

/-- The edit leaves a first commit that is joined to one before it. All entries before the changed one are
    dropped, and it is to be joined, or it is dropped and the next one kept is joined; or of two entries that
    change places the second one is joined, and they are not the first two. -/
def misleads (view : VcsView) : Edit → Bool
  | .changeAction hash action =>
    (findRebaseTodoIndex view.rebaseTodos hash).any fun idx =>
      (firstKept (view.rebaseTodos.take idx)).isNone &&
        ((action.merges && decide (0 < idx)) ||
          (decide (action = .Drop) && (firstKept (view.rebaseTodos.drop (idx + 1))).any (·.action.merges)))
  | .move hash up =>
    (findRebaseTodoIndex view.rebaseTodos hash).any fun idx =>
      let place := if up then idx - 1 else idx
      decide (0 < place) && (firstKept (view.rebaseTodos.take place)).isNone &&
        view.rebaseTodos[place + 1]?.any (·.action.merges)

variable {hash : Text}

theorem findRebaseTodoIndex_split {idx : Nat} (found : findRebaseTodoIndex todos hash = some idx) :
    ∃ before todo after, todos = before ++ todo :: after ∧ before.length = idx := by
  obtain ⟨inside, -, -⟩ := findIdx?_eq_some_iff_getElem.mp found
  refine ⟨todos.take idx, todos[idx], todos.drop (idx + 1), ?_, by rw [length_take]; omega⟩
  rw [getElem_cons_drop, take_append_drop]

theorem modify_split (before after : List RebaseTodo) (todo : RebaseTodo) (f : RebaseTodo → RebaseTodo) :
    (before ++ todo :: after).modify before.length f = before ++ f todo :: after := by
  induction before with
  | nil => rfl
  | cons first before ih => exact congrArg (first :: ·) ih

theorem swapNext_split (before after : List RebaseTodo) (first second : RebaseTodo) :
    swapNext before.length (before ++ first :: second :: after) = before ++ second :: first :: after := by
  induction before with
  | nil => rfl
  | cons other before ih => exact congrArg (other :: ·) ih

/-- What an edit does to the entries, and when it misleads. -/
inductive Outcome (view : VcsView) (edit : Edit) : Prop
  | same (todos : (edit.run view).rebaseTodos = view.rebaseTodos) (fair : misleads view edit = false)
  | changed (before after : List RebaseTodo) (todo : RebaseTodo) (action : RebaseAction)
      (old : view.rebaseTodos = before ++ todo :: after)
      (new : (edit.run view).rebaseTodos = before ++ { todo with action } :: after)
      (guard : before = [] → action.merges = false)
      (leads : misleads view edit = ((firstKept before).isNone &&
        (action.merges || (decide (action = .Drop) && (firstKept after).any (·.action.merges)))))
  | swapped (before after : List RebaseTodo) (first second : RebaseTodo)
      (old : view.rebaseTodos = before ++ first :: second :: after)
      (new : (edit.run view).rebaseTodos = before ++ second :: first :: after)
      (guard : before = [] → second.action.merges = false)
      (leads : misleads view edit = ((firstKept before).isNone && second.action.merges))

theorem changeRebaseAction_outcome (view : VcsView) (hash : Text) (action : RebaseAction) : Outcome view (.changeAction hash action) := by
  rcases search : findRebaseTodoIndex view.rebaseTodos hash with _ | idx
  · refine .same ?_ (by rw [misleads, search]; rfl)
    simp [Edit.run, changeRebaseAction, search]
  obtain ⟨before, todo, after, old, rfl⟩ := findRebaseTodoIndex_split search
  have leads : misleads view (.changeAction hash action) = ((firstKept before).isNone &&
      ((action.merges && decide (0 < before.length)) ||
        (decide (action = .Drop) && (firstKept after).any (·.action.merges)))) := by
    rw [misleads, search, old, Option.any_some, take_left, ← drop_drop, drop_left]
    rfl
  by_cases valid : isRebaseActionValid before.length action = true
  · refine .changed before after todo action old ?_ ?_ ?_
    · rw [Edit.run, changeRebaseAction, search]
      simp only [valid, if_true, old, modify_split]
    · rintro rfl
      simpa [isRebaseActionValid] using valid
    rw [leads]
    cases before with
    | nil =>
      have other : action.merges = false := by simpa [isRebaseActionValid] using valid
      simp [other]
    | cons first before => simp
  · have rejected : before = [] ∧ action.merges = true := by simpa [isRebaseActionValid] using valid
    obtain ⟨rfl, joined⟩ := rejected
    refine .same ?_ ?_
    · rw [Edit.run, changeRebaseAction, search]
      simp only [valid, if_false, Bool.false_eq_true]
    rw [leads]
    have kept : action ≠ .Drop := by
      rintro rfl
      cases joined
    simp [kept]

theorem split_at {place : Nat} (inside : place + 1 < todos.length) :
    ∃ before first second after, todos = before ++ first :: second :: after ∧ before.length = place := by
  refine ⟨todos.take place, todos[place], todos[place + 1], todos.drop (place + 2), ?_, by rw [length_take]; omega⟩
  rw [getElem_cons_drop, getElem_cons_drop, take_append_drop]

variable {view : VcsView}

theorem swap_outcome {up : Bool} {idx place : Nat}
    (search : findRebaseTodoIndex view.rebaseTodos hash = some idx) (at' : (if up then idx - 1 else idx) = place)
    (inside : place + 1 < view.rebaseTodos.length)
    (fair : wouldMakeInvalidFirst view.rebaseTodos idx up = false) (forward : up = true → 0 < idx)
    (run : (moveRebaseTodo hash up view).rebaseTodos = swapNext place view.rebaseTodos) : Outcome view (.move hash up) := by
  obtain ⟨before, first, second, after, old, rfl⟩ := split_at inside
  have guard : before = [] → second.action.merges = false := by
    rintro rfl
    cases up with
    | false =>
      subst at'
      simpa [wouldMakeInvalidFirst, old] using fair
    | true =>
      have one : idx = 1 := by simp at at'; have := forward rfl; omega
      subst one
      simpa [wouldMakeInvalidFirst, old] using fair
  refine .swapped before after first second old ?_ guard ?_
  · rw [Edit.run, run, old, swapNext_split]
  rw [misleads, search]
  simp only [Option.any_some, at', old, take_left]
  cases before with
  | nil => simp [guard rfl]
  | cons other before => simp

theorem moveRebaseTodo_outcome (view : VcsView) (hash : Text) (up : Bool) : Outcome view (.move hash up) := by
  rcases search : findRebaseTodoIndex view.rebaseTodos hash with _ | idx
  · refine .same ?_ (by rw [misleads, search]; rfl)
    simp [Edit.run, moveRebaseTodo, search]
  have inside : idx < view.rebaseTodos.length := by
    obtain ⟨before, todo, after, old, rfl⟩ := findRebaseTodoIndex_split search
    simp [old]
  by_cases guarded : wouldMakeInvalidFirst view.rebaseTodos idx up = true
  · refine .same (by simp [Edit.run, moveRebaseTodo, search, guarded]) ?_
    have first : (if up then idx - 1 else idx) = 0 := by
      cases up <;> simp [wouldMakeInvalidFirst] at guarded ⊢ <;> omega
    simp [misleads, search, first]
  have fair := Bool.eq_false_iff.mpr guarded
  cases up with
  | true =>
    by_cases first : 0 < idx
    · refine swap_outcome search rfl ?_ fair (fun _ => first) ?_
      · simp; omega
      · simp [moveRebaseTodo, search, fair, first]
    · refine .same (by simp [Edit.run, moveRebaseTodo, search, fair, first]) ?_
      have start : idx = 0 := by omega
      simp [misleads, search, start]
  | false =>
    by_cases last : idx + 1 < view.rebaseTodos.length
    · refine swap_outcome search rfl (by simpa using last) fair nofun ?_
      simp [moveRebaseTodo, search, fair, last]
    · refine .same (by simp [Edit.run, moveRebaseTodo, search, fair, last]) ?_
      have none' : view.rebaseTodos[idx + 1]? = none := getElem?_eq_none (by omega)
      simp [misleads, search, none']

theorem run_outcome (view : VcsView) : ∀ edit, Outcome view edit
  | .changeAction hash action => changeRebaseAction_outcome view hash action
  | .move hash up => moveRebaseTodo_outcome view hash up

/-- From a plan that Git takes, an edit gives another one exactly when it does not mislead. -/
theorem run_executable {edit : Edit} (executable : Executable view.rebaseTodos) :
    Executable (edit.run view).rebaseTodos ↔ misleads view edit = false := by
  rcases run_outcome view edit with ⟨todos, fair⟩ | ⟨before, after, todo, action, old, new, guard, leads⟩ |
    ⟨before, after, first, second, old, new, guard, leads⟩
  · rw [todos]
    exact iff_of_true executable fair
  · rw [new, leads]
    rw [old] at executable
    by_cases dropped : firstKept before = none
    · rw [executable_behind dropped, executable_cons, dropped]
      by_cases drop : action = .Drop
      · subst drop
        simpa [RebaseAction.merges] using executable_iff_any after
      · simp [drop]
    · rw [executable_before dropped] at executable ⊢
      simp [dropped, executable]
  · rw [new, leads]
    rw [old] at executable
    by_cases dropped : firstKept before = none
    · rw [executable_behind dropped, executable_cons] at executable
      rw [executable_behind dropped, executable_cons, dropped, executable_cons]
      by_cases drop : second.action = .Drop
      · rw [executable_cons] at executable
        simp only [drop, if_true] at executable ⊢
        simpa [RebaseAction.merges] using executable
      · simp [drop]
    · rw [executable_before dropped] at executable ⊢
      simp [dropped, executable]

/-- No edit of the run misleads. -/
def FairRun (view : VcsView) : List Edit → Prop
  | [] => True
  | edit :: edits => misleads view edit = false ∧ FairRun (edit.run view) edits

theorem views_executable (executable : Executable view.rebaseTodos) (edits : List Edit) :
    (∀ later ∈ views view edits, Executable later.rebaseTodos) ↔ FairRun view edits := by
  induction edits generalizing view with
  | nil => simpa [views, FairRun] using executable
  | cons edit edits ih =>
    rw [views, forall_mem_cons, and_iff_right executable, FairRun]
    constructor
    · intro later
      have next : Executable (edit.run view).rebaseTodos := later _ (by cases edits <;> exact mem_cons_self)
      exact ⟨(run_executable executable).mp next, (ih next).mp later⟩
    · intro ⟨fair, rest⟩
      exact (ih ((run_executable executable).mpr fair)).mpr rest

/-- What an edit leaves of an entry: the commit. -/
def commit (todo : RebaseTodo) : Text × Text := (todo.hash, todo.subject)

theorem run_commits (view : VcsView) (edit : Edit) : ((edit.run view).rebaseTodos.map commit).Perm (view.rebaseTodos.map commit) := by
  rcases run_outcome view edit with ⟨todos, -⟩ | ⟨before, after, todo, action, old, new, -, -⟩ |
    ⟨before, after, first, second, old, new, -, -⟩
  · rw [todos]
  · rw [old, new]
    simp [commit]
  · rw [old, new]
    exact ((List.Perm.swap first second after).append_left before).map commit

theorem views_commits (view : VcsView) (edits : List Edit) :
    ∀ later ∈ views view edits, (later.rebaseTodos.map commit).Perm (view.rebaseTodos.map commit) := by
  induction edits generalizing view with
  | nil =>
    intro later mem
    rw [mem_singleton.mp mem]
  | cons edit edits ih =>
    intro later mem
    rcases mem_cons.mp mem with rfl | mem
    · exact .refl _
    · exact (ih (edit.run view) later mem).trans (run_commits view edit)

/-! ### The plan that is read -/

/-- What is known of the commits of a plan: their number, their ids and their bytes. -/
structure Sized (commits : List (Text × Text)) (bytes : Nat) : Prop where
  few : commits.length ≤ MAX_REBASE_TODOS
  ids : ∀ commit ∈ commits, isSafeObjectId commit.1 = true
  subjects : ∀ commit ∈ commits, byteLen commit.2 ≤ MAX_GIT_RECORD_BYTES
  held : (commits.map fun commit => byteLen commit.1 + byteLen commit.2).sum ≤ bytes
  bounded : bytes ≤ MAX_REBASE_TODO_BYTES

variable {commits : List (Text × Text)} {bytes : Nat}

theorem Sized.perm {others : List (Text × Text)} (sized : Sized commits bytes) (perm : others.Perm commits) : Sized others bytes where
  few := by rw [perm.length_eq]; exact sized.few
  ids := fun commit mem => sized.ids commit (perm.subset mem)
  subjects := fun commit mem => sized.subjects commit (perm.subset mem)
  held := by rw [(perm.map _).sum_nat]; exact sized.held
  bounded := sized.bounded

theorem splitOnce_bytes {line subject : Text} (cut : splitOnce ' ' line = some (hash, subject)) :
    byteLen hash + byteLen subject ≤ byteLen line := by
  induction line generalizing hash with
  | nil => cases cut
  | cons c line ih =>
    rw [splitOnce] at cut
    split_ifs at cut with space
    · obtain ⟨rfl, rfl⟩ := Prod.mk.inj (Option.some.inj cut)
      simp
    obtain ⟨⟨front, back⟩, inner, equal⟩ := Option.map_eq_some_iff.mp cut
    obtain ⟨rfl, rfl⟩ := Prod.mk.inj equal
    have less : byteLen front + byteLen back ≤ byteLen line := ih inner
    simp only [byteLen_cons]
    omega

theorem record_bytes (line : Text) :
    byteLen ((splitOnce ' ' line).getD (line, [])).1 + byteLen ((splitOnce ' ' line).getD (line, [])).2 ≤ byteLen line := by
  rcases cut : splitOnce ' ' line with _ | ⟨hash, subject⟩
  · simp
  · exact splitOnce_bytes cut

theorem Sized.snoc {more : Nat} {commit : Text × Text} (sized : Sized commits bytes)
    (room : commits.length < MAX_REBASE_TODOS) (id : isSafeObjectId commit.1 = true)
    (small : byteLen commit.1 + byteLen commit.2 ≤ more) (record : more ≤ MAX_GIT_RECORD_BYTES)
    (total : bytes + more ≤ MAX_REBASE_TODO_BYTES) : Sized (commits ++ [commit]) (bytes + more) where
  few := by
    rw [length_append]
    exact room
  ids := forall_mem_append.mpr ⟨sized.ids, forall_mem_singleton.mpr id⟩
  subjects := by
    refine forall_mem_append.mpr ⟨sized.subjects, forall_mem_singleton.mpr ?_⟩
    omega
  held := by
    have := sized.held
    simp only [map_append, sum_append, map_cons, map_nil, sum_cons, sum_nil]
    omega
  bounded := total

variable {plan : List RebaseTodo}

theorem parsePlanLines_sized (lines : List Text) {lineIndex : Nat}
    (parsed : parsePlanLines lineIndex bytes todos lines = .ok plan) (sized : Sized (todos.map commit) bytes)
    (picked : ∀ todo ∈ todos, todo.action = .Pick) : (∃ total, Sized (plan.map commit) total) ∧ ∀ todo ∈ plan, todo.action = .Pick := by
  induction lines generalizing lineIndex bytes todos with
  | nil =>
    cases parsed
    exact ⟨⟨bytes, sized⟩, picked⟩
  | cons line lines ih =>
    rw [parsePlanLines] at parsed
    split_ifs at parsed with empty full
    · exact ih parsed sized picked
    obtain ⟨_, small, parsed⟩ := bind_ok_iff.mp parsed
    have record := ensureGitRecordSize_ok.mp small
    have cut := record_bytes (line.rdropWhile (· = '\r'))
    generalize line.rdropWhile (· = '\r') = line at *
    dsimp only at parsed
    split_ifs at parsed with large safe
    have within : bytes + byteLen line ≤ MAX_REBASE_TODO_BYTES := by
      simp only [saturatingAdd, MAX_REBASE_TODO_BYTES] at large ⊢
      omega
    have exact' : saturatingAdd bytes (byteLen line) = bytes + byteLen line := by
      simp only [saturatingAdd, MAX_REBASE_TODO_BYTES] at within ⊢
      omega
    rw [exact'] at parsed
    refine ih parsed ?_ (forall_mem_append.mpr ⟨picked, forall_mem_singleton.mpr rfl⟩)
    rw [map_append]
    exact sized.snoc (by simpa using full) safe cut record within

theorem parsePlanOutput_sized {out : Text} (parsed : parsePlanOutput out = .ok plan) :
    (∃ total, Sized (plan.map commit) total) ∧ ∀ todo ∈ plan, todo.action = .Pick :=
  parsePlanLines_sized _ parsed ⟨Nat.zero_le _, nofun, nofun, Nat.le_refl 0, Nat.zero_le _⟩ nofun

theorem picked_executable (picked : ∀ todo ∈ plan, todo.action = .Pick) : Executable plan := by
  intro todo first
  rw [picked todo (mem_of_find?_eq_some first)]
  rfl

theorem byteLen_le (t : Text) : byteLen t ≤ 4 * t.length := by
  induction t with
  | nil => simp
  | cons c t ih =>
    have := c.utf8Size_le_four
    simp only [byteLen_cons, length_cons]
    omega

theorem todoBytes_le {todo : RebaseTodo} (full : 40 ≤ todo.hash.length) : todoBytes todo ≤ byteLen todo.hash + byteLen todo.subject := by
  have action : byteLen todo.action.asStr ≤ 6 := by cases todo.action <;> decide
  have short : byteLen todo.shortHash ≤ 28 := by
    have := byteLen_le todo.shortHash
    have seven : todo.shortHash.length ≤ 7 := length_take_le 7 todo.hash
    omega
  have := length_le_byteLen todo.hash
  simp only [todoBytes, saturatingAdd]
  omega

theorem validateTodoEntries_ok (full : ∀ todo ∈ todos, 40 ≤ todo.hash.length) (ids : ∀ todo ∈ todos, isSafeObjectId todo.hash = true)
    (subjects : ∀ todo ∈ todos, byteLen todo.subject ≤ MAX_GIT_RECORD_BYTES) {capacity : Nat}
    (room : capacity + (todos.map fun todo => byteLen todo.hash + byteLen todo.subject).sum ≤ MAX_REBASE_TODO_BYTES) :
    ∃ total, validateTodoEntries capacity todos = .ok total := by
  induction todos generalizing capacity with
  | nil => exact ⟨capacity, rfl⟩
  | cons todo todos ih =>
    rw [forall_mem_cons] at full ids subjects
    rw [map_cons, sum_cons] at room
    have entry := todoBytes_le full.1
    have fits : capacity + todoBytes todo ≤ USIZE_MAX := by
      simp only [MAX_REBASE_TODO_BYTES, USIZE_MAX] at room ⊢
      omega
    have below : ¬ capacity + todoBytes todo > MAX_REBASE_TODO_BYTES := by omega
    obtain ⟨total, rest⟩ := @ih full.2 ids.2 subjects.2 (capacity + todoBytes todo) (by omega)
    refine ⟨total, ?_⟩
    rw [validateTodoEntries, checkedAdd, if_pos fits]
    simpa [ids.1, not_lt.mpr subjects.1, below] using rest

theorem todoLine_single (todo : RebaseTodo) (safe : isSafeObjectId todo.hash = true) : '\n' ∉ todoLine todo := by
  have digits : ∀ c ∈ todo.hash, isAsciiHexDigit c = true := by
    simp only [isSafeObjectId, Bool.and_eq_true, all_eq_true] at safe
    exact safe.2
  intro mem
  simp only [todoLine, mem_append, mem_singleton] at mem
  rcases mem with (((action | space) | short) | space) | subject
  · revert action
    cases todo.action <;> decide
  · exact absurd space (by decide)
  · exact absurd (digits '\n' (mem_of_mem_take short)) (by decide)
  · exact absurd space (by decide)
  · obtain ⟨c, -, clean⟩ := mem_map.mp subject
    split_ifs at clean with control
    · exact absurd clean (by decide)
    · rw [clean] at control
      exact control (by decide)

theorem buildTodoContent_lines {total : Nat} (held : todos ≠ [])
    (full : ∀ todo ∈ todos, 40 ≤ todo.hash.length) (sized : Sized (todos.map commit) total) :
    ∃ content, buildTodoContent todos = .ok content ∧ splitTerminator '\n' content = todos.map todoLine := by
  have ids : ∀ todo ∈ todos, isSafeObjectId todo.hash = true := fun todo mem => sized.ids _ (mem_map_of_mem mem)
  have subjects : ∀ todo ∈ todos, byteLen todo.subject ≤ MAX_GIT_RECORD_BYTES := fun todo mem => sized.subjects _ (mem_map_of_mem mem)
  have room : 0 + (todos.map fun todo => byteLen todo.hash + byteLen todo.subject).sum ≤ MAX_REBASE_TODO_BYTES := by
    have held := sized.held
    have bounded := sized.bounded
    rw [map_map] at held
    change (todos.map fun todo => byteLen todo.hash + byteLen todo.subject).sum ≤ total at held
    omega
  obtain ⟨capacity, entries⟩ := validateTodoEntries_ok full ids subjects room
  have valid : validateTodos todos = .ok capacity := by
    have few := sized.few
    rw [length_map] at few
    rw [validateTodos, if_neg (by simpa using held), if_neg (by omega), entries]
  refine ⟨_, by rw [buildTodoContent, valid]; rfl, ?_⟩
  rw [← flatMap_map todoLine (· ++ ['\n'])]
  refine splitTerminator_parts fun line mem => ?_
  obtain ⟨todo, own, rfl⟩ := mem_map.mp mem
  exact todoLine_single todo (ids todo own)

/-- Neither commit is named by the abbreviation of the other. -/
def Apart (left right : RebaseTodo) : Prop := ¬ left.shortHash <+: right.hash ∧ ¬ right.shortHash <+: left.hash

/-- What holds of a plan that came from another one by edits: it has the same commits, Git takes it, and its
    todo file names each of them in one line. -/
structure Sound (plan todos : List RebaseTodo) : Prop where
  commits : (todos.map commit).Perm (plan.map commit)
  once : (todos.map (·.hash)).Nodup
  executable : Executable todos
  named : todos.Pairwise Apart
  file : todos ≠ [] → ∃ content, buildTodoContent todos = .ok content ∧ splitTerminator '\n' content = todos.map todoLine

theorem apart_iff {left right : RebaseTodo} (full : 40 ≤ left.hash.length) (full' : 40 ≤ right.hash.length) :
    Apart left right ↔ left.shortHash ≠ right.shortHash := by
  have start {todo other : RebaseTodo} (full : 40 ≤ todo.hash.length) :
      todo.shortHash <+: other.hash ↔ todo.shortHash = other.shortHash := by
    have seven : todo.shortHash.length = 7 := by
      simp only [RebaseTodo.shortHash, charPrefix, length_take]
      omega
    rw [prefix_iff_eq_take, seven]
    rfl
  rw [Apart, start full, start full', eq_comm (a := right.shortHash), and_self]

/-- In a run every plan is sound exactly when no edit misleads and the commits differ in the first seven
    digits of their hashes. -/
theorem rebase_runs {out : Text} {plan : List RebaseTodo} (parsed : parsePlanOutput out = .ok plan)
    (full : ∀ todo ∈ plan, 40 ≤ todo.hash.length) (error : Option Text) (edits : List Edit) :
    (∀ view ∈ views ⟨plan, error⟩ edits, Sound plan view.rebaseTodos) ↔ FairRun ⟨plan, error⟩ edits ∧ (plan.map (·.shortHash)).Nodup := by
  obtain ⟨⟨total, sized⟩, picked⟩ := parsePlanOutput_sized parsed
  have executable := @views_executable ⟨plan, error⟩ (picked_executable picked) edits
  have apart {todos : List RebaseTodo} (full : ∀ todo ∈ todos, 40 ≤ todo.hash.length) :
      todos.Pairwise Apart ↔ (todos.map (·.shortHash)).Nodup := by
    rw [List.Nodup, pairwise_map]
    exact List.Pairwise.iff_of_mem fun left right => apart_iff (full _ left) (full _ right)
  rw [← executable]
  constructor
  · intro sound
    have start : (⟨plan, error⟩ : VcsView) ∈ views ⟨plan, error⟩ edits := by cases edits <;> exact mem_cons_self
    exact ⟨fun view mem => (sound view mem).executable, (apart full).mp (sound _ start).named⟩
  intro ⟨kept, distinct⟩ view mem
  have commits := views_commits ⟨plan, error⟩ edits view mem
  have hashes : (view.rebaseTodos.map (·.hash)).Perm (plan.map (·.hash)) := by simpa [commit, Function.comp_def] using commits.map Prod.fst
  have full' : ∀ todo ∈ view.rebaseTodos, 40 ≤ todo.hash.length := by
    intro todo mem
    obtain ⟨other, own, same⟩ := mem_map.mp (hashes.subset (mem_map_of_mem mem))
    rw [← same]
    exact full other own
  have names : (view.rebaseTodos.map (·.shortHash)).Perm (plan.map (·.shortHash)) := by
    simpa [RebaseTodo.shortHash, Function.comp_def] using hashes.map fun hash => charPrefix hash 7
  have unlike : (view.rebaseTodos.map (·.shortHash)).Nodup := names.nodup_iff.mpr distinct
  refine ⟨commits, ?_, kept view mem, (apart full').mpr unlike, fun held => ?_⟩
  · refine List.Nodup.of_map (fun hash => charPrefix hash 7) ?_
    simpa [RebaseTodo.shortHash, Function.comp_def] using unlike
  · exact buildTodoContent_lines held full' (sized.perm commits)

def firstHash : Text := List.replicate 40 'a'
def secondHash : Text := List.replicate 40 'b'

def twoCommits : Text := firstHash ++ [' ', 'x', '\n'] ++ secondHash ++ [' ', 'y', '\n']

theorem parse_twoCommits : parsePlanOutput twoCommits = .ok [⟨.Pick, firstHash, ['x']⟩, ⟨.Pick, secondHash, ['y']⟩] := by decide

/-- The second commit may be joined to the first. -/
theorem rebase_runs_squash :
    Sound [⟨.Pick, firstHash, ['x']⟩, ⟨.Pick, secondHash, ['y']⟩] [⟨.Pick, firstHash, ['x']⟩, ⟨.Squash, secondHash, ['y']⟩] := by
  have runs := (rebase_runs parse_twoCommits (by decide) none
    [.changeAction secondHash .Squash, .move secondHash true]).mpr ⟨⟨by decide, by decide, trivial⟩, by decide⟩
  exact runs ⟨[⟨.Pick, firstHash, ['x']⟩, ⟨.Squash, secondHash, ['y']⟩], none⟩ (by decide)

/-- The second commit is joined to the first, and then the first is dropped. -/
theorem rebase_drop_first : ¬ ∀ (out : Text) (plan : List RebaseTodo), parsePlanOutput out = .ok plan →
      (∀ todo ∈ plan, 40 ≤ todo.hash.length) → ∀ (edits : List Edit), ∀ view ∈ views ⟨plan, none⟩ edits, Executable view.rebaseTodos := by
  intro law
  have last := law _ _ parse_twoCommits (by decide) [.changeAction secondHash .Squash, .changeAction firstHash .Drop]
    ⟨[⟨.Drop, firstHash, ['x']⟩, ⟨.Squash, secondHash, ['y']⟩], none⟩ (by decide)
  exact absurd last (by decide)

end Ramag.RebaseRuns
