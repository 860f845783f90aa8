import Ramag.Fields

/-!
The reader of `git diff` output: one pass over the lines, in which headers and
hunk bodies are told apart by how a line begins. The declared counts of a hunk
are compared with the lines read when the next hunk starts, or at the end.
-/
namespace Ramag.UnifiedDiff
open Strings Domain Fields

def MAX_PARSED_GIT_ITEMS : Nat := 250000
def MAX_GIT_RECORD_BYTES : Nat := 64 * 1024
def MAX_GIT_PATH_BYTES : Nat := 64 * 1024
def MAX_GIT_PATH_DEPTH : Nat := 256

inductive FileChangeKind
  | Added
  | Modified
  | Deleted
  | Renamed
  | Copied
  | TypeChanged
  | Untracked
  | Conflicted

inductive DiffLineKind
  | Context
  | Add
  | Delete
  deriving DecidableEq

structure DiffLine where
  kind : DiffLineKind
  oldLineno : Option Nat
  newLineno : Option Nat
  text : Text

structure Hunk where
  oldStart : Nat
  oldLines : Nat
  newStart : Nat
  newLines : Nat
  heading : Option Text
  lines : List DiffLine

structure FileDiff where
  path : Text
  oldPath : Option Text
  changeKind : FileChangeKind
  binary : Bool
  oldMode : Option Nat
  newMode : Option Nat
  hunks : List Hunk

def ensureGitSize (bytes : Text) (limit : Nat) (label : Text) (index : Nat) : Result Unit :=
  if byteLen bytes > limit then
    .error (.QueryFailed (label ++ "第 " ++ natText index ++ " 条超过 " ++ natText (limit / 1024) ++ " KiB 安全上限"))
  else .ok ()

def ensureGitRecordSize (bytes label : Text) (index : Nat) : Result Unit :=
  ensureGitSize bytes MAX_GIT_RECORD_BYTES label index

def ensureGitListRoom (currentLen : Nat) (label : Text) : Result Unit :=
  if currentLen ≥ MAX_PARSED_GIT_ITEMS then
    .error (.QueryFailed (label ++ "超过 " ++ natText MAX_PARSED_GIT_ITEMS ++ " 条安全上限，请缩小仓库或操作范围"))
  else .ok ()

def validatePathArg (value label : Text) : Result Unit :=
  if value.isEmpty || byteLen value > MAX_GIT_PATH_BYTES || '\x00' ∈ value then
    .error (.InvalidConfig (label ++ "为空、超过 " ++ natText (MAX_GIT_PATH_BYTES / 1024) ++ " KiB，或包含 NUL 字符"))
  else if value.count '/' + 1 > MAX_GIT_PATH_DEPTH then
    .error (.InvalidConfig (label ++ "超过 " ++ natText MAX_GIT_PATH_DEPTH ++ " 层目录上限"))
  else .ok ()

def validateOutputPath (value label : Text) (index : Nat) : Result Unit :=
  (validatePathArg value label).mapError fun error => .QueryFailed (label ++ "第 " ++ natText index ++ " 条超出安全边界：" ++ error.message)

variable (lineIndex : Nat)

def diffParseError (reason : Text) : DomainError :=
  .QueryFailed ("解析 Git diff 第 " ++ natText (lineIndex + 1) ++ " 行失败：" ++ reason)

def parseRange (s : Text) (lineIndex : Nat) : Result (Nat × Nat) := do
  let (start, count) := (splitOnce ',' s).getD (s, ['1'])
  let start ← (parseU32 start).mapError fun error => diffParseError lineIndex ("起始行号无效：" ++ error.text)
  let count ← (parseU32 count).mapError fun error => diffParseError lineIndex ("行数无效：" ++ error.text)
  .ok (start, count)

def nextLineNumber (current lineIndex : Nat) : Result Nat :=
  if current + 1 < U32_VALUES then .ok (current + 1) else .error (diffParseError lineIndex "行号超出支持范围")

def pushValidatedHunk (hunk : Hunk) (nextOld nextNew : Nat) (hunks : List Hunk) : Result (List Hunk) :=
  if nextOld < hunk.oldStart then .error (.QueryFailed "解析 Git diff 失败：旧行号倒退")
  else if nextNew < hunk.newStart then .error (.QueryFailed "解析 Git diff 失败：新行号倒退")
  else if nextOld - hunk.oldStart ≠ hunk.oldLines ∨ nextNew - hunk.newStart ≠ hunk.newLines then
    .error (.QueryFailed ("解析 Git diff 失败：hunk 声明 " ++ natText hunk.oldLines ++ "/" ++
      natText hunk.newLines ++ " 行，实际 " ++ natText (nextOld - hunk.oldStart) ++ "/" ++
      natText (nextNew - hunk.newStart) ++ " 行"))
  else .ok (hunks ++ [hunk])

def pushDiffLine (hunk : Hunk) (parsedItems : Nat) (line : DiffLine) : Result (Hunk × Nat) := do
  ensureGitListRoom parsedItems "Git diff 实体"
  .ok ({ hunk with lines := hunk.lines ++ [line] }, parsedItems + 1)

/-! ### The pass over the lines -/

/-- What the pass carries from line to line. -/
structure DiffState where
  hunks : List Hunk := []
  current : Option Hunk := none
  oldNo : Nat := 0
  newNo : Nat := 0
  binary : Bool := false
  changeKind : FileChangeKind := .Modified
  oldPath : Option Text := none
  parsedItems : Nat := 0

variable (state : DiffState)

/-- The hunks with the one that is being read. -/
def DiffState.closed : Result (List Hunk) :=
  match state.current with
  | none => .ok state.hunks
  | some hunk => pushValidatedHunk hunk state.oldNo state.newNo state.hunks

/-- A text without the prefix, taken off as often as it stands there. -/
def trimStartMatches (p t : Text) : Text := go t.length t
where
  go : Nat → Text → Text
    | 0, t => t
    | left + 1, t => match stripPrefix p t with
      | some rest => go left rest
      | none => t

/-- The heading of a hunk, from the text after its ranges. -/
def headingOf (value : Text) : Option Text :=
  match trim value with
  | [] => none
  | heading => some heading

/-- A line that starts with `@@`. -/
def openHunk (line : Text) : Result DiffState := do
  ensureGitListRoom state.parsedItems "Git diff 实体"
  let hunks ← state.closed
  match (stripPrefix "@@ " line).bind (splitOnceText " @@") with
  | none => .error (diffParseError lineIndex "hunk 头格式无效")
  | some (ranges, section_) =>
    match splitWhitespace ranges with
    | [oldField, newField] =>
      match stripPrefix ['-'] oldField with
      | none => .error (diffParseError lineIndex "旧范围缺少 '-' 前缀")
      | some oldRange =>
        match stripPrefix ['+'] newField with
        | none => .error (diffParseError lineIndex "新范围缺少 '+' 前缀")
        | some newRange => do
          let (os, ol) ← parseRange oldRange lineIndex
          let (ns, nl) ← parseRange newRange lineIndex
          .ok { state with
            hunks, parsedItems := state.parsedItems + 1, oldNo := os, newNo := ns,
            current := some ⟨os, ol, ns, nl, headingOf section_, []⟩ }
    | _ => .error (diffParseError lineIndex "hunk 范围字段数量异常")

/-- A line inside a hunk, by its marker. -/
def bodyLine (hunk : Hunk) (line : Text) : Result DiffState :=
  match line with
  | ' ' :: text => do
    let (hunk, parsedItems) ←
      pushDiffLine hunk state.parsedItems ⟨.Context, some state.oldNo, some state.newNo, text⟩
    let oldNo ← nextLineNumber state.oldNo lineIndex
    let newNo ← nextLineNumber state.newNo lineIndex
    .ok { state with current := some hunk, parsedItems, oldNo, newNo }
  | '-' :: text => do
    let (hunk, parsedItems) ← pushDiffLine hunk state.parsedItems ⟨.Delete, some state.oldNo, none, text⟩
    let oldNo ← nextLineNumber state.oldNo lineIndex
    .ok { state with current := some hunk, parsedItems, oldNo }
  | '+' :: text => do
    let (hunk, parsedItems) ← pushDiffLine hunk state.parsedItems ⟨.Add, none, some state.newNo, text⟩
    let newNo ← nextLineNumber state.newNo lineIndex
    .ok { state with current := some hunk, parsedItems, newNo }
  | _ =>
    if line = "\\ No newline at end of file" then .ok state
    else .error (diffParseError lineIndex "hunk 内出现未知行类型")

def parseLine (line : Text) : Result DiffState := do
  ensureGitRecordSize line "Git diff 行" (lineIndex + 1)
  if "Binary files".toList.isPrefixOf line then .ok { state with binary := true }
  else if "new file".toList.isPrefixOf line then .ok { state with changeKind := .Added }
  else if "deleted file".toList.isPrefixOf line then .ok { state with changeKind := .Deleted }
  else if "rename from ".toList.isPrefixOf line then do
    let path := trimStartMatches "rename from " line
    validateOutputPath path "Git diff 旧路径" (lineIndex + 1)
    .ok { state with changeKind := .Renamed, oldPath := some path }
  else if "@@".toList.isPrefixOf line then openHunk lineIndex state line
  else if "diff --git".toList.isPrefixOf line || "index ".toList.isPrefixOf line then .ok state
  else if "--- ".toList.isPrefixOf line || "+++ ".toList.isPrefixOf line then .ok state
  else match state.current with
    | none => .ok state
    | some hunk => bodyLine lineIndex state hunk line

def parseLines (lineIndex : Nat) (state : DiffState) : List Text → Result DiffState
  | [] => .ok state
  | line :: lines => do
    let state ← parseLine lineIndex state line
    parseLines (lineIndex + 1) state lines

def parseUnifiedDiff (text path : Text) : Result FileDiff := do
  let state ← parseLines 0 {} (splitTerminator '\n' text)
  let hunks ← state.closed
  .ok { path, oldPath := state.oldPath, changeKind := state.changeKind, binary := state.binary,
        oldMode := none, newMode := none, hunks }

theorem ensureGitRecordSize_ok {bytes label : Text} {index : Nat} {value : Unit} :
    ensureGitRecordSize bytes label index = .ok value ↔ byteLen bytes ≤ MAX_GIT_RECORD_BYTES := by
  unfold ensureGitRecordSize ensureGitSize
  split_ifs with large
  · simp [large]
  · simp [not_lt.mp large]

theorem ensureGitListRoom_ok {items : Nat} {label : Text} {value : Unit} :
    ensureGitListRoom items label = .ok value ↔ items < MAX_PARSED_GIT_ITEMS := by
  unfold ensureGitListRoom
  split_ifs with full
  · simp [full]
  · simp [not_le.mp full]

theorem nextLineNumber_ok {current lineIndex next : Nat} :
    nextLineNumber current lineIndex = .ok next ↔ current + 1 < U32_VALUES ∧ next = current + 1 := by
  unfold nextLineNumber
  split_ifs with fits
  · simp [fits, eq_comm]
  · simp [fits]

theorem pushDiffLine_ok {hunk : Hunk} {items : Nat} {line : DiffLine} {pushed : Hunk × Nat} : pushDiffLine hunk items line = .ok pushed ↔
      items < MAX_PARSED_GIT_ITEMS ∧ pushed = ({ hunk with lines := hunk.lines ++ [line] }, items + 1) := by
  unfold pushDiffLine
  rw [bind_ok_iff]
  simp only [ensureGitListRoom_ok, Except.ok.injEq]
  constructor
  · rintro ⟨_, room, rfl⟩
    exact ⟨room, rfl⟩
  · rintro ⟨room, rfl⟩
    exact ⟨(), room, rfl⟩

theorem pushValidatedHunk_ok {hunk : Hunk} {olds news : Nat} {hunks pushed : List Hunk} :
    pushValidatedHunk hunk (hunk.oldStart + olds) (hunk.newStart + news) hunks = .ok pushed ↔
      olds = hunk.oldLines ∧ news = hunk.newLines ∧ pushed = hunks ++ [hunk] := by
  have forward : ¬ hunk.oldStart + olds < hunk.oldStart := by omega
  have forward' : ¬ hunk.newStart + news < hunk.newStart := by omega
  unfold pushValidatedHunk
  rw [if_neg forward, if_neg forward', Nat.add_sub_cancel_left, Nat.add_sub_cancel_left]
  by_cases counted : olds = hunk.oldLines ∧ news = hunk.newLines
  · simp [counted, eq_comm]
  rw [if_pos (by tauto)]
  constructor
  · intro done
    cases done
  · rintro ⟨first, second, _⟩
    exact absurd ⟨first, second⟩ counted

theorem validatePathArg_ok {path label : Text} {value : Unit} : validatePathArg path label = .ok value ↔
      path ≠ [] ∧ byteLen path ≤ MAX_GIT_PATH_BYTES ∧ '\x00' ∉ path ∧ path.count '/' + 1 ≤ MAX_GIT_PATH_DEPTH := by
  unfold validatePathArg
  split_ifs with unfit deep
  · simp only [false_iff]
    rintro ⟨held, short, clean, _⟩
    simp [held, clean, not_lt.mpr short] at unfit
  · simp only [false_iff]
    rintro ⟨_, _, _, shallow⟩
    exact absurd shallow (not_le.mpr deep)
  · simp only [Bool.or_eq_true, List.isEmpty_iff, decide_eq_true_eq, not_or, not_lt] at unfit
    simp only [true_iff]
    exact ⟨unfit.1.1, unfit.1.2, unfit.2, not_lt.mp deep⟩

theorem validateOutputPath_ok {path label : Text} {index : Nat} {value : Unit} :
    validateOutputPath path label index = .ok value ↔ validatePathArg path label = .ok value := by
  unfold validateOutputPath
  constructor
  · exact mapError_ok
  · intro fine
    rw [fine]
    rfl

end Ramag.UnifiedDiff
