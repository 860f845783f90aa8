import Ramag.UnifiedDiff
import Ramag.StatusMerge
import Ramag.Utf8Decoding
import Ramag.MysqlLexer
import Mathlib.Data.Char

/-!
The reader of `git status --porcelain=v2 -z`: one pass over the records between
the zero bytes, in which the first byte tells what a record is. The record of a
rename takes the next one as the old path.
-/
namespace Ramag.PorcelainStatus
open Strings Domain Fields Utf8Decoding
open UnifiedDiff (MAX_GIT_RECORD_BYTES ensureGitListRoom validateOutputPath)
open StatusMerge (FileChangeKind FileStatus)
open MysqlLexer (isHexDigit)

structure ParsedStatus where
  files : List FileStatus := []
  headBranch : Option Text := none
  headCommit : Option Text := none
  ahead : Option Nat := none
  behind : Option Nat := none
  sawHeadBranch : Bool := false
  sawHeadCommit : Bool := false

/-- A sort that may change the order of entries with one path. -/
structure SortByPath where
  sort : List FileStatus → List FileStatus
  perm : ∀ files, (sort files).Perm files
  sorted : ∀ files, (sort files).Pairwise (·.path ≤ ·.path)

def statusParseError (index : Nat) (reason : Text) : DomainError :=
  .QueryFailed ("解析 Git 工作区状态第 " ++ natText index ++ " 条记录失败：" ++ reason)

def ensureGitRecordSize (bytes : List UInt8) (label : Text) (index : Nat) : Result Unit :=
  if bytes.length > MAX_GIT_RECORD_BYTES then
    .error (.QueryFailed (label ++ "第 " ++ natText index ++ " 条超过 " ++ natText (MAX_GIT_RECORD_BYTES / 1024) ++ " KiB 安全上限"))
  else .ok ()

def orError {α : Type} (value : Option α) (error : DomainError) : Result α :=
  value.elim (.error error) .ok

variable (record : List UInt8) (index : Nat)

def decodeStatusRecord : Result Text :=
  orError (decode record) (statusParseError index ("路径或记录非 UTF-8：" ++ utf8Error record))

/-- An ASCII character as `{:?}` writes it. -/
def debugAscii (c : Char) : Text :=
  match c with
  | '\x00' => ['\'', '\\', '0', '\'']
  | '\t' => ['\'', '\\', 't', '\'']
  | '\n' => ['\'', '\\', 'n', '\'']
  | '\r' => ['\'', '\\', 'r', '\'']
  | '\'' => ['\'', '\\', '\'', '\'']
  | '\\' => ['\'', '\\', '\\', '\'']
  | c =>
    if isControl c then ['\'', '\\', 'u', '\x7b'] ++ Nat.toDigits 16 c.toNat ++ ['\x7d', '\'']
    else ['\'', c, '\'']

def codeToKind (c : Char) (index : Nat) : Result (Option FileChangeKind) :=
  match c with
  | ' ' | '.' => .ok none
  | 'M' => .ok (some .Modified)
  | 'A' => .ok (some .Added)
  | 'D' => .ok (some .Deleted)
  | 'R' => .ok (some .Renamed)
  | 'C' => .ok (some .Copied)
  | 'T' => .ok (some .TypeChanged)
  | 'U' => .ok (some .Conflicted)
  | '?' => .ok (some .Untracked)
  | other => .error (statusParseError index ("未知状态码 " ++ debugAscii other))

def parseXy (xy : Text) (index : Nat) : Result (Option FileChangeKind × Option FileChangeKind) := do
  if byteLen xy ≠ 2 ∨ ¬ xy.all (·.toNat < 128) then .error (statusParseError index "XY 状态码格式异常")
  else
    let x ← orError xy[0]? (statusParseError index "缺少暂存区状态码")
    let y ← orError xy[1]? (statusParseError index "缺少工作区状态码")
    .ok (← codeToKind x index, ← codeToKind y index)

def parseBranchCount (value : Option Text) (sign : Char) (index : Nat) : Result Nat := do
  let digits ← orError (value.bind (stripPrefix [sign])) (statusParseError index "branch.ab 计数前缀异常")
  (parseUsize digits).mapError fun error => statusParseError index ("branch.ab 计数无效：" ++ error.text)

/-- What the pass carries from record to record. -/
structure PorcelainState where
  parsed : ParsedStatus := {}
  aheadBehind : Option (Nat × Nat) := none

def parseBranchHeader (state : PorcelainState) : Result PorcelainState := do
  let text ← decodeStatusRecord record index
  match stripPrefix "# branch.oid " text with
  | some value =>
    if state.parsed.sawHeadCommit then .error (statusParseError index "branch.oid 重复")
    else if value ≠ "(initial)" then
      if value.isEmpty || !value.all isHexDigit then .error (statusParseError index "branch.oid 无效")
      else .ok { state with parsed.sawHeadCommit := true, parsed.headCommit := some (value.take 7) }
    else .ok { state with parsed.sawHeadCommit := true }
  | none =>
  match stripPrefix "# branch.head " text with
  | some value =>
    if state.parsed.sawHeadBranch then .error (statusParseError index "branch.head 重复")
    else if value ≠ "(detached)" then
      if value.isEmpty || value.any isControl then .error (statusParseError index "branch.head 无效")
      else .ok { state with parsed.sawHeadBranch := true, parsed.headBranch := some value }
    else .ok { state with parsed.sawHeadBranch := true }
  | none =>
  match stripPrefix "# branch.ab " text with
  | some value =>
    if state.aheadBehind.isSome then .error (statusParseError index "branch.ab 重复")
    else do
      let parts := splitAsciiWhitespace value
      let ahead ← parseBranchCount parts[0]? '+' index
      let behind ← parseBranchCount parts[1]? '-' index
      if parts[2]?.isSome then .error (statusParseError index "branch.ab 字段数量异常")
      else .ok { state with aheadBehind := some (ahead, behind) }
  | none =>
    -- Headers that the snapshot does not need are passed over.
    if "# ".toList.isPrefixOf text then .ok state else .error (statusParseError index "分支头记录格式异常")

/-- `1 XY sub mH mI mW hH hI path` -/
def parseOrdinary : Result FileStatus := do
  let text ← decodeStatusRecord record index
  let parts := splitN ' ' 9 text
  if parts.length ≠ 9 ∨ parts.getD 0 [] ≠ ['1'] then .error (statusParseError index "普通记录字段数量异常")
  else
    let path := parts.getD 8 []
    if path.isEmpty then .error (statusParseError index "普通记录路径为空")
    else
      validateOutputPath path "Git 工作区路径" index
      let (staged, unstaged) ← parseXy (parts.getD 1 []) index
      .ok ⟨path, none, staged, unstaged⟩

/-- `2 XY sub mH mI mW hH hI Xscore newpath` -/
def parseRename (record oldPath : List UInt8) (index : Nat) : Result FileStatus := do
  let text ← decodeStatusRecord record index
  let parts := splitN ' ' 10 text
  if parts.length ≠ 10 ∨ parts.getD 0 [] ≠ ['2'] then .error (statusParseError index "rename 记录字段数量异常")
  else if (parts.getD 9 []).isEmpty || oldPath.isEmpty then .error (statusParseError index "rename 路径为空")
  else
    let (staged, unstaged) ← parseXy (parts.getD 1 []) index
    let oldPath ← orError (decode oldPath) (statusParseError index ("旧路径非 UTF-8：" ++ utf8Error oldPath))
    validateOutputPath (parts.getD 9 []) "Git 工作区新路径" index
    validateOutputPath oldPath "Git 工作区旧路径" index
    .ok ⟨parts.getD 9 [], some oldPath, staged, unstaged⟩

/-- `? path` -/
def parseUntracked : Result FileStatus := do
  let text ← decodeStatusRecord record index
  let path ← orError (stripPrefix "? " text) (statusParseError index "未跟踪记录前缀异常")
  if path.isEmpty then .error (statusParseError index "未跟踪路径为空")
  else
    validateOutputPath path "Git 未跟踪路径" index
    .ok ⟨path, none, none, some .Untracked⟩

/-- `u XY sub m1 m2 m3 mW h1 h2 h3 path` -/
def parseUnmerged : Result FileStatus := do
  let text ← decodeStatusRecord record index
  let parts := splitN ' ' 11 text
  if parts.length ≠ 11 ∨ parts.getD 0 [] ≠ ['u'] then .error (statusParseError index "冲突记录字段数量异常")
  else if (parts.getD 10 []).isEmpty then .error (statusParseError index "冲突路径为空")
  else
    validateOutputPath (parts.getD 10 []) "Git 冲突路径" index
    let _ ← parseXy (parts.getD 1 []) index
    .ok ⟨parts.getD 10 [], none, some .Conflicted, some .Conflicted⟩

/-! ### The pass over the records -/

def PorcelainState.push (state : PorcelainState) (file : FileStatus) : PorcelainState :=
  { state with parsed.files := state.parsed.files ++ [file] }

def filesLabel : Text := "Git 工作区文件状态"

/-- The records from the one after `index` on. -/
def readRecords : Nat → PorcelainState → List (List UInt8) → Result PorcelainState
  | _, state, [] => .ok state
  | index, state, record :: rest => do
    let index := index + 1
    ensureGitRecordSize record "Git 工作区状态记录" index
    let first ← orError record.head? (statusParseError index "记录为空")
    if first = '#'.toUInt8 then
      let state ← parseBranchHeader record index state
      readRecords index state rest
    else if first = '1'.toUInt8 then
      ensureGitListRoom state.parsed.files.length filesLabel
      let file ← parseOrdinary record index
      readRecords index (state.push file) rest
    else if first = '2'.toUInt8 then
      match rest with
      | [] => .error (statusParseError index "rename 记录缺少旧路径")
      | oldPath :: rest =>
        ensureGitRecordSize oldPath "Git 工作区旧路径" index
        ensureGitListRoom state.parsed.files.length filesLabel
        let file ← parseRename record oldPath index
        readRecords index (state.push file) rest
    else if first = '?'.toUInt8 then
      ensureGitListRoom state.parsed.files.length filesLabel
      let file ← parseUntracked record index
      readRecords index (state.push file) rest
    else if first = 'u'.toUInt8 then
      ensureGitListRoom state.parsed.files.length filesLabel
      let file ← parseUnmerged record index
      readRecords index (state.push file) rest
    else
      .error (statusParseError index ("未知记录类型 0x" ++ [Nat.digitChar (first.toNat / 16), Nat.digitChar (first.toNat % 16)]))

/-- The pieces between the zero bytes that are not empty. -/
def records (bytes : List UInt8) : List (List UInt8) := (bytes.splitOn 0).filter (· ≠ [])

def parsePorcelainBytes (byPath : SortByPath) (bytes : List UInt8) : Result ParsedStatus := do
  let state ← readRecords 0 {} (records bytes)
  .ok { state.parsed with
    ahead := state.aheadBehind.map (·.1)
    behind := state.aheadBehind.map (·.2)
    files := byPath.sort state.parsed.files }

end Ramag.PorcelainStatus
