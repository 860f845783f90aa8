import Ramag.UnifiedDiff
import Ramag.Utf8Decoding

/-!
The reader of `git log`: records that end with the byte `0x1e`, with fields
between the characters `0x1f`. `parseLogListOutput` reads the output in one
piece, and `LogPager` page by page from the pipe of the process.
-/
namespace Ramag.GitLog
open Strings Domain Fields Utf8Decoding
open UnifiedDiff (ensureGitSize ensureGitListRoom)

def MAX_GIT_MESSAGE_BYTES : Nat := 4 * 1024 * 1024
def MAX_STDOUT_BYTES : Nat := 64 * 1024 * 1024
def MAX_COMMIT_PARENTS : Nat := 1024
def MAX_COMMIT_REFS : Nat := 256

abbrev CommitId := Text

/-- A name with an address and a time; what a time is does not matter here. -/
structure Signature (Time : Type) where
  name : Text
  email : Text
  timestamp : Time

structure Commit (Time : Type) where
  id : CommitId
  parents : List CommitId
  author : Signature Time
  committer : Signature Time
  subject : Text
  body : Text
  refs : List Text

def ensureGitMessageSize (bytes label : Text) (index : Nat) : Result Unit :=
  ensureGitSize bytes MAX_GIT_MESSAGE_BYTES label index

def negativeText : ParseIntError → Text
  | .PosOverflow => "number too small to fit in target type"
  | error => error.text

/-- An `i64`, or the text of the error. -/
def parseI64 : Text → Except Text Int
  | [] => .error ParseIntError.Empty.text
  | ['+'] | ['-'] => .error ParseIntError.InvalidDigit.text
  | '-' :: digits => ((readUnsigned (2 ^ 63 + 1) 0 digits).mapError negativeText).map fun n => -(n : Int)
  | '+' :: digits => ((readUnsigned (2 ^ 63) 0 digits).mapError ParseIntError.text).map Int.ofNat
  | digits => ((readUnsigned (2 ^ 63) 0 digits).mapError ParseIntError.text).map Int.ofNat

/-- The field at a place, or what is said when there is none. -/
def fieldAt (fields : List Text) (place : Nat) (missing : Text) : Except Text Text :=
  fields[place]?.elim (.error missing) .ok

def pushParents : List CommitId → List Text → Except Text (List CommitId)
  | parents, [] => .ok parents
  | parents, parent :: rest =>
    if parents.length ≥ MAX_COMMIT_PARENTS then
      .error ("父提交数量超过 " ++ natText MAX_COMMIT_PARENTS ++ " 个安全上限")
    else pushParents (parents ++ [parent]) rest

def parseParents (raw : Text) : Except Text (List CommitId) := pushParents [] (splitWhitespace raw)

/-- What stands in place of the refs that are left out. -/
def omittedRefs (count : Nat) : Text := "…另有 " ++ natText count ++ " 个引用已省略"

/-- The first refs; when there are more, the last place is left for a hint. -/
def keepRefs (values : List Text) : List Text :=
  let refs := values.take MAX_COMMIT_REFS
  let remaining := values.length - MAX_COMMIT_REFS
  if remaining > 0 then refs.dropLast ++ [omittedRefs (remaining + 1)] else refs

def parseRefs (raw : Text) : List Text := keepRefs (((raw.splitOn ',').map trim).filter (· ≠ []))

section
variable {Time : Type} (fromTimestamp : Int → Option Time)

/-- A number of seconds as a time, when the calendar reaches so far. -/
def timeOf (seconds : Int) (label : Text) : Except Text Time :=
  (fromTimestamp seconds).elim (.error (label ++ "超出支持范围：" ++ (toString seconds).toList)) .ok

def parseLogListRecord (record : Text) : Except Text (Commit Time) := do
  let fields := splitN '\x1f' 6 record
  let hash := trim (← fieldAt fields 0 "缺少 commit id")
  if hash.isEmpty then .error "commit id 为空"
  else
    let authorName ← fieldAt fields 1 "缺少作者名"
    let authorTs ← fieldAt fields 2 "缺少作者时间"
    let authorTs ← (parseI64 authorTs).mapError fun error => "作者时间非整数：" ++ error
    let parents ← parseParents (← fieldAt fields 3 "缺少父提交字段")
    let refs := parseRefs (← fieldAt fields 4 "缺少引用字段")
    let subject ← fieldAt fields 5 "缺少提交主题"
    let authorTimestamp ← timeOf fromTimestamp authorTs "作者时间"
    -- The list does not read the committer.
    .ok ⟨hash, parents, ⟨authorName, [], authorTimestamp⟩, ⟨[], [], authorTimestamp⟩, subject, [], refs⟩

def parseRecord (record : Text) : Except Text (Commit Time) := do
  let fields := splitN '\x1f' 11 record
  let hash := trim (← fieldAt fields 0 "缺少 commit id")
  if hash.isEmpty then .error "commit id 为空"
  else
    let authorName ← fieldAt fields 1 "缺少作者名"
    let authorEmail ← fieldAt fields 2 "缺少作者邮箱"
    let authorTs ← fieldAt fields 3 "缺少作者时间"
    let authorTs ← (parseI64 authorTs).mapError fun error => "作者时间非整数：" ++ error
    let committerName ← fieldAt fields 4 "缺少提交者名"
    let committerEmail ← fieldAt fields 5 "缺少提交者邮箱"
    let committerTs ← fieldAt fields 6 "缺少提交时间"
    let committerTs ← (parseI64 committerTs).mapError fun error => "提交时间非整数：" ++ error
    let parentsStr ← fieldAt fields 7 "缺少父提交字段"
    let refs := parseRefs (← fieldAt fields 8 "缺少引用字段")
    let subject ← fieldAt fields 9 "缺少提交主题"
    let body := (← fieldAt fields 10 "缺少提交正文字段").rdropWhile (· == '\n')
    let authorTimestamp ← timeOf fromTimestamp authorTs "作者时间"
    let committerTimestamp ← timeOf fromTimestamp committerTs "提交时间"
    let parents ← parseParents parentsStr
    .ok ⟨hash, parents, ⟨authorName, authorEmail, authorTimestamp⟩, ⟨committerName, committerEmail, committerTimestamp⟩,
      subject, body, refs⟩

end

section
variable {Time : Type}

/-- The records from the one after `index` on, behind the commits that were read. -/
def collectRecords (parse : Text → Except Text (Commit Time)) : Nat → List (Commit Time) → List Text → Result (List (Commit Time))
  | _, commits, [] => .ok commits
  | index, commits, record :: rest =>
    let trimmed := record.dropWhile (· == '\n')
    if trimmed.isEmpty then collectRecords parse (index + 1) commits rest
    else do
      ensureGitListRoom commits.length "Git 日志列表"
      ensureGitMessageSize trimmed "Git 日志记录" (index + 1)
      let commit ← (parse trimmed).mapError fun reason => .QueryFailed ("解析 Git 日志第 " ++ natText (index + 1) ++ " 条记录失败：" ++ reason)
      collectRecords parse (index + 1) (commits ++ [commit]) rest

variable (fromTimestamp : Int → Option Time)

def parseLogListOutput (text : Text) : Result (List (Commit Time)) :=
  collectRecords (parseLogListRecord fromTimestamp) 0 [] (text.splitOn '\x1e')

def parseLogOutput (text : Text) : Result (List (Commit Time)) :=
  collectRecords (parseRecord fromTimestamp) 0 [] (text.splitOn '\x1e')

end

/-! ### The output page by page -/

/-- What the pipe still gives: the bytes of each read, or the text of its failure. -/
abbrev Chunks := List (Except Text (List UInt8))

/-- How much is left of the pipe. -/
def chunksSize (chunks : Chunks) : Nat := (chunks.map fun chunk => (chunk.toOption.map List.length).getD 0 + 1).sum

/-- The bytes up to the next delimiter, which is taken and left out. -/
def readLogRecord (record : List UInt8) : Chunks → Result (Option (List UInt8) × Chunks)
  | [] => if record.isEmpty then .ok (none, []) else .error (.QueryFailed "流式 git log 记录缺少结束分隔符")
  | .error error :: _ => .error (.QueryFailed ("读取流式 git log 失败：" ++ error))
  | .ok buffer :: rest =>
    -- An empty read is the end of the output.
    if buffer.isEmpty then
      if record.isEmpty then .ok (none, .ok buffer :: rest)
      else .error (.QueryFailed "流式 git log 记录缺少结束分隔符")
    else
      match buffer.findIdx? (· == 0x1e) with
      | none =>
        if record.length + buffer.length > MAX_GIT_MESSAGE_BYTES + 1 then
          .error (.QueryFailed ("Git 日志记录超过 " ++ natText (MAX_GIT_MESSAGE_BYTES / 1024 / 1024) ++ " MiB 安全上限"))
        else readLogRecord (record ++ buffer) rest
      | some index =>
        if record.length + (index + 1) > MAX_GIT_MESSAGE_BYTES + 1 then
          .error (.QueryFailed ("Git 日志记录超过 " ++ natText (MAX_GIT_MESSAGE_BYTES / 1024 / 1024) ++ " MiB 安全上限"))
        else
          let left := buffer.drop (index + 1)
          .ok (some (record ++ buffer.take index), if left.isEmpty then rest else .ok left :: rest)

theorem readLogRecord_shorter {record found : List UInt8} {chunks chunks' : Chunks}
    (read : readLogRecord record chunks = .ok (some found, chunks')) : chunksSize chunks' < chunksSize chunks := by
  induction chunks generalizing record with
  | nil =>
    unfold readLogRecord at read
    split at read <;> cases read
  | cons chunk rest ih =>
    cases chunk with
    | error error => cases read
    | ok buffer =>
      simp only [readLogRecord] at read
      split at read
      · split at read <;> cases read
      split at read
      · split at read
        · cases read
        · have := ih read
          simp only [chunksSize, List.map_cons, List.sum_cons] at this ⊢
          omega
      · split at read
        case isTrue => cases read
        case isFalse index found _ =>
          cases read
          have inside := (List.findIdx?_eq_some_iff_getElem.mp found).1
          split
          · simp only [chunksSize, List.map_cons, List.sum_cons]
            omega
          · simp only [chunksSize, List.map_cons, List.sum_cons, Except.toOption, Option.map_some, Option.getD_some, List.length_drop]
            omega

structure LogPager where
  offset : Nat := 0
  stdout : Chunks
  /-- What `finish` says of the process when its output has ended. -/
  exit : Result Unit
  finished : Bool := false

section
variable {Time : Type} (fromTimestamp : Int → Option Time)

/-- The loop of `read_page`, from the commits and bytes of the page so far. -/
def readPageFrom (limit : Nat) (pager : LogPager) (commits : List (Commit Time)) (pageBytes : Nat) :
    Result ((List (Commit Time) × Bool) × LogPager) :=
  if commits.length < limit then
    match _read : readLogRecord [] pager.stdout with
    | .error error => .error error
    | .ok (none, stdout) =>
      match pager.exit with
      | .error error => .error error
      | .ok () => .ok ((commits, true), { pager with stdout, finished := true })
    | .ok (some record, stdout) =>
      let pageBytes := pageBytes + record.length
      if pageBytes > MAX_STDOUT_BYTES then
        .error (.QueryFailed ("git log 单页输出超过 " ++ natText (MAX_STDOUT_BYTES / 1024 / 1024) ++ " MiB 安全上限"))
      else
        let trimmed := (decodeLossy record).dropWhile (· == '\n')
        if trimmed.isEmpty then readPageFrom limit { pager with stdout } commits pageBytes
        else
          match ensureGitListRoom commits.length "Git 日志列表" with
          | .error error => .error error
          | .ok () =>
            match ensureGitMessageSize trimmed "Git 日志记录" (commits.length + 1) with
            | .error error => .error error
            | .ok () =>
              match parseLogListRecord fromTimestamp trimmed with
              | .error reason => .error (.QueryFailed ("解析 Git 日志第 " ++ natText (pager.offset + commits.length + 1) ++
                " 条记录失败：" ++ reason))
              | .ok commit => readPageFrom limit { pager with stdout } (commits ++ [commit]) pageBytes
  else if pager.offset + commits.length < 2 ^ 64 then
    .ok ((commits, false), { pager with offset := pager.offset + commits.length })
  else .error (.QueryFailed "Git 日志分页 offset 溢出")
termination_by chunksSize pager.stdout
decreasing_by all_goals exact readLogRecord_shorter _read

/-- The commits of a page, and whether the output has ended. -/
def LogPager.readPage (pager : LogPager) (limit : Nat) : Result ((List (Commit Time) × Bool) × LogPager) :=
  readPageFrom fromTimestamp limit pager [] 0

/-- Page after page with these limits, until the output has ended. -/
def readPages : LogPager → List Nat → Result (List (List (Commit Time)) × Bool)
  | _, [] => .ok ([], false)
  | pager, limit :: limits => do
    let ((commits, finished), pager) ← pager.readPage fromTimestamp limit
    if finished then .ok ([commits], true)
    else
      let (pages, finished) ← readPages pager limits
      .ok (commits :: pages, finished)

end

end Ramag.GitLog
