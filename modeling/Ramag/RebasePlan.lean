import Ramag.DataSyncGate
import Ramag.UnifiedDiff

/-!
The plan of an interactive rebase: it is read from `git log`, edited entry by
entry, and written as the todo file that Git takes in place of an editor.
-/
namespace Ramag.RebasePlan
open Strings Domain DataSyncGate Fields UnifiedDiff

def MAX_REBASE_TODOS : Nat := 10000
def MAX_REBASE_TODO_BYTES : Nat := 4 * 1024 * 1024

inductive RebaseAction
  | Pick
  | Squash
  | Fixup
  | Reword
  | Edit
  | Drop
  deriving DecidableEq

def RebaseAction.asStr : RebaseAction → Text
  | .Pick => "pick"
  | .Squash => "squash"
  | .Fixup => "fixup"
  | .Reword => "reword"
  | .Edit => "edit"
  | .Drop => "drop"

/-- `Squash | Fixup`: the entry is joined to the one before it. -/
def RebaseAction.merges (action : RebaseAction) : Bool := action = .Squash || action = .Fixup

structure RebaseTodo where
  action : RebaseAction
  hash : Text
  subject : Text
  deriving DecidableEq

def charPrefix (value : Text) (maxChars : Nat) : Text := value.take maxChars

def RebaseTodo.shortHash (todo : RebaseTodo) : Text := charPrefix todo.hash 7

def isAsciiHexDigit (c : Char) : Bool :=
  c.isDigit || (65 ≤ c.toNat && c.toNat ≤ 70) || (97 ≤ c.toNat && c.toNat ≤ 102)

def isSafeObjectId (value : Text) : Bool :=
  decide (4 ≤ byteLen value) && decide (byteLen value ≤ 64) && value.all isAsciiHexDigit

def parsePlanLines (lineIndex retainedBytes : Nat) (todos : List RebaseTodo) : List Text → Result (List RebaseTodo)
  | [] => .ok todos
  | line :: lines =>
    -- `lines()` takes away one carriage return before the line feed, the trim takes the others
    let line := line.rdropWhile (· = '\r')
    if line.isEmpty then parsePlanLines (lineIndex + 1) retainedBytes todos lines
    else if todos.length ≥ MAX_REBASE_TODOS then
      .error (.QueryFailed ("rebase 计划超过 " ++ natText MAX_REBASE_TODOS ++ " 个 commit 安全上限，请缩小上游范围"))
    else do
      ensureGitRecordSize line "Git rebase 计划记录" (lineIndex + 1)
      let retainedBytes := saturatingAdd retainedBytes (byteLen line)
      if retainedBytes > MAX_REBASE_TODO_BYTES then
        .error (.QueryFailed ("rebase 计划文本超过 " ++ natText (MAX_REBASE_TODO_BYTES / 1024 / 1024) ++ " MiB 安全上限，请缩小上游范围"))
      else
        let (hash, subject) := (splitOnce ' ' line).getD (line, [])
        if isSafeObjectId hash then
          parsePlanLines (lineIndex + 1) retainedBytes (todos ++ [⟨.Pick, hash, subject⟩]) lines
        else
          .error (.QueryFailed ("解析 rebase 计划第 " ++ natText (lineIndex + 1) ++ " 条记录失败：commit id 无效"))

/-- The plan from the output of `git log --format=%H %s --reverse`. -/
def parsePlanOutput (out : Text) : Result (List RebaseTodo) :=
  parsePlanLines 0 0 [] (splitTerminator '\n' out)

structure VcsView where
  rebaseTodos : List RebaseTodo
  error : Option Text
  deriving DecidableEq

variable (todos : List RebaseTodo)

def findRebaseTodoIndex (hash : Text) : Option Nat :=
  todos.findIdx? fun todo => decide (todo.hash = hash)

def isRebaseActionValid (idx : Nat) (action : RebaseAction) : Bool := decide (0 < idx) || !action.merges

def changeRebaseAction (hash : Text) (action : RebaseAction) (view : VcsView) : VcsView :=
  match findRebaseTodoIndex view.rebaseTodos hash with
  | none => { view with error := some "Rebase 计划已更新，请重新选择提交" }
  | some idx =>
    if isRebaseActionValid idx action then
      { view with rebaseTodos := view.rebaseTodos.modify idx fun todo => { todo with action } }
    else
      { view with error := some "第一条 commit 不能使用 Squash / Fixup，因为前面没有可合并对象" }

/-- Swaps the entry at the index with the one behind it. -/
def swapNext : Nat → List RebaseTodo → List RebaseTodo
  | 0, first :: second :: rest => second :: first :: rest
  | idx + 1, first :: rest => first :: swapNext idx rest
  | _, rest => rest

/-- The entry that would come first joins the one before it. -/
def wouldMakeInvalidFirst (idx : Nat) (up : Bool) : Bool :=
  (up && idx == 1 && todos[idx]?.any (·.action.merges)) || (!up && idx == 0 && todos[1]?.any (·.action.merges))

def moveRebaseTodo (hash : Text) (up : Bool) (view : VcsView) : VcsView :=
  match findRebaseTodoIndex view.rebaseTodos hash with
  | none => { view with error := some "Rebase 计划已更新，请重新选择提交" }
  | some idx =>
    let todos := view.rebaseTodos
    if wouldMakeInvalidFirst todos idx up then
      { view with error := some "Squash / Fixup 前必须保留一条 commit 作为合并目标" }
    else if up && decide (0 < idx) then { view with rebaseTodos := swapNext (idx - 1) todos }
    else if !up && decide (idx + 1 < todos.length) then { view with rebaseTodos := swapNext idx todos }
    else view

/-! ### The todo file -/

def sanitizeTodoSubject (subject : Text) : Text := subject.map fun c => if isControl c then ' ' else c

def USIZE_MAX : Nat := 2 ^ 64 - 1

/-- `checked_add` -/
def checkedAdd (a b : Nat) : Option Nat := if a + b ≤ USIZE_MAX then some (a + b) else none

def todoBytes (todo : RebaseTodo) : Nat :=
  saturatingAdd (saturatingAdd (saturatingAdd (byteLen todo.action.asStr) (byteLen todo.shortHash))
    (byteLen todo.subject)) 3

def validateTodoEntries (capacity : Nat) : List RebaseTodo → Result Nat
  | [] => .ok capacity
  | todo :: todos =>
    if !isSafeObjectId todo.hash then .error (.InvalidConfig ("rebase commit id 无效：" ++ todo.hash))
    else if byteLen todo.subject > MAX_GIT_RECORD_BYTES then
      .error (.InvalidConfig ("rebase commit " ++ todo.shortHash ++ " 的标题超过 " ++ natText (MAX_GIT_RECORD_BYTES / 1024) ++ " KiB 上限"))
    else
      match checkedAdd capacity (todoBytes todo) with
      | none => .error (.InvalidConfig "rebase 计划大小溢出")
      | some capacity =>
        if capacity > MAX_REBASE_TODO_BYTES then
          .error (.InvalidConfig ("rebase 计划文本超过 " ++ natText (MAX_REBASE_TODO_BYTES / 1024 / 1024) ++ " MiB 安全上限"))
        else validateTodoEntries capacity todos

def validateTodos : Result Nat :=
  if todos.isEmpty then .error (.InvalidConfig "rebase 计划不能为空")
  else if todos.length > MAX_REBASE_TODOS then
    .error (.InvalidConfig ("rebase 计划超过 " ++ natText MAX_REBASE_TODOS ++ " 个 commit 安全上限"))
  else validateTodoEntries 0 todos

def todoLine (todo : RebaseTodo) : Text :=
  todo.action.asStr ++ [' '] ++ todo.shortHash ++ [' '] ++ sanitizeTodoSubject todo.subject

def buildTodoContent : Result Text := do
  let _ ← validateTodos todos
  .ok (todos.flatMap fun todo => todoLine todo ++ ['\n'])

end Ramag.RebasePlan
