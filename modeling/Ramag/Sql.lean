import Ramag.Domain

/-!
The dialect-neutral SQL scanners: the statement splitter, the mask that keeps
only the executable code of a statement, the keyword tests, and the read-only
guard in front of an execution. A loop of the source that moves its index past
a whole literal or comment is a scan with a count of the characters that are
still to be passed over (`skip`), so every scanner recurses on the text itself.
-/
namespace Ramag.Sql
open Strings Domain

def MAX_SQL_STATEMENTS : Nat := TRANSFER_BATCH_ITEMS + 1

structure SplitOptions where
  dollarQuoted : Bool
  mysqlCompoundBlocks : Bool

def SplitOptions.mysql : SplitOptions := ⟨false, true⟩
def SplitOptions.postgres : SplitOptions := ⟨true, false⟩
def SplitOptions.sqlite : SplitOptions := ⟨false, true⟩

def isQuote (c : Char) : Bool := c == '\'' || c == '"' || c == '`'
def isWordByte (c : Char) : Bool := c.isAlphanum || c == '_'

/-- The characters that the splitter passes over after an opening quote, the
    closing quote included. -/
def quotedSkip (quote : Char) : Text → Nat
  | [] => 0
  | [_] => 1
  | c :: d :: t => if c = '\\' then 2 + quotedSkip quote t else if c = quote then 1 else 1 + quotedSkip quote (d :: t)

/-- The characters that the mask blanks after an opening quote; a doubled quote
    does not close the literal. -/
def maskedSkip (quote : Char) : Text → Nat
  | [] => 0
  | [_] => 1
  | c :: d :: t =>
    if c = '\\' then 2 + maskedSkip quote t
    else if c = quote then if d = quote then 2 + maskedSkip quote t else 1
    else 1 + maskedSkip quote (d :: t)

/-- The length of the rest of a line, without its line feed. -/
def lineSkip (t : Text) : Nat := (t.takeWhile (· ≠ '\n')).length

/-- The characters after the opening of a block comment, its closing included. -/
def blockSkip : Text → Nat
  | '*' :: '/' :: _ => 2
  | _ :: t => 1 + blockSkip t
  | [] => 0

/-- The length of the dollar-quoted literal that starts here, if there is one;
    not nested. -/
def scanDollarQuoted : Text → Option Nat
  | [] => none
  | c :: t =>
    let name := t.takeWhile isWordByte
    match t.drop name.length with
    | '$' :: body =>
      let tag := c :: name ++ ['$']
      (findText tag body).map fun offset => tag.length + offset + tag.length
    | _ => none

/-! ### The statement splitter -/

def mysqlEndClosesNestedBlock (t : Text) : Bool :=
  let next := (t.dropWhile isAsciiWhitespace).takeWhile isWordByte
  ["IF", "CASE", "LOOP", "REPEAT", "WHILE"].any fun word => eqIgnoreAsciiCase next word.toList

/-- The variables of the splitting loop; `segment` is the text since `start`. -/
structure SplitState where
  out : List Text := []
  segment : Text := []
  createSeen : Bool := false
  trigger : Bool := false
  blockDepth : Nat := 0

variable (state : SplitState)

def SplitState.push (c : Char) : SplitState := { state with segment := state.segment ++ [c] }

/-- Ends the current segment; `none` when it would be one statement too many. -/
def SplitState.emit (limit : Option Nat) : Option SplitState :=
  let segment := trim state.segment
  if segment.isEmpty then some { out := state.out }
  else if limit.any (· ≤ state.out.length) then none
  else some { out := state.out ++ [segment] }

/-- What a word of a MySQL script does to the trigger tracking; `rest` is the
    text after the word. -/
def SplitState.word (word rest : Text) : SplitState :=
  let state :=
    if state.trigger then state
    else if eqIgnoreAsciiCase word "CREATE" then { state with createSeen := true }
    else if state.createSeen && eqIgnoreAsciiCase word "TRIGGER" then { state with trigger := true }
    else state
  if !state.trigger then state
  else if eqIgnoreAsciiCase word "BEGIN" then { state with blockDepth := state.blockDepth + 1 }
  else if eqIgnoreAsciiCase word "END" && 0 < state.blockDepth && !mysqlEndClosesNestedBlock rest then
    { state with blockDepth := state.blockDepth - 1 }
  else state

/-- The characters that the splitter passes over at once. -/
def splitJump (opts : SplitOptions) : Text → Nat
  | [] => 0
  | c :: t =>
    if isQuote c then 1 + quotedSkip c t
    else if c = '$' && opts.dollarQuoted then (scanDollarQuoted (c :: t)).getD 1
    else if c = '-' && t.head? = some '-' then lineSkip (c :: t)
    else if c = '/' && t.head? = some '*' then 2 + blockSkip t.tail
    else if opts.mysqlCompoundBlocks && c.isAlpha then 1 + (t.takeWhile isWordByte).length
    else 1

/-- Whether the splitter reads the text here as a word. -/
def startsWord (opts : SplitOptions) (c : Char) : Bool := opts.mysqlCompoundBlocks && c.isAlpha

def splitFrom (opts : SplitOptions) (limit : Option Nat) : Nat → SplitState → Text → Option (List Text)
  | _, state, [] => (state.emit limit).map SplitState.out
  | skip + 1, state, c :: t => splitFrom opts limit skip (state.push c) t
  | 0, state, c :: t =>
    if c = ';' then
      if opts.mysqlCompoundBlocks && state.trigger && 0 < state.blockDepth then
        splitFrom opts limit 0 (state.push c) t
      else
        match state.emit limit with
        | none => none
        | some next => splitFrom opts limit 0 next t
    else
      let jump := splitJump opts (c :: t)
      let state := if startsWord opts c then state.word ((c :: t).take jump) ((c :: t).drop jump) else state
      splitFrom opts limit (jump - 1) (state.push c) t

/-- `none` as the limit stands for `usize::MAX`, which no text can reach. -/
def splitStatementsWithLimit (sql : Text) (opts : SplitOptions) (limit : Option Nat) : Option (List Text) :=
  splitFrom opts limit 0 {} sql

def splitStatements (sql : Text) (opts : SplitOptions) : List Text :=
  (splitStatementsWithLimit sql opts none).getD []

def splitStatementsBounded (sql : Text) (opts : SplitOptions) (maxStatements : Nat) : Result (List Text) :=
  match splitStatementsWithLimit sql opts (some maxStatements) with
  | some statements => .ok statements
  | none => .error (.InvalidConfig ("SQL 语句数量超过 " ++ natText maxStatements ++ " 条安全上限，请拆分脚本后执行"))

example : splitStatements "SELECT 'a;b'; SELECT 2" .mysql = ["SELECT 'a;b'", "SELECT 2"] := by decide

def firstKeywordFrom : Nat → Text → Option Text
  | _, [] => none
  | skip + 1, _ :: t => firstKeywordFrom skip t
  | 0, c :: t =>
    if isAsciiWhitespace c then firstKeywordFrom 0 t
    else if c = '-' && t.head? = some '-' then firstKeywordFrom (lineSkip t) t
    else if c = '/' && t.head? = some '*' then firstKeywordFrom (1 + blockSkip t.tail) t
    else
      let word := (c :: t).takeWhile Char.isAlpha
      if word.isEmpty then none else some (toAsciiUppercase word)

def firstKeyword (stmt : Text) : Option Text := firstKeywordFrom 0 stmt

/-- A word cannot continue over this edge. -/
def wordEdge (c : Option Char) : Bool := c.all fun c => !isWordByte c

/-- The word occurs with both its edges; `before` is the character in front of
    the text. -/
def containsWordFrom (word : Text) : Option Char → Text → Bool
  | before, [] => word.isEmpty && wordEdge before
  | before, c :: t =>
    (word.isPrefixOf (c :: t) && wordEdge before && wordEdge ((c :: t).drop word.length).head?) ||
      containsWordFrom word (some c) t

def containsWord (haystackUpper word : Text) : Bool := containsWordFrom word none haystackUpper

/-- How many characters the mask passes over at once, and whether it blanks
    them. -/
def maskJump : Text → Nat × Bool
  | [] => (0, false)
  | c :: t =>
    if isQuote c then (1 + maskedSkip c t, true)
    else if c = '$' then
      match scanDollarQuoted (c :: t) with
      | some length => (length, true)
      | none => (1, false)
    else if c = '-' && t.head? = some '-' then (lineSkip (c :: t), true)
    else if c = '/' && t.head? = some '*' then
      if t.tail.head? = some '!' then (3, true) else (2 + blockSkip t.tail, true)
    else (1, false)

/-- The mask: `blank` says what happens to the characters that are still to be
    passed over. -/
def maskFrom : Nat → Bool → Text → Text
  | _, _, [] => []
  | skip + 1, blank, c :: t => (if blank then ' ' else c) :: maskFrom skip blank t
  | 0, _, c :: t =>
    let jump := maskJump (c :: t)
    (if jump.2 then ' ' else c) :: maskFrom (jump.1 - 1) jump.2 t

def sqlCodeForWriteCheck (stmt : Text) : Text := maskFrom 0 false stmt

def SAFE_LEADING : List Text :=
  ["SELECT", "SHOW", "DESC", "DESCRIBE", "EXPLAIN", "WITH", "VALUES", "TABLE"]

def WRITE_INNER : List Text :=
  ["INSERT", "UPDATE", "DELETE", "MERGE", "REPLACE", "CREATE", "DROP", "ALTER", "TRUNCATE", "GRANT", "REVOKE", "OUTFILE", "DUMPFILE"]

/-- The text from a byte offset on, when the offset is a character boundary. -/
def getFrom : Nat → Text → Option Text
  | 0, t => some t
  | _ + 1, [] => none
  | n + 1, c :: t => if c.utf8Size ≤ n + 1 then getFrom (n + 1 - c.utf8Size) t else none

def isWriteStatement (stmt : Text) : Bool :=
  let upper := toAsciiUppercase (sqlCodeForWriteCheck stmt)
  match firstKeyword upper with
  | none => WRITE_INNER.any (containsWord upper)
  | some kw =>
    if kw ∉ SAFE_LEADING then true
    else
      let showCreate := kw == "SHOW" &&
        ((getFrom (byteLen kw) (trimStart upper)).bind firstKeyword).any (· == "CREATE".toList)
      if WRITE_INNER.any fun word => !(showCreate && word == "CREATE") && containsWord upper word then true
      else containsWord upper "INTO"

example : isWriteStatement "SHOW CREATE TABLE `app`.`users`".toList = false := by decide
example : isWriteStatement "SELECT 1 /* DROP TABLE t */" = false := by decide

def isTransactionControlStatement (statement : Text) : Bool :=
  (firstKeyword statement).any fun keyword =>
    keyword ∈ ["BEGIN".toList, "START".toList, "COMMIT".toList, "ROLLBACK".toList, "SAVEPOINT".toList, "RELEASE".toList]

/-- The statements that `execute_impl` goes on to run on a connection that is
    read-only when `production` is set. -/
def executeImpl (production : Bool) (opts : SplitOptions) (query : Query) : Result (List Text) :=
  match query.validate with
  | .error error => .error error
  | .ok () =>
    match splitStatementsBounded query.sql opts MAX_SQL_STATEMENTS with
    | .error error => .error error
    | .ok statements =>
      if statements.any isTransactionControlStatement then
        .error (.InvalidConfig
          "请使用事务控制按钮管理事务，不要直接执行 BEGIN、COMMIT、ROLLBACK、SAVEPOINT 或 RELEASE")
      else if production && statements.any isWriteStatement then .error (.Forbidden READ_ONLY_MESSAGE)
      else .ok statements

end Ramag.Sql
