import Ramag.Sql
import Ramag.Lexing

/-!
The SQL functions of the query tab: the tokenizer that gives the keywords of a
text with their parenthesis depths, the stripping of leading comments, and the
detection of dangerous statements in front of an execution.
-/
namespace Ramag.SqlUtils
open Strings Domain Sql Lexing

def isMysqlExecutableComment (driver : DriverKind) (t : Text) : Bool :=
  driver = .Mysql && (t.take 3 = "/*!" || t.take 4 = "/*M!")

/-- The characters of a block comment after its opening, the closing included. -/
def blockCommentEnd (nested : Bool) (t : Text) : Nat := if nested then nestedSkip 0 t else blockSkip t

/-! ### The tokenizer -/

def isWordStart (c : Char) : Bool := c.isAlpha || c == '_'

/-- The characters that the tokenizer passes over at once. -/
def tokenJump (driver : DriverKind) : Text → Nat
  | [] => 0
  | c :: t =>
    if isQuote c then 1 + maskedSkip c t
    else if c = '-' && t.head? = some '-' then lineSkip (c :: t)
    else if c = '#' && driver = .Mysql then lineSkip (c :: t)
    else if c = '/' && t.head? = some '*' then
      if isMysqlExecutableComment driver (c :: t) then if t.tail.head? = some '!' then 3 else 4
      else 2 + blockCommentEnd (driver = .Postgres) t.tail
    else if c = '$' && driver = .Postgres then (scanDollarQuoted (c :: t)).getD 1
    else if isWordStart c then 1 + (t.takeWhile isWordByte).length
    else 1

/-- A keyword and the number of parentheses open around it. -/
abbrev Token := Text × Nat

def tokensFrom (driver : DriverKind) : Nat → Nat → Text → List Token
  | _, _, [] => []
  | skip + 1, depth, _ :: t => tokensFrom driver skip depth t
  | 0, depth, c :: t =>
    if c = '(' then tokensFrom driver 0 (depth + 1) t
    else if c = ')' then tokensFrom driver 0 (depth - 1) t
    else
      let jump := tokenJump driver (c :: t)
      if isWordStart c then
        (toAsciiUppercase ((c :: t).take jump), depth) :: tokensFrom driver (jump - 1) depth t
      else tokensFrom driver (jump - 1) depth t

variable (sql : Text)

def keywordDepths (driver : DriverKind) : List Token := tokensFrom driver 0 0 sql

def hasTopLevelKeyword (sql keyword : Text) (driver : DriverKind) : Bool :=
  (keywordDepths sql driver).any fun token => token.2 = 0 && token.1 = keyword

/-- The line feed behind a comment is passed over as white space. -/
def stripFrom (driver : DriverKind) : Nat → Text → Text
  | _, [] => []
  | skip + 1, _ :: t => stripFrom driver skip t
  | 0, c :: t =>
    if isWhitespace c then stripFrom driver 0 t
    else if c = '-' && t.head? = some '-' then stripFrom driver (lineSkip t) t
    else if c = '#' && driver = .Mysql then stripFrom driver (lineSkip t) t
    else if c = '/' && t.head? = some '*' && !isMysqlExecutableComment driver (c :: t) then
      stripFrom driver (1 + blockCommentEnd (driver = .Postgres) t.tail) t
    else c :: t

def stripLeadingComments (stmt : Text) (driver : DriverKind) : Text := stripFrom driver 0 stmt

def splitOptions : DriverKind → SplitOptions
  | .Postgres => .postgres
  | _ => .mysql

/-- A text of too many statements counts as one statement. -/
def splitSqlStatements (driver : DriverKind) : List Text :=
  match splitStatementsBounded sql (splitOptions driver) MAX_SQL_STATEMENTS with
  | .ok statements => statements
  | .error _ => [sql]

def makeShortTitle : Text :=
  let firstLine := (((sql.splitOn '\n').map trim).find? fun line => !line.isEmpty).getD []
  if firstLine.length ≤ 28 then firstLine else firstLine.take 28 ++ "…"

def DELETE_RISK : Text := "DELETE 未带 WHERE（将删除整表数据）"
def UPDATE_RISK : Text := "UPDATE 未带 WHERE（将改写整表数据）"
def DROP_RISK : Text := "DROP（将删除表 / 库等对象，不可恢复）"
def TRUNCATE_RISK : Text := "TRUNCATE（将清空整表数据，不可回滚）"
def EXPLAIN_RISK : Text := "EXPLAIN ANALYZE 会执行目标查询（可能产生副作用或消耗资源）"

/-- Whether the keyword follows at the depth, before a token that is outside of it. -/
def hasFollowingKeywordAtDepth (depth : Nat) (expected : Text) : List Token → Bool
  | [] => false
  | (keyword, tokenDepth) :: tokens =>
    if tokenDepth < depth then false
    else if tokenDepth = depth && keyword = expected then true
    else hasFollowingKeywordAtDepth depth expected tokens

/-- The risk of one keyword, when a `DELETE` or `UPDATE` has its own `WHERE` or not. -/
def keywordRisk (keyword : Text) (guarded : Bool) : Option Text :=
  if keyword = "DELETE" && !guarded then some DELETE_RISK
  else if keyword = "UPDATE" && !guarded then some UPDATE_RISK
  else if keyword = "DROP" then some DROP_RISK
  else if keyword = "TRUNCATE" then some TRUNCATE_RISK
  else none

def detectDangerousTokens : List Token → Option Text
  | [] => none
  | (keyword, depth) :: tokens =>
    match keywordRisk keyword (hasFollowingKeywordAtDepth depth "WHERE" tokens) with
    | some risk => some risk
    | none => detectDangerousTokens tokens

/-- The keywords that end the options of an `EXPLAIN`. -/
def EXPLAINED : List Text :=
  ["SELECT", "WITH", "INSERT", "UPDATE", "DELETE", "MERGE", "VALUES", "TABLE"]

/-- The tokens behind `EXPLAIN` are given. -/
def explainAnalyzeExecutes (tokens : List Token) : Bool :=
  (tokens.takeWhile fun token => !(token.2 = 0 && token.1 ∈ EXPLAINED)).any fun token => token.1 = "ANALYZE"

/-- The risk of a statement without its leading comments. -/
def statementRisk (body : Text) (driver : DriverKind) : Option Text :=
  match keywordDepths body driver with
  | [] => none
  | (first, depth) :: tokens =>
    let explainAnalyze := first = "EXPLAIN" && explainAnalyzeExecutes tokens
    let risk :=
      if first = "WITH" || explainAnalyze then detectDangerousTokens ((first, depth) :: tokens)
      else keywordRisk first (hasTopLevelKeyword body "WHERE" driver)
    risk.or (if explainAnalyze then some EXPLAIN_RISK else none)

def detectDangerousStatements (driver : DriverKind) : List Text :=
  (splitSqlStatements sql driver).filterMap fun stmt =>
    let body := stripLeadingComments stmt driver
    (statementRisk body driver).map fun risk => risk ++ "：" ++ makeShortTitle body

example : detectDangerousStatements "WITH g AS (DELETE FROM t RETURNING id) SELECT id FROM g" .Postgres =
    [DELETE_RISK ++ "：WITH g AS (DELETE FROM t RET…"] := by
  decide +kernel

end Ramag.SqlUtils
