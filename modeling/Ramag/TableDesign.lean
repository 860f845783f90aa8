import Ramag.Domain

/-!
The table designer: the drafts of its fields and the statements that turn the
table into them.
-/
namespace Ramag.TableDesign
open Strings Domain

inductive GeneratedColumnStorage
  | Virtual
  | Stored
  deriving DecidableEq

inductive IdentityGeneration
  | Always
  | ByDefault

structure Column where
  name : Text
  rawType : Text
  nullable : Bool
  defaultValue : Option Text := none
  isPrimaryKey : Bool := false
  comment : Option Text := none
  isAutoIncrement : Bool := false
  generationExpression : Option Text := none
  generatedStorage : Option GeneratedColumnStorage := none
  identityGeneration : Option IdentityGeneration := none

/-- A draft, with the texts of its inputs. -/
structure FieldDraft where
  name : Text
  dataType : Text
  nullable : Bool
  defaultValue : Text
  comment : Text
  original : Option Column
  deleted : Bool := false

/-- The inputs of a draft, trimmed. -/
structure FieldSql where
  name : Text
  dataType : Text
  defaultValue : Text
  comment : Text

variable (field : FieldDraft)

def FieldDraft.sql : FieldSql :=
  ⟨trim field.name, trim field.dataType, trim field.defaultValue, trim field.comment⟩

structure TableDesigner where
  driver : DriverKind
  schema : Text
  originalTable : Text
  fields : List FieldDraft
  tableHasRows : Option Bool

def NO_CHANGES : Text := "没有检测到表结构变更"

def validateIdentifier (label value : Text) : Except Text Unit :=
  if value = [] then .error (label ++ "不能为空")
  else if byteLen value > MAX_CONNECTION_IDENTIFIER_BYTES then
    .error (label ++ "不能超过 " ++ natText MAX_CONNECTION_IDENTIFIER_BYTES ++ " 字节")
  else if value.any isControl then .error (label ++ "不能包含控制字符")
  else .ok ()

def escapeLiteral (value : Text) : Text := replaceChar '\'' ['\'', '\''] value

/-- A column of a `CHANGE` or `ADD` of MySQL. -/
structure MysqlDefinition where
  name : Text
  dataType : Text
  generated : Option (Text × GeneratedColumnStorage)
  nullable : Bool
  defaultValue : Option Text
  autoIncrement : Bool
  /-- What stands between the quotes. -/
  commentLiteral : Option Text
  deriving DecidableEq

inductive MysqlClause
  | Drop (column : Text)
  | Add (definition : MysqlDefinition)
  | Change (column : Text) (definition : MysqlDefinition)
  deriving DecidableEq

inductive Statement
  | DropColumn (column : Text)
  /-- A column that can be null says so on SQLite only. -/
  | AddColumn (column dataType : Text) (nullable : Bool) (defaultValue : Option Text)
  | RenameColumn (column name : Text)
  | AlterType (column dataType : Text)
  | AlterNull (column : Text) (nullable : Bool)
  | AlterDefault (column : Text) (defaultValue : Option Text)
  | Comment (column : Text) (literal : Option Text)
  | Alter (clauses : List MysqlClause)
  deriving DecidableEq

def nullText (nullable : Bool) : Text := if nullable then " NULL" else " NOT NULL"

def defaultText (defaultValue : Option Text) : Text := (defaultValue.map (" DEFAULT ".toList ++ ·)).getD []

def MysqlDefinition.text (definition : MysqlDefinition) : Text :=
  let storage : GeneratedColumnStorage → Text
    | .Virtual => "VIRTUAL".toList
    | .Stored => "STORED".toList
  let generated := (definition.generated.map fun generated =>
    " GENERATED ALWAYS AS (".toList ++ generated.1 ++ ") ".toList ++ storage generated.2).getD []
  let comment := (definition.commentLiteral.map fun literal => " COMMENT '".toList ++ literal ++ ['\'']).getD []
  quoteIdentifier .Mysql definition.name ++ ' ' :: definition.dataType ++ generated ++ nullText definition.nullable ++
    defaultText definition.defaultValue ++ (if definition.autoIncrement then " AUTO_INCREMENT".toList else []) ++ comment

def MysqlClause.text : MysqlClause → Text
  | .Drop column => "DROP COLUMN " ++ quoteIdentifier .Mysql column
  | .Add definition => "ADD COLUMN " ++ definition.text
  | .Change column definition => "CHANGE COLUMN " ++ quoteIdentifier .Mysql column ++ ' ' :: definition.text

/-- The statement on a table, whose name is quoted. -/
def Statement.text (driver : DriverKind) (table : Text) (statement : Statement) : Text :=
  let alter := "ALTER TABLE " ++ table
  let quoted := quoteIdentifier driver
  let isNull (nullable : Bool) : Text := if driver = .Postgres && nullable then [] else nullText nullable
  let default' (defaultValue : Option Text) : Text := (defaultValue.map (" SET DEFAULT ".toList ++ ·)).getD " DROP DEFAULT".toList
  let literal (literal : Option Text) : Text := (literal.map fun body => '\'' :: body ++ ['\'']).getD "NULL"
  match statement with
  | .DropColumn column => alter ++ " DROP COLUMN " ++ quoted column ++ [';']
  | .AddColumn column dataType nullable defaultValue =>
    alter ++ " ADD COLUMN " ++ quoted column ++ ' ' :: dataType ++ isNull nullable ++ defaultText defaultValue ++ [';']
  | .RenameColumn column name => alter ++ " RENAME COLUMN " ++ quoted column ++ " TO " ++ quoted name ++ [';']
  | .AlterType column dataType => alter ++ " ALTER COLUMN " ++ quoted column ++ " TYPE " ++ dataType ++ [';']
  | .AlterNull column nullable =>
    alter ++ " ALTER COLUMN " ++ quoted column ++ (if nullable then " DROP NOT NULL;" else " SET NOT NULL;").toList
  | .AlterDefault column defaultValue => alter ++ " ALTER COLUMN " ++ quoted column ++ default' defaultValue ++ [';']
  | .Comment column body => "COMMENT ON COLUMN " ++ table ++ '.' :: quoted column ++ " IS " ++ literal body ++ [';']
  | .Alter clauses => alter ++ ' ' :: ",\n    ".toList.intercalate (clauses.map MysqlClause.text) ++ [';']

/-! ### Fields -/

/-- A text that is not empty. -/
def filled (text : Text) : Option Text := if text = [] then none else some text

def fieldChanged (original : Column) (sql : FieldSql) : Bool :=
  original.name ≠ sql.name || original.rawType ≠ sql.dataType || original.nullable ≠ field.nullable ||
    original.defaultValue.getD [] ≠ sql.defaultValue || original.comment.getD [] ≠ sql.comment

/-- The expression of a generated column, trimmed. -/
def Column.expression (column : Column) : Option Text := (column.generationExpression.map trim).bind filled

structure MysqlAttributes where
  generated : Option (Text × GeneratedColumnStorage)
  autoIncrement : Bool

def mysqlAttributes : Option Column → Except Text MysqlAttributes
  | none => .ok ⟨none, false⟩
  | some original =>
    if original.identityGeneration.isSome then
      .error ("MySQL 字段 " ++ original.name ++ " 包含不支持的 IDENTITY 属性，无法安全生成 CHANGE COLUMN")
    else
      match original.expression, original.generatedStorage with
      | none, none => .ok ⟨none, original.isAutoIncrement⟩
      | some expression, some storage => .ok ⟨some (expression, storage), original.isAutoIncrement⟩
      | _, _ => .error ("MySQL 字段 " ++ original.name ++ " 的生成列元数据不完整，无法安全生成 CHANGE COLUMN")

def mysqlDefinition (sql : FieldSql) : Except Text MysqlDefinition := do
  let attributes ← mysqlAttributes field.original
  if attributes.generated.isSome && trim sql.defaultValue ≠ [] then
    .error ("MySQL 字段 " ++ sql.name ++ " 同时包含生成表达式和默认值，无法安全生成 CHANGE COLUMN")
  else if attributes.generated.isSome && attributes.autoIncrement then
    .error ("MySQL 字段 " ++ sql.name ++ " 同时包含生成表达式和 AUTO_INCREMENT，无法安全生成 CHANGE COLUMN")
  else
    .ok {
      name := sql.name
      dataType := sql.dataType
      generated := attributes.generated
      nullable := field.nullable
      defaultValue := if attributes.generated.isSome then none else filled sql.defaultValue
      autoIncrement := attributes.autoIncrement
      commentLiteral := (filled sql.comment).map escapeLiteral }

def mysqlFieldSql (sql : FieldSql) : Except Text (List MysqlClause) := do
  let definition ← mysqlDefinition field sql
  match field.original with
  | none => .ok [.Add definition]
  | some original => .ok (if fieldChanged field original sql then [.Change original.name definition] else [])

def postgresFieldSql (sql : FieldSql) : List Statement :=
  match field.original with
  | none =>
    .AddColumn sql.name sql.dataType field.nullable (filled sql.defaultValue) ::
      (if sql.comment = [] then [] else [.Comment sql.name (some (escapeLiteral sql.comment))])
  | some original =>
    (if original.name = sql.name then [] else [.RenameColumn original.name sql.name]) ++
      (if original.rawType = sql.dataType then [] else [.AlterType sql.name sql.dataType]) ++
      (if original.nullable = field.nullable then [] else [.AlterNull sql.name field.nullable]) ++
      (if original.defaultValue.getD [] = sql.defaultValue then [] else [.AlterDefault sql.name (filled sql.defaultValue)]) ++
      if original.comment.getD [] = sql.comment then [] else [.Comment sql.name ((filled sql.comment).map escapeLiteral)]

def sqliteDefinitionChanged (original : Column) (sql : FieldSql) : Bool :=
  original.rawType ≠ sql.dataType || original.nullable ≠ field.nullable || original.defaultValue.getD [] ≠ sql.defaultValue ||
    original.comment.getD [] ≠ sql.comment || original.isPrimaryKey || original.isAutoIncrement ||
    original.generationExpression.isSome || original.generatedStorage.isSome || original.identityGeneration.isSome

variable (designer : TableDesigner)

def sqliteFieldSql (field : FieldDraft) (sql : FieldSql) : Except Text (List Statement) :=
  if sql.comment ≠ [] then .error "SQLite 不支持字段注释，请在 DDL 或查询编辑器中维护注释信息"
  else
    match field.original with
    | none =>
      if field.nullable = false && sql.defaultValue = [] && designer.tableHasRows ≠ some false then
        if designer.tableHasRows = some true then
          .error ("SQLite 表 " ++ designer.originalTable ++ " 已有数据，新增 NOT NULL 字段必须设置默认值或允许 NULL")
        else .error ("无法确认 SQLite 表 " ++ designer.originalTable ++ " 是否为空，不能生成无默认值的 NOT NULL 新字段")
      else .ok [.AddColumn sql.name sql.dataType field.nullable (filled sql.defaultValue)]
    | some original =>
      if sqliteDefinitionChanged field original sql then
        .error ("SQLite 字段 " ++ original.name ++ " 只支持重命名；类型、约束或默认值变化请使用重建表 SQL")
      else .ok (if original.name = sql.name then [] else [.RenameColumn original.name sql.name])

/-- The checks of a field that stays. -/
def checkField (names : List Text) (sql : FieldSql) : Except Text Unit := do
  validateIdentifier "字段名" sql.name
  if toAsciiLowercase sql.name ∈ names then .error ("字段名 " ++ sql.name ++ " 重复，请修改后再预览")
  else if sql.dataType = [] then .error ("字段 " ++ sql.name ++ " 的类型不能为空")
  else if ';' ∈ sql.dataType then .error ("字段 " ++ sql.name ++ " 的类型不能包含分号")
  else if ';' ∈ sql.defaultValue then .error ("字段 " ++ sql.name ++ " 的默认值不能包含分号")
  else .ok ()

/-- The statements, or for MySQL the clauses, of one field that stays. -/
def fieldStatements (field : FieldDraft) : Except Text (List Statement ⊕ List MysqlClause) :=
  match designer.driver with
  | .Mysql => (mysqlFieldSql field field.sql).map .inr
  | .Postgres => .ok (.inl (postgresFieldSql field field.sql))
  | .Sqlite => (sqliteFieldSql designer field field.sql).map .inl
  | .Redis | .Mongodb => .error "当前数据库不支持表结构设计器"

/-- The column that a field drops. -/
def dropStatements (field : FieldDraft) : List Statement ⊕ List MysqlClause :=
  match field.original with
  | none => .inl []
  | some original => if designer.driver = .Mysql then .inr [.Drop original.name] else .inl [.DropColumn original.name]

/-- The loop over the fields, with the names so far, in lower case. -/
def collectStatements (designer : TableDesigner) : List Text → List FieldDraft → Except Text (List Statement × List MysqlClause)
  | _, [] => .ok ([], [])
  | names, field :: fields => do
    if field.deleted then
      let (statements, clauses) ← collectStatements designer names fields
      match dropStatements designer field with
      | .inl first => .ok (first ++ statements, clauses)
      | .inr first => .ok (statements, first ++ clauses)
    else
      checkField names field.sql
      let made ← fieldStatements designer field
      let (statements, clauses) ← collectStatements designer (toAsciiLowercase field.sql.name :: names) fields
      match made with
      | .inl first => .ok (first ++ statements, clauses)
      | .inr first => .ok (statements, first ++ clauses)

/-- The statements of `change_sql`; the clauses of MySQL are one statement at the end. -/
def changeStatements : Except Text (List Statement) := do
  let (statements, clauses) ← collectStatements designer [] designer.fields
  let statements := if clauses = [] then statements else statements ++ [.Alter clauses]
  if statements = [] then .error NO_CHANGES else .ok statements

def changeSql : Except Text Text := do
  let table := quoteIdentifier designer.driver designer.schema ++ '.' :: quoteIdentifier designer.driver designer.originalTable
  let statements ← changeStatements designer
  .ok (['\n'].intercalate (statements.map (Statement.text designer.driver table)))

/-! ### What the statements do to a table -/

/-! ### Tables -/

/-- A column of a table; a default or a comment that is not there is empty. -/
structure TableColumn where
  name : Text
  dataType : Text
  nullable : Bool
  default : Text
  comment : Text
  autoIncrement : Bool
  generated : Option (Text × GeneratedColumnStorage)

def Column.generated (column : Column) : Option (Text × GeneratedColumnStorage) :=
  column.expression.bind fun expression => column.generatedStorage.map (expression, ·)

def Column.onTable (column : Column) : TableColumn where
  name := column.name
  dataType := column.rawType
  nullable := column.nullable
  default := column.defaultValue.getD []
  comment := column.comment.getD []
  autoIncrement := column.isAutoIncrement
  generated := column.generated

variable (driver : DriverKind)

/-- Two names are the same for the database if their keys are. -/
def key (name : Text) : Text := if driver = .Postgres then name else toAsciiLowercase name

/-- The character or characters that an escape of MySQL stands for. -/
def unescape (c : Char) : Text :=
  if c = '%' || c = '_' then ['\\', c]
  else if c = '0' then ['\x00'] else if c = 'b' then ['\x08'] else if c = 'n' then ['\n'] else if c = 'r' then ['\r']
  else if c = 't' then ['\t'] else if c = 'Z' then ['\x1a'] else [c]

/-- What a literal stands for, from the text between its quotes. -/
def readLiteral (escapes : Bool) : Text → Option Text
  | [] => some []
  | [c] => if c = '\'' || (escapes && c = '\\') then none else some [c]
  | c :: d :: t =>
    if c = '\'' then if d = '\'' then (readLiteral escapes t).map ('\'' :: ·) else none
    else if escapes && c = '\\' then (readLiteral escapes t).map (unescape d ++ ·)
    else (readLiteral escapes (d :: t)).map (c :: ·)

variable (table : List TableColumn)

def hasColumn (name : Text) : Bool :=
  table.any fun column => key driver column.name = key driver name

/-- The column of a name is changed; it must be there. -/
def modify (name : Text) (change : TableColumn → TableColumn) : Option (List TableColumn) :=
  if hasColumn driver table name then
    some (table.map fun column => if key driver column.name = key driver name then change column else column)
  else none

def MysqlClause.target : MysqlClause → Option Text
  | .Drop column | .Change column _ => some column
  | .Add _ => none

def MysqlDefinition.onTable (definition : MysqlDefinition) : Option TableColumn :=
  let comment := match definition.commentLiteral with
    | none => some []
    | some literal => readLiteral true literal
  comment.map fun comment =>
    ⟨definition.name, definition.dataType, definition.nullable, definition.defaultValue.getD [], comment,
      definition.autoIncrement, definition.generated⟩

/-- What the clauses make of the columns that the table has. -/
def alterColumns (clauses : List MysqlClause) : List TableColumn → Option (List TableColumn)
  | [] => some []
  | column :: table => do
    let rest ← alterColumns clauses table
    match clauses.find? fun clause => clause.target.any fun name => key .Mysql name = key .Mysql column.name with
    | some (.Drop _) => some rest
    | some (.Change _ definition) | some (.Add definition) => definition.onTable.map (· :: rest)
    | none => some (column :: rest)

def addColumns : List MysqlClause → Option (List TableColumn)
  | [] => some []
  | .Add definition :: clauses => do
    let rest ← addColumns clauses
    definition.onTable.map (· :: rest)
  | .Drop _ :: clauses | .Change _ _ :: clauses => addColumns clauses

/-- The clauses name columns of the table as it was, and the columns of the new table have names of their own. -/
def execAlter (clauses : List MysqlClause) : Option (List TableColumn) := do
  if clauses.all fun clause => clause.target.all (hasColumn .Mysql table) then
    let altered ← alterColumns clauses table
    let added ← addColumns clauses
    if ((altered ++ added).map fun column => key .Mysql column.name).Nodup then some (altered ++ added) else none
  else none

def execStatement : Statement → Option (List TableColumn)
  | .DropColumn column =>
    if hasColumn driver table column then some (table.filter fun other => key driver other.name ≠ key driver column) else none
  | .AddColumn column dataType nullable defaultValue =>
    if hasColumn driver table column then none
    else some (table ++ [⟨column, dataType, nullable, defaultValue.getD [], [], false, none⟩])
  | .RenameColumn column name =>
    if table.any fun other => key driver other.name = key driver name && key driver other.name ≠ key driver column then none
    else modify driver table column fun old => { old with name }
  | .AlterType column dataType => modify driver table column fun old => { old with dataType }
  | .AlterNull column nullable => modify driver table column fun old => { old with nullable }
  | .AlterDefault column defaultValue => modify driver table column fun old => { old with default := defaultValue.getD [] }
  | .Comment column none => modify driver table column fun old => { old with comment := [] }
  | .Comment column (some literal) => do
    let comment ← readLiteral false literal
    modify driver table column fun old => { old with comment }
  | .Alter clauses => execAlter table clauses

def exec (driver : DriverKind) : List TableColumn → List Statement → Option (List TableColumn)
  | table, [] => some table
  | table, statement :: statements => do
    let table ← execStatement driver table statement
    exec driver table statements

variable (field : FieldDraft)

/-- The column that a draft is of. -/
def FieldDraft.drafted : TableColumn where
  name := field.sql.name
  dataType := field.sql.dataType
  nullable := field.nullable
  default := field.sql.defaultValue
  comment := field.sql.comment
  autoIncrement := (field.original.map Column.isAutoIncrement).getD false
  generated := field.original.bind Column.generated

def FieldDraft.edited : Option TableColumn := if field.deleted then none else some field.drafted

namespace TableDesigner

/-- The table before the changes. -/
def original (designer : TableDesigner) : List TableColumn :=
  (designer.fields.filterMap FieldDraft.original).map Column.onTable

/-- The table as it was drafted: what is left of the columns, and behind them the new ones. -/
def edited (designer : TableDesigner) : List TableColumn :=
  (designer.fields.filter fun field => field.original.isSome).filterMap FieldDraft.edited ++
    (designer.fields.filter fun field => field.original.isNone).filterMap FieldDraft.edited

/-- The columns of the table have names of their own. -/
def Distinct (designer : TableDesigner) : Prop :=
  (designer.fields.filterMap FieldDraft.original).Pairwise fun first second =>
    key designer.driver first.name ≠ key designer.driver second.name

end TableDesigner

/-- Every backslash stands before a percent sign or an underscore, where MySQL keeps it. -/
def plainComment : Text → Bool
  | [] => true
  | [c] => c ≠ '\\'
  | c :: d :: t => if c = '\\' then (d = '%' || d = '_') && plainComment t else plainComment (d :: t)

/-- MySQL is given the comment of the field. -/
def FieldDraft.isWritten : Bool :=
  !field.deleted && field.original.all fun original => fieldChanged field original field.sql

/-- No column takes a name that a later field still has, and MySQL keeps the comments that it is given. -/
def Executable (designer : TableDesigner) : Prop :=
  if designer.driver = .Mysql then ∀ field ∈ designer.fields, field.isWritten = true → plainComment field.sql.comment = true
  else designer.fields.Pairwise fun first later => first.deleted = false →
    ∀ original ∈ later.original, key designer.driver first.sql.name ≠ key designer.driver original.name

end Ramag.TableDesign
