import Ramag.Domain

/-!
Result values and their SQL literals, and the INSERT statements that the export
and the data sync build from them.
-/
namespace Ramag.SqlLiteral
open Strings Domain

/-- A double by what it prints: never with an exponent. -/
inductive FloatText
  | nan
  | inf (negative : Bool)
  | finite (negative : Bool) (whole : Nat) (fraction : List (Fin 10))

structure DateTime where
  year : Int
  month : Nat
  day : Nat
  hour : Nat
  minute : Nat
  second : Nat
  micro : Nat

/-- Every backslash starts an escape of a JSON string. -/
def jsonEscapes : Text → Bool
  | [] => true
  | [c] => c ≠ '\\'
  | c :: d :: t => if c = '\\' then d ∈ "\"\\/bfnrtu".toList && jsonEscapes t else jsonEscapes (d :: t)

/-- A JSON document, as its serialization. -/
structure JsonText where
  text : Text
  escapes : jsonEscapes text = true

inductive Value
  | Null
  | Bool (value : Bool)
  | Int (value : Int)
  | Float (value : FloatText)
  | Text (value : Text)
  | Bytes (value : List UInt8)
  | DateTime (value : DateTime)
  | Json (value : JsonText)

abbrev Row := List Value

def signText (negative : Bool) : Text := if negative then ['-'] else []

def intText (value : Int) : Text := signText (value < 0) ++ natText value.natAbs

def floatText : FloatText → Text
  | .nan => "NaN"
  | .inf negative => signText negative ++ "inf"
  | .finite negative whole [] => signText negative ++ natText whole
  | .finite negative whole fraction => signText negative ++ natText whole ++ '.' :: fraction.flatMap fun d => natText d

/-- A number with leading zeros up to the width. -/
def padded (width n : Nat) : Text := List.replicate (width - (natText n).length) '0' ++ natText n

/-- `%Y-%m-%d %H:%M:%S%.6f`; a year outside four digits carries its sign. -/
def dateTimeText (value : DateTime) : Text :=
  let sign := if value.year < 0 then ['-'] else if 9999 < value.year then ['+'] else []
  sign ++ padded 4 value.year.natAbs ++ '-' :: padded 2 value.month ++ '-' :: padded 2 value.day ++ ' ' ::
    padded 2 value.hour ++ ':' :: padded 2 value.minute ++ ':' :: padded 2 value.second ++ '.' :: padded 6 value.micro

def hexDigit (n : Nat) : Char := "0123456789abcdef".toList.getD n '0'

def encodeHex (bytes : List UInt8) : Text :=
  bytes.flatMap fun byte => [hexDigit (byte.toNat / 16), hexDigit (byte.toNat % 16)]

/-- Single quotes are doubled for every dialect, backslashes only for MySQL. -/
def escapeSqlString (text : Text) (isMysql : Bool) : Text :=
  text.flatMap fun c => if c = '\\' && isMysql then ['\\', '\\'] else if c = '\'' then ['\'', '\''] else [c]

def singleQuoted (body : Text) : Text := '\'' :: body ++ ['\'']

variable (driver : DriverKind)

def toSqlLiteralFor : Value → Text
  | .Null => "NULL"
  | .Bool value => if value then "TRUE" else "FALSE"
  | .Int value => intText value
  | .Float value => floatText value
  | .Text value => singleQuoted (escapeSqlString value (driver = .Mysql))
  | .Bytes value =>
    let hex := encodeHex value
    if driver = .Postgres then singleQuoted ('\\' :: 'x' :: hex)
    else if driver = .Sqlite then 'X' :: singleQuoted hex
    else '0' :: 'x' :: hex
  | .DateTime value => singleQuoted (dateTimeText value)
  | .Json value => singleQuoted (escapeSqlString value.text (driver = .Mysql))

def hasLineBreak (text : Text) : Bool := text.any fun c => c == '\n' || c == '\r'

/-- The escapes of a text with line breaks, in the order in which they are made. -/
def escapedBody (text : Text) : Text :=
  replaceChar '\r' ['\\', 'r'] (replaceChar '\n' ['\\', 'n']
    (replaceChar '\'' ['\'', '\''] (replaceChar '\\' ['\\', '\\'] text)))

def escapedTextLiteral (text : Text) : DriverKind → Text
  | .Postgres => 'E' :: singleQuoted (escapedBody text)
  | _ => singleQuoted (escapedBody text)

/-- The literal of the transfers: a text with line breaks stays on one line. -/
def transferLiteral : Value → Text
  | .Text text => if hasLineBreak text then escapedTextLiteral text driver else toSqlLiteralFor driver (.Text text)
  | .Json json => if hasLineBreak json.text then escapedTextLiteral json.text driver else toSqlLiteralFor driver (.Json json)
  | other => toSqlLiteralFor driver other

/-! ### INSERT statements -/

/-- Texts joined by a separator. -/
def joinWith (sep : Text) : List Text → Text
  | [] => []
  | [t] => t
  | t :: ts => t ++ sep ++ joinWith sep ts

def quotedColumns (columns : List Text) : Text :=
  joinWith ", " (columns.map (quoteIdentifier driver))

def qualified (namespace_ object : Text) : Text :=
  quoteIdentifier driver namespace_ ++ '.' :: quoteIdentifier driver object

/-- The tuple of a row, with its literals made by either encoder. -/
def rowTuple (literal : Value → Text) (row : Row) : Text := '(' :: joinWith ", " (row.map literal) ++ [')']

def insertPrefix (target columns : Text) (overriding : Bool) : Text :=
  "INSERT INTO " ++ target ++ " (" ++ columns ++ [')'] ++
    (if overriding then " OVERRIDING SYSTEM VALUE".toList else []) ++ " VALUES ".toList

-- stated once by `rfl`: the unfolding that `simp` would make evaluates the phrases
theorem insertPrefix_eq (target columns : Text) (overriding : Bool) : insertPrefix target columns overriding =
      "INSERT INTO " ++ target ++ " (" ++ columns ++ [')'] ++
        (if overriding then " OVERRIDING SYSTEM VALUE".toList else []) ++ " VALUES ".toList := rfl

/-- What follows the tuples: nothing in an export, the conflict clause of
    either dialect in a data sync. -/
inductive ConflictClause
  | none
  | doNothing (identity : List Text)
  | onDuplicateKey (identity : Text)

def conflictText : ConflictClause → Text
  | .none => []
  | .doNothing identity => " ON CONFLICT (" ++ quotedColumns driver identity ++ ") DO NOTHING"
  | .onDuplicateKey identity =>
    let identity := quoteIdentifier driver identity
    " ON DUPLICATE KEY UPDATE " ++ identity ++ " = " ++ identity

theorem conflictText_doNothing (identity : List Text) : conflictText driver (.doNothing identity) =
      " ON CONFLICT (" ++ quotedColumns driver identity ++ ") DO NOTHING" := rfl

theorem conflictText_onDuplicateKey (identity : Text) : conflictText driver (.onDuplicateKey identity) =
      " ON DUPLICATE KEY UPDATE " ++ quoteIdentifier driver identity ++ " = " ++ quoteIdentifier driver identity := rfl

/-- An INSERT statement with at least one row. -/
structure Insert where
  qualifier : Option Text
  table : Text
  columns : List Text
  overriding : Bool
  rows : List Row
  nonempty : rows ≠ []
  conflict : ConflictClause

def insertTarget (insert : Insert) : Text :=
  match insert.qualifier with
  | some qualifier => qualified driver qualifier insert.table
  | none => quoteIdentifier driver insert.table

def insertText (literal : Value → Text) (insert : Insert) : Text :=
  insertPrefix (insertTarget driver insert) (quotedColumns driver insert.columns) insert.overriding ++
    joinWith ", " (insert.rows.map (rowTuple literal)) ++ conflictText driver insert.conflict

example : transferLiteral .Postgres (.Text "a'b\n") = "E'a''b\\n'" := by decide
example : toSqlLiteralFor .Mysql (.Bytes [0xDE, 0x0F]) = "0xde0f" := by decide

end Ramag.SqlLiteral
