import Ramag.Json
import Ramag.SqlLiteral

/-!
The values of a query result, and the result itself.
-/
namespace Ramag.ResultValues
open Strings Json
open SqlLiteral (encodeHex intText)

/-- A time, in seconds since 1970 and nanoseconds. -/
structure DateTime where
  timestamp : Int
  nanos : Nat

inductive Value
  | Null
  | Bool (value : Bool)
  | Int (value : Int)
  | Float (value : F64)
  | Text (value : Text)
  | Bytes (value : List UInt8)
  | DateTime (value : DateTime)
  | Json (value : Json.Value)

structure Row where
  values : List Value

/-- A result, with the fields that the functions here read. -/
structure QueryResult where
  columns : List Strings.Text
  rows : List Row

/-- How the libraries print what they do not leave to the program. -/
structure Printers where
  float : F64 → Strings.Text
  /-- `to_rfc3339` -/
  dateTime : DateTime → Strings.Text
  /-- `serde_json::Value::to_string` -/
  json : Json.Value → Strings.Text

def Value.toClipboardString (print : Printers) : Value → Strings.Text
  | .Null => []
  | .Bool value => if value then "true" else "false"
  | .Int value => intText value
  | .Float value => print.float value
  | .Text value => value
  | .Bytes value => encodeHex value
  | .DateTime value => print.dateTime value
  | .Json value => print.json value

end Ramag.ResultValues
