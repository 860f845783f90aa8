import Mathlib.Algebra.Order.Ring.Nat
import Ramag.ByteTexts
import Ramag.SqlLiteral

/-!
# The length of a literal

The length of an SQL literal is counted without building it, and given up above
a bound. The count agrees with the literal, except for the bytes of SQLite: it
is one more than their literal has (`literal_length`).
-/

namespace Ramag.LiteralLengths
open Strings Domain List SqlLiteral ByteTexts

def checkedAdd (a b : Nat) : Option Nat := if a + b < 2 ^ 64 then some (a + b) else none

def checkedMul (a b : Nat) : Option Nat := if a * b < 2 ^ 64 then some (a * b) else none

/-- The length that a byte adds: quotes are doubled, and for MySQL backslashes. -/
def added (isMysql : Bool) (byte : UInt8) : Nat := (if byte = 39 ∨ isMysql ∧ byte = 92 then 1 else 0) + 1

def escapedSqlLiteralLen (isMysql : Bool) (maxBytes length : Nat) : List UInt8 → Option Nat
  | [] => some length
  | byte :: rest => do
    let next ← checkedAdd length (added isMysql byte)
    if maxBytes < next then none else escapedSqlLiteralLen isMysql maxBytes next rest

def within (maxBytes length : Nat) : Option Nat := if length ≤ maxBytes then some length else none

structure SqlLiteralLengthWriter where
  length : Nat
  exceeded : Bool

/-- The writer, and whether it took all the bytes. -/
def write (isMysql : Bool) (limit : Nat) (writer : SqlLiteralLengthWriter) : List UInt8 → SqlLiteralLengthWriter × Bool
  | [] => (writer, true)
  | byte :: rest =>
    match checkedAdd writer.length (added isMysql byte) with
    | none => ({ writer with exceeded := true }, false)
    | some next =>
      if limit < next then ({ writer with exceeded := true }, false)
      else write isMysql limit { writer with length := next } rest

def counted : SqlLiteralLengthWriter × Bool → Option Nat
  | (writer, ok) => if ok && !writer.exceeded then some writer.length else none

def jsonSqlLiteralLen (value : JsonText) (isMysql : Bool) (maxBytes : Nat) : Option Nat :=
  counted (write isMysql maxBytes ⟨2, false⟩ (asBytes value.text))

def boundedSqlLiteralLenFor (driver : DriverKind) (maxBytes : Nat) (value : Value) : Option Nat :=
  let length : Option Nat := match value with
    | .Null => some 4
    | .Bool value => some (if value then 4 else 5)
    | .Int value => some (byteLen (intText value))
    | .Float value => some (byteLen (floatText value))
    | .Text value => escapedSqlLiteralLen (driver = .Mysql) maxBytes 2 (asBytes value)
    | .Bytes value => (checkedMul value.length 2).bind fun hex => checkedAdd hex (if driver = .Postgres ∨ driver = .Sqlite then 4 else 2)
    | .DateTime value => some (byteLen (dateTimeText value) + 2)
    | .Json value => jsonSqlLiteralLen value (driver = .Mysql) maxBytes
  length.bind (within maxBytes)

variable {isMysql : Bool} {maxBytes : Nat}

theorem counted_write (length : Nat) (bytes : List UInt8) :
    counted (write isMysql maxBytes ⟨length, false⟩ bytes) = escapedSqlLiteralLen isMysql maxBytes length bytes := by
  induction bytes generalizing length with
  | nil => rfl
  | cons byte rest ih =>
    rw [write, escapedSqlLiteralLen]
    cases checkedAdd length (added isMysql byte) with
    | none => rfl
    | some next =>
      dsimp only [bind, Option.bind]
      split_ifs with large
      · rfl
      · exact ih next

/-- An overflow is above the bound too. -/
theorem escapedSqlLiteralLen_within (small : maxBytes < 2 ^ 64) (length : Nat) (bytes : List UInt8) :
    (escapedSqlLiteralLen isMysql maxBytes length bytes).bind (within maxBytes) =
      within maxBytes (length + (bytes.map (added isMysql)).sum) := by
  induction bytes generalizing length with
  | nil => rfl
  | cons byte rest ih =>
    have above : maxBytes < length + added isMysql byte →
        within maxBytes (length + (map (added isMysql) (byte :: rest)).sum) = none := by
      intro large
      rw [map_cons, sum_cons]
      exact if_neg (by omega)
    rw [escapedSqlLiteralLen, checkedAdd]
    split_ifs with fits
    · rw [Option.bind_eq_bind, Option.bind_some]
      split_ifs with large
      · exact (above large).symm
      · rw [ih, map_cons, sum_cons, Nat.add_assoc]
    · exact (above (by omega)).symm

theorem byte_eq {c d : Char} (small : c.toNat < 128) (small' : d.toNat < 128) : c.toNat.toUInt8 = d.toNat.toUInt8 ↔ c = d := by
  rw [← UInt8.toNat_inj, ← Char.toNat_inj]
  simp only [Nat.toUInt8_eq, UInt8.toNat_ofNat']
  omega

theorem added_escaped (text : Text) : ((asBytes text).map (added isMysql)).sum = byteLen (escapeSqlString text isMysql) := by
  induction text with
  | nil => rfl
  | cons c rest ih =>
    have first : ((String.utf8EncodeChar c).map (added isMysql)).sum = byteLen (escapeSqlString [c] isMysql) := by
      have size := String.length_utf8EncodeChar c
      by_cases small : c.toNat < 128
      · have quote : c.toNat.toUInt8 = 39 ↔ c = '\'' := byte_eq (d := '\'') small (by decide)
        have slash : c.toNat.toUInt8 = 92 ↔ c = '\\' := byte_eq (d := '\\') small (by decide)
        rw [utf8_ascii small] at size ⊢
        simp only [map_singleton, sum_singleton, added, quote, slash, escapeSqlString, flatMap_cons, flatMap_nil]
        cases isMysql <;> split_ifs <;> simp_all
      · have one : ∀ b ∈ String.utf8EncodeChar c, added isMysql b = 1 := by
          intro b mem
          have high := utf8_high small b mem
          have quote : b ≠ 39 := by rintro rfl; exact absurd high (by decide)
          have slash : b ≠ 92 := by rintro rfl; exact absurd high (by decide)
          simp [added, quote, slash]
        have quote : c ≠ '\'' := by rintro rfl; exact small (by decide)
        have slash : c ≠ '\\' := by rintro rfl; exact small (by decide)
        rw [map_congr_left one]
        simp [escapeSqlString, quote, slash, size]
    rw [asBytes_cons, map_append, sum_append, ih, first, ← byteLen_append, escapeSqlString, escapeSqlString, ← flatMap_append]
    rfl

theorem byteLen_encodeHex (bytes : List UInt8) : byteLen (encodeHex bytes) = bytes.length * 2 := by
  have digit : ∀ n < 16, (hexDigit n).utf8Size = 1 := by decide
  induction bytes with
  | nil => rfl
  | cons byte rest ih =>
    rw [encodeHex, flatMap_cons, ← encodeHex, byteLen_append, ih]
    simp only [byteLen_cons, byteLen_nil, digit _ (Nat.mod_lt _ (by decide)), length_cons]
    rw [digit _ (by have := byte.toNat_lt; omega)]
    omega

theorem byteLen_singleQuoted (body : Text) : byteLen (singleQuoted body) = 2 + byteLen body := by
  have quote : '\''.utf8Size = 1 := by decide
  simp only [singleQuoted, byteLen_cons, byteLen_append, byteLen_nil, quote]
  omega

/-- The count of bytes, with what surrounds them. -/
theorem hex_within (small : maxBytes < 2 ^ 64) (size around : Nat) :
    ((checkedMul size 2).bind fun hex => checkedAdd hex around).bind (within maxBytes) = within maxBytes (size * 2 + around) := by
  by_cases fits : size * 2 + around < 2 ^ 64
  · rw [checkedMul, if_pos (by omega), Option.bind_some, checkedAdd, if_pos fits, Option.bind_some]
  have above : within maxBytes (size * 2 + around) = none := if_neg (by omega)
  rw [above, checkedMul]
  split_ifs
  · rw [Option.bind_some, checkedAdd, if_neg fits]
    rfl
  · rfl

/-- The count agrees with the literal, and stays below the bound, but for the
bytes of SQLite whose literal is within the bound. -/
theorem literal_length (driver : DriverKind) (maxBytes : UInt64) (value : Value) :
    boundedSqlLiteralLenFor driver maxBytes.toNat value = within maxBytes.toNat (byteLen (toSqlLiteralFor driver value)) ↔
      ¬ (driver = .Sqlite ∧ ∃ bytes, value = .Bytes bytes ∧ bytes.length * 2 + 3 ≤ maxBytes.toNat) := by
  have small := maxBytes.toNat_lt
  generalize maxBytes.toNat = maxBytes at *
  have text : ∀ (text : Text) isMysql, (escapedSqlLiteralLen isMysql maxBytes 2 (asBytes text)).bind (within maxBytes) =
      within maxBytes (byteLen (singleQuoted (escapeSqlString text isMysql))) := by
    intro text isMysql
    rw [escapedSqlLiteralLen_within small, added_escaped, byteLen_singleQuoted]
  cases value with
  | Bytes bytes =>
    have count : boundedSqlLiteralLenFor driver maxBytes (.Bytes bytes) =
        within maxBytes (bytes.length * 2 + if driver = .Postgres ∨ driver = .Sqlite then 4 else 2) := hex_within small _ _
    have literal : byteLen (toSqlLiteralFor driver (.Bytes bytes)) =
        bytes.length * 2 + if driver = .Postgres then 4 else if driver = .Sqlite then 3 else 2 := by
      have one : 'x'.utf8Size = 1 ∧ 'X'.utf8Size = 1 ∧ '0'.utf8Size = 1 ∧ '\\'.utf8Size = 1 := by decide
      rw [toSqlLiteralFor]
      split_ifs <;> simp only [byteLen_singleQuoted, byteLen_cons, byteLen_encodeHex, one] <;> omega
    rw [count, literal]
    cases driver
    case Sqlite => simp [within]; grind
    all_goals exact iff_of_true rfl (by simp)
  | Json value =>
    refine iff_of_true ?_ (by simp)
    rw [boundedSqlLiteralLenFor, jsonSqlLiteralLen, counted_write]
    exact text value.text _
  | Text value => exact iff_of_true (text value _) (by simp)
  | DateTime value =>
    refine iff_of_true ?_ (by simp)
    rw [toSqlLiteralFor, byteLen_singleQuoted, Nat.add_comm]
    rfl
  | Bool value => cases value <;> exact iff_of_true rfl (by simp)
  | Null | Int | Float => exact iff_of_true rfl (by simp)

theorem literal_length_sqlite : boundedSqlLiteralLenFor .Sqlite 10 (.Bytes []) = some 4 ∧
    byteLen (toSqlLiteralFor .Sqlite (.Bytes [])) = 3 := by decide

end Ramag.LiteralLengths
