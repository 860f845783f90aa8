import Mathlib.Algebra.Order.Ring.Int
import Mathlib.Algebra.Order.Ring.Nat
import Ramag.Strings

/-!
JSON values in memory, with the accessors that the importers use. A number is an
integer of 64 bits or a double; a double that is not finite has no JSON number
and becomes `null`.
-/
namespace Ramag.Json
open Strings

/-- A double, by its bits. -/
structure F64 where
  bits : UInt64
  deriving DecidableEq

namespace F64

def INFINITY : F64 := ⟨0x7FF0000000000000⟩
/-- Not an infinity and not a NaN: the exponent is not all ones. -/
def isFinite (x : F64) : Bool := (x.bits >>> 52) &&& 0x7FF != 0x7FF

/-- The quotient by a power of two, rounded half to even. -/
def shiftRound (n shift : Nat) : Nat :=
  let rest := 2 * (n % 2 ^ shift)
  if rest > 2 ^ shift || (rest = 2 ^ shift && n >>> shift % 2 = 1) then n >>> shift + 1 else n >>> shift

/-- The cast `n as f64`: the nearest double, where the carry of a rounding runs into the exponent. -/
def ofNat (n : Nat) : F64 :=
  if n = 0 then ⟨0⟩
  else
    let exponent := n.log2
    let mantissa := if exponent ≤ 52 then n <<< (52 - exponent) else shiftRound n (exponent - 52)
    ⟨UInt64.ofNat (((exponent + 1023) <<< 52) + (mantissa - 2 ^ 52))⟩

def ofInt : Int → F64
  | .ofNat n => ofNat n
  | .negSucc n => ⟨(ofNat (n + 1)).bits ||| 0x8000000000000000⟩

example : ofInt 1 = ⟨0x3FF0000000000000⟩ ∧ ofInt (-2) = ⟨0xC000000000000000⟩ ∧
    ofNat (2 ^ 54 - 1) = ⟨0x4350000000000000⟩ := by decide +kernel

end F64

inductive Number
  | PosInt (n : UInt64)
  | NegInt (n : Int64)
  | Float (x : F64)

def I64_MAX : UInt64 := 0x7FFFFFFFFFFFFFFF

namespace Number

def asI64 : Number → Option Int64
  | .PosInt n => if n ≤ I64_MAX then some n.toInt64 else none
  | .NegInt n => some n
  | .Float _ => none

def asF64 : Number → F64
  | .PosInt n => .ofNat n.toNat
  | .NegInt n => .ofInt n.toInt
  | .Float x => x

end Number

inductive Value
  | Null
  | Bool (value : Bool)
  | Number (number : Number)
  | String (text : Text)
  | Array (items : List Value)
  | Object (fields : List (Text × Value))

def asBool : Value → Option Bool
  | .Bool value => some value
  | _ => none

namespace Value

def asStr : Value → Option Text
  | .String text => some text
  | _ => none

def asArray : Value → Option (List Value)
  | .Array items => some items
  | _ => none

def asObject : Value → Option (List (Text × Value))
  | .Object fields => some fields
  | _ => none

def asI64 : Value → Option Int64
  | .Number number => number.asI64
  | _ => none

def asF64 : Value → Option F64
  | .Number number => some number.asF64
  | _ => none

/-- The field of an object. -/
def get (key : Text) : Value → Option Value
  | .Object fields => fields.lookup key
  | _ => none

def ofI64 (n : Int64) : Value := .Number (if n < 0 then .NegInt n else .PosInt n.toUInt64)

def ofF64 (x : F64) : Value := if x.isFinite then .Number (.Float x) else .Null

/-- An object with one field. -/
def single (key : Text) (value : Value) : Value := .Object [(key, value)]

@[simp] theorem asI64_ofI64 (n : Int64) : (ofI64 n).asI64 = some n := by
  unfold ofI64
  split_ifs with negative
  · rfl
  · have small : n.toUInt64 ≤ I64_MAX := Int64.toUInt64_le (Int64.not_lt.mp negative) (Int64.le_maxValue n)
    show (if n.toUInt64 ≤ I64_MAX then some n.toUInt64.toInt64 else none) = some n
    rw [if_pos small, Int64.toInt64_toUInt64]

/-- A double is read back from its JSON value exactly when it is finite. -/
theorem asF64_ofF64 (x : F64) : (ofF64 x).asF64 = if x.isFinite then some x else none := by
  unfold ofF64
  split_ifs <;> rfl

end Value

end Ramag.Json
