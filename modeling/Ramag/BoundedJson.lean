import Mathlib.Algebra.Order.Ring.Int
import Mathlib.Algebra.Order.Ring.Nat
import Ramag.Domain

/-!
The limits of the repositories: a length, a number of items with their bytes,
and a JSON text that is written no further than its limit.
-/
namespace Ramag.BoundedJson
open Strings Domain

def mebibytes (bytes : Nat) : Text := natText (bytes / 1024 / 1024) ++ " MiB 安全上限"

def ensureLen (len limit : Nat) (label : Text) : Result Unit :=
  if len > limit then .error (.Storage (label ++ "超过 " ++ mebibytes limit)) else .ok ()

def ensureCollectionBudget (itemCount totalBytes maxItems maxBytes : Nat) (label : Text) : Result Unit :=
  if itemCount > maxItems then .error (.Storage (label ++ "超过 " ++ natText maxItems ++ " 条安全上限"))
  else if totalBytes > maxBytes then .error (.Storage (label ++ "总数据超过 " ++ mebibytes maxBytes))
  else .ok ()

def nextCollectionBudget (itemCount totalBytes itemBytes maxItems maxBytes : Nat) (label : Text) :
    Result (Nat × Nat) := do
  if itemCount + 1 ≥ 2 ^ 64 then .error (.Storage (label ++ "条数溢出"))
  else if totalBytes + itemBytes ≥ 2 ^ 64 then .error (.Storage (label ++ "总数据大小溢出"))
  else
    ensureCollectionBudget (itemCount + 1) (totalBytes + itemBytes) maxItems maxBytes label
    .ok (itemCount + 1, totalBytes + itemBytes)

/-- A text that was written as JSON, when it is within the limit. -/
def serialize (json : Text) (limit : Nat) (label : Text) : Result Text :=
  if byteLen json > limit then .error (.Storage (label ++ "序列化超过 " ++ mebibytes limit)) else .ok json

theorem ensureLen_ok {len limit : Nat} {label : Text} {value : Unit} : ensureLen len limit label = .ok value ↔ len ≤ limit := by
  unfold ensureLen
  split_ifs with large
  · simp [large]
  · simpa using large

theorem nextCollectionBudget_ok {itemCount totalBytes itemBytes maxItems maxBytes : Nat} {label : Text}
    (items : maxItems < 2 ^ 64) (bytes : maxBytes < 2 ^ 64) (room : itemCount + 1 ≤ maxItems) (fits : totalBytes + itemBytes ≤ maxBytes) :
    nextCollectionBudget itemCount totalBytes itemBytes maxItems maxBytes label = .ok (itemCount + 1, totalBytes + itemBytes) := by
  have count : ¬ itemCount + 1 ≥ 2 ^ 64 := by omega
  have total : ¬ totalBytes + itemBytes ≥ 2 ^ 64 := by omega
  rw [nextCollectionBudget, if_neg count, if_neg total, ensureCollectionBudget, if_neg (by omega), if_neg (by omega)]
  rfl

theorem serialize_ok {json written : Text} {limit : Nat} {label : Text} :
    serialize json limit label = .ok written ↔ byteLen json ≤ limit ∧ written = json := by
  unfold serialize
  split_ifs with large
  · constructor
    · nofun
    · omega
  constructor
  · rintro ⟨⟩
    exact ⟨by omega, rfl⟩
  · rintro ⟨-, rfl⟩
    rfl

end Ramag.BoundedJson
