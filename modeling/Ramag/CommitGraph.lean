import Ramag.Strings
import Ramag.FreeSlots

/-!
The lanes of the commit graph, given out page by page. A commit sits on the lane
that a commit before it has reserved for it, or on a new one; its first parent
takes the lane over and every other parent gets one of its own.
-/
namespace Ramag.CommitGraph
open Strings FreeSlots

structure CommitId where
  text : Text
  deriving DecidableEq

structure Commit where
  id : CommitId
  parents : List CommitId

structure CommitGraphRow where
  lane : UInt8
  totalLanes : UInt8
  isMerge : Bool

def MAX_RENDERED_LANES : Nat := 64
def SMALL_ACTIVE_LANES : Nat := 16

def asBytes (text : Text) : List UInt8 := text.flatMap String.utf8EncodeChar

theorem asBytes_injective : Function.Injective asBytes := by
  intro s t same
  have encoded : s.utf8Encode = t.utf8Encode := congrArg List.toByteArray same
  have decoded := congrArg ByteArray.utf8Decode? encoded
  rw [List.utf8Decode?_utf8Encode, List.utf8Decode?_utf8Encode] at decoded
  exact List.toArray_inj (Option.some.inj decoded)

inductive CommitKey
  | Sha1 (key : { bytes : List UInt8 // bytes.length = 40 })
  | Sha256 (key : { bytes : List UInt8 // bytes.length = 64 })
  | Other (id : Text)
  deriving DecidableEq

def CommitKey.ofId (id : CommitId) : CommitKey :=
  if sha1 : (asBytes id.text).length = 40 then .Sha1 ⟨asBytes id.text, sha1⟩
  else if sha256 : (asBytes id.text).length = 64 then .Sha256 ⟨asBytes id.text, sha256⟩
  else .Other id.text

theorem CommitKey.ofId_injective : Function.Injective CommitKey.ofId := by
  rintro ⟨s⟩ ⟨t⟩ same
  unfold CommitKey.ofId at same
  split_ifs at same
  · exact congrArg CommitId.mk (asBytes_injective (congrArg Subtype.val (CommitKey.Sha1.inj same)))
  · exact congrArg CommitId.mk (asBytes_injective (congrArg Subtype.val (CommitKey.Sha256.inj same)))
  · exact congrArg CommitId.mk (CommitKey.Other.inj same)

/-- A few entries in a vector, or more of them in a map. -/
structure ActiveLanes (κ : Type) where
  small : List (κ × Nat) := []
  large : Option (κ → Option Nat) := none

/-- The element is taken out and the last one moves into its place. -/
def swapRemove {α : Type} (xs : List α) (index : Nat) : List α :=
  match xs.getLast? with
  | some last => (xs.set index last).dropLast
  | none => xs

section
variable {κ : Type} [DecidableEq κ]

def ActiveLanes.remove (active : ActiveLanes κ) (key : κ) : Option Nat × ActiveLanes κ :=
  match active.large with
  | some large => (large key, { active with large := some (Function.update large key none) })
  | none =>
    match active.small.findIdx? fun entry => decide (entry.1 = key) with
    | some index => (active.small[index]?.map Prod.snd, { active with small := swapRemove active.small index })
    | none => (none, active)

/-- The answer says whether the key was new. -/
def ActiveLanes.insertIfAbsent (active : ActiveLanes κ) (key : κ) (lane : Nat) : Bool × ActiveLanes κ :=
  match active.large with
  | some large =>
    match large key with
    | some _ => (false, active)
    | none => (true, { active with large := some (Function.update large key (some lane)) })
  | none =>
    if active.small.any fun entry => decide (entry.1 = key) then (false, active)
    else if active.small.length < SMALL_ACTIVE_LANES then
      (true, { active with small := active.small ++ [(key, lane)] })
    else
      let drained : κ → Option Nat := active.small.foldl (fun map entry => Function.update map entry.1 (some entry.2)) fun _ => none
      (true, { small := [], large := some (Function.update drained key (some lane)) })

end

/-! ### Commits -/

structure CommitLaneState where
  slots : Slots := {}
  laneByCommit : ActiveLanes CommitKey := {}

variable (s : CommitLaneState)

namespace CommitLaneState

/-- The lane of a commit: the reserved one, or a new one. -/
def takeLane (key : CommitKey) : Nat × CommitLaneState :=
  match s.laneByCommit.remove key with
  | (some lane, active) => (lane, { s with laneByCommit := active })
  | (none, active) => (s.slots.allocate.1, { slots := s.slots.allocate.2, laneByCommit := active })

/-- The first parent takes the lane over, unless it has one already. -/
def reserveFirst (lane : Nat) : Option CommitId → Option CommitLaneState
  | some firstParent =>
    match s.laneByCommit.insertIfAbsent (.ofId firstParent) lane with
    | (true, active) => (s.slots.mark lane).map fun slots => { slots := slots, laneByCommit := active }
    | (false, active) => some { slots := s.slots.release lane, laneByCommit := active }
  | none => some { s with slots := s.slots.release lane }

/-- Another parent gets a lane of its own, which is given back when the parent has one already. -/
def reserveParent (parent : CommitId) : CommitLaneState :=
  match s.laneByCommit.insertIfAbsent (.ofId parent) s.slots.allocate.1 with
  | (true, active) => { slots := s.slots.allocate.2, laneByCommit := active }
  | (false, active) => { slots := s.slots.allocate.2.release s.slots.allocate.1, laneByCommit := active }

/-- The lane of a commit and the lanes after it; nothing when an index is out of range. -/
def lay (c : Commit) : Option (Nat × CommitLaneState) :=
  let (lane, s) := s.takeLane (.ofId c.id)
  (s.reserveFirst lane c.parents.head?).map fun s =>
    let s := (c.parents.drop 1).foldl reserveParent s
    (lane, { s with slots := s.slots.truncate })

def u8TryFrom (n : Nat) : Option UInt8 := if n ≤ 255 then some (UInt8.ofNat n) else none

def graphRow (lane : Nat) (isMerge : Bool) : CommitGraphRow :=
  let logicalTotal := max s.slots.occupied.length (lane + 1)
  let renderedLane := min lane (MAX_RENDERED_LANES - 1)
  let totalLanes := max (min logicalTotal MAX_RENDERED_LANES) (renderedLane + 1)
  { lane := (u8TryFrom renderedLane).getD 255, totalLanes := (u8TryFrom totalLanes).getD 255, isMerge := isMerge }

def append (s : CommitLaneState) : List Commit → Option (List CommitGraphRow × CommitLaneState)
  | [] => some ([], s)
  | c :: commits => do
    let (lane, s) ← s.lay c
    let (rows, last) ← append s commits
    some (s.graphRow lane (decide (1 < c.parents.length)) :: rows, last)

end CommitLaneState

end Ramag.CommitGraph
