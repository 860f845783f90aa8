import Mathlib.Data.List.Sort
import Ramag.DataSyncGate

/-!
The memory budget that the results of all query tabs share. A result that
reports its bytes may push others out, those that are not active and were used
least recently first, or be refused itself. A `Run` keeps beside the state in
which order the results were used and what was reported and pushed out.
-/
namespace Ramag.ResultMemory
open DataSyncGate (saturatingAdd)

def GLOBAL_RESULT_WARNING_BYTES : Nat := 384 * 1024 * 1024
def MAX_GLOBAL_RESULT_BYTES : Nat := 512 * 1024 * 1024

/-- A registered result; its callback is told by its id. -/
structure BudgetEntry where
  id : Nat
  bytes : Nat
  active : Bool
  lastUsed : Nat
  deriving DecidableEq

structure BudgetState where
  entries : List BudgetEntry := []
  nextId : Nat := 0
  clock : Nat := 0

structure ResultMemoryUpdate where
  warning : Bool := false
  currentEvicted : Bool := false
  evictedResults : Nat := 0
  totalBytes : Nat := 0

/-- `wrapping_add(1).max(1)` -/
def wrappingNext (n : Nat) : Nat := max ((n + 1) % 2 ^ 64) 1

def BudgetState.tick (state : BudgetState) : BudgetState := { state with clock := wrappingNext state.clock }

def totalBytes (entries : List BudgetEntry) : Nat := entries.foldl (fun total entry => saturatingAdd total entry.bytes) 0

def BudgetEntry.evicted (entry : BudgetEntry) : BudgetEntry := { entry with bytes := 0 }

/-- Changes the first entry of an id. -/
def changeEntry (id : Nat) (change : BudgetEntry → BudgetEntry) : List BudgetEntry → List BudgetEntry
  | [] => []
  | entry :: entries => if entry.id = id then change entry :: entries else entry :: changeEntry id change entries

/-- The id of the lease, and the state after it. -/
def BudgetState.register (state : BudgetState) : Nat × BudgetState :=
  let id := wrappingNext state.nextId
  let state := { state with nextId := id }.tick
  (id, { state with entries := state.entries ++ [{ id, bytes := 0, active := false, lastUsed := state.clock }] })

def BudgetState.setActive (state : BudgetState) (id : Nat) (active : Bool) : BudgetState :=
  let state := state.tick
  let change (entry : BudgetEntry) : BudgetEntry :=
    if active then { entry with active, lastUsed := state.clock } else { entry with active }
  { state with entries := changeEntry id change state.entries }

def BudgetState.touch (state : BudgetState) (id : Nat) : BudgetState :=
  let state := state.tick
  { state with entries := changeEntry id (fun entry => { entry with lastUsed := state.clock }) state.entries }

/-- The lease is dropped. -/
def BudgetState.drop (state : BudgetState) (id : Nat) : BudgetState :=
  { state with entries := state.entries.filter fun entry => entry.id ≠ id }

/-- May be pushed out for the result `id`. -/
def BudgetEntry.spare (id : Nat) (entry : BudgetEntry) : Bool := entry.id != id && !entry.active && decide (0 < entry.bytes)

/-- The last use and the place of what may be pushed out, sorted by the last use. -/
def candidates (id : Nat) (entries : List BudgetEntry) : List (Nat × Nat) :=
  ((entries.zipIdx.filter fun entry => entry.1.spare id).map fun entry => (entry.1.lastUsed, entry.2)).insertionSort
    fun a b => a.1 ≤ b.1

/-- Pushes out candidates until the total fits; the callbacks and what is left. -/
def evictLoop : List (Nat × Nat) → List BudgetEntry → List Nat × List BudgetEntry
  | [], entries => ([], entries)
  | (_, index) :: rest, entries =>
    if totalBytes entries ≤ MAX_GLOBAL_RESULT_BYTES then ([], entries)
    else
      match entries[index]? with
      | none => evictLoop rest entries
      | some entry =>
        let (callbacks, entries) := evictLoop rest (entries.modify index BudgetEntry.evicted)
        (entry.id :: callbacks, entries)

/-- The callbacks to be called, in this order, what is reported, and the state. -/
def BudgetState.updateEntry (state : BudgetState) (id bytes : Nat) : List Nat × ResultMemoryUpdate × BudgetState :=
  let state := state.tick
  match state.entries.findIdx? (·.id = id) with
  | none => ([], {}, state)
  | some currentIndex =>
    let entries := state.entries.modify currentIndex fun entry => { entry with bytes, lastUsed := state.clock }
    let beforeCleanup := totalBytes entries
    let (callbacks, entries) :=
      if MAX_GLOBAL_RESULT_BYTES < beforeCleanup then evictLoop (candidates id entries) entries else ([], entries)
    -- without anything left to push out the current result is refused
    let currentEvicted := decide (MAX_GLOBAL_RESULT_BYTES < totalBytes entries) && entries[currentIndex]?.any fun entry => 0 < entry.bytes
    let entries := if currentEvicted then entries.modify currentIndex BudgetEntry.evicted else entries
    (callbacks, {
      warning := decide (GLOBAL_RESULT_WARNING_BYTES ≤ beforeCleanup)
      currentEvicted
      evictedResults := callbacks.length
      totalBytes := totalBytes entries }, { state with entries })

/-! ### Runs -/

inductive Op
  | register
  | updateBytes (id bytes : Nat)
  | setActive (id : Nat) (active : Bool)
  | touch (id : Nat)
  | drop (id : Nat)

/-- What a panel was told or told itself. -/
inductive Event
  | reported (id bytes : Nat)
  | evicted (id : Nat)

def Event.id : Event → Nat
  | .reported id _ | .evicted id => id

structure Run where
  state : BudgetState := {}
  /-- The ids of the results, the least recently used one first. -/
  recency : List Nat := []
  /-- What was reported and evicted, the last event first. -/
  events : List Event := []

/-- The id becomes the most recently used one. -/
def use (id : Nat) (recency : List Nat) : List Nat := recency.filter (· ≠ id) ++ [id]

def Run.known (run : Run) (id : Nat) : Bool := run.state.entries.any fun entry => entry.id = id

def Run.step (run : Run) : Op → Run
  | .register =>
    let (id, state) := run.state.register
    { run with state, recency := use id run.recency, events := .reported id 0 :: run.events }
  | .updateBytes id bytes =>
    let (callbacks, outcome, state) := run.state.updateEntry id bytes
    if run.known id then
      let refused := if outcome.currentEvicted then [Event.evicted id] else []
      { state, recency := use id run.recency, events := refused ++ (callbacks.map Event.evicted).reverse ++ .reported id bytes :: run.events }
    else { run with state }
  | .setActive id active =>
    { run with
      state := run.state.setActive id active
      recency := if active && run.known id then use id run.recency else run.recency }
  | .touch id => { run with state := run.state.touch id, recency := if run.known id then use id run.recency else run.recency }
  | .drop id => { run with state := run.state.drop id, recency := run.recency.filter (· ≠ id) }

def runOps (ops : List Op) : Run := ops.foldl Run.step {}

/-- What a result holds by its last event. -/
def Run.held (run : Run) (id : Nat) : Nat :=
  match run.events.find? fun event => event.id = id with
  | some (.reported _ bytes) => bytes
  | _ => 0

def Run.entry (run : Run) (id : Nat) : Option BudgetEntry := run.state.entries.find? fun entry => entry.id = id

/-- The inactive other results, the least recently used one first. -/
def Run.inactive (run : Run) (id : Nat) : List BudgetEntry :=
  (run.recency.filterMap run.entry).filter fun entry => entry.id != id && !entry.active

/-- The inactive other results that hold bytes, the least recently used one first. -/
def Run.spare (run : Run) (id : Nat) : List BudgetEntry := (run.recency.filterMap run.entry).filter fun entry => entry.spare id

def bytesOf (entries : List BudgetEntry) : Nat := (entries.map BudgetEntry.bytes).sum

/-- What the others hold. -/
def Run.others (run : Run) (id : Nat) : List BudgetEntry := run.state.entries.filter fun entry => entry.id ≠ id

/-- The shortest first part of what is spare that brings the total under the limit, all of it if none does. -/
structure Shortest (total : Nat) (spare out : List BudgetEntry) : Prop where
  first : out <+: spare
  enough : total ≤ MAX_GLOBAL_RESULT_BYTES + bytesOf out ∨ out = spare
  least : ∀ part, part <+: spare → total ≤ MAX_GLOBAL_RESULT_BYTES + bytesOf part → out <+: part

/-- What a report of a known result leads to, where `out` are the results that are pushed out. -/
structure Updated (run : Run) (id bytes : Nat) (out : List BudgetEntry) : Prop where
  shortest : Shortest (bytesOf (run.others id) + bytes) (run.spare id) out
  callbacks : (run.state.updateEntry id bytes).1 = out.map BudgetEntry.id
  once : (out.map BudgetEntry.id).Nodup
  counted : (run.state.updateEntry id bytes).2.1.evictedResults = out.length
  refused : (run.state.updateEntry id bytes).2.1.currentEvicted = true ↔
    MAX_GLOBAL_RESULT_BYTES < bytesOf ((run.others id).filter fun entry => entry.active) + bytes
  entries : (run.state.updateEntry id bytes).2.2.entries = run.state.entries.map fun entry =>
    if entry.id = id then
      { entry with
        bytes := if (run.state.updateEntry id bytes).2.1.currentEvicted then 0 else bytes, lastUsed := run.state.tick.clock }
    else if entry ∈ out then entry.evicted else entry
  total : (run.state.updateEntry id bytes).2.1.totalBytes = bytesOf (run.state.updateEntry id bytes).2.2.entries

end Ramag.ResultMemory
