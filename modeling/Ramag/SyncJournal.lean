import Ramag.DataSyncGate
import Ramag.Programs
import Ramag.SqlImport

/-!
The state of a data sync while it runs: what was done, in its order, and the
summary. What the outside answers may depend on everything that was done before,
and the cancellation flag may become set at any moment.
-/
namespace Ramag.SyncJournal
open Strings Domain Programs
open DataSyncGate (DataSyncSummary)
open SqlImport (MAX_TRANSFER_WARNINGS)

inductive Side
  | source
  | target
  deriving DecidableEq

structure Journal (ε : Type) where
  history : List ε := []
  summary : DataSyncSummary := {}

variable {ε α : Type} (s : Journal ε) (change : DataSyncSummary → DataSyncSummary) (event : ε)

namespace Journal

def record : Journal ε := { s with history := s.history ++ [event] }

def count : Journal ε :=
  { s with summary := change s.summary }

@[simp] theorem history_record : (s.record event).history = s.history ++ [event] := rfl
@[simp] theorem summary_record : (s.record event).summary = s.summary := rfl

@[simp] theorem history_count :
    (s.count change).history = s.history := rfl

@[simp] theorem summary_count :
    (s.count change).summary = change s.summary := rfl

end Journal

abbrev Sync (ε α : Type) := Prog (Journal ε) DomainError α

def record (event : ε) : Sync ε Unit := Prog.modify fun s => s.record event
def count (change : DataSyncSummary → DataSyncSummary) : Sync ε Unit := Prog.modify fun s => s.count change

/-- An event, with the answer that the outside gives to it. -/
def perform (answer : List ε → Result α) : Sync ε α := do
  let s ← Prog.get
  record event
  Prog.lift (answer s.history)

/-- The flag is set from a moment on, and stays set. -/
def flagSet (cancelAt : Option Nat) (history : List ε) : Bool := cancelAt.any fun moment => moment ≤ history.length

/-- `cancellation_requested`; the poll is an event. -/
def cancellationRequested (poll : Bool → ε) (cancelAt : Option Nat) : Sync ε Bool := do
  let s ← Prog.get
  record (poll (flagSet cancelAt s.history))
  pure (flagSet cancelAt s.history)

theorem flagSet_append {cancelAt : Option Nat} {history : List ε} (set : flagSet cancelAt history = true) (more : List ε) :
    flagSet cancelAt (history ++ more) = true := by
  cases cancelAt with
  | none => cases set
  | some moment =>
    have passed : moment ≤ history.length := by simpa [flagSet] using set
    simp only [flagSet, Option.any_some, List.length_append, decide_eq_true_eq]
    omega

def pushWarning (warning : Text) (summary : DataSyncSummary) : DataSyncSummary :=
  if summary.warnings.length < MAX_TRANSFER_WARNINGS then { summary with warnings := summary.warnings ++ [warning] }
  else { summary with warningsOverflow := summary.warningsOverflow + 1 }

def cancel (summary : DataSyncSummary) : DataSyncSummary := { summary with cancelled := true }

def addScanned (rows bytes : Nat) (summary : DataSyncSummary) : DataSyncSummary :=
  { summary with scanned := summary.scanned + rows, bytes := summary.bytes + bytes }

def addSkipped (rows : Nat) (summary : DataSyncSummary) : DataSyncSummary :=
  { summary with skipped := summary.skipped + rows }

def addObject (summary : DataSyncSummary) : DataSyncSummary := { summary with objects := summary.objects + 1 }

@[simp] theorem cancelled_pushWarning (warning : Text) (summary : DataSyncSummary) :
    (pushWarning warning summary).cancelled = summary.cancelled := by
  unfold pushWarning
  split <;> rfl

/-! ### Triples -/

section
variable {pre kept stop : Journal ε → Prop}

section
variable {event : ε} {answer : List ε → Result α} (done : ∀ s, kept s → kept (s.record event)) (ends : ∀ s, kept s → stop s)
include done ends

theorem perform_triple : Triple kept (perform event answer) (fun _ => kept) stop := by
  refine .getThen fun v => ?_
  have recorded : Triple (fun s => s = v ∧ kept s) (record event) (fun _ => kept) stop := Triple.modify fun s held => done s held.2
  exact .bind recorded fun _ => .lift (fun _ _ _ => id) ends

theorem perform_answers :
    Triple kept (perform event answer) (fun value s => (∃ history, answer history = .ok value) ∧ kept s) stop := by
  refine .getThen fun v => ?_
  have recorded : Triple (fun s => s = v ∧ kept s) (record event) (fun _ => kept) stop := Triple.modify fun s held => done s held.2
  exact .bind recorded fun _ => .lift (fun _ _ given held => ⟨⟨v.history, given⟩, held⟩) ends

end

theorem cancellationRequested_triple {poll : Bool → ε} {cancelAt : Option Nat} {post : Bool → Journal ε → Prop}
    (polled : ∀ s, pre s → post (flagSet cancelAt s.history) (s.record (poll (flagSet cancelAt s.history)))) :
    Triple pre (cancellationRequested poll cancelAt) post stop :=
  polled

end

end Ramag.SyncJournal
