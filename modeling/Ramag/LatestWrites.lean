import Mathlib.Algebra.Order.Ring.Nat
import Ramag.Runs

/-!
Writes of which only the latest for a key is run. `begin` takes a revision and then
enters it as the latest of its key, and a write runs under the write lock when its
revision is the latest one. Every access to the counter, the map or the lock is a
step, and the calls take their steps in any order.
-/
namespace Ramag.LatestWrites
open Runs List

variable {Key : Type}

structure LatestWriteTicket (Key : Type) where
  key : Key
  revision : Nat
  deriving DecidableEq

/-- A call of `begin`, of `run_if_latest` or of `cancel_if_latest`, by what it does next. -/
inductive Call (Key : Type)
  | begin (key : Key)
  | inserting (ticket : LatestWriteTicket Key)
  | begun (ticket : LatestWriteTicket Key)
  | waiting (ticket : LatestWriteTicket Key)
  | checking (ticket : LatestWriteTicket Key)
  | running (ticket : LatestWriteTicket Key)
  /-- Whether the output is returned is settled; the guard is dropped. -/
  | releasing (ticket : LatestWriteTicket Key) (kept : Bool)
  | returned (ticket : LatestWriteTicket Key) (kept : Bool)
  | cancelling (ticket : LatestWriteTicket Key)
  | cancelled (ticket : LatestWriteTicket Key)
  deriving DecidableEq

structure State (Key : Type) where
  nextRevision : Nat := 0
  latestByKey : Key → Option Nat := fun _ => none
  writeLock : Bool := false
  calls : List (Call Key) := []
  /-- The operations that were started, in order. -/
  executed : List (LatestWriteTicket Key) := []

inductive Act (Key : Type)
  | begin (key : Key)
  | runIfLatest (ticket : LatestWriteTicket Key)
  | cancelIfLatest (ticket : LatestWriteTicket Key)
  | advance (i : Nat)

namespace State

def isLatest (s : State Key) (ticket : LatestWriteTicket Key) : Bool := s.latestByKey ticket.key = some ticket.revision

variable [DecidableEq Key]

def finishIfLatest (s : State Key) (ticket : LatestWriteTicket Key) : State Key :=
  if s.isLatest ticket then { s with latestByKey := Function.update s.latestByKey ticket.key none } else s

def insertLatest (s : State Key) (ticket : LatestWriteTicket Key) : State Key :=
  { s with latestByKey := Function.update s.latestByKey ticket.key (some ticket.revision) }

def goOn (s : State Key) (i : Nat) (call : Call Key) : State Key := { s with calls := s.calls.set i call }

def advance (s : State Key) (i : Nat) : Option (State Key) :=
  match s.calls[i]? with
  | some (.begin key) =>
    let revision := (s.nextRevision + 1) % 2 ^ 64
    some ({ s with nextRevision := revision }.goOn i (.inserting ⟨key, revision⟩))
  | some (.inserting ticket) => some ((s.insertLatest ticket).goOn i (.begun ticket))
  | some (.waiting ticket) => if s.writeLock then none else some ({ s with writeLock := true }.goOn i (.checking ticket))
  | some (.checking ticket) =>
    if s.isLatest ticket then some ({ s with executed := s.executed ++ [ticket] }.goOn i (.running ticket))
    else some (s.goOn i (.releasing ticket false))
  | some (.running ticket) => some ((s.finishIfLatest ticket).goOn i (.releasing ticket (s.isLatest ticket)))
  | some (.releasing ticket kept) => some ({ s with writeLock := false }.goOn i (.returned ticket kept))
  | some (.cancelling ticket) => some ((s.finishIfLatest ticket).goOn i (.cancelled ticket))
  | _ => none

/-- A call arrives, with a ticket that `begin` has returned, or takes its next step. -/
def step (s : State Key) : Act Key → Option (State Key)
  | .begin key => some { s with calls := s.calls ++ [.begin key] }
  | .runIfLatest ticket => if .begun ticket ∈ s.calls then some { s with calls := s.calls ++ [.waiting ticket] } else none
  | .cancelIfLatest ticket => if .begun ticket ∈ s.calls then some { s with calls := s.calls ++ [.cancelling ticket] } else none
  | .advance i => s.advance i

/-- A revision is entered only after all lower ones of its key. -/
def InOrder (s : State Key) : Act Key → Prop
  | .advance i => ∀ ticket, s.calls[i]? = some (.inserting ticket) → ∀ other, .begun other ∈ s.calls → other.key = ticket.key →
    other.revision < ticket.revision
  | _ => True

end State

namespace Call

def isRunning : Call Key → Bool
  | .running _ => true
  | _ => false

/-- The call has returned, and it was no `cancel_if_latest`. -/
def finished : Call Key → Bool
  | .begun _ | .returned .. => true
  | _ => false

/-- The call holds the write lock. -/
def holds : Call Key → Bool
  | .checking _ | .running _ | .releasing .. => true
  | _ => false

end Call

variable {s next : State Key} {i : Nat} {old new call : Call Key} {ticket other : LatestWriteTicket Key}

namespace State

/-- No `begin` with a higher revision for the key has returned. -/
def Newest (s : State Key) (ticket : LatestWriteTicket Key) : Prop :=
  ∀ other, .begun other ∈ s.calls → other.key = ticket.key → other.revision ≤ ticket.revision

/-- The write was run, or a later one of its key or a cancellation made it needless. -/
def Settled (s : State Key) (ticket : LatestWriteTicket Key) : Prop :=
  ticket ∈ s.executed ∨ (∃ other, .begun other ∈ s.calls ∧ other.key = ticket.key ∧ ticket.revision < other.revision) ∨
    .cancelled ticket ∈ s.calls

/-- What was returned, cancelled and executed stays so. -/
structure Later (s next : State Key) : Prop where
  begun : ∀ ticket, .begun ticket ∈ s.calls → .begun ticket ∈ next.calls
  cancelled : ∀ ticket, .cancelled ticket ∈ s.calls → .cancelled ticket ∈ next.calls
  executed : ∀ ticket ∈ s.executed, ticket ∈ next.executed

theorem Settled.later (later : Later s next) (settled : s.Settled ticket) : next.Settled ticket := by
  rcases settled with ran | ⟨other, begun, rest⟩ | cancelled
  · exact .inl (later.executed ticket ran)
  · exact .inr (.inl ⟨other, later.begun other begun, rest⟩)
  · exact .inr (.inr (later.cancelled ticket cancelled))

/-- What is known of a ticket at every place in the calls. -/
def Holds (s : State Key) : Call Key → Prop
  | .begin _ | .inserting _ | .cancelled _ => True
  | .begun ticket => s.isLatest ticket = true ∨ s.Settled ticket
  | .waiting ticket | .checking ticket | .cancelling ticket => .begun ticket ∈ s.calls
  | .running ticket => ticket ∈ s.executed
  | .releasing ticket _ | .returned ticket _ => s.Settled ticket

structure Kept (s : State Key) : Prop where
  lock : s.calls.countP (·.holds) = s.writeLock.toNat
  latest : ∀ ticket, s.isLatest ticket = true → .begun ticket ∈ s.calls ∧ s.Newest ticket
  calls : ∀ call ∈ s.calls, s.Holds call
  executed : ∀ ticket ∈ s.executed, .begun ticket ∈ s.calls
  ordered : s.executed.Pairwise fun ticket other => ticket.key = other.key → ticket.revision ≤ other.revision

theorem Holds.later (later : Later s next)
    (latest : ∀ ticket, s.isLatest ticket = true → next.isLatest ticket = true ∨ next.Settled ticket) (holds : s.Holds call) :
    next.Holds call := by
  cases call with
  | begun ticket => exact holds.elim (latest ticket) fun settled => .inr (settled.later later)
  | waiting ticket | checking ticket | cancelling ticket => exact later.begun ticket holds
  | running ticket => exact later.executed ticket holds
  | releasing ticket | returned ticket => exact Settled.later later holds
  | _ => trivial

/-- A call that is not at its end moves; revisions are entered elsewhere. -/
theorem Kept.goOn (kept : Kept s) (there : s.calls[i]? = some old) (moves : ∀ ticket, old ≠ .begun ticket ∧ old ≠ .cancelled ticket)
    (calls : next.calls = s.calls.set i new) (enters : ∀ ticket, new ≠ .begun ticket)
    (lock : next.writeLock.toNat + old.holds.toNat = s.writeLock.toNat + new.holds.toNat)
    (latest : ∀ ticket, (next.isLatest ticket = true → s.isLatest ticket = true) ∧
      (s.isLatest ticket = true → next.isLatest ticket = true ∨ next.Settled ticket))
    (executed : next.executed = s.executed ∨ ∃ ticket, next.executed = s.executed ++ [ticket] ∧ s.isLatest ticket = true)
    (holds : Later s next → next.Holds new) : Kept next := by
  have stays : ∀ call ∈ s.calls, call ≠ old → call ∈ next.calls := by
    intro call mem other
    obtain ⟨_, mem, rfl⟩ := (set_exists (P := (· = call)) there ⟨call, mem, rfl⟩).resolve_left (Ne.symm other)
    exact calls ▸ mem
  have begun : ∀ ticket, .begun ticket ∈ next.calls → .begun ticket ∈ s.calls := by
    intro ticket mem
    rw [calls] at mem
    exact (mem_or_eq_of_mem_set mem).resolve_right (enters ticket).symm
  have later : Later s next := by
    refine ⟨fun ticket mem => stays _ mem (moves ticket).1.symm, fun ticket mem => stays _ mem (moves ticket).2.symm, ?_⟩
    rcases executed with same | ⟨ticket, more, -⟩
    · simp [same]
    · simp_all
  refine ⟨?_, fun ticket now => ?_, fun call mem => ?_, fun ticket ran => ?_, ?_⟩
  · have count := countP_set_add (·.holds) new there
    have before := kept.lock
    rw [calls]
    cases had : old.holds <;> cases has : new.holds <;> simp [had, has] at count lock <;> omega
  · obtain ⟨issued, newest⟩ := kept.latest ticket ((latest ticket).1 now)
    exact ⟨later.begun ticket issued, fun other mem => newest other (begun other mem)⟩
  · rw [calls] at mem
    rcases mem_or_eq_of_mem_set mem with mem | rfl
    · exact (kept.calls call mem).later later fun ticket => (latest ticket).2
    · exact holds later
  · rcases executed with same | ⟨started, more, now⟩
    · exact later.begun ticket (kept.executed ticket (same ▸ ran))
    rw [more, mem_append, mem_singleton] at ran
    rcases ran with ran | rfl
    · exact later.begun ticket (kept.executed ticket ran)
    · exact later.begun ticket (kept.latest ticket now).1
  · rcases executed with same | ⟨started, more, now⟩
    · exact same ▸ kept.ordered
    rw [more, pairwise_append]
    refine ⟨kept.ordered, pairwise_singleton .., fun ticket ran _ last => ?_⟩
    rw [mem_singleton.mp last]
    exact (kept.latest started now).2 ticket (kept.executed ticket ran)

variable [DecidableEq Key]

@[simp] theorem finish_calls : (s.finishIfLatest ticket).calls = s.calls := by
  unfold finishIfLatest
  split <;> rfl

@[simp] theorem finish_executed : (s.finishIfLatest ticket).executed = s.executed := by
  unfold finishIfLatest
  split <;> rfl

@[simp] theorem finish_writeLock : (s.finishIfLatest ticket).writeLock = s.writeLock := by
  unfold finishIfLatest
  split <;> rfl

omit [DecidableEq Key] in
theorem ticket_ext (key : other.key = ticket.key) (revision : ticket.revision = other.revision) : other = ticket := by
  cases ticket
  cases other
  simp_all

omit [DecidableEq Key] in
theorem isLatest_iff : s.isLatest ticket = true ↔ s.latestByKey ticket.key = some ticket.revision := decide_eq_true_iff

theorem isLatest_insert : (s.insertLatest ticket).isLatest other = true ↔
    other = ticket ∨ other.key ≠ ticket.key ∧ s.isLatest other = true := by
  rw [isLatest_iff, isLatest_iff, insertLatest]
  dsimp only
  by_cases key : other.key = ticket.key
  · rw [key, Function.update_self, Option.some_inj]
    exact ⟨fun same => .inl (ticket_ext key same), fun same => by simp_all⟩
  · rw [Function.update_of_ne key]
    exact ⟨fun now => .inr ⟨key, now⟩, fun either => (either.resolve_left fun same => key (same ▸ rfl)).2⟩

theorem isLatest_finish : (s.finishIfLatest ticket).isLatest other = true ↔ s.isLatest other = true ∧ ticket ≠ other := by
  unfold finishIfLatest
  split_ifs with now
  · rw [isLatest_iff] at now
    rw [isLatest_iff, isLatest_iff]
    dsimp only
    by_cases key : other.key = ticket.key
    · rw [key, Function.update_self, now, Option.some_inj]
      exact iff_of_false (fun none => by cases none) fun both => both.2 (ticket_ext key both.1).symm
    · rw [Function.update_of_ne key]
      exact ⟨fun also => ⟨also, fun same => key (same ▸ rfl)⟩, And.left⟩
  · exact ⟨fun also => ⟨also, fun same => now (same ▸ also)⟩, And.left⟩

/-- The ticket is taken off the map when it is still the latest. -/
theorem Kept.finish (kept : Kept s) (there : s.calls[i]? = some old) (moves : ∀ ticket, old ≠ .begun ticket ∧ old ≠ .cancelled ticket)
    (enters : ∀ ticket, new ≠ .begun ticket) (lock : old.holds = new.holds)
    (holds : ((s.finishIfLatest ticket).goOn i new).Settled ticket) (ends : ((s.finishIfLatest ticket).goOn i new).Holds new) :
    Kept ((s.finishIfLatest ticket).goOn i new) := by
  refine kept.goOn there moves (by simp [State.goOn]) enters (by simp [State.goOn, lock]) (fun other => ?_)
    (.inl (by simp [State.goOn])) fun _ => ends
  have left : (s.finishIfLatest ticket).isLatest other = true ↔ s.isLatest other = true ∧ ticket ≠ other := isLatest_finish
  refine ⟨fun now => (left.mp now).1, fun now => ?_⟩
  by_cases equal : ticket = other
  · exact .inr (equal ▸ holds)
  · exact .inl (left.mpr ⟨now, equal⟩)

omit [DecidableEq Key] in
theorem Kept.arrive (kept : Kept s) (holds : s.Holds call) (free : call.holds = false) (enters : ∀ ticket, call ≠ .begun ticket) :
    Kept { s with calls := s.calls ++ [call] } := by
  have later : Later s { s with calls := s.calls ++ [call] } :=
    ⟨fun _ mem => mem_append_left _ mem, fun _ mem => mem_append_left _ mem, fun _ ran => ran⟩
  have begun : ∀ ticket, .begun ticket ∈ s.calls ++ [call] → .begun ticket ∈ s.calls := by
    intro ticket mem
    rw [mem_append, mem_singleton] at mem
    exact mem.resolve_right (enters ticket).symm
  refine ⟨by simp [free, kept.lock], fun ticket now => ?_, fun call' mem => ?_, fun ticket ran => later.begun ticket (kept.executed ticket ran),
    kept.ordered⟩
  · obtain ⟨issued, newest⟩ := kept.latest ticket now
    exact ⟨later.begun ticket issued, fun other mem => newest other (begun other mem)⟩
  rcases mem_append.mp mem with mem | new
  · exact (kept.calls call' mem).later later fun _ now => .inl now
  · rw [mem_singleton.mp new]
    exact holds.later later fun _ now => .inl now

/-- A revision is entered that is higher than all before. -/
theorem Kept.insert (kept : Kept s) (there : s.calls[i]? = some (.inserting ticket))
    (highest : ∀ other, .begun other ∈ s.calls → other.key = ticket.key → other.revision < ticket.revision) :
    Kept ((s.insertLatest ticket).goOn i (.begun ticket)) := by
  have issued : ∀ other, .begun other ∈ s.calls.set i (.begun ticket) ↔ .begun other ∈ s.calls ∨ other = ticket := by
    refine fun other => ⟨fun mem => ?_, ?_⟩
    · exact (mem_or_eq_of_mem_set mem).imp_right fun same => by simpa using same
    rintro (mem | rfl)
    · obtain ⟨_, mem, rfl⟩ := (set_exists (P := (· = Call.begun other)) there ⟨_, mem, rfl⟩).resolve_left (by simp)
      exact mem
    · obtain ⟨_, mem, rfl⟩ := set_exists_new (P := (· = Call.begun other)) there rfl
      exact mem
  have later : Later s ((s.insertLatest ticket).goOn i (.begun ticket)) := by
    refine ⟨fun other mem => (issued other).mpr (.inl mem), fun other mem => ?_, fun _ ran => ran⟩
    obtain ⟨_, mem, rfl⟩ := (set_exists (P := (· = Call.cancelled other)) there ⟨_, mem, rfl⟩).resolve_left (by simp)
    exact mem
  have latest : ∀ other, ((s.insertLatest ticket).goOn i (.begun ticket)).isLatest other = true ↔
      other = ticket ∨ other.key ≠ ticket.key ∧ s.isLatest other = true := fun _ => isLatest_insert
  refine ⟨?_, fun other now => ?_, fun call mem => ?_, fun other ran => later.begun other (kept.executed other ran), kept.ordered⟩
  · have count := countP_set_add (·.holds) (Call.begun ticket) there
    have before := kept.lock
    rw [before] at count
    simpa [State.goOn, insertLatest, Call.holds] using count
  · rcases (latest other).mp now with rfl | ⟨differ, now⟩
    · refine ⟨(issued other).mpr (.inr rfl), fun lower mem key => ?_⟩
      rcases (issued lower).mp mem with mem | rfl
      · exact Nat.le_of_lt (highest lower mem key)
      · exact Nat.le_refl _
    obtain ⟨begun, newest⟩ := kept.latest other now
    refine ⟨later.begun other begun, fun lower mem key => ?_⟩
    rcases (issued lower).mp mem with mem | rfl
    · exact newest lower mem key
    · exact absurd key.symm differ
  · rcases mem_or_eq_of_mem_set mem with mem | rfl
    · refine (kept.calls call mem).later later fun other now => ?_
      by_cases key : other.key = ticket.key
      · exact .inr (.inr (.inl ⟨ticket, (issued ticket).mpr (.inr rfl), key.symm, highest other (kept.latest other now).1 key⟩))
      · exact .inl ((latest other).mpr (.inr ⟨key, now⟩))
    · exact .inl ((latest ticket).mpr (.inl rfl))

theorem Kept.advance (kept : Kept s) (fair : s.InOrder (.advance i)) (moved : s.advance i = some next) : Kept next := by
  unfold State.advance at moved
  split at moved
  case h_1 key there =>
    cases moved
    exact kept.goOn there (by simp) rfl (by simp) (by simp [State.goOn, Call.holds]) (fun _ => ⟨id, .inl⟩) (.inl rfl) fun _ => trivial
  case h_2 ticket there =>
    cases moved
    exact kept.insert there (fair ticket there)
  case h_3 ticket there =>
    split_ifs at moved with free
    cases moved
    have issued := kept.calls _ (mem_of_getElem? there)
    exact kept.goOn there (by simp) rfl (by simp) (by simp [State.goOn, Call.holds, free]) (fun _ => ⟨id, .inl⟩) (.inl rfl)
      fun later => later.begun ticket issued
  case h_4 ticket there =>
    have issued := kept.calls _ (mem_of_getElem? there)
    split_ifs at moved with now
    · cases moved
      exact kept.goOn there (by simp) rfl (by simp) (by simp [State.goOn, Call.holds]) (fun _ => ⟨id, .inl⟩)
        (.inr ⟨ticket, rfl, now⟩) fun _ => by simp [Holds, State.goOn]
    cases moved
    have settled := (kept.calls _ issued).resolve_left now
    exact kept.goOn there (by simp) rfl (by simp) (by simp [State.goOn, Call.holds]) (fun _ => ⟨id, .inl⟩) (.inl rfl)
      settled.later
  case h_5 ticket there =>
    cases moved
    have ran : ticket ∈ s.executed := kept.calls _ (mem_of_getElem? there)
    have settled : ((s.finishIfLatest ticket).goOn i (.releasing ticket (s.isLatest ticket))).Settled ticket :=
      .inl (by simpa [State.goOn] using ran)
    exact kept.finish there (by simp) (by simp) rfl settled settled
  case h_6 ticket answer there =>
    cases moved
    have settled := kept.calls _ (mem_of_getElem? there)
    have locked : s.writeLock = true := by
      by_contra free
      have none := kept.lock
      rw [eq_false_of_ne_true free, Bool.toNat_false, countP_eq_zero] at none
      exact none _ (mem_of_getElem? there) rfl
    exact kept.goOn there (by simp) rfl (by simp) (by simp [State.goOn, Call.holds, locked]) (fun _ => ⟨id, .inl⟩) (.inl rfl)
      fun later => Settled.later later settled
  case h_7 ticket there =>
    cases moved
    have inside := (List.getElem?_eq_some_iff.mp there).1
    refine kept.finish there (by simp) (by simp) rfl (.inr (.inr ?_)) trivial
    simpa [State.goOn] using List.mem_set inside _
  case h_8 => cases moved

theorem Kept.step {act : Act Key} (kept : Kept s) (fair : s.InOrder act) (stepped : s.step act = some next) : Kept next := by
  cases act with
  | begin key =>
    cases stepped
    exact kept.arrive trivial rfl (by simp)
  | runIfLatest ticket | cancelIfLatest ticket =>
    simp only [State.step] at stepped
    split_ifs at stepped with issued
    cases stepped
    exact kept.arrive issued rfl (by simp)
  | advance i => exact kept.advance fair stepped

theorem reached_kept (reached : Reached State.step State.InOrder ({} : State Key) s) : Kept s :=
  reached.keeps ⟨rfl, by simp [isLatest], by simp, by simp, .nil⟩ fun _ _ _ kept fair stepped => kept.step fair stepped

/-- The operation of a run starts when its revision is the latest one. -/
theorem started_latest {act : Act Key} (stepped : s.step act = some next) (started : next.executed = s.executed ++ [ticket]) :
    s.isLatest ticket = true := by
  have none : ¬ s.executed = s.executed ++ [ticket] := by simp
  cases act with
  | begin key =>
    cases stepped
    exact absurd started none
  | runIfLatest other | cancelIfLatest other =>
    simp only [State.step] at stepped
    split_ifs at stepped
    cases stepped
    exact absurd started none
  | advance i =>
    simp only [State.step, State.advance] at stepped
    split at stepped
    case h_4 other there =>
      split_ifs at stepped with now
      · cases stepped
        simpa [State.goOn, show other = ticket by simpa [State.goOn] using started] using now
      · cases stepped
        exact absurd started none
    case h_3 =>
      split_ifs at stepped
      cases stepped
      exact absurd started none
    all_goals cases stepped <;> simp [State.goOn, insertLatest] at started

theorem Kept.last (kept : Kept s) (done : ∀ call ∈ s.calls, call.finished = true)
    (ran : ∀ ticket, .begun ticket ∈ s.calls → ∃ answer, .returned ticket answer ∈ s.calls) (issued : .begun ticket ∈ s.calls)
    (newest : s.Newest ticket) : (s.executed.filter (·.key = ticket.key)).getLast? = some ticket := by
  obtain ⟨answer, returned⟩ := ran ticket issued
  have executed : ticket ∈ s.executed := by
    rcases kept.calls _ returned with executed | ⟨other, begun, key, less⟩ | cancelled
    · exact executed
    · exact absurd (newest other begun key) (by omega)
    · exact absurd (done _ cancelled) (by simp [Call.finished])
  have mem : ticket ∈ s.executed.filter (·.key = ticket.key) := by simp [executed]
  have ordered := kept.ordered.sublist (filter_sublist (p := (·.key = ticket.key)))
  obtain ⟨front, last, split⟩ := (s.executed.filter (·.key = ticket.key)).eq_nil_or_concat.resolve_left (ne_nil_of_mem mem)
  have own : last ∈ s.executed.filter (·.key = ticket.key) := by simp [split]
  rw [mem_filter, decide_eq_true_eq] at own
  rw [concat_eq_append] at split
  rw [split] at mem ordered
  rw [split, getLast?_concat, Option.some_inj]
  refine ticket_ext own.2 ?_
  have below := newest last (kept.executed last own.1) own.2
  rcases mem_append.mp mem with earlier | same
  · have above := (pairwise_append.mp ordered).2.2 ticket earlier last (by simp) own.2.symm
    omega
  · rw [mem_singleton.mp same]

structure Coordinated (s : State Key) : Prop where
  exclusive : s.calls.countP (·.isRunning) ≤ 1
  starts : ∀ act next ticket, s.step act = some next → next.executed = s.executed ++ [ticket] → s.Newest ticket
  returns : ∀ i next ticket, s.calls[i]? = some (.running ticket) → s.advance i = some next →
    next.calls[i]? = some (.releasing ticket true) → s.Newest ticket
  /-- When every ticket was run and all calls have returned. -/
  last : (∀ call ∈ s.calls, call.finished = true) → (∀ ticket, .begun ticket ∈ s.calls → ∃ answer, .returned ticket answer ∈ s.calls) →
    ∀ ticket, .begun ticket ∈ s.calls → s.Newest ticket → (s.executed.filter (·.key = ticket.key)).getLast? = some ticket

end State

open State

variable [DecidableEq Key]

end Ramag.LatestWrites
