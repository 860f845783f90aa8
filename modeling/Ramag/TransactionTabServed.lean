import Ramag.TransactionTabKept

/-!
The driver serves the calls of a query tab, at any time and in any order: what is
kept holds after each call (`Kept.serve`).
-/
namespace Ramag.TransactionTab
open Strings Domain Runs List Function Option

variable {κ τ : Type} [DecidableEq τ]
variable {s : State κ τ} {tab after : QueryTab κ τ}

namespace State

/-! ### A call is served -/

omit [DecidableEq τ] in
/-- A task of some kind stays, unless it is the one that moves. -/
theorem stays {i : Nat} {task : Task κ τ} {P : Task κ τ → Prop}
    (new : Task κ τ) (there : s.tasks[i]? = some task) (held : ∃ other ∈ s.tasks, P other) :
    P task ∨ ∃ other ∈ s.tasks.set i new, P other :=
  set_exists there held

/-- What serving a call does to the transactions that were opened before. -/
structure Served (task : Task κ τ) (server after : Server κ τ) : Prop where
  forward : ∀ id opened, server id = some opened → ∃ left, after id = some left ∧ left.connection = opened.connection ∧
    (opened.ended = true → left.ended = true) ∧
    (∀ commit, task.call.ends = some (id, commit) → opened.connection = task.connection → left.ended = true)
  back : ∀ id left, after id = some left → ∃ opened, server id = some opened ∧
    (left.ended = true → opened.ended = true ∨ ∃ commit, task.call.ends = some (id, commit))

section
variable {i : Nat} {task : Task κ τ} {answer : Answer τ}
  {server : Server κ τ}

/-- The state in which the call has its answer. -/
def served (s : State κ τ) (i : Nat) (task : Task κ τ) (server : Server κ τ) (answer : Answer τ) : State κ τ :=
  { s with server, tasks := s.tasks.set i { task with stage := .answered answer } }

theorem Tracked.serve (tracked : Tracked s) (there : s.tasks[i]? = some task) (calling : task.stage = .calling) :
    Tracked (s.served i task server answer) := by
  have mem := mem_of_getElem? there
  have waits : ∀ seq, ({ task with stage := .answered answer } : Task κ τ).waits seq = task.waits seq :=
    fun seq => by simp [Task.waits, calling]
  refine ⟨?_, ?_, ?_, ?_⟩
  · intro tab held other inside
    rcases mem_or_eq_of_mem_set inside with old | rfl
    · exact tracked.earlier tab held other old
    · exact tracked.earlier tab held task mem
  · intro tab held
    have moved := countP_set_add (·.waits tab.transactionSeq) { task with stage := .answered answer } there
    simp only [waits] at moved
    exact (Nat.add_right_cancel moved).trans (tracked.busy tab held)
  · intro tab held other inside current
    rcases mem_or_eq_of_mem_set inside with old | rfl
    · exact tracked.fits tab held other old current
    · obtain ⟨connection, transaction, aims⟩ := tracked.fits tab held task mem (waits _ ▸ current)
      exact ⟨connection, transaction, aims⟩
  · intro other inside savepoint running
    rcases mem_or_eq_of_mem_set inside with old | rfl
    · exact tracked.savepoints other old savepoint running
    · exact tracked.savepoints task mem savepoint (by simp [calling])

theorem Owned.serve (owned : Owned s) (there : s.tasks[i]? = some task) (calling : task.stage = .calling)
    (plain : ∀ id, answer ≠ .opened id) (result : Served task s.server server) : Owned (s.served i task server answer) := by
  have mem := mem_of_getElem? there
  have claims : ∀ id, ({ task with stage := .answered answer } : Task κ τ).claims id = task.claims id :=
    fun id => by simp [Task.claims, calling, plain]
  refine ⟨?_, ?_, ?_, ?_, ?_, ?_, ?_⟩
  · intro id
    have moved := countP_set_add (·.claims id) { task with stage := .answered answer } there
    simp only [claims] at moved
    exact (Nat.add_right_cancel moved) ▸ owned.once id
  · intro id left found
    obtain ⟨opened, before, -⟩ := result.back id left found
    rcases owned.owned id opened before with adopts | claimed
    · exact .inl adopts
    · rcases stays { task with stage := .answered answer } there claimed with holds | other
      · exact .inr ⟨_, List.mem_set (List.getElem?_eq_some_iff.mp there).1 _, (claims id).trans holds⟩
      · exact .inr other
  · intro tab held session inside
    obtain ⟨connection, connected, opened, found, same⟩ := owned.adopted tab held session inside
    obtain ⟨left, after, kept, -⟩ := result.forward _ _ found
    exact ⟨connection, connected, left, after, kept.trans same⟩
  · intro other inside id holds
    rcases mem_or_eq_of_mem_set inside with old | rfl
    · obtain ⟨opened, found, same, state⟩ := owned.claimed other old id holds
      obtain ⟨left, after, kept, ended, -⟩ := result.forward _ _ found
      exact ⟨left, after, kept.trans same, state.imp_right (.imp_right ended)⟩
    rw [claims] at holds
    obtain ⟨opened, found, same, state⟩ := owned.claimed task mem id holds
    obtain ⟨left, after, kept, -, ends⟩ := result.forward _ _ found
    refine ⟨left, after, kept.trans same, ?_⟩
    cases ending : task.call.ends with
    | none => exact .inl rfl
    | some pair =>
      obtain ⟨ended, commit⟩ := pair
      have own : ended = id := by simpa [Task.claims, calling, ending] using holds
      exact .inr (.inr (ends commit (own ▸ ending) same))
  · intro id left found ended
    obtain ⟨opened, before, why⟩ := result.back id left found
    have there' : ∃ other ∈ s.tasks, ∃ commit, other.call.ends = some (id, commit) := by
      rcases why ended with already | ⟨commit, ends⟩
      · exact owned.ended id opened before already
      · exact ⟨task, mem, commit, ends⟩
    rcases stays { task with stage := .answered answer } there there' with holds | other
    · exact ⟨_, List.mem_set (List.getElem?_eq_some_iff.mp there).1 _, holds⟩
    · exact other
  · intro tab held session inside other mem' holds
    rcases mem_or_eq_of_mem_set mem' with old | rfl
    · exact owned.finishing tab held session inside other old holds
    · have waits := owned.finishing tab held session inside task mem (claims _ ▸ holds)
      simpa [Task.waits, calling] using waits
  · intro other inside id answered
    rcases mem_or_eq_of_mem_set inside with old | rfl
    · exact owned.opens other old id answered
    · exact absurd (Stage.answered.inj answered) (plain id)

theorem Owned.open {fresh : τ} {connection : κ} (owned : Owned s) (there : s.tasks[i]? = some task)
    (calling : task.stage = .calling) (begins : task.call = .beginTransaction) (unused : s.server fresh = none)
    (same : connection = task.connection) :
    Owned (s.served i task (update s.server fresh (some ⟨connection, [], false⟩)) (.opened fresh)) := by
  have before : ∀ id, task.claims id = false := fun id => by simp [Task.claims, begins, calling, Call.ends]
  have after : ∀ id, ({ task with stage := .answered (.opened fresh) } : Task κ τ).claims id = true ↔ fresh = id :=
    fun id => by simp [Task.claims, begins, Call.ends]
  have nobody : ∀ other ∈ s.tasks, other.claims fresh = false := by
    intro other inside
    by_contra holds
    obtain ⟨opened, found, -⟩ := owned.claimed other inside fresh (by simpa using holds)
    rw [unused] at found
    cases found
  have still : ∀ {P : Task κ τ → Prop}, (∃ other ∈ s.tasks, P other) → ¬ P task →
      ∃ other ∈ s.tasks.set i { task with stage := .answered (.opened fresh) }, P other := fun held other =>
    (set_exists there held).resolve_left other
  refine ⟨?_, ?_, ?_, ?_, ?_, ?_, ?_⟩
  · intro id
    have moved := countP_set_add (·.claims id) { task with stage := .answered (.opened fresh) } there
    simp only [before, Bool.false_eq_true, if_false, after] at moved
    by_cases own : fresh = id
    · subst own
      rw [countP_eq_zero.mpr fun other inside => Bool.eq_false_iff.mp (nobody other inside)] at moved
      simpa [served] using Nat.le_of_eq moved
    · rw [if_neg own] at moved
      exact Nat.le_trans (Nat.le_of_eq moved) (owned.once id)
  · intro id opened found
    by_cases own : id = fresh
    · subst own
      exact .inr ⟨_, List.mem_set (List.getElem?_eq_some_iff.mp there).1 _, (after _).mpr rfl⟩
    simp only [served, update_of_ne own] at found
    rcases owned.owned id opened found with adopts | claimed
    · exact .inl adopts
    · exact .inr (still claimed (by simp [before]))
  · intro tab held session inside
    obtain ⟨connection', connected, opened, found, kept⟩ := owned.adopted tab held session inside
    have other : session.id ≠ fresh := fun own => by simp [own, unused] at found
    exact ⟨connection', connected, opened, by simpa [served, update_of_ne other] using found, kept⟩
  · intro other inside id holds
    rcases mem_or_eq_of_mem_set inside with old | rfl
    · obtain ⟨opened, found, kept, state⟩ := owned.claimed other old id holds
      have apart : id ≠ fresh := fun own => by simp [own, unused] at found
      exact ⟨opened, by simpa [served, update_of_ne apart] using found, kept, state⟩
    · obtain rfl := (after id).mp holds
      exact ⟨⟨connection, [], false⟩, by simp [served], same, .inl (by simp [begins, Call.ends])⟩
  · intro id opened found ended
    by_cases own : id = fresh
    · subst own
      simp only [served, update_self, some_inj] at found
      simp [← found] at ended
    · simp only [served, update_of_ne own] at found
      exact still (owned.ended id opened found ended) (by simp [begins, Call.ends])
  · intro tab held session inside other mem' holds
    rcases mem_or_eq_of_mem_set mem' with old | rfl
    · exact owned.finishing tab held session inside other old holds
    · obtain ⟨connection', connected, opened, found, -⟩ := owned.adopted tab held session inside
      rw [← (after _).mp holds, unused] at found
      cases found
  · intro other inside id answered
    rcases mem_or_eq_of_mem_set inside with old | rfl
    · exact owned.opens other old id answered
    · exact begins

theorem Agreed.serve (kept : Kept s) (there : s.tasks[i]? = some task) (plain : task.call.isSavepoint = false)
    (same : ∀ id left, server id = some left → (∃ opened, s.server id = some opened ∧ left.savepoints = opened.savepoints) ∨
      left.savepoints = [] ∧ s.server id = none)
    (opens : ∀ id, answer = .opened id → s.server id = none) : Agreed (s.served i task server answer) := by
  have quiet : (s.served i task server answer).SavepointInFlight ↔ s.SavepointInFlight := by
    constructor
    · rintro ⟨other, mem, savepoint, running⟩
      rcases mem_or_eq_of_mem_set mem with old | rfl
      · exact ⟨other, old, savepoint, running⟩
      · exact absurd savepoint (by simp [plain])
    · intro flight
      exact (set_exists there flight).resolve_left (by simp [plain])
  have found : ∀ tab ∈ s.tab, ∀ session ∈ tab.transaction, ∀ left, server session.id = some left →
      ∃ opened, s.server session.id = some opened ∧ left.savepoints = opened.savepoints := by
    intro tab held session inside left after
    rcases same _ left after with before | ⟨-, none⟩
    · exact before
    · obtain ⟨-, -, opened, before, -⟩ := kept.owned.adopted tab held session inside
      rw [none] at before
      cases before
  refine ⟨kept.agreed.numbered, ?_, ?_, ?_⟩
  · intro tab held session inside still left after
    obtain ⟨opened, before, savepoints⟩ := found tab held session inside left after
    rw [savepoints]
    exact kept.agreed.idle tab held session inside (quiet.not.mp still) opened before
  · intro tab held session inside other mem savepoint running left after
    obtain ⟨opened, before, savepoints⟩ := found tab held session inside left after
    rcases mem_or_eq_of_mem_set mem with old | rfl
    · rw [savepoints]
      exact kept.agreed.flight tab held session inside other old savepoint running opened before
    · exact absurd savepoint (by simp [plain])
  · intro other mem id answered left after
    rcases mem_or_eq_of_mem_set mem with old | rfl
    · rcases same id left after with ⟨opened, before, savepoints⟩ | ⟨empty, -⟩
      · rw [savepoints]
        exact kept.agreed.fresh other old id answered opened before
      · exact empty
    rcases same id left after with ⟨opened, before, -⟩ | ⟨empty, -⟩
    · rw [opens id (Stage.answered.inj answered)] at before
      cases before
    · exact empty

theorem fromLatest_last {name : Text} {names : List Text} : fromLatest name (names ++ [name]) = name :: names.reverse := by
  simp [fromLatest]

omit [DecidableEq τ] in
theorem savepointCommand_listed {replaces : Bool} {session : TransactionSession τ} {call : Call τ}
    (numbered : Numbered session) (named : call.isSavepoint = true) (aims : call.Aims session) :
    savepointCommand replaces (session.savepoints.map (·.name)) call = some (call.listed (session.savepoints.map (·.name))) := by
  cases call with
  | createSavepoint id name =>
    obtain ⟨numbers, names, -, below⟩ := numbered
    have new : ∀ other ∈ session.savepoints.map (·.name), other ≠ name := by
      intro other mem same
      rw [names] at mem
      obtain ⟨number, inside, rfl⟩ := mem_map.mp mem
      exact Nat.ne_of_lt (below number inside) (savepointName_inj (same.trans aims))
    have all : (session.savepoints.map (·.name)).filter (· ≠ name) = session.savepoints.map (·.name) :=
      filter_eq_self.mpr fun other mem => decide_eq_true (new other mem)
    simp only [savepointCommand, all, ite_self, Call.listed]
  | rollbackToSavepoint id savepoint targetIndex =>
    have latest : session.savepoints.map (·.name) = (session.savepoints.take targetIndex).map (·.name) ++ [savepoint.name] := by
      conv_lhs => rw [← show session.savepoints.take targetIndex ++ [savepoint] = session.savepoints from aims]
      simp
    have whole : (session.savepoints.map (·.name)).length ≤ targetIndex + 1 := by
      have count := congrArg List.length latest
      simp only [length_append, length_map, length_take, length_singleton] at count ⊢
      omega
    rw [Call.listed, take_of_length_le whole]
    conv_lhs => rw [latest]
    simp only [savepointCommand, fromLatest_last, reduceCtorEq, if_false, reverse_cons, reverse_reverse]
    rw [← latest]
  | releaseSavepoint id name targetIndex =>
    have latest : (session.savepoints.take targetIndex).map (·.name) ++ [name] = session.savepoints.map (·.name) := aims
    rw [← latest]
    simp only [savepointCommand, fromLatest_last, reduceCtorEq, if_false, tail_cons, reverse_reverse, Call.listed]
    rw [latest, map_take]
  | _ => cases named

section
variable [DecidableEq κ]

variable {id : τ} {opened : Opened κ}

omit [DecidableEq τ] in
theorem slot_eq_some {connection : κ} : server.slot connection id = some opened ↔
      server id = some opened ∧ opened.connection = connection ∧ opened.ended = false := by
  simp [Server.slot]

variable {replaces accepted : Bool}

theorem execute_cases {later : Server κ τ} {connection : κ} {name : Text} {call : Call τ}
    (result : server.executeSavepointCommand replaces connection id name call accepted = (later, answer)) :
    later = server ∧ answer = .failed ∨
      ∃ opened savepoints, server id = some opened ∧ savepointCommand replaces opened.savepoints call = some savepoints ∧
        later = update server id (some { opened with savepoints }) ∧ answer = .ok := by
  unfold Server.executeSavepointCommand at result
  split at result
  · cases result
    exact .inl ⟨rfl, rfl⟩
  split at result
  case _ =>
    cases result
    exact .inl ⟨rfl, rfl⟩
  case _ opened slot =>
    split at result
    case _ =>
      cases result
      exact .inl ⟨rfl, rfl⟩
    case _ savepoints done =>
      cases accepted
      · cases result
        exact .inl ⟨rfl, rfl⟩
      · cases result
        exact .inr ⟨opened, savepoints, (slot_eq_some.mp slot).1, done, rfl, rfl⟩

omit [DecidableEq κ] in
/-- One transaction goes on, and it ends only when the call ends it. -/
theorem Served.update {left : Opened κ} (found : server id = some opened)
    (connection : left.connection = opened.connection) (still : opened.ended = true → left.ended = true)
    (ended : left.ended = true → opened.ended = true ∨ ∃ commit, task.call.ends = some (id, commit))
    (ends : ∀ other commit, task.call.ends = some (other, commit) → other = id ∧ left.ended = true) :
    Served task server (update server id (some left)) where
  forward := by
    intro other before known
    by_cases own : other = id
    · subst own
      rw [found, some_inj] at known
      subst known
      exact ⟨left, by simp, connection, still, fun commit ending _ => (ends _ commit ending).2⟩
    · exact ⟨before, by simp [update_of_ne own, known], rfl, fun held => held, fun commit ending => absurd (ends _ commit ending).1 own⟩
  back := by
    intro other after known
    by_cases own : other = id
    · subst own
      rw [update_self, some_inj] at known
      subst known
      exact ⟨opened, found, ended⟩
    · rw [update_of_ne own] at known
      exact ⟨after, known, .inl⟩

theorem finish_served {commit : Bool} (ends : task.call.ends = some (id, commit)) :
    Served task s.server (s.server.finishTransaction task.connection id accepted).1 ∧
      ∀ other left, (s.server.finishTransaction task.connection id accepted).1 other = some left →
        ∃ opened, s.server other = some opened ∧ left.savepoints = opened.savepoints := by
  unfold Server.finishTransaction
  split
  case _ slot =>
    refine ⟨⟨?_, fun other left found => ⟨left, found, .inl⟩⟩, fun other left found => ⟨left, found, rfl⟩⟩
    intro other opened found
    refine ⟨opened, found, rfl, fun h => h, ?_⟩
    intro commit' ends' same
    rw [ends] at ends'
    cases ends'
    by_contra running
    have open' := slot_eq_some.mpr ⟨found, same, by simpa using running⟩
    rw [slot] at open'
    cases open'
  case _ opened slot =>
    have found := (slot_eq_some.mp slot).1
    refine ⟨.update found rfl (fun _ => rfl) (fun _ => .inr ⟨commit, ends⟩) ?_, ?_⟩
    · intro other commit' ends'
      rw [ends] at ends'
      cases ends'
      exact ⟨rfl, rfl⟩
    intro other left known
    by_cases own : other = id
    · subst own
      simp only [update_self, some_inj] at known
      subst known
      exact ⟨opened, found, rfl⟩
    · simp only [update_of_ne own] at known
      exact ⟨left, known, rfl⟩

theorem Kept.executed {name : Text} (kept : Kept s)
    (there : s.tasks[i]? = some task) (calling : task.stage = .calling) (savepoint : task.call.isSavepoint = true)
    (about : task.call.transaction = some id)
    (result : s.server.executeSavepointCommand replaces task.connection id name task.call accepted = (server, answer)) :
    Kept (s.served i task server answer) := by
  have mem := mem_of_getElem? there
  have running : task.stage ≠ .done := by simp [calling]
  have ends : task.call.ends = none := by
    cases called : task.call <;> simp_all [Call.isSavepoint, Call.savepointName, Call.ends]
  have tracked : Tracked (s.served i task server answer) := kept.tracked.serve there calling
  have now : { task with stage := .answered answer } ∈ (s.served i task server answer).tasks :=
    List.mem_set (List.getElem?_eq_some_iff.mp there).1 _
  have before : ∀ tab ∈ s.tab, ∀ session ∈ tab.transaction, session.id = id ∧ task.call.Aims session ∧
      ∀ opened, s.server id = some opened → opened.savepoints = session.savepoints.map (·.name) := by
    intro tab held session inside
    have fits := kept.tracked.fits tab held task mem (kept.tracked.savepoint held mem savepoint running)
    have same : session.id = id := by simpa [mem_def.mp inside, about] using fits.transaction
    refine ⟨same, fits.aims session inside, ?_⟩
    intro opened found
    have agreed := kept.agreed.flight tab held session inside task mem savepoint running opened (same ▸ found)
    simpa [Task.expected, calling] using agreed
  -- Nobody else waits, so the only savepoint call in flight is this one.
  have only : ∀ tab ∈ s.tab, ∀ other ∈ (s.served i task server answer).tasks, other.call.isSavepoint = true →
      other.stage ≠ .done → other = { task with stage := .answered answer } := by
    intro tab held other inside savepoint' running'
    have one : (s.served i task server answer).tasks.countP (·.waits tab.transactionSeq) ≤ 1 := by
      rw [tracked.busy tab held]
      split <;> omega
    exact eq_of_countP one inside now (tracked.savepoint held inside savepoint' running')
      (tracked.savepoint held now savepoint (by simp))
  have flight : (s.served i task server answer).SavepointInFlight := ⟨_, now, savepoint, by simp⟩
  have apart : ∀ other ∈ s.tasks, ∀ id', other.stage = .answered (.opened id') → id' ≠ id ∨ s.tab = none := by
    intro other inside id' answered
    cases held : s.tab with
    | none => exact .inr rfl
    | some tab =>
      left
      rintro rfl
      have fits := kept.tracked.fits tab held task mem (kept.tracked.savepoint held mem savepoint running)
      obtain ⟨session, manual, same⟩ := map_eq_some_iff.mp (fits.transaction.trans about)
      have waits := kept.owned.finishing tab held session manual other inside (by simp [Task.claims, answered, same])
      have begins := (kept.tracked.fits tab held other inside waits).transaction
      rw [kept.owned.opens other inside _ answered, manual] at begins
      cases begins
  rcases execute_cases result with ⟨rfl, rfl⟩ | ⟨opened, savepoints, found, done, rfl, rfl⟩
  · refine ⟨tracked, kept.owned.serve there calling (by simp) ⟨?_, fun id left found => ⟨left, found, .inl⟩⟩,
      kept.agreed.numbered, fun _ _ _ _ quiet => absurd flight quiet, ?_, ?_⟩
    · intro id opened found
      exact ⟨opened, found, rfl, fun held => held, by simp [ends]⟩
    · intro tab held session inside other mem' savepoint' running' opened found
      obtain rfl := only tab held other mem' savepoint' running'
      obtain ⟨rfl, -, same⟩ := before tab held session inside
      simpa [Task.expected] using same opened found
    · intro other mem' id' answered opened found
      rcases mem_or_eq_of_mem_set mem' with old | rfl
      · exact kept.agreed.fresh other old id' answered opened found
      · cases answered
  · refine ⟨tracked, kept.owned.serve there calling (by simp) (.update found rfl (fun held => held) .inl (by simp [ends])),
      kept.agreed.numbered, fun _ _ _ _ quiet => absurd flight quiet, ?_, ?_⟩
    · intro tab held session inside other mem' savepoint' running' left after
      obtain rfl := only tab held other mem' savepoint' running'
      obtain ⟨rfl, aims, same⟩ := before tab held session inside
      simp only [served, update_self, some_inj] at after
      rw [same opened found, savepointCommand_listed (kept.agreed.numbered tab held session inside) savepoint aims, some_inj] at done
      rw [← after]
      simp [Task.expected, done]
    · intro other mem' id' answered left after
      rcases mem_or_eq_of_mem_set mem' with old | rfl
      · have other' : id' ≠ id := by
          rcases apart other old id' answered with apart | gone
          · exact apart
          · obtain ⟨tab, held, -⟩ := kept.tracked.savepoints task mem savepoint running
            rw [gone] at held
            cases held
        simp only [served, update_of_ne other'] at after
        exact kept.agreed.fresh other old id' answered left after
      · cases answered

theorem Kept.serve {fresh : τ} {next : State κ τ} (kept : Kept s) (moved : s.serve replaces i fresh accepted = some next) : Kept next := by
  unfold State.serve at moved
  split at moved
  case _ => cases moved
  case _ task there =>
    split at moved
    case isFalse => cases moved
    case isTrue calling =>
      obtain ⟨⟨server, answer⟩, done, rfl⟩ := map_eq_some_iff.mp moved
      change Kept (s.served i task server answer)
      have finished : ∀ id commit, task.call.ends = some (id, commit) →
          s.server.finishTransaction task.connection id accepted = (server, answer) →
          Kept (s.served i task server answer) := by
        intro id commit ends result
        have finish : Served task s.server (s.server.finishTransaction task.connection id accepted).1 ∧ _ := finish_served ends
        rw [result] at finish
        obtain ⟨served, savepoints⟩ := finish
        have plain : ∀ id, answer ≠ .opened id := by
          have answers : answer = .ok ∨ answer = .failed := by
            unfold Server.finishTransaction at result
            split at result <;> cases result
            · exact .inr rfl
            · cases accepted
              · exact .inr rfl
              · exact .inl rfl
          rcases answers with rfl | rfl <;> simp
        refine ⟨kept.tracked.serve there calling, kept.owned.serve there calling plain served,
          .serve kept there ?_ (fun other left found => .inl (savepoints other left found)) ?_⟩
        · cases called : task.call <;> simp_all [Call.isSavepoint, Call.savepointName, Call.ends]
        · intro id opened
          exact absurd opened (plain id)
      cases called : task.call with
      | beginTransaction =>
        simp only [called, Server.serve] at done
        split at done
        case isTrue =>
          cases done
          refine ⟨kept.tracked.serve there calling,
            kept.owned.serve there calling (by simp) ⟨?_, fun id left found => ⟨left, found, .inl⟩⟩,
            .serve kept there (by simp [called, Call.isSavepoint, Call.savepointName])
              (fun id left found => .inl ⟨left, found, rfl⟩) (by simp)⟩
          intro id opened found
          exact ⟨opened, found, rfl, fun held => held, by simp [called, Call.ends]⟩
        case isFalse =>
          split at done
          case isTrue => cases done
          case isFalse unused =>
            cases done
            simp only [Bool.not_eq_true, isSome_eq_false_iff, isNone_iff_eq_none] at unused
            refine ⟨kept.tracked.serve there calling, kept.owned.open there calling called unused rfl,
              .serve kept there (by simp [called, Call.isSavepoint, Call.savepointName]) ?_ ?_⟩
            · intro id left found
              by_cases own : id = fresh
              · subst own
                rw [update_self, some_inj] at found
                exact .inr ⟨by rw [← found], unused⟩
              · rw [update_of_ne own] at found
                exact .inl ⟨left, found, rfl⟩
            · rintro _ ⟨⟩
              exact unused
      | createSavepoint id name | rollbackToSavepoint id savepoint targetIndex | releaseSavepoint id name targetIndex =>
        simp only [called, Server.serve, some_inj] at done
        exact kept.executed there calling (by rw [called]; rfl) (by rw [called]; rfl) (called ▸ done)
      | finishTransaction id commit =>
        simp only [called, Server.serve, some_inj] at done
        exact finished id commit (by rw [called]; rfl) done
      | rollbackDetached id =>
        simp only [called, Server.serve, some_inj] at done
        exact finished id false (by rw [called]; rfl) done

end

end

end State

end Ramag.TransactionTab
