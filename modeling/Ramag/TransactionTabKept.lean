import Ramag.TransactionTab

/-!
What is kept over the runs of a query tab (`Kept`): the tab waits for one call,
every transaction is in one pair of hands, and the list of savepoints is that of
the server up to the call in flight. Here it is kept by the actions of the tab.
-/
namespace Ramag.TransactionTab
open Strings Domain Runs List Option

variable {κ τ : Type}

namespace Call

/-- The tab waits for the answer. -/
def asks : Call τ → Bool
  | .rollbackDetached _ => false
  | _ => true

/-- The transaction that the call commits, or else rolls back. -/
def ends : Call τ → Option (τ × Bool)
  | .finishTransaction id commit => some (id, commit)
  | .rollbackDetached id => some (id, false)
  | _ => none

def isSavepoint (call : Call τ) : Bool := call.savepointName.isSome

/-- The savepoint that the call names is the one that comes next, or the latest. -/
def Aims (session : TransactionSession τ) : Call τ → Prop
  | .createSavepoint _ name => name = QueryTab.savepointName session.nextSavepoint
  | .rollbackToSavepoint _ savepoint targetIndex => session.savepoints.take targetIndex ++ [savepoint] = session.savepoints
  | .releaseSavepoint _ name targetIndex => (session.savepoints.take targetIndex).map (·.name) ++ [name] = session.savepoints.map (·.name)
  | _ => True

/-- What a call that succeeded does to the names in the list of the tab. -/
def listed (names : List Text) : Call τ → List Text
  | .createSavepoint _ name => names ++ [name]
  | .rollbackToSavepoint _ _ targetIndex => names.take (targetIndex + 1)
  | .releaseSavepoint _ _ targetIndex => names.take targetIndex
  | _ => names

theorem transaction_of_ends {call : Call τ} {id : τ} {commit : Bool}
    (ends : call.ends = some (id, commit)) : call.transaction = some id := by
  cases call <;> simp_all [Call.ends, Call.transaction]

end Call

/-! ### What an action asks for -/

/-- The names of a session are numbered upwards. -/
def Numbered (session : TransactionSession τ) : Prop :=
  ∃ numbers : List Nat, session.savepoints.map (·.name) = numbers.map QueryTab.savepointName ∧
    numbers.Pairwise (· < ·) ∧ ∀ number ∈ numbers, number < session.nextSavepoint

theorem savepointName_inj {a b : Nat} (same : QueryTab.savepointName a = QueryTab.savepointName b) : a = b := by
  have digits : natText a = natText b := append_cancel_left same
  have read := congrArg (fun t => Nat.ofDigitChars 10 t 0) digits
  simpa [natText, Nat.ofDigitChars_ten_toDigits] using read

theorem Numbered.nodup {session : TransactionSession τ} (numbered : Numbered session) : (session.savepoints.map (·.name)).Nodup := by
  obtain ⟨numbers, names, upwards, -⟩ := numbered
  rw [names]
  refine pairwise_map.mpr (upwards.imp ?_)
  intro a b less same
  exact Nat.ne_of_lt less (savepointName_inj same)

theorem take_latest {session : TransactionSession τ} (numbered : Numbered session)
    {savepoint : TransactionSavepoint} (latest : session.savepoints.getLast? = some savepoint) {targetIndex : Nat}
    (found : session.savepoints.findIdx? (fun item => item.name = savepoint.name) = some targetIndex) :
    session.savepoints.take targetIndex ++ [savepoint] = session.savepoints := by
  obtain ⟨older, split⟩ := getLast?_eq_some_iff.mp latest
  obtain ⟨inside, named, -⟩ := findIdx?_eq_some_iff_getElem.mp found
  have distinct := Numbered.nodup numbered
  have last : targetIndex = older.length := by
    by_contra other
    have before : targetIndex < older.length := by
      rw [split] at inside
      simp at inside
      omega
    have mem : savepoint.name ∈ older.map (·.name) := by
      simp only [split, getElem_append_left before, decide_eq_true_eq] at named
      exact mem_map.mpr ⟨_, getElem_mem before, named⟩
    rw [split, map_append, nodup_append] at distinct
    exact distinct.2.2 _ mem _ (by simp) rfl
  rw [split, last, take_left]

/-- The action does nothing, or the tab asks for something that fits it. -/
def Asks (tab : QueryTab κ τ) (outcome : QueryTab κ τ × Option (Task κ τ)) : Prop :=
  outcome = (tab, none) ∨ ∃ connection call, outcome = tab.request connection call ∧ tab.connection = some connection ∧
    tab.transactionBusy = false ∧ call.asks = true ∧ tab.transaction.map (·.id) = call.transaction ∧
    ∀ session ∈ tab.transaction, call.Aims session

section
variable {tab : QueryTab κ τ}

theorem beginTransaction_asks : Asks tab tab.beginTransaction := by
  unfold QueryTab.beginTransaction
  by_cases closed : tab.transaction.isSome || tab.transactionBusy || tab.running
  · exact .inl (by rw [if_pos closed])
  rw [if_neg closed]
  split
  · exact .inl rfl
  cases connected : tab.connection with
  | none => exact .inl rfl
  | some connection =>
    simp only [Bool.or_eq_true, not_or, Bool.not_eq_true, isSome_eq_false_iff, isNone_iff_eq_none] at closed
    obtain ⟨⟨none, idle⟩, -⟩ := closed
    refine .inr ⟨connection, .beginTransaction, rfl, connected, idle, rfl, by rw [none]; rfl, ?_⟩
    intro session mem
    exact trivial

theorem createSavepoint_asks : Asks tab tab.createSavepoint := by
  unfold QueryTab.createSavepoint
  by_cases closed : tab.transactionBusy || tab.running
  · exact .inl (by rw [if_pos closed])
  rw [if_neg closed]
  simp only [Bool.or_eq_true, not_or, Bool.not_eq_true] at closed
  split
  · exact .inl rfl
  cases manual : tab.transaction with
  | none => exact .inl rfl
  | some session =>
    simp only
    split
    · exact .inl rfl
    cases connected : tab.connection with
    | none => exact .inl rfl
    | some connection =>
      refine .inr ⟨connection, _, rfl, connected, closed.1, rfl, by rw [manual]; rfl, ?_⟩
      intro other mem
      rw [manual, mem_some_iff] at mem
      exact mem ▸ rfl

theorem rollbackToLatestSavepoint_asks (numbered : ∀ session ∈ tab.transaction, Numbered session) :
    Asks tab tab.rollbackToLatestSavepoint := by
  unfold QueryTab.rollbackToLatestSavepoint QueryTab.rollbackToSavepoint
  split
  · exact .inl rfl
  split
  case _ => exact .inl rfl
  case _ savepoint latest =>
    by_cases closed : tab.transactionBusy || tab.running
    · exact .inl (by rw [if_pos closed])
    rw [if_neg closed]
    simp only [Bool.or_eq_true, not_or, Bool.not_eq_true] at closed
    split
    case h_2 => exact .inl rfl
    case h_1 session connection manual connected =>
      split
      case h_1 => exact .inl rfl
      case h_2 targetIndex found =>
        refine .inr ⟨connection, _, rfl, connected, closed.1, rfl, by rw [manual]; rfl, ?_⟩
        intro other mem
        rw [manual, mem_some_iff] at mem
        subst mem
        rw [QueryTab.transactionSavepoints, manual] at latest
        exact take_latest (numbered _ manual) latest found

theorem releaseLatestSavepoint_asks (numbered : ∀ session ∈ tab.transaction, Numbered session) : Asks tab tab.releaseLatestSavepoint := by
  unfold QueryTab.releaseLatestSavepoint
  split
  · exact .inl rfl
  split
  case _ => exact .inl rfl
  case _ savepoint latest =>
    by_cases closed : tab.transactionBusy || tab.running
    · exact .inl (by rw [if_pos closed])
    rw [if_neg closed]
    simp only [Bool.or_eq_true, not_or, Bool.not_eq_true] at closed
    split
    case h_2 => exact .inl rfl
    case h_1 session connection manual connected =>
      split
      case h_1 => exact .inl rfl
      case h_2 targetIndex found =>
        refine .inr ⟨connection, _, rfl, connected, closed.1, rfl, by rw [manual]; rfl, ?_⟩
        intro other mem
        rw [manual, mem_some_iff] at mem
        subst mem
        rw [QueryTab.transactionSavepoints, manual] at latest
        have last := congrArg (List.map (·.name)) (take_latest (numbered _ manual) latest found)
        rw [map_append] at last
        exact last

theorem finishTransaction_asks {commit : Bool} : Asks tab (tab.finishTransaction commit) := by
  unfold QueryTab.finishTransaction
  by_cases closed : tab.transactionBusy || tab.running
  · exact .inl (by rw [if_pos closed])
  rw [if_neg closed]
  simp only [Bool.or_eq_true, not_or, Bool.not_eq_true] at closed
  split
  · exact .inl rfl
  split
  case h_2 => exact .inl rfl
  case h_1 session connection manual connected =>
    refine .inr ⟨connection, _, rfl, connected, closed.1, rfl, by rw [manual]; rfl, ?_⟩
    intro other mem
    exact trivial

end

variable [DecidableEq τ]

namespace Task

/-- The task is the one that a busy tab waits for. -/
def waits (seq : Nat) (task : Task κ τ) : Bool :=
  task.call.asks && task.stage ≠ .done && task.requestSeq = seq

/-- The task has the transaction in its hands: it ends it, or has it from the
    driver and has not handed it over. -/
def claims (id : τ) (task : Task κ τ) : Bool :=
  task.call.ends.any (·.1 = id) || task.stage = .answered (.opened id)

/-- The savepoints of the server beside the names in the list of the tab. -/
def expected (names : List Text) (task : Task κ τ) : List Text :=
  if task.stage = .answered .ok then task.call.listed names else names

end Task

namespace State

def Adopts (s : State κ τ) (id : τ) : Prop :=
  ∃ tab ∈ s.tab, ∃ session ∈ tab.transaction, session.id = id

/-- A commit, or else a rollback, was issued for the transaction. -/
def Issued (s : State κ τ) (connection : κ) (id : τ) (commit : Bool) : Prop :=
  ∃ task ∈ s.tasks, task.connection = connection ∧ task.call.ends = some (id, commit)

/-- The driver has opened the transaction, and the answer has not come back. -/
def Pending (s : State κ τ) (id : τ) : Prop :=
  ∃ task ∈ s.tasks, task.stage = .answered (.opened id)

structure Sound (s : State κ τ) : Prop where
  one : ∀ id other, s.Adopts id → s.Adopts other → id = other
  owned : ∀ id opened, s.server id = some opened → s.Adopts id ∨ (∃ commit, s.Issued opened.connection id commit) ∨ s.Pending id
  /-- When all tasks have run, a transaction is adopted or has ended. -/
  settled : (∀ task ∈ s.tasks, task.stage = .done) → ∀ id opened, s.server id = some opened →
    s.Adopts id ∨ opened.ended = true ∧ ∃ commit, s.Issued opened.connection id commit
  either : ∀ connection other id, ¬ (s.Issued connection id true ∧ s.Issued other id false)
  agreed : ∀ tab ∈ s.tab, ∀ session ∈ tab.transaction, (∀ task ∈ s.tasks, task.call.transaction = some session.id → task.stage = .done) →
      ∃ opened, s.server session.id = some opened ∧ opened.ended = false ∧ opened.savepoints = session.savepoints.map (·.name)

def SavepointInFlight (s : State κ τ) : Prop :=
  ∃ task ∈ s.tasks, task.call.isSavepoint = true ∧ task.stage ≠ .done

/-- The counters have not come to their ends. -/
def Counted (s : State κ τ) : Prop :=
  ∀ tab ∈ s.tab, tab.transactionSeq + 1 < 2 ^ 64 ∧ ∀ session ∈ tab.transaction, session.nextSavepoint + 1 < 2 ^ 32

/-- The action leaves the context of the tab. -/
def Leaves (s : State κ τ) : Act κ τ → Prop
  | .setConnection _ | .closeTab => True
  | .setActiveSchema schema => ∃ tab ∈ s.tab, tab.activeSchema ≠ schema.filter (· ≠ [])
  | _ => False

def Fair (s : State κ τ) (act : Act κ τ) : Prop :=
  s.Counted ∧ (s.Leaves act → ¬ s.SavepointInFlight)

/-- The call that a busy tab waits for is about its connection and its session. -/
structure Fits (tab : QueryTab κ τ) (task : Task κ τ) : Prop where
  connection : tab.connection.map (·.id) = some task.connection
  transaction : tab.transaction.map (·.id) = task.call.transaction
  aims : ∀ session ∈ tab.transaction, task.call.Aims session

/-- A busy tab waits for one task, and no savepoint call is left behind. -/
structure Tracked (s : State κ τ) : Prop where
  earlier : ∀ tab ∈ s.tab, ∀ task ∈ s.tasks, task.requestSeq ≤ tab.transactionSeq
  busy : ∀ tab ∈ s.tab, s.tasks.countP (·.waits tab.transactionSeq) = if tab.transactionBusy then 1 else 0
  fits : ∀ tab ∈ s.tab, ∀ task ∈ s.tasks, task.waits tab.transactionSeq = true → Fits tab task
  savepoints : ∀ task ∈ s.tasks, task.call.isSavepoint = true → task.stage ≠ .done → ∃ tab ∈ s.tab, task.requestSeq = tab.transactionSeq

/-- Every transaction is in one pair of hands. -/
structure Owned (s : State κ τ) : Prop where
  once : ∀ id, s.tasks.countP (·.claims id) ≤ 1
  owned : ∀ id opened, s.server id = some opened → s.Adopts id ∨ ∃ task ∈ s.tasks, task.claims id = true
  adopted : ∀ tab ∈ s.tab, ∀ session ∈ tab.transaction, ∃ connection ∈ tab.connection, ∃ opened,
    s.server session.id = some opened ∧ opened.connection = connection.id
  claimed : ∀ task ∈ s.tasks, ∀ id, task.claims id = true → ∃ opened, s.server id = some opened ∧
    opened.connection = task.connection ∧ (task.call.ends = none ∨ task.stage = .calling ∨ opened.ended = true)
  /-- A transaction that has ended was ended by a call. -/
  ended : ∀ id opened, s.server id = some opened → opened.ended = true → ∃ task ∈ s.tasks, ∃ commit, task.call.ends = some (id, commit)
  /-- A session that is being ended stays with the tab until the answer. -/
  finishing : ∀ tab ∈ s.tab, ∀ session ∈ tab.transaction, ∀ task ∈ s.tasks, task.claims session.id = true →
    task.waits tab.transactionSeq = true
  opens : ∀ task ∈ s.tasks, ∀ id, task.stage = .answered (.opened id) → task.call = .beginTransaction

/-- The list of the tab is that of the server, up to the call in flight. -/
structure Agreed (s : State κ τ) : Prop where
  numbered : ∀ tab ∈ s.tab, ∀ session ∈ tab.transaction, Numbered session
  idle : ∀ tab ∈ s.tab, ∀ session ∈ tab.transaction, ¬ s.SavepointInFlight → ∀ opened, s.server session.id = some opened →
    opened.savepoints = session.savepoints.map (·.name)
  flight : ∀ tab ∈ s.tab, ∀ session ∈ tab.transaction, ∀ task ∈ s.tasks, task.call.isSavepoint = true → task.stage ≠ .done →
    ∀ opened, s.server session.id = some opened → opened.savepoints = task.expected (session.savepoints.map (·.name))
  fresh : ∀ task ∈ s.tasks, ∀ id, task.stage = .answered (.opened id) → ∀ opened, s.server id = some opened → opened.savepoints = []

structure Kept (s : State κ τ) : Prop where
  tracked : Tracked s
  owned : Owned s
  agreed : Agreed s

end State

variable {s : State κ τ} {tab after : QueryTab κ τ}

namespace State

omit [DecidableEq τ] in
theorem adopts_iff {id : τ} : s.Adopts id ↔ ∃ tab ∈ s.tab, tab.transaction.map (·.id) = some id := by simp [Adopts]

variable {task : Task κ τ}

theorem Tracked.idle (tracked : Tracked s) (there : s.tab = some tab) (idle : tab.transactionBusy = false)
    (mem : task ∈ s.tasks) : task.waits tab.transactionSeq = false := by
  have none := tracked.busy tab there
  rw [idle, if_neg Bool.false_ne_true, countP_eq_zero] at none
  exact Bool.eq_false_iff.mpr (none task mem)

theorem Tracked.savepoint (tracked : Tracked s) (there : s.tab = some tab) (mem : task ∈ s.tasks)
    (savepoint : task.call.isSavepoint = true) (running : task.stage ≠ .done) : task.waits tab.transactionSeq = true := by
  obtain ⟨tab', there', current⟩ := tracked.savepoints task mem savepoint running
  rw [mem_def, there, some_inj] at there'
  subst there'
  have asks : task.call.asks = true := by
    cases called : task.call <;> simp_all [Call.asks, Call.isSavepoint, Call.savepointName]
  simp [Task.waits, asks, running, current]

/-- The session without the mark of a change. -/
def clean (session : TransactionSession τ) : TransactionSession τ :=
  { session with dirty := false }

structure Alike (tab after : QueryTab κ τ) : Prop where
  seq : after.transactionSeq = tab.transactionSeq
  busy : after.transactionBusy = tab.transactionBusy
  sessions : after.transaction.map clean = tab.transaction.map clean
  connection : after.connection = tab.connection ∨ tab.transaction = none ∧ tab.transactionBusy = false

omit [DecidableEq τ] in
theorem Alike.session (alike : Alike tab after) {session : TransactionSession τ}
    (mem : session ∈ after.transaction) : ∃ before ∈ tab.transaction, session.id = before.id ∧
      session.savepoints = before.savepoints ∧ session.nextSavepoint = before.nextSavepoint := by
  have same := alike.sessions
  rw [mem_def.mp mem] at same
  obtain ⟨before, there, equal⟩ := map_eq_some_iff.mp same.symm
  simp only [clean, TransactionSession.mk.injEq] at equal
  exact ⟨before, there, equal.1.symm, equal.2.2.1.symm, equal.2.2.2.symm⟩

omit [DecidableEq τ] in
theorem Alike.ids (alike : Alike tab after) : after.transaction.map (·.id) = tab.transaction.map (·.id) := by
  have same := congrArg (Option.map (·.id)) alike.sessions
  simpa [Option.map_map, Function.comp_def, clean] using same

theorem Tracked.alike (tracked : Tracked s) (there : s.tab = some tab) (alike : Alike tab after) :
    Tracked { s with tab := some after } where
  earlier := by
    rintro _ ⟨⟩ task mem
    exact alike.seq ▸ tracked.earlier tab there task mem
  busy := by
    rintro _ ⟨⟩
    rw [alike.seq, alike.busy]
    exact tracked.busy tab there
  fits := by
    rintro _ ⟨⟩ task mem waits
    rw [alike.seq] at waits
    have fits := tracked.fits tab there task mem waits
    refine ⟨?_, alike.ids.trans fits.transaction, ?_⟩
    · rcases alike.connection with same | ⟨-, idle⟩
      · rw [same]
        exact fits.connection
      · exact absurd waits (by simp [tracked.idle there idle mem])
    intro session inside
    obtain ⟨before, held, -, savepoints, next⟩ := alike.session inside
    have aims := fits.aims before held
    cases called : task.call <;> simp_all [Call.Aims]
  savepoints := by
    intro task mem savepoint running
    obtain ⟨tab', there', current⟩ := tracked.savepoints task mem savepoint running
    rw [mem_def, there, some_inj] at there'
    subst there'
    exact ⟨after, rfl, alike.seq.symm ▸ current⟩

omit [DecidableEq τ] in
theorem adopts_alike (there : s.tab = some tab) (alike : Alike tab after) (id : τ) :
    { s with tab := some after }.Adopts id ↔ s.Adopts id := by
  simp only [adopts_iff, there, mem_some_iff, exists_eq_left', alike.ids]

theorem Owned.alike (owned : Owned s) (there : s.tab = some tab) (alike : Alike tab after) : Owned { s with tab := some after } where
  once := owned.once
  owned := fun id opened found => by
    rw [adopts_alike there alike]
    exact owned.owned id opened found
  adopted := by
    rintro _ ⟨⟩ session inside
    obtain ⟨before, held, same, -⟩ := alike.session inside
    rw [same]
    rcases alike.connection with connection | ⟨none, -⟩
    · rw [connection]
      exact owned.adopted tab there before held
    · simp [none] at held
  claimed := owned.claimed
  ended := owned.ended
  finishing := by
    rintro _ ⟨⟩ session inside task mem claims
    obtain ⟨before, held, same, -⟩ := alike.session inside
    rw [alike.seq]
    exact owned.finishing tab there before held task mem (same ▸ claims)
  opens := owned.opens

theorem Agreed.alike (agreed : Agreed s) (there : s.tab = some tab) (alike : Alike tab after) : Agreed { s with tab := some after } where
  numbered := by
    rintro _ ⟨⟩ session inside
    obtain ⟨before, held, -, savepoints, next⟩ := alike.session inside
    rw [Numbered, savepoints, next]
    exact agreed.numbered tab there before held
  idle := by
    rintro _ ⟨⟩ session inside quiet
    obtain ⟨before, held, same, savepoints, -⟩ := alike.session inside
    rw [same, savepoints]
    exact agreed.idle tab there before held quiet
  flight := by
    rintro _ ⟨⟩ session inside
    obtain ⟨before, held, same, savepoints, -⟩ := alike.session inside
    rw [same, savepoints]
    exact agreed.flight tab there before held
  fresh := agreed.fresh

section
variable (kept : Kept s) (there : s.tab = some tab)
include kept there

theorem Kept.alike (alike : Alike tab after) : Kept { s with tab := some after } :=
  ⟨kept.tracked.alike there alike, kept.owned.alike there alike, kept.agreed.alike there alike⟩

theorem Kept.unclaimed (idle : tab.transactionBusy = false)
    {session : TransactionSession τ} (held : session ∈ tab.transaction) (mem : task ∈ s.tasks) : task.claims session.id = false := by
  by_contra claims
  have waits := kept.owned.finishing tab there session held task mem (by simpa using claims)
  exact absurd waits (by simp [kept.tracked.idle there idle mem])

theorem Kept.quiet (idle : tab.transactionBusy = false) : ¬ s.SavepointInFlight := by
  rintro ⟨task, mem, savepoint, running⟩
  have waits := kept.tracked.savepoint there mem savepoint running
  exact absurd waits (by simp [kept.tracked.idle there idle mem])

end

theorem claims_calling {connection : κ} {seq : Nat} {call : Call τ} {id : τ} :
    (⟨connection, seq, call, .calling⟩ : Task κ τ).claims id = true ↔ ∃ commit, call.ends = some (id, commit) := by
  cases called : call.ends with
  | none => simp [Task.claims, called]
  | some pair =>
    obtain ⟨ended, commit⟩ := pair
    simp [Task.claims, called]

theorem once_append {connection : κ} {seq : Nat} {call : Call τ} (owned : Owned s)
    (own : ∀ id commit, call.ends = some (id, commit) → ∀ task ∈ s.tasks, task.claims id = false) (id : τ) :
    (s.tasks ++ [(⟨connection, seq, call, .calling⟩ : Task κ τ)]).countP (·.claims id) ≤ 1 := by
  have once := owned.once id
  rw [countP_append, countP_singleton]
  split
  case isTrue claims =>
    obtain ⟨commit, ends⟩ := claims_calling.mp claims
    have none : s.tasks.countP (·.claims id) = 0 := countP_eq_zero.mpr fun task mem => Bool.eq_false_iff.mp (own id commit ends task mem)
    omega
  case isFalse => omega

section
variable {connection : ConnectionConfig κ} {call : Call τ}

/-- The state in which an idle tab has asked for the call. -/
def asked (s : State κ τ) (tab : QueryTab κ τ) (connection : ConnectionConfig κ) (call : Call τ) : State κ τ :=
  { s with tab := some (tab.request connection call).1, tasks := s.tasks ++ (tab.request connection call).2.toList }

theorem Tracked.ask (tracked : Tracked s) (there : s.tab = some tab) (low : tab.transactionSeq + 1 < 2 ^ 64)
    (idle : tab.transactionBusy = false) (connected : tab.connection = some connection) (asks : call.asks = true)
    (ids : tab.transaction.map (·.id) = call.transaction) (aims : ∀ session ∈ tab.transaction, call.Aims session) :
    Tracked (s.asked tab connection call) := by
  have next : (tab.transactionSeq + 1) % 2 ^ 64 = tab.transactionSeq + 1 := Nat.mod_eq_of_lt low
  have past : ∀ task ∈ s.tasks, task.waits (tab.transactionSeq + 1) = false := by
    intro task mem
    have before := tracked.earlier tab there task mem
    have other : task.requestSeq ≠ tab.transactionSeq + 1 := by omega
    simp [Task.waits, other]
  refine ⟨?_, ?_, ?_, ?_⟩
  · rintro _ ⟨⟩ task mem
    simp only [asked, QueryTab.request, next, toList_some, mem_append, mem_singleton] at mem ⊢
    rcases mem with old | rfl
    · have before := tracked.earlier tab there task old
      omega
    · exact Nat.le_refl _
  · rintro _ ⟨⟩
    simp only [asked, QueryTab.request, next, toList_some, countP_append, countP_singleton]
    rw [countP_eq_zero.mpr fun task mem => Bool.eq_false_iff.mp (past task mem)]
    simp [Task.waits, asks]
  · rintro _ ⟨⟩ task mem waits
    simp only [asked, QueryTab.request, next, toList_some, mem_append, mem_singleton] at mem waits ⊢
    rcases mem with old | rfl
    · exact absurd waits (by simp [past task old])
    · exact ⟨by rw [connected]; rfl, ids, aims⟩
  · intro task mem savepoint running
    simp only [asked, QueryTab.request, next, toList_some, mem_append, mem_singleton] at mem ⊢
    refine ⟨_, rfl, ?_⟩
    rcases mem with old | rfl
    · have waits := tracked.savepoint there old savepoint running
      exact absurd waits (by simp [tracked.idle there idle old])
    · rfl

theorem Owned.ask (kept : Kept s) (there : s.tab = some tab) (idle : tab.transactionBusy = false)
    (connected : tab.connection = some connection) (asks : call.asks = true)
    (ids : tab.transaction.map (·.id) = call.transaction) : Owned (s.asked tab connection call) := by
  have owned := kept.owned
  have own : ∀ id commit, call.ends = some (id, commit) → ∃ session ∈ tab.transaction, session.id = id := by
    intro id commit ends
    rw [Call.transaction_of_ends ends] at ids
    exact map_eq_some_iff.mp ids
  refine ⟨?_, ?_, ?_, ?_, ?_, ?_, ?_⟩
  · refine fun id => once_append owned ?_ id
    intro id commit ends task mem
    obtain ⟨session, held, rfl⟩ := own id commit ends
    exact kept.unclaimed there idle held mem
  · intro id opened found
    rcases owned.owned id opened found with ⟨tab', there', adopted⟩ | ⟨task, mem, claims⟩
    · rw [mem_def, there, some_inj] at there'
      subst there'
      exact .inl ⟨_, rfl, adopted⟩
    · exact .inr ⟨task, mem_append_left _ mem, claims⟩
  · rintro _ ⟨⟩ session held
    exact owned.adopted tab there session held
  · intro task mem id claims
    rcases mem_append.mp mem with old | new
    · exact owned.claimed task old id claims
    rw [mem_singleton.mp new] at claims ⊢
    obtain ⟨commit, ends⟩ := claims_calling.mp claims
    obtain ⟨session, held, rfl⟩ := own id commit ends
    obtain ⟨connection', connected', opened, found, same⟩ := owned.adopted tab there session held
    rw [mem_def, connected, some_inj] at connected'
    exact ⟨opened, found, connected' ▸ same, .inr (.inl rfl)⟩
  · intro id opened found ended
    obtain ⟨task, mem, ends⟩ := owned.ended id opened found ended
    exact ⟨task, mem_append_left _ mem, ends⟩
  · rintro _ ⟨⟩ session held task mem claims
    rcases mem_append.mp mem with old | new
    · exact absurd claims (by simp [kept.unclaimed there idle held old])
    · rw [mem_singleton.mp new]
      simp [Task.waits, asks, QueryTab.request]
  · intro task mem id answered
    rcases mem_append.mp mem with old | new
    · exact owned.opens task old id answered
    · simp [mem_singleton.mp new] at answered

theorem Agreed.ask (kept : Kept s) (there : s.tab = some tab) (idle : tab.transactionBusy = false) :
    Agreed (s.asked tab connection call) where
  numbered := by
    rintro _ ⟨⟩
    exact kept.agreed.numbered tab there
  idle := by
    rintro _ ⟨⟩ session held -
    exact kept.agreed.idle tab there session held (kept.quiet there idle)
  flight := by
    rintro _ ⟨⟩ session held task mem savepoint running opened found
    rcases mem_append.mp mem with old | new
    · exact absurd ⟨task, old, savepoint, running⟩ (kept.quiet there idle)
    · rw [mem_singleton.mp new]
      exact kept.agreed.idle tab there session held (kept.quiet there idle) opened found
  fresh := by
    intro task mem id answered
    rcases mem_append.mp mem with old | new
    · exact kept.agreed.fresh task old id answered
    · simp [mem_singleton.mp new] at answered

theorem Kept.perform {next : State κ τ} (kept : Kept s) (counted : s.Counted) {action : QueryTab κ τ → QueryTab κ τ × Option (Task κ τ)}
    (each : ∀ tab ∈ s.tab, Asks tab (action tab)) (performed : s.perform action = some next) : Kept next := by
  obtain ⟨tab, there, rfl⟩ := map_eq_some_iff.mp performed
  rcases each tab there with same | ⟨connection, call, same, connected, idle, asks, ids, aims⟩
  · rw [same]
    simpa [← there] using kept
  rw [same]
  have low := (counted tab there).1
  exact ⟨kept.tracked.ask there low idle connected asks ids aims, .ask kept there idle connected asks ids, .ask kept there idle⟩

end

/-- The tab without its session, and what it spawned. -/
def left (s : State κ τ) (tab : QueryTab κ τ) : State κ τ :=
  { s with tab := some tab.rollbackTransactionDetached.1, tasks := s.tasks ++ tab.rollbackTransactionDetached.2.toList }

omit [DecidableEq τ] in
theorem detached_tab : tab.rollbackTransactionDetached.1 =
    { tab with transaction := none, transactionBusy := false, transactionSeq := (tab.transactionSeq + 1) % 2 ^ 64 } := by
  unfold QueryTab.rollbackTransactionDetached
  cases tab.transactionBusy <;> cases tab.transaction <;> cases tab.connection <;> rfl

omit [DecidableEq τ] in
theorem detached_task (spawned : task ∈ tab.rollbackTransactionDetached.2) :
    tab.transactionBusy = false ∧ ∃ session ∈ tab.transaction, ∃ connection ∈ tab.connection,
      task = ⟨connection.id, (tab.transactionSeq + 1) % 2 ^ 64, .rollbackDetached session.id, .calling⟩ := by
  unfold QueryTab.rollbackTransactionDetached at spawned
  cases busy : tab.transactionBusy <;> cases manual : tab.transaction <;> cases connected : tab.connection <;>
    simp_all

theorem Tracked.leave (tracked : Tracked s) (there : s.tab = some tab) (low : tab.transactionSeq + 1 < 2 ^ 64)
    (quiet : ¬ s.SavepointInFlight) : Tracked (s.left tab) := by
  have next : (tab.transactionSeq + 1) % 2 ^ 64 = tab.transactionSeq + 1 := Nat.mod_eq_of_lt low
  have calls : ∀ task ∈ (s.left tab).tasks, (task ∈ s.tasks ∧ task.requestSeq ≤ tab.transactionSeq) ∨
      (task.requestSeq = tab.transactionSeq + 1 ∧ ∃ id, task.call = .rollbackDetached id) := by
    intro task mem
    rcases mem_append.mp mem with old | new
    · exact .inl ⟨old, tracked.earlier tab there task old⟩
    · obtain ⟨-, session, -, connection, -, rfl⟩ := detached_task (mem_toList.mp new)
      exact .inr ⟨next, _, rfl⟩
  have nobody : ∀ task ∈ (s.left tab).tasks, task.waits (tab.transactionSeq + 1) = false := by
    intro task mem
    rcases calls task mem with ⟨-, before⟩ | ⟨-, id, called⟩
    · have other : task.requestSeq ≠ tab.transactionSeq + 1 := by omega
      simp [Task.waits, other]
    · simp [Task.waits, called, Call.asks]
  refine ⟨?_, ?_, ?_, ?_⟩
  · rintro _ ⟨⟩ task mem
    simp only [detached_tab, next]
    rcases calls task mem with ⟨-, before⟩ | ⟨same, -⟩ <;> omega
  · rintro _ ⟨⟩
    simp only [detached_tab, next]
    exact countP_eq_zero.mpr fun task mem => Bool.eq_false_iff.mp (nobody task mem)
  · rintro _ ⟨⟩ task mem waits
    simp only [detached_tab, next] at waits
    exact absurd waits (by simp [nobody task mem])
  · intro task mem savepoint running
    rcases calls task mem with ⟨old, -⟩ | ⟨-, id, called⟩
    · exact absurd ⟨task, old, savepoint, running⟩ quiet
    · simp [called, Call.isSavepoint, Call.savepointName] at savepoint

section
variable (kept : Kept s) (there : s.tab = some tab)
include kept there

theorem Owned.leave (quiet : ¬ s.SavepointInFlight) : Owned (s.left tab) := by
  have owned := kept.owned
  refine ⟨?_, ?_, ?_, ?_, ?_, ?_, ?_⟩
  · intro id
    cases spawned : tab.rollbackTransactionDetached.2 with
    | none => simpa [left, spawned] using owned.once id
    | some task =>
      obtain ⟨idle, session, held, connection, -, rfl⟩ := detached_task (mem_def.mpr spawned)
      simp only [left, spawned, toList_some]
      refine once_append owned ?_ id
      rintro _ _ ⟨⟩ task mem
      exact kept.unclaimed there idle held mem
  · intro id opened found
    rcases owned.owned id opened found with ⟨tab', there', session, held, rfl⟩ | ⟨task, mem, claims⟩
    · rw [mem_def, there, some_inj] at there'
      subst there'
      right
      cases busy : tab.transactionBusy with
      | false =>
        obtain ⟨connection, connected, -⟩ := owned.adopted tab there session held
        rw [mem_def] at held connected
        simp [left, QueryTab.rollbackTransactionDetached, busy, held, connected, Task.claims, Call.ends]
      | true =>
        -- The tab waits for a call about the session, and it is no savepoint call.
        have one := kept.tracked.busy tab there
        rw [busy, if_pos rfl] at one
        obtain ⟨task, mem, waits⟩ := countP_pos_iff.mp (one ▸ Nat.one_pos)
        have fits := kept.tracked.fits tab there task mem waits
        refine ⟨task, mem_append_left _ mem, ?_⟩
        have about := fits.transaction
        have running : task.stage ≠ .done := by
          simp only [Task.waits, Bool.and_eq_true, decide_eq_true_eq] at waits
          exact waits.1.2
        have plain : task.call.isSavepoint = false := by
          by_contra savepoint
          exact quiet ⟨task, mem, by simpa using savepoint, running⟩
        cases called : task.call <;>
          simp_all [Task.claims, Task.waits, Call.asks, Call.ends, Call.transaction, Call.isSavepoint, Call.savepointName]
    · exact .inr ⟨task, mem_append_left _ mem, claims⟩
  · rintro _ ⟨⟩ session held
    simp [detached_tab] at held
  · intro task mem id claims
    rcases mem_append.mp mem with old | new
    · exact owned.claimed task old id claims
    obtain ⟨-, session, held, connection, connected, rfl⟩ := detached_task (mem_toList.mp new)
    obtain ⟨commit, ends⟩ := claims_calling.mp claims
    obtain ⟨connection', connected', opened, found, same⟩ := owned.adopted tab there session held
    rw [mem_def] at connected connected'
    rw [connected, some_inj] at connected'
    cases ends
    exact ⟨opened, found, connected' ▸ same, .inr (.inl rfl)⟩
  · intro id opened found ended
    obtain ⟨task, mem, ends⟩ := owned.ended id opened found ended
    exact ⟨task, mem_append_left _ mem, ends⟩
  · rintro _ ⟨⟩ session held
    simp [detached_tab] at held
  · intro task mem id answered
    rcases mem_append.mp mem with old | new
    · exact owned.opens task old id answered
    · obtain ⟨-, session, held, connection, connected, rfl⟩ := detached_task (mem_toList.mp new)
      cases answered

theorem Kept.leave (low : tab.transactionSeq + 1 < 2 ^ 64)
    (quiet : ¬ s.SavepointInFlight) : Kept (s.left tab) ∧ ¬ (s.left tab).SavepointInFlight := by
  refine ⟨⟨kept.tracked.leave there low quiet, .leave kept there quiet, ?_, ?_, ?_, ?_⟩, ?_⟩
  · rintro _ ⟨⟩ session held
    simp [detached_tab] at held
  · rintro _ ⟨⟩ session held
    simp [detached_tab] at held
  · rintro _ ⟨⟩ session held
    simp [detached_tab] at held
  · intro task mem id answered
    rcases mem_append.mp mem with old | new
    · exact kept.agreed.fresh task old id answered
    · obtain ⟨-, session, held, connection, connected, rfl⟩ := detached_task (mem_toList.mp new)
      cases answered
  · rintro ⟨task, mem, savepoint, running⟩
    rcases mem_append.mp mem with old | new
    · exact quiet ⟨task, old, savepoint, running⟩
    · obtain ⟨-, session, held, connection, connected, rfl⟩ := detached_task (mem_toList.mp new)
      simp [Call.isSavepoint, Call.savepointName] at savepoint

theorem Kept.gone (none : tab.transaction = none) (quiet : ¬ s.SavepointInFlight) :
    Kept { s with tab := Option.none } := by
  refine ⟨⟨?_, ?_, ?_, ?_⟩, ⟨kept.owned.once, ?_, ?_, kept.owned.claimed, kept.owned.ended, ?_, kept.owned.opens⟩,
    ?_, ?_, ?_, kept.agreed.fresh⟩
  · rintro _ ⟨⟩
  · rintro _ ⟨⟩
  · rintro _ ⟨⟩
  · intro task mem savepoint running
    exact absurd ⟨task, mem, savepoint, running⟩ quiet
  · intro id opened found
    rcases kept.owned.owned id opened found with ⟨tab', there', session, held, -⟩ | claimed
    · rw [mem_def, there, some_inj] at there'
      subst there'
      simp [none] at held
    · exact .inr claimed
  · rintro _ ⟨⟩
  · rintro _ ⟨⟩
  · rintro _ ⟨⟩
  · rintro _ ⟨⟩
  · rintro _ ⟨⟩

end

end State

end Ramag.TransactionTab
