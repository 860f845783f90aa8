import Ramag.TransactionTabServed

/-!
No transaction of a query tab is left behind (`transactions_sound`), in any
order of actions and answers, as long as the tab keeps its context while a
savepoint call is in flight. A context change or a close during such a call is
taken for one during a commit or a rollback, and nobody ends the transaction.
-/
namespace Ramag.TransactionTab
open Strings Domain Runs List Option

variable {κ τ : Type} [DecidableEq τ]
variable {s : State κ τ} {tab after : QueryTab κ τ}

namespace State

section
variable {i : Nat} {task : Task κ τ} {answer : Answer τ}

/-- The state in which the call is done. -/
def settled (s : State κ τ) (i : Nat) (task : Task κ τ) (spawned : List (Task κ τ)) : State κ τ :=
  { s with tasks := s.tasks.set i { task with stage := .done } ++ spawned }

variable {spawned : List (Task κ τ)}

omit [DecidableEq τ] in
theorem mem_settled {other : Task κ τ} (mem : other ∈ (s.settled i task spawned).tasks) :
    other ∈ s.tasks ∨ other = { task with stage := .done } ∨ other ∈ spawned := by
  rcases mem_append.mp mem with set | new
  · exact (mem_or_eq_of_mem_set set).imp_right .inl
  · exact .inr (.inr new)

/-- Nobody waits for the answer. -/
def Unawaited (s : State κ τ) (task : Task κ τ) : Prop :=
  ∀ tab ∈ s.tab, task.waits tab.transactionSeq = false

theorem Tracked.stale (tracked : Tracked s) (there : s.tasks[i]? = some task) (unawaited : s.Unawaited task)
    (detached : ∀ other ∈ spawned, other.requestSeq = task.requestSeq ∧ ∃ id, other.call = .rollbackDetached id) :
    Tracked (s.settled i task spawned) := by
  have mem := mem_of_getElem? there
  have done : ∀ seq, ({ task with stage := .done } : Task κ τ).waits seq = false := fun seq => by simp [Task.waits]
  have away : ∀ other ∈ spawned, ∀ seq, other.waits seq = false := by
    intro other inside seq
    obtain ⟨-, id, called⟩ := detached other inside
    simp [Task.waits, called, Call.asks]
  refine ⟨?_, ?_, ?_, ?_⟩
  · intro tab held other inside
    rcases mem_settled inside with old | rfl | new
    · exact tracked.earlier tab held other old
    · exact tracked.earlier tab held task mem
    · exact (detached other new).1 ▸ tracked.earlier tab held task mem
  · intro tab held
    have moved := countP_set_add (·.waits tab.transactionSeq) { task with stage := .done } there
    simp only [done, unawaited tab held, Bool.false_eq_true, if_false, Nat.add_zero] at moved
    rw [settled, countP_append, moved, (countP_eq_zero (l := spawned)).mpr fun other inside => Bool.eq_false_iff.mp (away other inside _)]
    exact tracked.busy tab held
  · intro tab held other inside waits
    rcases mem_settled inside with old | rfl | new
    · exact tracked.fits tab held other old waits
    · exact absurd waits (by simp [done])
    · exact absurd waits (by simp [away other new])
  · intro other inside savepoint running
    rcases mem_settled inside with old | rfl | new
    · exact tracked.savepoints other old savepoint running
    · exact absurd rfl running
    · obtain ⟨-, id, called⟩ := detached other new
      simp [called, Call.isSavepoint, Call.savepointName] at savepoint

theorem Tracked.came (tracked : Tracked s) (held : s.tab = some tab) (there : s.tasks[i]? = some task)
    (waits : task.waits tab.transactionSeq = true) (seq : after.transactionSeq = tab.transactionSeq)
    (idle : after.transactionBusy = false) : Tracked { s.settled i task [] with tab := some after } := by
  have mem := mem_of_getElem? there
  have nobody : (s.settled i task []).tasks.countP (·.waits tab.transactionSeq) = 0 := by
    have moved := countP_set_add (·.waits tab.transactionSeq) { task with stage := .done } there
    have one := tracked.busy tab held
    have busy : tab.transactionBusy = true := by
      by_contra idle
      exact absurd waits (by simp [tracked.idle held (by simpa using idle) mem])
    have done : ({ task with stage := .done } : Task κ τ).waits tab.transactionSeq = false := by simp [Task.waits]
    rw [one, busy, waits, done] at moved
    simpa [settled] using moved
  refine ⟨?_, ?_, ?_, ?_⟩
  · rintro _ ⟨⟩ other inside
    rw [seq]
    rcases mem_settled inside with old | rfl | new
    · exact tracked.earlier tab held other old
    · exact tracked.earlier tab held task mem
    · cases new
  · rintro _ ⟨⟩
    rw [seq, idle]
    exact nobody
  · rintro _ ⟨⟩ other inside current
    rw [seq] at current
    exact absurd current (countP_eq_zero.mp nobody other inside)
  · intro other inside savepoint running
    rcases mem_settled inside with old | rfl | new
    · obtain ⟨tab', held', current⟩ := tracked.savepoints other old savepoint running
      rw [mem_def, held, some_inj] at held'
      subst held'
      exact ⟨after, rfl, current.trans seq.symm⟩
    · exact absurd rfl running
    · cases new

theorem claims_done (plain : ∀ id, answer ≠ .opened id) (answered : task.stage = .answered answer) (id : τ) :
    ({ task with stage := .done } : Task κ τ).claims id = task.claims id := by
  simp [Task.claims, answered, plain]

theorem Owned.settle {next : Option (QueryTab κ τ)} (owned : Owned s) (there : s.tasks[i]? = some task)
    (answered : task.stage = .answered answer) (plain : ∀ id, answer ≠ .opened id)
    (same : ∀ tab' ∈ next, ∃ tab ∈ s.tab, tab'.transactionSeq = tab.transactionSeq ∧ tab'.connection = tab.connection ∧
      ∀ session' ∈ tab'.transaction, task.claims session'.id = false ∧ ∃ session ∈ tab.transaction, session'.id = session.id)
    (kept : ∀ id, s.Adopts id → { s with tab := next }.Adopts id ∨ task.claims id = true) :
    Owned { s.settled i task [] with tab := next } := by
  have mem := mem_of_getElem? there
  have claims := claims_done plain answered
  have now : { task with stage := .done } ∈ (s.settled i task []).tasks :=
    List.mem_append_left _ (List.mem_set (List.getElem?_eq_some_iff.mp there).1 _)
  have still : ∀ {P : Task κ τ → Prop}, (∃ other ∈ s.tasks, P other) →
      (P task → P { task with stage := .done }) → ∃ other ∈ (s.settled i task []).tasks, P other := by
    intro P held self
    rcases stays { task with stage := .done } there held with holds | ⟨other, inside, holds⟩
    · exact ⟨_, now, self holds⟩
    · exact ⟨other, List.mem_append_left _ inside, holds⟩
  refine ⟨?_, ?_, ?_, ?_, ?_, ?_, ?_⟩
  · intro id
    have moved := countP_set_add (·.claims id) { task with stage := .done } there
    simp only [claims] at moved
    simpa [settled] using (Nat.add_right_cancel moved) ▸ owned.once id
  · intro id opened found
    rcases owned.owned id opened found with adopts | claimed
    · rcases kept id adopts with adopts' | ended
      · exact .inl adopts'
      · exact .inr ⟨_, now, (claims id).trans ended⟩
    · exact .inr (still claimed fun holds => (claims id).trans holds)
  · intro tab' held session' inside
    obtain ⟨tab, old, -, connection, sessions⟩ := same tab' held
    obtain ⟨-, session, before, id⟩ := sessions session' inside
    rw [connection, id]
    exact owned.adopted tab old session before
  · intro other inside id holds
    rcases mem_settled inside with old | rfl | new
    · exact owned.claimed other old id holds
    · rw [claims] at holds
      obtain ⟨opened, found, same, state⟩ := owned.claimed task mem id holds
      exact ⟨opened, found, same, state.imp_right fun ended => .inr (ended.resolve_left (by simp [answered]))⟩
    · cases new
  · intro id opened found ended
    exact still (owned.ended id opened found ended) fun holds => holds
  · intro tab' held session' inside other inside' holds
    obtain ⟨tab, old, seq, -, sessions⟩ := same tab' held
    obtain ⟨free, session, before, id⟩ := sessions session' inside
    rw [seq]
    rcases mem_settled inside' with old' | rfl | new
    · exact owned.finishing tab old session before other old' (id ▸ holds)
    · rw [claims, free] at holds
      cases holds
    · cases new
  · intro other inside id opened
    rcases mem_settled inside with old | rfl | new
    · exact owned.opens other old id opened
    · cases opened
    · cases new

theorem Owned.staleOpened {id : τ} (owned : Owned s) (there : s.tasks[i]? = some task)
    (answered : task.stage = .answered (.opened id)) (unawaited : s.Unawaited task) : Owned (s.settled i task [staleRollback task id]) := by
  have mem := mem_of_getElem? there
  have begins := owned.opens task mem id answered
  have before : ∀ other, task.claims other = true ↔ id = other := fun other => by simp [Task.claims, begins, answered, Call.ends]
  have done : ∀ other, ({ task with stage := .done } : Task κ τ).claims other = false := fun other => by
    simp [Task.claims, begins, Call.ends]
  have spawned : ∀ other, (staleRollback task id).claims other = true ↔ id = other := fun other => by
    simp [Task.claims, staleRollback, Call.ends]
  have still : ∀ {P : Task κ τ → Prop}, (∃ other ∈ s.tasks, P other) →
      (P task → P (staleRollback task id)) → ∃ other ∈ (s.settled i task [staleRollback task id]).tasks, P other := by
    intro P held self
    rcases stays { task with stage := .done } there held with holds | ⟨other, inside, holds⟩
    · exact ⟨_, mem_append_right _ (mem_singleton_self _), self holds⟩
    · exact ⟨other, List.mem_append_left _ inside, holds⟩
  refine ⟨?_, ?_, owned.adopted, ?_, ?_, ?_, ?_⟩
  · intro other
    have moved := countP_set_add (·.claims other) { task with stage := .done } there
    have once := owned.once other
    simp only [done, Bool.false_eq_true, if_false, before] at moved
    simp only [settled, countP_append, countP_singleton, spawned]
    omega
  · intro other opened found
    rcases owned.owned other opened found with adopts | claimed
    · exact .inl adopts
    · exact .inr (still claimed fun holds => (spawned other).mpr ((before other).mp holds))
  · intro other inside id' holds
    rcases mem_settled inside with old | rfl | new
    · exact owned.claimed other old id' holds
    · rw [done] at holds
      cases holds
    · rw [mem_singleton.mp new] at holds ⊢
      obtain ⟨opened, found, same, -⟩ := owned.claimed task mem id' ((before id').mpr ((spawned id').mp holds))
      exact ⟨opened, found, same, .inr (.inl rfl)⟩
  · intro other opened found ended
    exact still (owned.ended other opened found ended) (by simp [begins, Call.ends])
  · intro tab held session inside other inside' holds
    rcases mem_settled inside' with old | rfl | new
    · exact owned.finishing tab held session inside other old holds
    · rw [done] at holds
      cases holds
    rw [mem_singleton.mp new] at holds
    have waits := owned.finishing tab held session inside task mem ((before _).mpr ((spawned _).mp holds))
    rw [unawaited tab held] at waits
    cases waits
  · intro other inside id' opened
    rcases mem_settled inside with old | rfl | new
    · exact owned.opens other old id' opened
    · cases opened
    · rw [mem_singleton.mp new] at opened
      cases opened

variable {session : TransactionSession τ}

theorem Owned.adopt {id : τ} (kept : Kept s) (held : s.tab = some tab)
    (there : s.tasks[i]? = some task) (answered : task.stage = .answered (.opened id))
    (waits : task.waits tab.transactionSeq = true) (connection : after.connection = tab.connection)
    (adopted : after.transaction = some session) (own : session.id = id) : Owned { s.settled i task [] with tab := some after } := by
  have owned := kept.owned
  have mem := mem_of_getElem? there
  have begins := owned.opens task mem id answered
  have fits := kept.tracked.fits tab held task mem waits
  have none : tab.transaction = none := by
    have ids := fits.transaction
    rw [begins] at ids
    exact map_eq_none_iff.mp ids
  have before : ∀ other, task.claims other = true ↔ id = other := fun other => by simp [Task.claims, begins, answered, Call.ends]
  have done : ∀ other, ({ task with stage := .done } : Task κ τ).claims other = false := fun other => by
    simp [Task.claims, begins, Call.ends]
  have count : ∀ other, (s.settled i task []).tasks.countP (·.claims other) + (if id = other then 1 else 0) =
      s.tasks.countP (·.claims other) := by
    intro other
    have moved := countP_set_add (·.claims other) { task with stage := .done } there
    simp only [done, Bool.false_eq_true, if_false, before] at moved
    simpa [settled] using moved
  have still : ∀ {P : Task κ τ → Prop}, (∃ other ∈ s.tasks, P other) → ¬ P task →
      ∃ other ∈ (s.settled i task []).tasks, P other := by
    intro P held other
    obtain ⟨party, inside, holds⟩ := (stays { task with stage := .done } there held).resolve_left other
    exact ⟨party, List.mem_append_left _ inside, holds⟩
  refine ⟨?_, ?_, ?_, ?_, ?_, ?_, ?_⟩
  · intro other
    exact Nat.le_trans (Nat.le.intro (count other)) (owned.once other)
  · intro other opened found
    by_cases same : id = other
    · exact .inl ⟨after, rfl, session, adopted, own.trans same⟩
    rcases owned.owned other opened found with ⟨tab', held', session', inside, -⟩ | claimed
    · rw [mem_def, held, some_inj] at held'
      subst held'
      simp [none] at inside
    · exact .inr (still claimed (by simp [before, same]))
  · rintro _ ⟨⟩ session' inside
    rw [mem_def, adopted, some_inj] at inside
    subst inside
    obtain ⟨opened, found, same, -⟩ := owned.claimed task mem id ((before id).mpr rfl)
    obtain ⟨config, connected, kept⟩ := map_eq_some_iff.mp fits.connection
    exact ⟨config, connection ▸ connected, opened, own ▸ found, same.trans kept.symm⟩
  · intro other inside id' holds
    rcases mem_settled inside with old | rfl | new
    · exact owned.claimed other old id' holds
    · rw [done] at holds
      cases holds
    · cases new
  · intro other opened found ended
    exact still (owned.ended other opened found ended) (by simp [begins, Call.ends])
  · rintro _ ⟨⟩ session' inside other inside' holds
    rw [mem_def, adopted, some_inj] at inside
    subst inside
    have once := owned.once id
    have less := count id
    rw [if_pos rfl] at less
    have zero : (s.settled i task []).tasks.countP (·.claims id) = 0 := by omega
    exact absurd (own ▸ holds) (countP_eq_zero.mp zero other inside')
  · intro other inside id' opened
    rcases mem_settled inside with old | rfl | new
    · exact owned.opens other old id' opened
    · cases opened
    · cases new

theorem Agreed.stale (kept : Kept s) (there : s.tasks[i]? = some task) (running : task.stage ≠ .done) (unawaited : s.Unawaited task)
    (detached : ∀ other ∈ spawned, other.stage = .calling ∧ ∃ id, other.call = .rollbackDetached id) :
    Agreed (s.settled i task spawned) := by
  have mem := mem_of_getElem? there
  have plain : task.call.isSavepoint = false := by
    by_contra savepoint
    have savepoint : task.call.isSavepoint = true := by simpa using savepoint
    obtain ⟨tab, held, -⟩ := kept.tracked.savepoints task mem savepoint running
    have waits := kept.tracked.savepoint held mem savepoint running
    rw [unawaited tab held] at waits
    cases waits
  have quiet : s.SavepointInFlight → (s.settled i task spawned).SavepointInFlight := by
    intro flight
    obtain ⟨other, inside, savepoint⟩ := (stays { task with stage := .done } there flight).resolve_left (by simp [plain])
    exact ⟨other, List.mem_append_left _ inside, savepoint⟩
  refine ⟨kept.agreed.numbered, ?_, ?_, ?_⟩
  · intro tab held session inside still
    exact kept.agreed.idle tab held session inside fun flight => still (quiet flight)
  · intro tab held session inside other inside' savepoint running'
    rcases mem_settled inside' with old | rfl | new
    · exact kept.agreed.flight tab held session inside other old savepoint running'
    · exact absurd rfl running'
    · obtain ⟨-, id, called⟩ := detached other new
      simp [called, Call.isSavepoint, Call.savepointName] at savepoint
  · intro other inside id answered
    rcases mem_settled inside with old | rfl | new
    · exact kept.agreed.fresh other old id answered
    · cases answered
    · rw [(detached other new).1] at answered
      cases answered

theorem Agreed.came (kept : Kept s) (tracked : Tracked { s.settled i task [] with tab := some after })
    (idle : after.transactionBusy = false)
    (sessions : ∀ session ∈ after.transaction, Numbered session ∧ ∀ opened, s.server session.id = some opened →
      opened.savepoints = session.savepoints.map (·.name)) : Agreed { s.settled i task [] with tab := some after } where
  numbered := by
    rintro _ ⟨⟩ session inside
    exact (sessions session inside).1
  idle := by
    rintro _ ⟨⟩ session inside -
    exact (sessions session inside).2
  flight := by
    rintro _ ⟨⟩ session inside other mem savepoint running
    have waits := tracked.savepoint rfl mem savepoint running
    rw [tracked.idle rfl idle mem] at waits
    cases waits
  fresh := by
    intro other inside id answered
    rcases mem_settled inside with old | rfl | new
    · exact kept.agreed.fresh other old id answered
    · cases answered
    · cases new

/-! ### The tab and its answers -/

omit [DecidableEq τ] in
theorem Numbered.listed {changed : TransactionSession τ} (numbered : Numbered session) (low : session.nextSavepoint + 1 < 2 ^ 32)
    (change : (changed.savepoints.map (·.name) = session.savepoints.map (·.name) ++ [QueryTab.savepointName session.nextSavepoint] ∧
        changed.nextSavepoint = min (session.nextSavepoint + 1) (2 ^ 32 - 1)) ∨
      ∃ n, changed.savepoints = session.savepoints.take n ∧ changed.nextSavepoint = session.nextSavepoint) : Numbered changed := by
  obtain ⟨numbers, names, upwards, below⟩ := numbered
  rcases change with ⟨longer, next⟩ | ⟨n, shorter, next⟩
  · refine ⟨numbers ++ [session.nextSavepoint], by rw [longer, names]; simp, ?_, ?_⟩
    · rw [pairwise_append]
      refine ⟨upwards, pairwise_singleton _ _, ?_⟩
      intro a inside b last
      rw [mem_singleton.mp last]
      exact below a inside
    · intro number inside
      rcases mem_append.mp inside with old | last
      · have less := below number old
        omega
      · rw [mem_singleton.mp last]
        omega
  · refine ⟨numbers.take n, by rw [shorter, map_take, names, map_take], upwards.sublist (take_sublist _ _), ?_⟩
    intro number inside
    rw [next]
    exact below number (mem_of_mem_take inside)

section
variable [DecidableEq κ]

theorem requestCurrent_eq (tracked : Tracked s) (held : s.tab = some tab) (mem : task ∈ s.tasks)
    (asks : task.call.asks = true) (running : task.stage ≠ .done) : tab.requestCurrent task = task.waits tab.transactionSeq := by
  by_cases current : task.requestSeq = tab.transactionSeq
  · have waits : task.waits tab.transactionSeq = true := by simp [Task.waits, asks, running, current]
    obtain ⟨config, connected, same⟩ := map_eq_some_iff.mp (tracked.fits tab held task mem waits).connection
    simp [waits, QueryTab.requestCurrent, current, connected, same]
  · have other : tab.transactionSeq ≠ task.requestSeq := fun same => current same.symm
    simp [Task.waits, QueryTab.requestCurrent, current, other]

variable {id : τ}

theorem Kept.savepointAnswered (kept : Kept s) (counted : s.Counted) (held : s.tab = some tab)
    (there : s.tasks[i]? = some task) (answered : task.stage = .answered answer) (savepoint : task.call.isSavepoint = true)
    (about : task.call.transaction = some id) {change : TransactionSession τ → TransactionSession τ}
    (same : ∀ session, (change session).id = session.id) (listed : ∀ session, task.call.Aims session →
      (change session).savepoints.map (·.name) = task.call.listed (session.savepoints.map (·.name)))
    (numbered : ∀ session, task.call.Aims session → Numbered session → session.nextSavepoint + 1 < 2 ^ 32 → Numbered (change session)) :
    Kept { s.settled i task [] with tab := some (tab.savepointAnswered task id answer change) } := by
  have mem := mem_of_getElem? there
  have running : task.stage ≠ .done := by simp [answered]
  have waits := kept.tracked.savepoint held mem savepoint running
  have fits := kept.tracked.fits tab held task mem waits
  obtain ⟨session, manual, own⟩ := map_eq_some_iff.mp (fits.transaction.trans about)
  have ends : task.call.ends = none := by
    cases called : task.call <;> simp_all [Call.isSavepoint, Call.savepointName, Call.ends]
  have plain : ∀ other, answer ≠ .opened other := by
    rintro other rfl
    rw [kept.owned.opens task mem other answered] at savepoint
    cases savepoint
  have current : tab.transactionRequestMatches task id = true := by
    have asks : task.call.asks = true := by
      cases called : task.call <;> simp_all [Call.asks, Call.isSavepoint, Call.savepointName]
    have request := requestCurrent_eq kept.tracked held mem asks running
    rw [waits, QueryTab.requestCurrent] at request
    simp [QueryTab.transactionRequestMatches, request, manual, own]
  have agreed := kept.agreed.flight tab held session manual task mem savepoint running
  -- Either way the session that is left stands beside the server.
  have settle : ∀ left : TransactionSession τ, left.id = session.id → Numbered left →
      left.savepoints.map (·.name) = task.expected (session.savepoints.map (·.name)) →
      Kept { s.settled i task [] with tab := some { tab with transactionBusy := false, transaction := some left } } := by
    intro left same numbered names
    have tracked : Tracked { s.settled i task [] with tab := some { tab with transactionBusy := false, transaction := some left } } :=
      kept.tracked.came held there waits rfl rfl
    refine ⟨tracked, kept.owned.settle there answered plain ?_ ?_, .came kept tracked rfl ?_⟩
    · rintro _ ⟨⟩
      refine ⟨tab, held, rfl, rfl, ?_⟩
      rintro _ ⟨⟩
      exact ⟨by simp [Task.claims, ends, answered, plain], session, manual, same⟩
    · rintro other ⟨tab', held', session', inside, named⟩
      rw [mem_def, held, some_inj] at held'
      subst held'
      rw [mem_def, manual, some_inj] at inside
      exact .inl ⟨_, rfl, left, rfl, same.trans (inside ▸ named)⟩
    · rintro _ ⟨⟩
      exact ⟨numbered, fun opened found => (agreed opened (same ▸ found)).trans names.symm⟩
  have numbers := kept.agreed.numbered tab held session manual
  have aims := fits.aims session manual
  unfold QueryTab.savepointAnswered
  rw [if_pos current]
  cases answer with
  | ok =>
    have names : (change session).savepoints.map (·.name) = task.expected (session.savepoints.map (·.name)) := by
      rw [listed session aims]
      simp [Task.expected, answered]
    have settled := settle (change session) (same session)
      (numbered session aims numbers ((counted tab held).2 session manual)) names
    have mapped : tab.transaction.map change = some (change session) := by rw [manual, map_some]
    rw [← mapped] at settled
    exact settled
  | failed =>
    have settled := settle session rfl numbers (by simp [Task.expected, answered])
    rw [← manual] at settled
    exact settled
  | opened other => exact absurd rfl (plain other)

omit [DecidableEq κ] in
theorem Kept.stale (kept : Kept s) (there : s.tasks[i]? = some task) (answered : task.stage = .answered answer)
    (plain : ∀ id, answer ≠ .opened id) (unawaited : s.Unawaited task) : Kept (s.settled i task []) := by
  refine ⟨kept.tracked.stale there unawaited (by simp), ?_, .stale kept there (by simp [answered]) unawaited (by simp)⟩
  refine kept.owned.settle there answered plain ?_ fun _ adopts => .inl adopts
  intro tab held
  refine ⟨tab, held, rfl, rfl, fun session inside => ⟨?_, session, inside, rfl⟩⟩
  by_contra claims
  have waits := kept.owned.finishing tab held session inside task (mem_of_getElem? there) (by simpa using claims)
  rw [unawaited tab held] at waits
  cases waits

omit [DecidableEq κ] in
theorem Kept.staleOpened (kept : Kept s) (there : s.tasks[i]? = some task)
    (answered : task.stage = .answered (.opened id)) (unawaited : s.Unawaited task) : Kept (s.settled i task [staleRollback task id]) :=
  ⟨kept.tracked.stale there unawaited (by simp [staleRollback]), kept.owned.staleOpened there answered unawaited,
    .stale kept there (by simp [answered]) unawaited (by simp [staleRollback])⟩

theorem Kept.begun (kept : Kept s) (held : s.tab = some tab) (there : s.tasks[i]? = some task)
    (answered : task.stage = .answered answer) (called : task.call = .beginTransaction) :
    Kept { s.settled i task ((tab.receive task answer).2.map (staleRollback task)).toList with
      tab := some (tab.receive task answer).1 } := by
  have mem := mem_of_getElem? there
  have current := requestCurrent_eq kept.tracked held mem (by rw [called]; rfl) (by simp [answered])
  unfold QueryTab.receive
  simp only [called, current]
  by_cases waits : task.waits tab.transactionSeq = true
  · have fits := kept.tracked.fits tab held task mem waits
    have none : tab.transaction = none := by
      have ids := fits.transaction
      rw [called] at ids
      exact map_eq_none_iff.mp ids
    have idle : (∀ id, answer ≠ .opened id) →
        Kept { s.settled i task [] with tab := some { tab with transactionBusy := false } } := by
      intro plain
      have tracked : Tracked { s.settled i task [] with tab := some { tab with transactionBusy := false } } :=
        kept.tracked.came held there waits rfl rfl
      refine ⟨tracked, kept.owned.settle there answered plain ?_ ?_, .came kept tracked rfl ?_⟩
      · rintro _ ⟨⟩
        exact ⟨tab, held, rfl, rfl, fun session inside => by simp [none] at inside⟩
      · rintro id ⟨tab', held', session, inside, -⟩
        rw [mem_def, held, some_inj] at held'
        subst held'
        simp [none] at inside
      · intro session inside
        simp [none] at inside
    rw [if_pos waits]
    cases answer with
    | opened id =>
      have tracked : Tracked { s.settled i task [] with
          tab := some { tab with transactionBusy := false, transaction := some ⟨id, false, [], 1⟩ } } :=
        kept.tracked.came held there waits rfl rfl
      refine ⟨tracked, .adopt kept held there answered waits rfl rfl rfl, .came kept tracked rfl ?_⟩
      rintro _ ⟨⟩
      exact ⟨⟨[], rfl, .nil, by simp⟩, fun opened found => kept.agreed.fresh task mem id answered opened found⟩
    | ok | failed => exact idle (by simp)

  · have unawaited : s.Unawaited task := by
      intro tab' held'
      rw [mem_def, held, some_inj] at held'
      subst held'
      simpa using waits
    rw [if_neg waits]
    cases answer with
    | opened id =>
      rw [← held]
      exact kept.staleOpened there answered unawaited
    | ok | failed =>
      rw [← held]
      exact kept.stale there answered (by simp) unawaited

theorem Kept.finished {commit : Bool} (kept : Kept s) (held : s.tab = some tab)
    (there : s.tasks[i]? = some task) (answered : task.stage = .answered answer) (called : task.call = .finishTransaction id commit) :
    Kept { s.settled i task ((tab.receive task answer).2.map (staleRollback task)).toList with
      tab := some (tab.receive task answer).1 } := by
  have mem := mem_of_getElem? there
  have current := requestCurrent_eq kept.tracked held mem (by rw [called]; rfl) (by simp [answered])
  have plain : ∀ id, answer ≠ .opened id := by
    rintro other rfl
    have begins := kept.owned.opens task mem other answered
    rw [called] at begins
    cases begins
  unfold QueryTab.receive
  simp only [called, current]
  split_ifs with waits
  · have tracked : Tracked { s.settled i task [] with tab := some { tab with transactionBusy := false, transaction := none } } :=
      kept.tracked.came held there waits rfl rfl
    refine ⟨tracked, kept.owned.settle there answered plain ?_ ?_, .came kept tracked rfl ?_⟩
    · rintro _ ⟨⟩
      exact ⟨tab, held, rfl, rfl, by simp⟩
    · rintro other ⟨tab', held', session, inside, rfl⟩
      rw [mem_def, held, some_inj] at held'
      subst held'
      have ids := (kept.tracked.fits tab held task mem waits).transaction
      rw [mem_def.mp inside, called] at ids
      exact .inr (by simp [Task.claims, called, Call.ends, some_inj.mp ids])
    · rintro _ ⟨⟩
  · have unawaited : s.Unawaited task := by
      intro tab' held'
      rw [mem_def, held, some_inj] at held'
      subst held'
      simpa using waits
    rw [← held]
    exact kept.stale there answered plain unawaited

variable {next : State κ τ}

theorem Kept.complete (kept : Kept s) (counted : s.Counted) (moved : s.complete i = some next) : Kept next := by
  unfold State.complete at moved
  split at moved
  case _ => cases moved
  case _ task there =>
    have mem := mem_of_getElem? there
    split at moved
    case h_2 => cases moved
    case h_1 answer answered =>
      cases held : s.tab with
      | none =>
        have unawaited : s.Unawaited task := by
          intro tab inside
          rw [held] at inside
          cases inside
        simp only [held] at moved
        cases answer with
        | opened id =>
          cases moved
          exact held ▸ kept.staleOpened there answered unawaited
        | ok | failed =>
          cases moved
          simpa [settled, held] using kept.stale there answered (by simp) unawaited
      | some tab =>
        simp only [held, some_inj] at moved
        subst moved
        change Kept { s.settled i task ((tab.receive task answer).2.map (staleRollback task)).toList with
          tab := some (tab.receive task answer).1 }
        cases called : task.call with
        | beginTransaction => exact kept.begun held there answered called
        | createSavepoint id name =>
          unfold QueryTab.receive
          simp only [called, map_none, toList_none]
          refine kept.savepointAnswered counted held there answered (by rw [called]; rfl) (by rw [called]; rfl)
            (fun _ => rfl) ?_ ?_
          · intro session aims
            rw [called]
            simp [Call.listed]
          · intro session aims numbered low
            rw [called] at aims
            exact Numbered.listed numbered low (.inl ⟨by simp [show name = _ from aims], rfl⟩)
        | rollbackToSavepoint id savepoint targetIndex | releaseSavepoint id name targetIndex =>
          unfold QueryTab.receive
          simp only [called, map_none, toList_none]
          refine kept.savepointAnswered counted held there answered (by rw [called]; rfl) (by rw [called]; rfl)
            (fun _ => rfl) ?_ ?_
          · rw [called]
            simp [Call.listed]
          · intro session aims numbered low
            exact Numbered.listed numbered low (.inr ⟨_, rfl, rfl⟩)
        | finishTransaction id commit => exact kept.finished held there answered called
        | rollbackDetached id =>
          unfold QueryTab.receive
          simp only [called, map_none, toList_none]
          rw [← held]
          refine kept.stale there answered ?_ fun tab' held' => by simp [Task.waits, called, Call.asks]
          rintro other rfl
          have begins := kept.owned.opens task mem other answered
          rw [called] at begins
          cases begins

theorem Kept.step {replaces : Bool} {act : Act κ τ} (kept : Kept s)
    (fair : s.Fair act) (stepped : s.step replaces act = some next) : Kept next := by
  obtain ⟨counted, leaves⟩ := fair
  -- A change of the context: the session is left first when there is one.
  have leave : ∀ tab ∈ s.tab, ¬ s.SavepointInFlight → ∀ change : QueryTab κ τ → QueryTab κ τ,
      (∀ left, left.transaction = none → left.transactionBusy = false → Alike left (change left)) →
      Kept { s with tab := some (change tab.leaveContext.1), tasks := s.tasks ++ tab.leaveContext.2.toList } := by
    intro tab held quiet change alike
    unfold QueryTab.leaveContext
    split_ifs with manual
    · refine (kept.leave held (counted tab held).1 quiet).1.alike rfl (alike _ ?_ ?_) <;> rw [detached_tab]
    · simp only [QueryTab.hasOpenTransaction, Bool.or_eq_true, not_or, Bool.not_eq_true, isSome_eq_false_iff, isNone_iff_eq_none] at manual
      simpa using kept.alike held (alike tab manual.1 manual.2)
  cases act with
  | beginTransaction => exact kept.perform counted (fun _ _ => beginTransaction_asks) stepped
  | createSavepoint => exact kept.perform counted (fun _ _ => createSavepoint_asks) stepped
  | rollbackToLatestSavepoint =>
    exact kept.perform counted (fun tab held => rollbackToLatestSavepoint_asks (kept.agreed.numbered tab held)) stepped
  | releaseLatestSavepoint =>
    exact kept.perform counted (fun tab held => releaseLatestSavepoint_asks (kept.agreed.numbered tab held)) stepped
  | finishTransaction commit => exact kept.perform counted (fun _ _ => finishTransaction_asks) stepped
  | markTransactionDirty =>
    obtain ⟨tab, held, rfl⟩ := map_eq_some_iff.mp stepped
    simp only [toList_none, append_nil]
    refine kept.alike held ⟨rfl, rfl, ?_, .inl rfl⟩
    rw [QueryTab.markTransactionDirty, Option.map_map]
    rfl
  | edit running pendingResultEdits =>
    obtain ⟨tab, held, rfl⟩ := map_eq_some_iff.mp stepped
    simp only [toList_none, append_nil]
    exact kept.alike held ⟨rfl, rfl, rfl, .inl rfl⟩
  | setConnection connection =>
    obtain ⟨tab, held, rfl⟩ := map_eq_some_iff.mp stepped
    refine leave tab held (leaves trivial) (fun left => { left with
      activeSchema := (connection.bind (·.database)).filter (· ≠ [])
      connection }) ?_
    intro left none idle
    exact ⟨rfl, rfl, rfl, .inr ⟨none, idle⟩⟩
  | setActiveSchema schema =>
    obtain ⟨tab, held, rfl⟩ := map_eq_some_iff.mp stepped
    simp only [QueryTab.setActiveSchema]
    split_ifs with changed
    · refine leave tab held (leaves ⟨tab, held, changed⟩) (fun left => { left with activeSchema := schema.filter (· ≠ []) }) ?_
      intro left none idle
      exact ⟨rfl, rfl, rfl, .inl rfl⟩
    · simpa [← held] using kept
  | closeTab =>
    obtain ⟨closed, performed, rfl⟩ := map_eq_some_iff.mp stepped
    obtain ⟨tab, held, rfl⟩ := map_eq_some_iff.mp performed
    obtain ⟨left, quiet⟩ := kept.leave held (counted tab held).1 (leaves trivial)
    exact left.gone rfl (by rw [detached_tab]) quiet
  | serve i fresh accepted => exact kept.serve stepped
  | complete i => exact kept.complete counted stepped

/-- A tab that is new. -/
def start (tab : QueryTab κ τ) : State κ τ := { tab := some tab }

omit [DecidableEq κ] in
theorem kept_start (manual : tab.transaction = none) (idle : tab.transactionBusy = false) : Kept (start tab) := by
  refine ⟨⟨by simp [start], ?_, by simp [start], by simp [start]⟩,
    ⟨by simp [start], by simp [start], ?_, by simp [start], by simp [start], by simp [start], by simp [start]⟩,
    ⟨?_, by simp [start], by simp [start], by simp [start]⟩⟩
  · simp [start, idle]
  · rintro _ ⟨⟩ session inside
    simp [manual] at inside
  · rintro _ ⟨⟩ session inside
    simp [manual] at inside

omit [DecidableEq κ] in
theorem Kept.sound (kept : Kept s) : Sound s := by
  have issued : ∀ task ∈ s.tasks, ∀ id, task.claims id = true → s.Pending id ∨ ∃ commit, task.call.ends = some (id, commit) := by
    intro task mem id claims
    simp only [Task.claims, Bool.or_eq_true, Option.any_eq_true, decide_eq_true_eq] at claims
    rcases claims with ⟨⟨ended, commit⟩, ends, rfl⟩ | answered
    · exact .inr ⟨commit, ends⟩
    · exact .inl ⟨task, mem, answered⟩
  refine ⟨?_, ?_, ?_, ?_, ?_⟩
  · rintro id other ⟨tab, held, session, inside, rfl⟩ ⟨tab', held', session', inside', rfl⟩
    rw [mem_def.mp held] at held'
    cases held'
    rw [mem_def.mp inside] at inside'
    cases inside'
    rfl
  · intro id opened found
    rcases kept.owned.owned id opened found with adopts | ⟨task, mem, claims⟩
    · exact .inl adopts
    obtain ⟨opened', found', same, -⟩ := kept.owned.claimed task mem id claims
    rw [found, some_inj] at found'
    subst found'
    rcases issued task mem id claims with pending | ⟨commit, ends⟩
    · exact .inr (.inr pending)
    · exact .inr (.inl ⟨commit, task, mem, same.symm, ends⟩)
  · intro done id opened found
    rcases kept.owned.owned id opened found with adopts | ⟨task, mem, claims⟩
    · exact .inl adopts
    obtain ⟨opened', found', same, state⟩ := kept.owned.claimed task mem id claims
    rw [found, some_inj] at found'
    subst found'
    rcases issued task mem id claims with ⟨other, inside, answered⟩ | ⟨commit, ends⟩
    · rw [done other inside] at answered
      cases answered
    · refine .inr ⟨?_, commit, task, mem, same.symm, ends⟩
      simpa [ends, done task mem] using state
  · rintro connection other id ⟨⟨task, mem, -, ends⟩, ⟨task', mem', -, ends'⟩⟩
    have same := eq_of_countP (kept.owned.once id) mem mem' (by simp [Task.claims, ends]) (by simp [Task.claims, ends'])
    rw [same, ends'] at ends
    cases ends
  · intro tab held session inside done
    obtain ⟨connection, -, opened, found, -⟩ := kept.owned.adopted tab held session inside
    refine ⟨opened, found, ?_, kept.agreed.idle tab held session inside ?_ opened found⟩
    · by_contra ended
      obtain ⟨task, mem, commit, ends⟩ := kept.owned.ended session.id opened found (by simpa using ended)
      have waits := kept.owned.finishing tab held session inside task mem (by simp [Task.claims, ends])
      simp [Task.waits, done task mem (Call.transaction_of_ends ends)] at waits
    rintro ⟨task, mem, savepoint, running⟩
    have fits := kept.tracked.fits tab held task mem (kept.tracked.savepoint held mem savepoint running)
    have about := fits.transaction
    rw [mem_def.mp inside] at about
    exact running (done task mem about.symm)

/-- In every run in which the context stays while a savepoint call is in flight
    and no counter comes to its end, every transaction of the tab is adopted or
    is ended once. -/
theorem transactions_sound {replaces : Bool} (manual : tab.transaction = none) (idle : tab.transactionBusy = false)
    (reached : Reached (step replaces) Fair (start tab) s) : Sound s :=
  (reached.keeps (kept_start manual idle) fun _ _ _ kept fair stepped => kept.step fair stepped).sound

end

end

/-- A tab on a connection. -/
def sampleTab : QueryTab Nat Nat := { connection := some ⟨1, none⟩ }

theorem transactions_sound_begin : ∃ s, Reached (step false) Fair (start sampleTab) s ∧ s.Adopts 7 ∧ Sound s := by
  have follows : ∃ s, Follows (step false) Fair (start sampleTab) [.beginTransaction, .serve 0 7 true, .complete 0] s ∧
      s.Adopts 7 := by
    refine ⟨_, ⟨⟨?_, by simp [Leaves]⟩, _, rfl, ⟨?_, by simp [Leaves]⟩, _, rfl, ⟨?_, by simp [Leaves]⟩, _, rfl, rfl⟩, ?_⟩
    · rintro _ ⟨⟩
      exact ⟨by decide, by rintro _ ⟨⟩⟩
    · rintro _ ⟨⟩
      exact ⟨by decide, by rintro _ ⟨⟩⟩
    · rintro _ ⟨⟩
      exact ⟨by decide, by rintro _ ⟨⟩⟩
    · exact ⟨_, rfl, _, rfl, rfl⟩
  obtain ⟨s, follows, adopts⟩ := follows
  have reached := Reached.start.follows follows
  exact ⟨s, reached, adopts, transactions_sound rfl rfl reached⟩

/-- The tab is closed while a savepoint is created: nobody ends the transaction. -/
theorem transactions_sound_close : ¬ ∀ s, Reached (step false) (fun _ _ => True) (start sampleTab) s → Sound s := by
  intro all
  have follows : ∃ s, Follows (step false) (fun _ _ => True) (start sampleTab)
      [.beginTransaction, .serve 0 7 true, .complete 0, .createSavepoint, .closeTab, .serve 1 0 true, .complete 1] s ∧
      s.tab = none ∧ (∀ task ∈ s.tasks, task.stage = .done) ∧
      ∃ opened, s.server 7 = some opened ∧ opened.ended = false := by
    refine ⟨_, ⟨trivial, _, rfl, trivial, _, rfl, trivial, _, rfl, trivial, _, rfl, trivial, _, rfl, trivial, _, rfl,
      trivial, _, rfl, rfl⟩, rfl, ?_, _, rfl, rfl⟩
    decide
  obtain ⟨s, follows, gone, done, opened, found, running⟩ := follows
  rcases (all s (Reached.start.follows follows)).settled done 7 opened found with ⟨tab, held, -⟩ | ⟨ended, -⟩
  · rw [gone] at held
    cases held
  · rw [running] at ended
    cases ended

end State

end Ramag.TransactionTab
