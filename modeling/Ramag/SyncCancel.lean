import Ramag.SqlSync

/-!
The cancellation of an SQL data sync. A run that has created structures ends with
all final statements of its plan, whenever the flag becomes set; and when a poll
sees the flag before anything was created, no statement that writes follows.
-/
namespace Ramag.SyncCancel
open Strings Domain SqlLiteral Programs SyncJournal SqlSync List

def writes : Event → Bool
  | .write .. => true
  | _ => false

/-- The statements that create a part of the structure. -/
def builds : Purpose → Bool
  | .namespaceCreate | .enumType | .preCreate | .create _ | .postCreate _ => true
  | .rows _ | .final _ => false

/-- Some structure was created. -/
def Created (history : List Event) : Prop :=
  ∃ purpose sql, builds purpose = true ∧ .write purpose sql true ∈ history

/-- A poll that sees the flag comes after something was created. -/
def Settled (history : List Event) : Prop :=
  ∀ before after, history = before ++ .poll true :: after → Created before

/-- After a poll that sees the flag before anything was created nothing is written. -/
def Guarded (history : List Event) : Prop :=
  ∀ before after, history = before ++ .poll true :: after → ¬ Created before → ∀ event ∈ after, writes event = false

/-- Types are the only structures that were created. -/
def OnlyTypes (history : List Event) : Prop :=
  ∀ purpose sql, .write purpose sql true ∈ history → builds purpose = true → purpose = .enumType

def finalWrite (object : SqlPreparedObject) (statement : Text) : Event := .write (.final object) statement true

/-- The final statements of a plan, all of them accepted. -/
def finalWrites (plan : SqlPreparedPlan) : List Event :=
  plan.objects.flatMap fun object => object.finalStatements.map (finalWrite object)

section
variable {history : List Event} {event : Event}

theorem Created.append (created : Created history) (more : List Event) : Created (history ++ more) := by
  obtain ⟨purpose, sql, building, mem⟩ := created
  exact ⟨purpose, sql, building, mem_append_left more mem⟩

theorem Settled.guarded (settled : Settled history) : Guarded history :=
  fun before after split nothing => absurd (settled before after split) nothing

theorem settled_of_unseen (unseen : .poll true ∉ history) : Settled history := by
  rintro before after rfl
  exact absurd (mem_append_right before mem_cons_self) unseen

theorem split_snoc {before after : List Event} {seen : Event} (split : history ++ [event] = before ++ seen :: after) :
    (∃ rest, after = rest ++ [event] ∧ history = before ++ seen :: rest) ∨ (after = [] ∧ event = seen ∧ history = before) := by
  rcases eq_nil_or_concat after with rfl | ⟨rest, last, rfl⟩
  · right
    obtain ⟨same, one⟩ := append_inj' split rfl
    exact ⟨rfl, (List.cons.inj one).1, same⟩
  left
  rw [concat_eq_append, ← cons_append, ← append_assoc] at split
  obtain ⟨same, one⟩ := append_inj' split rfl
  obtain rfl := (List.cons.inj one).1
  exact ⟨rest, concat_eq_append, same⟩

theorem Settled.snoc (settled : Settled history) (late : event = .poll true → Created history) : Settled (history ++ [event]) := by
  intro before after split
  rcases split_snoc split with ⟨rest, _, inside⟩ | ⟨_, seen, rfl⟩
  · exact settled before rest inside
  · exact late seen

theorem Guarded.snoc (guarded : Guarded history) (quiet : writes event = false) : Guarded (history ++ [event]) := by
  intro before after split nothing
  rcases split_snoc split with ⟨rest, rfl, inside⟩ | ⟨rfl, _, _⟩
  · intro other mem
    rcases mem_append.mp mem with early | last
    · exact guarded before rest inside nothing other early
    · rwa [mem_singleton.mp last]
  · exact nofun

theorem OnlyTypes.snoc (only : OnlyTypes history)
    (fair : ∀ purpose sql, event = .write purpose sql true → builds purpose = true → purpose = .enumType) : OnlyTypes (history ++ [event]) := by
  intro purpose sql mem
  rcases mem_append.mp mem with early | last
  · exact only purpose sql early
  · exact fair purpose sql (mem_singleton.mp last).symm

end

section
variable {world : World} {plan : SqlPreparedPlan}

/-- A stopped program leaves a guarded history. -/
abbrev guardedEnd : Journal Event → Prop := fun s => Guarded s.history

/-- No poll has seen the flag. A plan that only uses what exists creates nothing but types. -/
structure Building (plan : SqlPreparedPlan) (s : Journal Event) : Prop where
  unseen : .poll true ∉ s.history
  running : s.summary.cancelled = false
  types : createsStructure plan = false → OnlyTypes s.history

variable {s : Journal Event}

theorem Building.guarded (building : Building plan s) : Guarded s.history :=
  (settled_of_unseen building.unseen).guarded

theorem Building.record {event : Event} (building : Building plan s) (unpolled : event ≠ .poll true)
    (fair : ∀ purpose sql, event = .write purpose sql true → createsStructure plan = true ∨ purpose = .enumType) :
    Building plan (s.record event) where
  unseen := by
    intro mem
    rcases mem_append.mp mem with early | last
    · exact building.unseen early
    · exact unpolled (mem_singleton.mp last).symm
  running := building.running
  types := fun existing => (building.types existing).snoc fun purpose sql same _ =>
    (fair purpose sql same).resolve_left (by rw [existing]; exact nofun)

/-- Under the condition something was created already. -/
def Progress (plan : SqlPreparedPlan) (condition : Prop) (s : Journal Event) : Prop :=
  Building plan s ∧ (condition → Created s.history)

variable {condition : Prop}

theorem Progress.record {event : Event} (progress : Progress plan condition s) (unpolled : event ≠ .poll true)
    (fair : ∀ purpose sql, event = .write purpose sql true → createsStructure plan = true ∨ purpose = .enumType) :
    Progress plan condition (s.record event) :=
  ⟨progress.1.record unpolled fair, fun held => (progress.2 held).append [event]⟩

theorem executeStatement_builds {purpose : Purpose} {statement : Text} (building : builds purpose = true)
    (fair : createsStructure plan = true ∨ purpose = .enumType) :
    Triple (Progress plan condition) (executeStatement world purpose statement) (fun _ => Progress plan True)
      (Progress plan condition) := by
  have recorded {s : Journal Event} (held : Progress plan condition s) (accepted : Bool) :
      Progress plan condition (s.record (.write purpose statement accepted)) :=
    held.record nofun fun _ _ same => by
      obtain ⟨rfl, _, _⟩ := Event.write.inj same
      exact fair
  refine executeStatement_triple (fun s held => ⟨(recorded held true).1, fun _ => ?_⟩) (fun s held => recorded held false)
    fun s => id
  exact ⟨purpose, statement, building, mem_append_right _ mem_cons_self⟩

theorem Progress.any (progress : Progress plan True s) : Progress plan condition s :=
  ⟨progress.1, fun _ => progress.2 trivial⟩

theorem forEach_builds {purpose : Purpose} {statements : List Text} (building : builds purpose = true)
    (fair : statements ≠ [] → createsStructure plan = true) :
    Triple (Progress plan condition) (Prog.forEach statements (executeStatement world purpose))
      (fun _ => Progress plan condition) (Progress plan condition) :=
  Triple.forEach fun _ mem =>
    Triple.adapt (executeStatement_builds building (.inl (fair (ne_nil_of_mem mem)))) (fun _ => id)
      (fun _ _ => .any)

theorem loadEnums_builds : Triple (Progress plan condition) (loadEnums world) (fun _ => Progress plan condition) (Progress plan condition) :=
  perform_triple (fun _ held => held.record nofun nofun) fun _ => id

theorem ensureEnums_builds (expected : List SqlPreparedEnum) (definitions : List (Text × Text)) :
    Triple (Progress plan condition) (ensureEnums world plan expected definitions) (fun _ => Progress plan condition)
      (Progress plan condition) := by
  induction expected generalizing definitions with
  | nil => exact .done
  | cons first rest ih =>
    unfold ensureEnums
    cases definitions.lookup first.name with
    | some existing => exact .ite (fun _ => ih definitions) fun _ => .halt
    | none =>
      have tried : Triple (Progress plan condition) (executeStatement world .enumType first.createStatement).attempt
          (fun _ => Progress plan condition) (Progress plan condition) :=
        Triple.attempt (.weaken (executeStatement_builds rfl (.inr rfl)) (fun _ => id) (fun _ _ => .any)
          fun _ => id) (fun _ _ => id) fun _ => id
      refine .bind tried fun outcome => ?_
      cases outcome with
      | ok _ => exact ih _
      | error createError =>
        refine .bind loadEnums_builds fun reloaded => ?_
        cases reloaded.lookup first.name with
        | some existing => exact .ite (fun _ => ih reloaded) fun _ => .halt
        | none => exact .halt

theorem createNamespace_builds : Triple (Progress plan condition) (createNamespace world plan)
      (fun _ => Progress plan (condition ∨ plan.namespaceExists = false)) (Progress plan condition) := by
  have placed := plan.placed
  unfold createNamespace
  cases create : plan.namespaceCreate with
  | none =>
    have there : plan.namespaceExists = true := by simpa [create] using placed
    exact .ret fun s held => ⟨held.1, fun either => held.2 (either.resolve_right (by simp [there]))⟩
  | some statement =>
    have lacking : plan.namespaceExists = false := by simpa [create] using placed
    have creates : createsStructure plan = true := by simp [createsStructure, lacking]
    exact .adapt (executeStatement_builds rfl (.inl creates)) (fun _ => id) (fun _ _ => .any)

variable {object : SqlPreparedObject}

theorem creates_of_missing (mem : object ∈ plan.objects) (lacking : object.targetExists = false) : createsStructure plan = true := by
  simp only [createsStructure, Bool.or_eq_true, any_eq_true]
  exact .inr ⟨object, mem, by simp [lacking]⟩

theorem createObject_builds (mem : object ∈ plan.objects) : Triple (Progress plan condition) (createObject world object)
      (fun _ => Progress plan (condition ∨ object.targetExists = false)) (Progress plan condition) := by
  have created := object.created
  unfold createObject
  cases create : object.createStatement with
  | none =>
    have there : object.targetExists = true := by simpa [create] using created
    exact .ret fun s held => ⟨held.1, fun either => held.2 (either.resolve_right (by simp [there]))⟩
  | some statement =>
    have lacking : object.targetExists = false := by simpa [create] using created
    have creates := creates_of_missing mem lacking
    refine .bind (executeStatement_builds rfl (.inl creates)) fun _ => ?_
    exact .weaken (forEach_builds rfl fun _ => creates) (fun _ => id) (fun _ _ => .any) fun _ => Progress.any

/-- The namespace and these objects are created, as far as the target lacks them. -/
def Built (plan : SqlPreparedPlan) (done : List SqlPreparedObject) : Journal Event → Prop :=
  Progress plan (plan.namespaceExists = false ∨ ∃ object ∈ done, object.targetExists = false)

theorem Built.weaken {done : List SqlPreparedObject} {p : Sync Event Unit}
    (holds : Triple (Built plan done) p (fun _ => Progress plan condition) (Built plan done)) :
    Triple (Built plan done) p (fun _ => Progress plan condition) guardedEnd :=
  Triple.weaken holds (fun _ => id) (fun _ _ => id) fun _ held => held.1.guarded

theorem createStructures_builds :
    Triple (Building plan) (createStructures world plan) (fun _ => Progress plan (createsStructure plan = true)) guardedEnd := by
  have namespaced : Triple (Building plan) (createNamespace world plan) (fun _ => Built plan []) guardedEnd := by
    refine Triple.weaken (@createNamespace_builds world plan False) (fun s held => ⟨held, False.elim⟩)
      (fun _ s held => ⟨held.1, fun lacking => held.2 ?_⟩) fun _ held => held.1.guarded
    simpa using lacking
  refine .bind namespaced fun _ => ?_
  have types : Triple (Built plan []) (ensurePostgresEnums world plan) (fun _ => Built plan []) guardedEnd := by
    refine Triple.ite (fun _ => Triple.done) fun _ => Built.weaken ?_
    exact Triple.bind loadEnums_builds fun definitions => ensureEnums_builds plan.postgresEnums definitions
  refine Triple.bind types fun _ => ?_
  have sequences : Triple (Built plan []) (.forEach plan.preCreateStatements (executeStatement world .preCreate))
      (fun _ => Built plan []) guardedEnd := by
    refine Built.weaken (forEach_builds rfl fun some => ?_)
    obtain ⟨object, mem, lacking⟩ := plan.sequenced some
    exact creates_of_missing mem lacking
  refine .bind sequences fun _ => ?_
  have objects : Triple (Built plan []) (.forEach plan.objects (createObject world))
      (fun _ => Built plan ([] ++ plan.objects)) guardedEnd := by
    refine Triple.forEach_prefix plan.objects [] fun before object after split => ?_
    have mem : object ∈ plan.objects := by rw [split]; simp
    refine Triple.adapt (Built.weaken (createObject_builds mem)) (fun _ => id)
      (fun _ s held => ⟨held.1, fun lacking => held.2 ?_⟩)
    rcases lacking with namespaced | ⟨other, done, lacking⟩
    · exact .inl (.inl namespaced)
    rcases mem_append.mp done with early | last
    · exact .inl (.inr ⟨other, early, lacking⟩)
    · rw [mem_singleton.mp last] at lacking
      exact .inr lacking
  refine .adapt objects (fun _ => id) (fun _ s held => ⟨held.1, fun creates => held.2 ?_⟩)
  simp only [createsStructure, Bool.or_eq_true, any_eq_true] at creates
  rcases creates with lacking | ⟨object, mem, lacking⟩
  · exact .inl (by simpa using lacking)
  · exact .inr ⟨object, mem, by simpa using lacking⟩

end

/-! ### The tables -/

section
variable {world : World} {plan : SqlPreparedPlan} {object : SqlPreparedObject}

/-- The run is not cancelled yet. When something was created, every poll that
    sees the flag comes later; otherwise only types were created. -/
structure Alert (world : World) (plan : SqlPreparedPlan) (s : Journal Event) : Prop where
  running : s.summary.cancelled = false
  latched : .poll true ∈ s.history → flagSet world.cancelAt s.history = true
  guarded : Guarded s.history
  creates : createsStructure plan = true → Settled s.history ∧ Created s.history
  types : createsStructure plan = false → OnlyTypes s.history

def Calm (world : World) (plan : SqlPreparedPlan) (s : Journal Event) : Prop := Alert world plan s ∧ Settled s.history

/-- The run is cancelled, and has created nothing but types. -/
def Stopped (s : Journal Event) : Prop := s.summary.cancelled = true ∧ Guarded s.history ∧ OnlyTypes s.history

variable {s : Journal Event}

theorem calm_of_progress (progress : Progress plan (createsStructure plan = true) s) : Calm world plan s where
  left :=
    { running := progress.1.running
      latched := fun seen => absurd seen progress.1.unseen
      guarded := progress.1.guarded
      creates := fun creates => ⟨settled_of_unseen progress.1.unseen, progress.2 creates⟩
      types := progress.1.types }
  right := settled_of_unseen progress.1.unseen

/-- Events of the tables: they are no polls, and they build nothing. -/
def tableEvent : Event → Bool
  | .poll _ => false
  | .write purpose _ _ => !builds purpose
  | _ => true

theorem OnlyTypes.table {history : List Event} {event : Event} (only : OnlyTypes history) (table : tableEvent event = true) :
    OnlyTypes (history ++ [event]) :=
  only.snoc fun purpose sql same building => by simp [same, tableEvent, building] at table

theorem Calm.record {event : Event} (calm : Calm world plan s) (table : tableEvent event = true) : Calm world plan (s.record event) := by
  obtain ⟨alert, settled⟩ := calm
  have unpolled : event ≠ .poll true := by
    rintro rfl
    cases table
  have onward : Settled (s.history ++ [event]) := settled.snoc fun polled => absurd polled unpolled
  refine ⟨⟨alert.running, fun seen => ?_, onward.guarded, fun creates => ⟨onward, ?_⟩, fun existing => ?_⟩, onward⟩
  · rcases mem_append.mp seen with early | last
    · exact flagSet_append (alert.latched early) [event]
    · exact absurd (mem_singleton.mp last).symm unpolled
  · exact (alert.creates creates).2.append [event]
  · exact (alert.types existing).table table

theorem Calm.count {change : DataSyncGate.DataSyncSummary → DataSyncGate.DataSyncSummary}
    (calm : Calm world plan s) (same : (change s.summary).cancelled = s.summary.cancelled) : Calm world plan (s.count change) :=
  ⟨⟨same.trans calm.1.running, calm.1.latched, calm.1.guarded, calm.1.creates, calm.1.types⟩, calm.2⟩

theorem calm_ends (calm : Calm world plan s) : guardedEnd s := calm.1.guarded

theorem select_calm (s : Journal Event) (side : Side) (sql : Text) (calm : Calm world plan s) :
    Calm world plan (s.record (.select side sql)) := calm.record rfl

theorem poll_alert : Triple (Alert world plan) (cancellationRequested world)
    (fun requested s => Alert world plan s ∧ (requested = false → Settled s.history)) guardedEnd := by
  refine cancellationRequested_triple fun s alert => ?_
  have created (creates : createsStructure plan = true) (event : Event) :
      Settled (s.history ++ [event]) ∧ Created (s.history ++ [event]) :=
    ⟨(alert.creates creates).1.snoc fun _ => (alert.creates creates).2, (alert.creates creates).2.append [event]⟩
  refine ⟨⟨alert.running, fun seen => ?_, alert.guarded.snoc rfl, fun creates => created creates _, fun existing => ?_⟩, fun clear => ?_⟩
  · rcases mem_append.mp seen with early | last
    · exact flagSet_append (alert.latched early) _
    · have set : true = flagSet world.cancelAt s.history := by simpa using mem_singleton.mp last
      exact flagSet_append set.symm _
  · exact (alert.types existing).snoc nofun
  · rw [clear]
    refine settled_of_unseen fun seen => ?_
    rcases mem_append.mp seen with early | last
    · simp [alert.latched early] at clear
    · simp at last

theorem honored_alert : Triple (Alert world plan) (honored world (!createsStructure plan))
    (fun requested s => (requested = true → createsStructure plan = false) ∧ Alert world plan s ∧
      (requested = false → Settled s.history)) guardedEnd := by
  refine .ite (fun honor => ?_) fun ignore => .ret fun s alert => ?_
  · have existing : createsStructure plan = false := by simpa using honor
    exact .adapt poll_alert (fun _ => id) (fun requested s held => ⟨fun _ => existing, held⟩)
  · have creates : createsStructure plan = true := by simpa using ignore
    exact ⟨nofun, alert, fun _ => (alert.creates creates).1⟩

theorem fetchRange_calm (work : List (List Row) × List Row) : Triple (Calm world plan) (fetchRange world plan object work)
      (fun next s => Sum.elim (fun _ => Calm world plan s) (fun _ => Calm world plan s) next) guardedEnd := by
  obtain ⟨pending, output⟩ := work
  cases pending with
  | nil => exact .ret fun _ => id
  | cons range pending =>
    refine .bind (.lift_same fun _ => calm_ends) fun predicate => .given fun _ => ?_
    refine .bind (read_triple (fun s => select_calm s _ _) fun _ => calm_ends) fun result => ?_
    refine .ite (fun _ => ?_) fun _ => ?_
    · exact .ite (fun _ => .fail fun _ => calm_ends) fun _ => .ret fun _ => id
    · have fetched : Triple (Calm world plan) (record (.fetched range.length result.rows.length))
          (fun _ => Calm world plan) guardedEnd := .modify fun s calm => calm.record rfl
      exact .bind fetched fun _ => .ret fun _ => id

theorem fetchSourceRows_calm (rounds : Nat) (identities : List Row) :
    Triple (Calm world plan) (fetchSourceRows world plan object rounds identities) (fun _ => Calm world plan) guardedEnd :=
  Triple.bind (.lift_same fun _ => calm_ends) fun ranges => .given fun _ =>
    Triple.loop_keeps (fun _ => calm_ends) fetchRange_calm rounds (ranges.reverse, [])

theorem flushInsert_calm (statement : Text) (rows : List Row) :
    Triple (Calm world plan) (flushInsert world plan object statement rows) (fun _ => Calm world plan) guardedEnd := by
  refine .bind (write_triple (fun s calm => calm.record rfl) fun s calm => calm_ends (calm.record rfl))
    fun result => ?_
  refine .bind (failedAfterInsert_triple select_calm (fun _ => calm_ends) rows) fun failed => Triple.given fun _ => ?_
  have counted : Triple (Calm world plan) (count (countInsert rows.length result.affectedRows failed))
      (fun _ => Calm world plan) guardedEnd := .modify fun s calm => calm.count rfl
  exact .bind counted fun _ => .ite (fun _ => .fail fun _ => calm_ends) fun _ => .done

theorem insertLoop_calm (rows : List Row) (statement : Text) (buffered : List Row) :
    Triple (Calm world plan) (insertLoop world plan object rows statement buffered) (fun _ => Calm world plan) guardedEnd := by
  induction rows generalizing statement buffered with
  | nil => exact .ite (fun _ => .done) fun _ => flushInsert_calm statement buffered
  | cons row rest ih =>
    refine .ite (fun _ => .fail fun _ => calm_ends) fun _ => .ite (fun _ => ?_) fun _ => ih _ _
    exact .bind (flushInsert_calm statement buffered) fun _ => ih _ _

theorem insertRows_calm (rows : List Row) : Triple (Calm world plan) (insertRows world plan object rows) (fun _ => Calm world plan) guardedEnd :=
  Triple.ite (fun _ => .done) fun _ => insertLoop_calm rows _ []

theorem missingIdentities_calm (existing : Finset Text) (rows missing : List Row) :
    Triple (Calm world plan) (missingIdentities world existing rows missing) (fun _ => Calm world plan) guardedEnd := by
  induction rows generalizing missing with
  | nil => exact .done
  | cons row rest ih =>
    refine .bind (.lift_same fun _ => calm_ends) fun key => .given fun _ => ?_
    refine .ite (fun _ => ?_) fun _ => ih _
    have skipped : Triple (Calm world plan) (count (addSkipped 1)) (fun _ => Calm world plan) guardedEnd :=
      Triple.modify fun s calm => calm.count rfl
    exact .bind skipped fun _ => ih missing

/-- A page goes on, or it ends the table with the run cancelled or not. -/
def PageEnd (world : World) (plan : SqlPreparedPlan) (s : Journal Event) : Prop := Calm world plan s ∨ Stopped s

theorem honored_page {β : Type} {next : Sync Event (β ⊕ Unit)} (goes : Triple (Calm world plan) next
      (fun next s => Sum.elim (fun _ => Calm world plan s) (fun _ => PageEnd world plan s) next) guardedEnd) : Triple (Alert world plan)
      (honored world (!createsStructure plan) >>= fun requested =>
        if requested then do count cancel; pure (.inr ()) else next)
      (fun next s => Sum.elim (fun _ => Calm world plan s) (fun _ => PageEnd world plan s) next) guardedEnd := by
  refine .bind honored_alert fun requested => .ite (fun set => ?_) fun clear => ?_
  · have marked : Triple (fun s => (requested = true → createsStructure plan = false) ∧ Alert world plan s ∧
        (requested = false → Settled s.history)) (count cancel) (fun _ => PageEnd world plan) guardedEnd :=
      Triple.modify fun s ⟨existing, alert, _⟩ => .inr ⟨rfl, alert.guarded, alert.types (existing set)⟩
    exact .bind marked fun _ => .ret fun _ => id
  · exact .enter goes (fun s ⟨_, alert, settled⟩ => ⟨alert, settled (Bool.eq_false_iff.mpr clear)⟩)

theorem newTablePage_calm (positions : List Nat) (lastKey : Option (List Value)) :
    Triple (Alert world plan) (newTablePage world plan object (!createsStructure plan) positions lastKey)
      (fun next s => Sum.elim (fun _ => Calm world plan s) (fun _ => PageEnd world plan s) next) guardedEnd := by
  refine honored_page ?_
  refine .bind (read_triple (fun s => select_calm s _ _) fun _ => calm_ends) fun result => ?_
  refine .ite (fun _ => ?_) fun _ => ?_
  · exact .ite (fun _ => .fail fun _ => calm_ends) fun _ => .ret fun _ => .inl
  refine .bind (.lift_same fun _ => calm_ends) fun key => .given fun _ => ?_
  have scanned : Triple (Calm world plan) (count (addScanned result.rows.length result.retainedBytes))
      (fun _ => Calm world plan) guardedEnd := .modify fun s calm => calm.count rfl
  exact .bind scanned fun _ => .bind (insertRows_calm result.rows) fun _ => .ret fun _ => id

theorem existingTablePage_calm (rounds : Nat) (lastKey : Option (List Value)) :
    Triple (Alert world plan) (existingTablePage world plan object rounds (!createsStructure plan) lastKey)
      (fun next s => Sum.elim (fun _ => Calm world plan s) (fun _ => PageEnd world plan s) next) guardedEnd := by
  refine honored_page ?_
  refine .bind (read_triple (fun s => select_calm s _ _) fun _ => calm_ends) fun ids => ?_
  refine .ite (fun _ => ?_) fun _ => ?_
  · exact .ite (fun _ => .fail fun _ => calm_ends) fun _ => .ret fun _ => .inl
  refine .bind (.lift_same fun _ => calm_ends) fun key => .given fun _ => ?_
  have scanned : Triple (Calm world plan) (count (addScanned ids.rows.length ids.retainedBytes))
      (fun _ => Calm world plan) guardedEnd := .modify fun s calm => calm.count rfl
  refine .bind scanned fun _ => ?_
  refine .bind (existingIdentityKeys_triple select_calm (fun _ => calm_ends) ids.rows) fun existing => ?_
  refine .bind (missingIdentities_calm existing ids.rows []) fun missing => ?_
  refine .ite (fun _ => .ret fun _ => id) fun _ => ?_
  refine .enter (honored_page ?_) (fun _ calm => calm.1)
  refine .bind (fetchSourceRows_calm rounds missing) fun rows => ?_
  have warned : Triple (Calm world plan) (warnVanished object missing.length rows.length) (fun _ => Calm world plan)
      guardedEnd :=
    Triple.ite (fun _ => .modify fun s calm => calm.count (cancelled_pushWarning _ _)) fun _ => Triple.done
  exact .bind warned fun _ => .bind (insertRows_calm rows) fun _ => .ret fun _ => id

theorem pages_calm {β : Type} {page : β → Sync Event (β ⊕ Unit)} (paged : ∀ b, Triple (Alert world plan) (page b)
      (fun next s => Sum.elim (fun _ => Calm world plan s) (fun _ => PageEnd world plan s) next) guardedEnd) (rounds : Nat) (b : β) :
    Triple (Alert world plan) (Prog.loop page rounds b) (fun _ => PageEnd world plan) guardedEnd := by
  refine .loop_keeps (fun _ alert => alert.guarded) (fun b => ?_) rounds b
  refine .adapt (paged b) (fun _ => id) (fun next s held => ?_)
  cases next with
  | inl b => exact held.1
  | inr _ => exact held

theorem syncTable_calm (rounds : Nat) : Triple (Alert world plan) (syncTable world plan object rounds (!createsStructure plan))
      (fun _ => PageEnd world plan) guardedEnd := by
  refine .ite (fun _ => pages_calm (existingTablePage_calm rounds) rounds none) fun _ => ?_
  exact .bind (.lift_same fun _ alert => alert.guarded) fun positions => .given fun _ =>
    pages_calm (newTablePage_calm positions) rounds none

end

section
variable {world : World} {plan : SqlPreparedPlan}

theorem deferCancellation_alert (requested deferred : Bool) :
    Triple (Alert world plan) (deferCancellation plan requested deferred) (fun _ => Alert world plan) guardedEnd := by
  refine .ite (fun _ => ?_) fun _ => .done
  have warned (warning : Text) : Triple (Alert world plan) (count (pushWarning warning)) (fun _ => Alert world plan)
      guardedEnd :=
    Triple.modify fun s alert => ⟨(cancelled_pushWarning _ _).trans alert.running, alert.latched, alert.guarded, alert.creates, alert.types⟩
  exact .bind (warned _) fun _ => .done

theorem syncObjects_calm (rounds : Nat) (objects : List SqlPreparedObject) (deferred : Bool) :
    Triple (Calm world plan) (syncObjects world plan rounds objects deferred) (fun _ => PageEnd world plan) guardedEnd := by
  induction objects generalizing deferred with
  | nil => exact .ret fun _ => .inl
  | cons object rest ih =>
    refine .bind (.enter poll_alert (fun s calm => calm.1)) fun first =>
      Triple.ite (fun stops => ?_) fun _ => ?_
    · obtain ⟨_, existing⟩ := Bool.and_eq_true_iff.mp stops
      have marked : Triple (fun s => Alert world plan s ∧ (first = false → Settled s.history)) (count cancel)
          (fun _ => PageEnd world plan) guardedEnd :=
        Triple.modify fun s ⟨alert, _⟩ => .inr ⟨rfl, alert.guarded, alert.types (by simpa using existing)⟩
      exact .bind marked fun _ => .done
    · refine .bind (.adapt poll_alert (fun s held => held.1) (fun _ _ held => held.1))
        fun second => ?_
      refine .bind (deferCancellation_alert second deferred) fun deferred => ?_
      refine .bind (syncTable_calm rounds) fun _ => .getThen fun v => ?_
      refine .ite (fun _ => .ret fun s held => held.2) fun kept => ?_
      have counted : Triple (fun s => s = v ∧ PageEnd world plan s) (count addObject) (fun _ => Calm world plan)
          guardedEnd := by
        rintro s ⟨rfl, calm | stopped⟩
        · exact calm.count rfl
        · exact absurd stopped.1 kept
      exact .bind counted fun _ => ih deferred

/-- Nothing but types was created, or all final statements were executed at the end. -/
def Finished (plan : SqlPreparedPlan) (s : Journal Event) : Prop :=
  Guarded s.history ∧ (OnlyTypes s.history ∨ ∃ before, s.history = before ++ finalWrites plan)

/-- On top of a history these statements of an object were executed. -/
def Written (world : World) (plan : SqlPreparedPlan) (start : List Event) (object : SqlPreparedObject) (done : List Text)
    (s : Journal Event) : Prop :=
  Calm world plan s ∧ s.history = start ++ done.map (finalWrite object)

theorem finalizeObject_writes (object : SqlPreparedObject) (start : List Event) :
    Triple (Written world plan start object []) (finalizeObject world object)
      (fun _ => Written world plan start object ([] ++ object.finalStatements)) guardedEnd := by
  refine Triple.forEach_prefix object.finalStatements [] fun before statement after _ => ?_
  refine executeStatement_triple (fun s held => ⟨held.1.record rfl, ?_⟩) (fun s held => calm_ends (held.1.record rfl))
    fun s held => calm_ends held.1
  rw [Journal.history_record, held.2, append_assoc]
  simp [finalWrite]

theorem finalize_writes (objects : List SqlPreparedObject) (start : List Event) :
    Triple (fun s => Calm world plan s ∧ s.history = start) (Prog.forEach objects (finalizeObject world)) (fun _ s => Calm world plan s ∧
        s.history = start ++ objects.flatMap fun object => object.finalStatements.map (finalWrite object)) guardedEnd := by
  induction objects generalizing start with
  | nil => exact .ret fun s held => ⟨held.1, by rw [held.2, flatMap_nil, append_nil]⟩
  | cons object rest ih =>
    have first : Triple (fun s => Calm world plan s ∧ s.history = start) (finalizeObject world object)
        (fun _ s => Calm world plan s ∧ s.history = start ++ object.finalStatements.map (finalWrite object)) guardedEnd :=
      Triple.enter (finalizeObject_writes object start) (fun s held => ⟨held.1, by rw [held.2]; exact (append_nil _).symm⟩)
    refine .bind first fun _ => .adapt (ih _) (fun _ => id) (fun _ s held => ⟨held.1, ?_⟩)
    rw [held.2, flatMap_cons, append_assoc]

theorem finalize_finishes : Triple (PageEnd world plan) (finalize world plan) (fun _ => Finished plan) guardedEnd := by
  refine .getThen fun v => .ite (fun cancelled => .ret ?_) fun kept => ?_
  · rintro s ⟨rfl, calm | stopped⟩
    · simp [calm.1.running] at cancelled
    · exact ⟨stopped.2.1, .inl stopped.2.2⟩
  refine .adapt (@finalize_writes world plan plan.objects v.history) ?_ (fun _ s held => ?_)
  · rintro s ⟨rfl, calm | stopped⟩
    · exact ⟨calm, rfl⟩
    · exact absurd stopped.1 kept
  · exact ⟨calm_ends held.1, .inr ⟨v.history, held.2⟩⟩

theorem mark_finished (deferred : Bool) : Triple (Finished plan) (if deferred then count cancel else pure ()) (fun _ => Finished plan) guardedEnd :=
  Triple.ite (fun _ => .modify fun _ held => held) fun _ => .done

theorem runSqlSync_finishes (rounds : Nat) : Triple (fun s => s = {}) (runSqlSync world plan rounds) (fun _ => Finished plan) guardedEnd := by
  have fresh : Building plan {} := ⟨nofun, rfl, fun _ => nofun⟩
  refine .bind (.lift_same ?_) fun unchanged => .given fun _ => ?_
  · rintro s rfl
    exact fresh.guarded
  refine .ite (fun _ => .fail ?_) fun _ => ?_
  · rintro s rfl
    exact fresh.guarded
  have polled : Triple (fun s => s = {}) (cancellationRequested world)
      (fun requested s => if requested then Finished plan s else Building plan s) guardedEnd := by
    refine cancellationRequested_triple ?_
    rintro s rfl
    cases flagSet world.cancelAt [] with
    | true => exact ⟨fresh.guarded.snoc rfl, .inl nofun⟩
    | false => exact fresh.record nofun nofun
  refine .bind polled fun requested => .ite (fun set => ?_) fun clear => ?_
  · exact .modify fun s held => by
      rw [if_pos set] at held
      exact held
  have started : Triple (fun s => if requested then Finished plan s else Building plan s) (createStructures world plan)
      (fun _ => Calm world plan) guardedEnd :=
    Triple.adapt createStructures_builds (fun s held => by rwa [if_neg clear] at held)
      (fun _ _ => calm_of_progress)
  refine .bind started fun _ => .bind (syncObjects_calm rounds plan.objects false) fun deferred => ?_
  exact .bind finalize_finishes fun _ => mark_finished deferred

/-- Whatever happens, a run that is cancelled before anything was created writes
    nothing more, and a run that ends has either created nothing but types, which
    have no final statements, or has executed all final statements. -/
theorem runSqlSync_cancellation (world : World) (plan : SqlPreparedPlan) (rounds : Nat) :
    (∀ s, runSqlSync world plan rounds {} = (.ok (), s) → ∀ purpose sql, .write purpose sql true ∈ s.history →
      builds purpose = true → purpose ≠ .enumType → ∀ object ∈ plan.objects, ∀ statement ∈ object.finalStatements,
        .write (.final object) statement true ∈ s.history) ∧
    ∀ before after, (runSqlSync world plan rounds {}).2.history = before ++ .poll true :: after → ¬ Created before →
      ∀ event ∈ after, writes event = false := by
  have ended := @runSqlSync_finishes world plan rounds {} rfl
  constructor
  · intro s done purpose sql written building other object mem statement final
    rw [done] at ended
    rcases ended.2 with only | ⟨before, whole⟩
    · exact absurd (only purpose sql written building) other
    · rw [whole]
      refine mem_append_right before (mem_flatMap.mpr ⟨object, mem, ?_⟩)
      exact mem_map_of_mem final
  · revert ended
    cases runSqlSync world plan rounds {} with
    | mk outcome s =>
      cases outcome with
      | ok _ => exact fun ended => ended.1
      | error _ => exact id
      | running => exact id

end

private theorem id_listed : (["id"] : List Text) ≠ [] := List.cons_ne_nil _ _

def items : SqlPreparedObject where
  source := "items"
  target := "items"
  identity := ["id"]
  writableColumns := ["id"]
  sourceTextColumns := []
  targetExists := false
  createStatement := some "CREATE TABLE items (id int);"
  postCreateStatements := []
  finalStatements := ["CREATE INDEX first ON items (id);"]
  hasIdentityAlways := false
  identified := id_listed
  created := rfl

private theorem postgres_supported : DriverKind.Postgres = .Mysql ∨ DriverKind.Postgres = .Postgres := .inr rfl

def itemsPlan : SqlPreparedPlan where
  engine := .Postgres
  sourceNamespace := "public"
  targetNamespace := "public"
  namespaceExists := true
  namespaceCreate := none
  preCreateStatements := []
  postgresEnums := []
  objects := [items]
  supported := postgres_supported
  placed := Option.isSome_none
  sequenced := nofun

/-- Databases that take every statement, and a request after the table was created. -/
def impatient : World where
  execute _ _ _ := .ok {}
  targetEnums _ := .ok []
  snapshotUnchanged := .ok true
  cancelAt := some 2
  identityKey _ := .ok []

/-- The index is created although the run is cancelled. -/
theorem runSqlSync_cancellation_deferred :
    .write (.final items) "CREATE INDEX first ON items (id);" true ∈ (runSqlSync impatient itemsPlan 5 {}).2.history ∧
      (runSqlSync impatient itemsPlan 5 {}).2.summary.cancelled = true := by
  refine ⟨?_, rfl⟩
  exact (runSqlSync_cancellation impatient itemsPlan 5).1 _ rfl (.create items) "CREATE TABLE items (id int);"
    (.tail _ (.head _)) rfl nofun items (.head _) _ (.head _)

end Ramag.SyncCancel
