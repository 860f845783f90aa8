import Ramag.Domain
import Ramag.Runs

/-!
A record of the preferences that is kept under two keys: as it is now, and as it
was before. A load falls back on the second. A save copies the first over the
second and then replaces the first; each of the two writes may fail and has no
effect then.
-/
namespace Ramag.PluginRecords
open Strings Domain Runs Function

variable {Nonce σ ρ Error : Type}

abbrev Preferences (ρ : Type) := Text → Option ρ

structure Keys where
  primary : Text
  backup : Text
  apart : primary ≠ backup

/-- How snapshots are written into records and read back, the keys of a snapshot, and the errors. -/
structure RecordFormat (Nonce σ ρ Error : Type) where
  encode : Nonce → σ → Except Error ρ
  decode : ρ → Except Error σ
  ensureSize : ρ → Except Error Unit
  keys : σ → Keys
  storageError : DomainError → Error
  recoveryFailed : Error

structure RecordLoad (σ : Type) where
  snapshot : σ
  recoveredFromBackup : Bool

/-- The writes that fail. -/
structure WriteFaults where
  backup : Option DomainError
  primary : Option DomainError

def setPreference (prefs : Preferences ρ) (key : Text) (value : ρ) (fault : Option DomainError) : Result Unit × Preferences ρ :=
  match fault with
  | some error => (.error error, prefs)
  | none => (.ok (), Function.update prefs key (some value))

variable (format : RecordFormat Nonce σ ρ Error)

/-- What is there, or what was there before, or else what there is to begin with. -/
def loadRecord (keys : Keys) (empty : Except Error σ) (prefs : Preferences ρ) : Except Error (RecordLoad σ) :=
  match prefs keys.primary with
  | some raw =>
    match format.decode raw with
    | .ok snapshot => .ok ⟨snapshot, false⟩
    | .error primaryError =>
      match prefs keys.backup with
      | none => .error primaryError
      | some backup =>
        match format.decode backup with
        | .ok snapshot => .ok ⟨snapshot, true⟩
        | .error _ => .error format.recoveryFailed
  | none =>
    match prefs keys.backup with
    | some backup => (format.decode backup).map (⟨·, true⟩)
    | none => empty.map (⟨·, false⟩)

/-- The record that was there is copied unread. -/
def saveRecord (nonce : Nonce) (snapshot : σ) (faults : WriteFaults) (prefs : Preferences ρ) : Except Error Unit × Preferences ρ :=
  match format.encode nonce snapshot with
  | .error error => (.error error, prefs)
  | .ok encoded =>
    let keys := format.keys snapshot
    match prefs keys.primary with
    | some current =>
      match format.ensureSize current with
      | .error error => (.error error, prefs)
      | .ok () =>
        match setPreference prefs keys.backup current faults.backup with
        | (.error error, prefs) => (.error (format.storageError error), prefs)
        | (.ok (), prefs) =>
          let (done, prefs) := setPreference prefs keys.primary encoded faults.primary
          (done.mapError format.storageError, prefs)
    | none =>
      let (done, prefs) := setPreference prefs keys.primary encoded faults.primary
      (done.mapError format.storageError, prefs)

/-- The preferences, with what is remembered of the run: the snapshots that were saved, the last one first, and which of
    the two records were damaged since. A save over a damaged record leaves the second one as good as damaged. -/
structure Kept (σ ρ : Type) where
  prefs : Preferences ρ
  saved : List σ
  primaryHit : Bool
  backupHit : Bool

/-- Between the calls a record can be damaged or lost, and other preferences change. -/
inductive Move (Nonce σ ρ : Type)
  | load
  | save (nonce : Nonce) (snapshot : σ) (faults : WriteFaults)
  | damagePrimary (value : Option ρ)
  | damageBackup (value : Option ρ)
  | elsewhere (key : Text) (value : Option ρ)

def Kept.start : Kept σ ρ := ⟨fun _ => none, [], false, false⟩

def Kept.move (keys : Keys) (s : Kept σ ρ) : Move Nonce σ ρ → Kept σ ρ
  | .load => s
  | .save nonce snapshot faults =>
    match saveRecord format nonce snapshot faults s.prefs with
    | (.ok (), prefs) => ⟨prefs, snapshot :: s.saved, false, s.primaryHit⟩
    | (.error _, prefs) => { s with prefs }
  | .damagePrimary value => { s with prefs := Function.update s.prefs keys.primary value, primaryHit := true }
  | .damageBackup value => { s with prefs := Function.update s.prefs keys.backup value, backupHit := true }
  | .elsewhere key value => { s with prefs := Function.update s.prefs key value }

def step (keys : Keys) (s : Kept σ ρ) (move : Move Nonce σ ρ) : Option (Kept σ ρ) :=
  some (s.move format keys move)

/-- A record that cannot be read, or none. -/
def Damaged (value : Option ρ) : Prop := ∀ raw, value = some raw → ∀ snapshot, format.decode raw ≠ .ok snapshot

/-- Only stored records are damaged. -/
def Possible (keys : Keys) (s : Kept σ ρ) : Move Nonce σ ρ → Prop
  | .load | .save _ _ _ => True
  | .damagePrimary value => (s.prefs keys.primary).isSome = true ∧ Damaged format value
  | .damageBackup value => (s.prefs keys.backup).isSome = true ∧ Damaged format value
  | .elsewhere key _ => key ≠ keys.primary ∧ key ≠ keys.backup

/-- What is saved belongs here, and no save over a damaged record fails between its two writes. -/
def Saving (keys : Keys) (good : σ → Prop) (s : Kept σ ρ) : Move Nonce σ ρ → Prop
  | .save _ snapshot faults => good snapshot ∧
    (s.primaryHit = true → (s.prefs keys.primary).isSome = true → faults.backup = none → faults.primary = none)
  | _ => True

/-- What the two records are good for. -/
structure Safe (keys : Keys) (empty : Except Error σ) (good : σ → Prop) (s : Kept σ ρ) : Prop where
  intact : s.primaryHit = false → loadRecord format keys empty s.prefs =
    match s.saved with
    | [] => empty.map (⟨·, false⟩)
    | last :: _ => .ok ⟨last, false⟩
  recovers : s.primaryHit = true → s.backupHit = false → ∀ last before rest, s.saved = last :: before :: rest →
    ∃ snapshot, loadRecord format keys empty s.prefs = .ok ⟨snapshot, true⟩ ∧ (snapshot = last ∨ snapshot = before)
  fails : ∀ nonce snapshot faults, Saving keys good s (.save nonce snapshot faults) →
    (saveRecord format nonce snapshot faults s.prefs).1 ≠ .ok () →
      loadRecord format keys empty (saveRecord format nonce snapshot faults s.prefs).2 = loadRecord format keys empty s.prefs
  writes : (∀ raw, s.prefs keys.primary = some raw → format.ensureSize raw = .ok ()) →
    ∀ nonce snapshot raw, good snapshot → format.encode nonce snapshot = .ok raw →
      (saveRecord format nonce snapshot ⟨none, none⟩ s.prefs).1 = .ok () ∧
        loadRecord format keys empty (saveRecord format nonce snapshot ⟨none, none⟩ s.prefs).2 = .ok ⟨snapshot, false⟩
  small : s.primaryHit = false → ∀ raw, s.prefs keys.primary = some raw → format.ensureSize raw = .ok ()

/-- What is written of a good snapshot goes under the keys, fits, and reads as that snapshot. -/
structure Faithful (keys : Keys) (good : σ → Prop) : Prop where
  keys : ∀ snapshot, good snapshot → format.keys snapshot = keys
  reads : ∀ nonce snapshot raw, good snapshot → format.encode nonce snapshot = .ok raw → format.decode raw = .ok snapshot
  fits : ∀ nonce snapshot raw, good snapshot → format.encode nonce snapshot = .ok raw → format.ensureSize raw = .ok ()

variable {format} {keys : Keys} {empty : Except Error σ} {good : σ → Prop} {s : Kept σ ρ}
  {prefs : Preferences ρ} {nonce : Nonce} {snapshot : σ} {faults : WriteFaults}

/-- A record that is read as a snapshot and may be copied. -/
def Reads (format : RecordFormat Nonce σ ρ Error) (prefs : Preferences ρ) (key : Text) (snapshot : σ) : Prop :=
  ∃ raw, prefs key = some raw ∧ format.decode raw = .ok snapshot ∧ format.ensureSize raw = .ok ()

theorem load_primary (reads : Reads format prefs keys.primary snapshot) : loadRecord format keys empty prefs = .ok ⟨snapshot, false⟩ := by
  obtain ⟨raw, there, read, -⟩ := reads
  rw [loadRecord, there]
  dsimp only
  rw [read]

theorem load_none (primary : prefs keys.primary = none) (backup : prefs keys.backup = none) :
    loadRecord format keys empty prefs = empty.map (⟨·, false⟩) := by
  rw [loadRecord, primary]
  rw [backup]

theorem load_backup (damaged : Damaged format (prefs keys.primary)) (reads : Reads format prefs keys.backup snapshot) :
    loadRecord format keys empty prefs = .ok ⟨snapshot, true⟩ := by
  obtain ⟨raw, there, read, -⟩ := reads
  rw [loadRecord]
  cases held : prefs keys.primary with
  | none =>
    rw [there]
    dsimp only
    rw [read]
    rfl
  | some primary =>
    cases first : format.decode primary with
    | ok other => exact absurd first (damaged primary held other)
    | error error =>
      dsimp only
      rw [first, there]
      dsimp only
      rw [read]

theorem Reads.other {other : Preferences ρ} {key : Text} (reads : Reads format prefs key snapshot) (same : other key = prefs key) :
    Reads format other key snapshot := by
  obtain ⟨raw, there, rest⟩ := reads
  exact ⟨raw, same.trans there, rest⟩

theorem save_cases (own : format.keys snapshot = keys) (nonce : Nonce) (faults : WriteFaults) (prefs : Preferences ρ) :
    ((saveRecord format nonce snapshot faults prefs).1 ≠ .ok () ∧ ((saveRecord format nonce snapshot faults prefs).2 = prefs ∨
          ∃ raw, prefs keys.primary = some raw ∧ faults.backup = none ∧ faults.primary ≠ none ∧
            (saveRecord format nonce snapshot faults prefs).2 = update prefs keys.backup (some raw))) ∨
      ∃ encoded copied, format.encode nonce snapshot = .ok encoded ∧ (prefs keys.primary = none ∧ copied = prefs ∨
          ∃ raw, prefs keys.primary = some raw ∧ copied = update prefs keys.backup (some raw)) ∧
        saveRecord format nonce snapshot faults prefs = (.ok (), update copied keys.primary (some encoded)) := by
  unfold saveRecord
  cases encodes : format.encode nonce snapshot with
  | error error => exact .inl ⟨nofun, .inl rfl⟩
  | ok encoded =>
    dsimp only
    rw [own]
    cases there : prefs keys.primary with
    | none =>
      cases faults.primary with
      | some error => exact .inl ⟨nofun, .inl rfl⟩
      | none => exact .inr ⟨encoded, prefs, rfl, .inl ⟨rfl, rfl⟩, rfl⟩
    | some raw =>
      dsimp only
      cases format.ensureSize raw with
      | error error => exact .inl ⟨nofun, .inl rfl⟩
      | ok _ =>
        cases faults.backup with
        | some error => exact .inl ⟨nofun, .inl rfl⟩
        | none =>
          cases faults.primary with
          | some error => exact .inl ⟨nofun, .inr ⟨raw, rfl, rfl, nofun, rfl⟩⟩
          | none => exact .inr ⟨encoded, _, rfl, .inr ⟨raw, rfl, rfl⟩, rfl⟩

/-! ### What a run keeps -/

/-- The first record is that of the last saved snapshot unless it is damaged, and the second one that of the last or of
    the one before unless it is. -/
structure Held (format : RecordFormat Nonce σ ρ Error) (keys : Keys) (s : Kept σ ρ) : Prop where
  none : s.saved = [] → s.prefs keys.primary = none ∧ s.prefs keys.backup = none ∧ s.primaryHit = false
  primary : s.primaryHit = false → ∀ last rest, s.saved = last :: rest → Reads format s.prefs keys.primary last
  damaged : s.primaryHit = true → Damaged format (s.prefs keys.primary)
  backup : s.backupHit = false → ∀ last before rest, s.saved = last :: before :: rest →
    Reads format s.prefs keys.backup last ∨ Reads format s.prefs keys.backup before

section
variable (faithful : Faithful format keys good) (held : Held format keys s)
include faithful held

theorem Held.failed
    (saving : Saving keys good s (.save nonce snapshot faults)) (failed : (saveRecord format nonce snapshot faults s.prefs).1 ≠ .ok ()) :
    (saveRecord format nonce snapshot faults s.prefs).2 = s.prefs ∨
      ∃ raw last rest, s.saved = last :: rest ∧ s.primaryHit = false ∧ s.prefs keys.primary = some raw ∧
        format.decode raw = .ok last ∧ format.ensureSize raw = .ok () ∧
          (saveRecord format nonce snapshot faults s.prefs).2 = update s.prefs keys.backup (some raw) := by
  obtain ⟨belongs, cautious⟩ := saving
  rcases save_cases (faithful.keys snapshot belongs) nonce faults s.prefs with
    ⟨-, same | ⟨raw, there, copied, stuck, written⟩⟩ | ⟨encoded, copied, -, -, done⟩
  · exact .inl same
  · have intact : s.primaryHit = false := by
      by_contra hit
      exact stuck (cautious (by simpa using hit) (by rw [there]; rfl) copied)
    cases saved : s.saved with
    | nil => simp [(held.none saved).1] at there
    | cons last rest =>
      obtain ⟨current, first, read, fits⟩ := held.primary intact last rest saved
      rw [there] at first
      cases first
      exact .inr ⟨raw, last, rest, rfl, intact, there, read, fits, written⟩
  · exact absurd (by rw [done]) failed

theorem Held.safe : Safe format keys empty good s := by
  refine ⟨fun intact => ?_, fun hit whole last before rest saved => ?_, fun nonce snapshot faults saving failed => ?_,
    fun small nonce snapshot raw belongs encodes => ?_, fun intact raw there => ?_⟩
  · cases saved : s.saved with
    | nil => exact load_none (held.none saved).1 (held.none saved).2.1
    | cons last rest => exact load_primary (held.primary intact last rest saved)
  · rcases held.backup whole last before rest saved with reads | reads
    · exact ⟨last, load_backup (held.damaged hit) reads, .inl rfl⟩
    · exact ⟨before, load_backup (held.damaged hit) reads, .inr rfl⟩
  · rcases held.failed faithful saving failed with same | ⟨raw, last, rest, -, -, there, read, fits, written⟩
    · rw [same]
    · -- only the second record changed, and the first one reads
      have reads : Reads format s.prefs keys.primary last := ⟨raw, there, read, fits⟩
      rw [written, load_primary reads, load_primary (reads.other (update_of_ne keys.apart _ _))]
  · have stored (prefs : Preferences ρ) : Reads format (update prefs keys.primary (some raw)) keys.primary snapshot :=
      ⟨raw, update_self _ _ _, faithful.reads _ _ _ belongs encodes, faithful.fits _ _ _ belongs encodes⟩
    unfold saveRecord
    rw [encodes]
    dsimp only
    rw [faithful.keys snapshot belongs]
    cases there : s.prefs keys.primary with
    | none => exact ⟨rfl, load_primary (stored _)⟩
    | some current =>
      dsimp only
      rw [small current there]
      exact ⟨rfl, load_primary (stored _)⟩
  · cases saved : s.saved with
    | nil => simp [(held.none saved).1] at there
    | cons last rest =>
      obtain ⟨current, first, -, fits⟩ := held.primary intact last rest saved
      rw [there] at first
      cases first
      exact fits

theorem Held.save
    (saving : Saving keys good s (.save nonce snapshot faults)) : Held format keys (s.move format keys (.save nonce snapshot faults)) := by
  have belongs := saving.1
  have failing := held.failed faithful saving
  have outcomes := save_cases (faithful.keys snapshot belongs) nonce faults s.prefs
  rw [Kept.move]
  generalize saveRecord format nonce snapshot faults s.prefs = outcome at failing outcomes
  obtain ⟨result, prefs⟩ := outcome
  match result with
  | .error error =>
    rcases failing nofun with same | ⟨raw, last, rest, saved, intact, there, read, fits, written⟩
    · subst same
      exact held
    subst written
    refine ⟨fun none => ?_, fun _ last rest saved => ?_, fun hit => ?_, fun _ last' before rest' saved' => ?_⟩
    · simp [(held.none none).1] at there
    · exact (held.primary intact last rest saved).other (update_of_ne keys.apart _ _)
    · exact absurd (intact.symm.trans hit) Bool.false_ne_true
    · have same := saved.symm.trans saved'
      cases same
      exact .inl ⟨raw, update_self _ _ _, read, fits⟩
  | .ok () =>
    obtain ⟨failed, -⟩ | ⟨encoded, copied, encodes, before, done⟩ := outcomes
    · exact absurd rfl failed
    obtain ⟨-, rfl⟩ := Prod.mk.inj done
    refine ⟨nofun, fun _ last rest saved => ?_, nofun, fun intact last older rest saved => ?_⟩
    · obtain ⟨rfl, -⟩ := List.cons.inj saved
      exact ⟨encoded, update_self _ _ _, faithful.reads _ _ _ belongs encodes, faithful.fits _ _ _ belongs encodes⟩
    -- the record that was there is that of the snapshot before, and is now the second one
    obtain ⟨-, saved⟩ := List.cons.inj saved
    obtain ⟨current, first, read, fits⟩ := held.primary intact older rest saved
    rcases before with ⟨absent, -⟩ | ⟨raw, there, rfl⟩
    · simp [absent] at first
    rw [there] at first
    cases first
    refine .inr ⟨current, ?_, read, fits⟩
    dsimp only
    rw [update_of_ne keys.apart.symm, update_self]

theorem Held.move (move : Move Nonce σ ρ)
    (possible : Possible format keys s move) (saving : Saving keys good s move) : Held format keys (s.move format keys move) := by
  cases move with
  | load => exact held
  | save nonce snapshot faults => exact held.save faithful saving
  | damagePrimary value =>
    obtain ⟨stored, damaged⟩ := possible
    refine ⟨fun saved => ?_, nofun, fun _ => ?_, fun whole last before rest saved => ?_⟩
    · simp [(held.none saved).1] at stored
    · change Damaged format (update s.prefs keys.primary value keys.primary)
      rwa [update_self]
    · exact (held.backup whole last before rest saved).imp
        (fun reads => reads.other (update_of_ne keys.apart.symm _ _))
        fun reads => reads.other (update_of_ne keys.apart.symm _ _)
  | damageBackup value =>
    obtain ⟨stored, damaged⟩ := possible
    refine ⟨fun saved => ?_, fun intact last rest saved => ?_, fun hit => ?_, nofun⟩
    · simp [(held.none saved).2.1] at stored
    · exact (held.primary intact last rest saved).other (update_of_ne keys.apart _ _)
    · change Damaged format (update s.prefs keys.backup value keys.primary)
      rw [update_of_ne keys.apart]
      exact held.damaged hit
  | elsewhere key value =>
    obtain ⟨apart, apart'⟩ := possible
    have primary : update s.prefs key value keys.primary = s.prefs keys.primary := update_of_ne apart.symm _ _
    have backup : update s.prefs key value keys.backup = s.prefs keys.backup := update_of_ne apart'.symm _ _
    refine ⟨fun saved => ?_, fun intact last rest saved => ?_, fun hit => ?_, fun whole last before rest saved => ?_⟩
    · exact ⟨primary.trans (held.none saved).1, backup.trans (held.none saved).2.1, (held.none saved).2.2⟩
    · exact (held.primary intact last rest saved).other primary
    · change Damaged format (update s.prefs key value keys.primary)
      rw [primary]
      exact held.damaged hit
    · exact (held.backup whole last before rest saved).imp (fun reads => reads.other backup) fun reads => reads.other backup

end

theorem records_safe (faithful : Faithful format keys good)
    (reached : Reached (step format keys) (fun s move => Possible format keys s move ∧ Saving keys good s move) .start s) :
    Safe format keys empty good s := by
  have start : Held format keys (.start : Kept σ ρ) := ⟨fun _ => ⟨rfl, rfl, rfl⟩, nofun, nofun, nofun⟩
  refine Held.safe faithful (reached.keeps start fun s s' move held fair stepped => ?_)
  cases stepped
  exact held.move faithful move fair.1 fair.2

end Ramag.PluginRecords
