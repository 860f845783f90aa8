import Mathlib
import Ramag.ClipboardService
import Ramag.Runs

/-!
Runs of the clipboard service. What each operation leaves as it was is said
first, then that the items and the index of their hashes are those of the
tables of the store, then what a run is and what is remembered of it.
-/
namespace Ramag.ClipboardRuns
open Strings Domain ClipFilter OrderedTables ClipStore ClipIndex ClipboardService List Option
open ClipboardService.Service

variable {p : Platform} {s : Service} {faults : Faults}

/-- The items and the index of their hashes are the same. -/
def SameItems (left right : Service) : Prop := left.clips = right.clips ∧ left.byHash = right.byHash

theorem SameItems.trans {first second third : Service} (one : SameItems first second) (two : SameItems second third) :
    SameItems first third := ⟨one.1.trans two.1, one.2.trans two.2⟩

/-- The pending deletions and their tokens are the same. -/
def SamePending (left right : Service) : Prop := left.pending = right.pending ∧ left.nextToken = right.nextToken

theorem SamePending.trans {first second third : Service} (one : SamePending first second) (two : SamePending second third) :
    SamePending first third := ⟨one.1.trans two.1, one.2.trans two.2⟩

theorem putMedia_same (s : Service) (path : Text) (content : Bytes) :
    SameItems (s.putMedia path content) s ∧ SamePending (s.putMedia path content) s := by
  rw [putMedia]
  split_ifs <;> exact ⟨⟨rfl, rfl⟩, rfl, rfl⟩

theorem persistMedia_same (s : Service) (path : Text) (content : Bytes) (written : Written) :
    SameItems (s.persistMedia path content written).2 s ∧ SamePending (s.persistMedia path content written).2 s := by
  cases written with
  | done => exact putMedia_same s path content
  | failed left =>
    cases left with
    | false => exact ⟨⟨rfl, rfl⟩, rfl, rfl⟩
    | true => exact putMedia_same s path content

theorem cleanupMedia_same (s : Service) (paths : List Text) (faults : Faults) :
    SameItems (s.cleanupMedia paths faults) s ∧ SamePending (s.cleanupMedia paths faults) s := by
  induction paths generalizing s with
  | nil => exact ⟨⟨rfl, rfl⟩, rfl, rfl⟩
  | cons path paths ih =>
    have first : SameItems (s.removeMedia path faults) s ∧ SamePending (s.removeMedia path faults) s := by
      rw [removeMedia]
      split_ifs <;> exact ⟨⟨rfl, rfl⟩, rfl, rfl⟩
    have rest := ih (s.removeMedia path faults)
    exact ⟨rest.1.trans first.1, rest.2.trans first.2⟩

theorem cleanupMedia_get (s : Service) (paths : List Text) (faults : Faults) (path : Text) : (s.cleanupMedia paths faults).media.get path =
      if path ∈ paths ∧ path ∉ faults.stuck then none else s.media.get path := by
  rw [cleanupMedia]
  induction paths generalizing s with
  | nil => simp
  | cons other paths ih =>
    rw [foldl_cons, ih, removeMedia]
    by_cases stuck : other ∈ faults.stuck
    · rw [if_pos stuck]
      by_cases same : path = other
      · subst same
        simp [stuck]
      · simp [same]
    · rw [if_neg stuck, Table.get_remove]
      by_cases same : path = other
      · subst same
        simp [stuck]
      · simp [same]

theorem removeOrphans_same (s : Service) (referenced : List Text) (faults : Faults) (removed : Nat) (paths : List Text) :
    SameItems (s.removeOrphans referenced faults removed paths).2 s ∧
      SamePending (s.removeOrphans referenced faults removed paths).2 s := by
  induction paths generalizing s removed with
  | nil => exact ⟨⟨rfl, rfl⟩, rfl, rfl⟩
  | cons path paths ih =>
    rw [removeOrphans]
    split_ifs with used full stuck
    · exact ih s removed
    · exact ⟨⟨rfl, rfl⟩, rfl, rfl⟩
    · exact ih s removed
    have first : SameItems (s.removeMedia path faults) s ∧ SamePending (s.removeMedia path faults) s := by
      rw [removeMedia, if_neg stuck]
      exact ⟨⟨rfl, rfl⟩, rfl, rfl⟩
    have rest := ih (s.removeMedia path faults) (removed + 1)
    exact ⟨rest.1.trans first.1, rest.2.trans first.2⟩

theorem removeOrphans_get (s : Service) (referenced : List Text) (faults : Faults) (removed : Nat) (paths : List Text)
    (path : Text) : (s.removeOrphans referenced faults removed paths).2.media.get path = s.media.get path ∨
      path ∈ paths ∧ path ∉ referenced := by
  induction paths generalizing s removed with
  | nil => exact .inl rfl
  | cons other paths ih =>
    rw [removeOrphans]
    split_ifs with used full stuck
    · exact (ih s removed).imp_right fun ⟨listed, free⟩ => ⟨mem_cons_of_mem _ listed, free⟩
    · exact .inl rfl
    · exact (ih s removed).imp_right fun ⟨listed, free⟩ => ⟨mem_cons_of_mem _ listed, free⟩
    by_cases same : path = other
    · exact .inr ⟨same ▸ mem_cons_self, same ▸ used⟩
    have kept : (s.removeMedia other faults).media.get path = s.media.get path := by
      rw [removeMedia, if_neg stuck]
      exact Table.get_remove_ne s.media same
    rw [← kept]
    exact (ih (s.removeMedia other faults) (removed + 1)).imp_right fun ⟨listed, free⟩ => ⟨mem_cons_of_mem _ listed, free⟩

theorem stageMedia_same (p : Platform) (s : Service) (captured : CapturedClip) (contentHash : Text)
    (settings : ClipboardSettings) (faults : Faults) : SameItems (s.stageMedia p captured contentHash settings faults).2 s ∧
      SamePending (s.stageMedia p captured contentHash settings faults).2 s := by
  unfold stageMedia
  split
  · next png _ _ =>
    split
    · exact ⟨⟨rfl, rfl⟩, rfl, rfl⟩
    next thumb _ =>
    have one := persistMedia_same s (imageFile p contentHash) png faults.image
    rcases first : s.persistMedia (imageFile p contentHash) png faults.image with ⟨_ | _, s₁⟩
    · simp only [first] at one ⊢
      exact one
    have two := persistMedia_same s₁ (thumbFile p contentHash) thumb faults.thumb
    rcases second : s₁.persistMedia (thumbFile p contentHash) thumb faults.thumb with ⟨_ | _, s₂⟩
    · have three := cleanupMedia_same s₂ (s₂.unprotectedStagedMedia [imageFile p contentHash]) faults
      simp only [first, second] at one two ⊢
      exact ⟨three.1.trans (two.1.trans one.1), three.2.trans (two.2.trans one.2)⟩
    · simp only [first, second] at one two ⊢
      exact ⟨two.1.trans one.1, two.2.trans one.2⟩
  · exact ⟨⟨rfl, rfl⟩, rfl, rfl⟩

theorem captureTick_cases (p : Platform) (s : Service) (reading : Option CapturedClip) (tick : CaptureTick)
    (faults : Faults) : s.captureTick p reading tick faults = (.ok false, s) ∨
      ∃ captured hash kind, reading = some captured ∧ decideCapture p captured tick.settings = .Record hash kind ∧
        s.captureTick p reading tick faults = s.record p captured kind hash tick faults := by
  unfold captureTick
  split_ifs with disabled
  · exact .inl rfl
  cases reading with
  | none => exact .inl rfl
  | some captured =>
    dsimp only
    cases decided : decideCapture p captured tick.settings with
    | Skip reason => exact .inl rfl
    | Record hash kind => exact .inr ⟨captured, hash, kind, rfl, decided, rfl⟩

theorem recordNew_cases (p : Platform) (s : Service) (captured : CapturedClip) (kind : ClipKind) (contentHash : Text)
    (tick : CaptureTick) (faults : Faults) : ((s.recordNew p captured kind contentHash tick faults).1 ≠ .ok true ∧
        SameItems (s.recordNew p captured kind contentHash tick faults).2 s) ∨ ∃ paths staged, faults.save = false ∧
        s.stageMedia p captured contentHash tick.settings faults = (.ok (some paths), staged) ∧
        s.recordNew p captured kind contentHash tick faults = (.ok true,
          ((staged.clipSave (newItem p captured kind contentHash tick paths)).protectItemMedia
            (newItem p captured kind contentHash tick paths)).prune tick.doomed faults) := by
  have same := (stageMedia_same p s captured contentHash tick.settings faults).1
  rw [recordNew]
  generalize s.stageMedia p captured contentHash tick.settings faults = result at same ⊢
  obtain ⟨outcome, staged⟩ := result
  match outcome with
  | .error error | .ok none => exact .inl ⟨nofun, same⟩

  | .ok (some paths) =>
    split_ifs with fails
    · exact .inl ⟨nofun, (cleanupMedia_same staged _ faults).1.trans same⟩
    · exact .inr ⟨paths, staged, by simpa using fails, rfl, rfl⟩

/-- The kind that a content is recorded under. -/
def kindOf : Payload → ClipKind
  | .files _ => .Files
  | .image _ => .Image
  | .text content => classifyText content

theorem classifyText_textual (t : Text) : classifyText t ≠ .Files ∧ classifyText t ≠ .Image := by
  unfold classifyText
  dsimp only
  split_ifs <;> exact ⟨nofun, nofun⟩

theorem decideCapture_record {captured : CapturedClip} {settings : ClipboardSettings} {hash : Text} {kind : ClipKind}
    (decided : decideCapture p captured settings = .Record hash kind) :
    ∃ payload, captured.payload = some payload ∧ hash = p.hash payload ∧ kind = kindOf payload := by
  unfold decideCapture at decided
  rw [CapturedClip.payload]
  split at decided
  · cases decided
  split at decided
  · next held =>
    split at decided
    · cases decided
    · cases decided
      exact ⟨_, if_pos held, rfl, rfl⟩
  · next bare =>
    rw [if_neg bare]
    split at decided
    · next png found =>
      rw [found]
      split at decided
      · cases decided
      split at decided
      · cases decided
      · split_ifs at decided with sized
        cases decided
        exact ⟨_, rfl, rfl, rfl⟩
    · next absent =>
      rw [absent]
      split at decided
      · next text found =>
        rw [found]
        split_ifs at decided with empty long
        cases decided
        exact ⟨_, rfl, rfl, rfl⟩
      · cases decided

theorem resolve_unread (p : Platform) (s : Service) (captured : CapturedClip) (kind : ClipKind) (hash : Text)
    (unread : faults.find = true) : s.resolve p captured kind hash faults = .error faults.error := by
  rw [resolve, clipFindByHash, if_pos unread]

theorem record_unsaved (p : Platform) (s : Service) (captured : CapturedClip) (kind : ClipKind) (hash : Text)
    (tick : CaptureTick) (faults : Faults) (unsaved : faults.find = true ∨ faults.save = true) :
    (s.record p captured kind hash tick faults).1 ≠ .ok true ∧ SameItems (s.record p captured kind hash tick faults).2 s := by
  rw [record]
  rcases resolved : s.resolve p captured kind hash faults with error | existing | contentHash
  · exact ⟨nofun, rfl, rfl⟩
  · have reads : faults.find ≠ true := fun unread => by
      simp [resolve_unread p s captured kind hash unread] at resolved
    simp [touchFound, unsaved.resolve_left reads, SameItems]
  have reads : faults.find ≠ true := fun unread => by simp [resolve_unread p s captured kind hash unread] at resolved
  rcases recordNew_cases p s captured kind contentHash tick faults with same | ⟨_, _, saves, _⟩
  · exact same
  · simp [unsaved.resolve_left reads] at saves

variable {id : Text} {item : Clip}

theorem currentClip_ok (found : s.currentClip id faults = .ok item) : s.clips.get id = some item := by
  rw [currentClip] at found
  split_ifs at found
  cases held : s.clips.get id with
  | none => simp [held] at found
  | some current =>
    rw [held] at found
    rw [Except.ok.inj found]

theorem findByHash_stored {hash : Text} (found : s.clipFindByHash hash faults = .ok (some item)) : ∃ id, s.clips.get id = some item := by
  rw [clipFindByHash] at found
  split_ifs at found
  split at found
  · cases found
  next id _ =>
  split at found
  · next held =>
    cases found
    exact ⟨id, held⟩
  · cases found

theorem delete_cases (s : Service) (id : Text) (faults : Faults) :
    ((s.delete id faults).2 = s ∧ ∀ token, (s.delete id faults).1 ≠ .ok (some token)) ∨ ∃ current, s.clips.get id = some current ∧
        (current.media = [] ∧ s.delete id faults = (.ok none, s.clipDelete current.id.text) ∨ current.media ≠ [] ∧ s.delete id faults =
            (.ok (some ((s.nextToken + 1) % U64_VALUES)), { s.clipDelete current.id.text with
              nextToken := (s.nextToken + 1) % U64_VALUES
              pending := s.pending.insert current.id.text ⟨(s.nextToken + 1) % U64_VALUES, current.media⟩ })) := by
  have parts (id : Text) : (s.clipDelete id).pending = s.pending ∧ (s.clipDelete id).nextToken = s.nextToken := by
    rw [clipDelete]
    split <;> exact ⟨rfl, rfl⟩
  unfold Service.delete
  cases found : s.currentClip id faults with
  | error error => exact .inl ⟨rfl, nofun⟩
  | ok current =>
    dsimp only
    by_cases unsaved : faults.save = true
    · rw [if_pos unsaved]
      exact .inl ⟨rfl, nofun⟩
    rw [if_neg unsaved]
    refine .inr ⟨current, currentClip_ok found, ?_⟩
    by_cases bare : current.media = []
    · exact .inl ⟨bare, by simp [bare]⟩
    · refine .inr ⟨bare, ?_⟩
      simp [bare, stage, parts]

/-! ### What a restore does -/

/-- Every pending deletion was one before, under the same token. -/
def Fewer (left right : Service) : Prop :=
  ∀ id pending, left.pending.get id = some pending → ∃ before, right.pending.get id = some before ∧ pending.token = before.token

theorem Fewer.refl (s : Service) : Fewer s s := fun _ pending held => ⟨pending, held, rfl⟩

theorem Fewer.same {left right : Service} (same : left.pending = right.pending) : Fewer left right :=
  fun _ pending held => ⟨pending, same ▸ held, rfl⟩

theorem Fewer.trans {first second third : Service} (one : Fewer first second) (two : Fewer second third) : Fewer first third := by
  intro id pending held
  obtain ⟨before, there, token⟩ := one id pending held
  obtain ⟨first, there, same⟩ := two id before there
  exact ⟨first, there, token.trans same⟩

theorem protectItemMedia_fewer (s : Service) (item : Clip) : Fewer (s.protectItemMedia item) s := by
  intro id pending held
  rw [protectItemMedia, protectPaths, Table.get_map] at held
  obtain ⟨before, there, rfl⟩ := map_eq_some_iff.mp held
  exact ⟨before, there, rfl⟩

theorem remove_fewer (s : Service) (id : Text) : Fewer { s with pending := s.pending.remove id } s := by
  intro other pending held
  rw [Table.get_remove] at held
  split_ifs at held
  exact ⟨pending, held, rfl⟩

/-- What a restore may change: not the media files, and no token. -/
def Around (left right : Service) : Prop :=
  left.media = right.media ∧ left.nextToken = right.nextToken ∧ Fewer left right

/-- What was deleted before a restore that saves it again. -/
def WasDeleted (s s' : Service) (item : Clip) : Prop :=
  (s.pending.get item.id.text).isSome = true ∧ s'.pending.get item.id.text = none

theorem restoreItem_cases (s : Service) (item : Clip) (duplicate : Option Clip) (pending : Option PendingMediaDelete)
    (faults : Faults) (taken : ∀ held, pending = some held → s.pending.get item.id.text = none) :
    (SameItems (s.restoreItem item duplicate pending faults).2 s ∧ ((s.restoreItem item duplicate pending faults).2 = s ∨
          (s.restoreItem item duplicate pending faults).2 = s.protectItemMedia item ∨
          ∃ held, pending = some held ∧ (s.restoreItem item duplicate pending faults).2 =
            { s with pending := s.pending.insert item.id.text held }) ∧
        ((s.restoreItem item duplicate pending faults).1 = .ok () →
          ∃ existing, duplicate = some existing ∧ clipItemsSharePayload existing item = true)) ∨
      (faults.save = false ∧ (duplicate.any fun existing => existing.id ≠ item.id && clipItemsSharePayload existing item) = false ∧
        s.restoreItem item duplicate pending faults = (.ok (), (s.clipSave item).protectItemMedia item)) := by
  rw [restoreItem]
  split_ifs with shared fails
  · refine .inl ⟨⟨rfl, rfl⟩, .inr (.inl rfl), fun _ => ?_⟩
    cases duplicate with
    | none => simp at shared
    | some existing =>
      simp only [any_some, Bool.and_eq_true] at shared
      exact ⟨existing, rfl, shared.2⟩
  · cases pending with
    | none => exact .inl ⟨⟨rfl, rfl⟩, .inl rfl, nofun⟩
    | some held =>
      refine .inl ?_
      simp only [map_some, getD_some, putBack, taken held rfl, isSome_none, Bool.false_eq_true, if_false]
      exact ⟨⟨rfl, rfl⟩, .inr (.inr ⟨held, rfl, rfl⟩), nofun⟩
  · exact .inr ⟨by simpa using fails, by simpa using shared, rfl⟩

/-- A restore leaves the items as they are, and then succeeds only if the item or another with its content is there; or it
    saves the item, whose deletion was pending if it has media files. -/
theorem restore_cases (s : Service) (item : Clip) (faults : Faults) : Around (s.restore item faults).2 s ∧
    (SameItems (s.restore item faults).2 s ∧ ((s.restore item faults).1 = .ok () → (s.clips.get item.id.text).isSome = true ∨
          ∃ existing, s.clipFindByHash item.contentHash faults = .ok (some existing) ∧ clipItemsSharePayload existing item = true) ∨
      ∃ duplicate, faults.find = false ∧ faults.save = false ∧ s.clips.get item.id.text = none ∧
        s.clipFindByHash item.contentHash faults = .ok duplicate ∧
        (duplicate.any fun existing => existing.id ≠ item.id && clipItemsSharePayload existing item) = false ∧
        SameItems (s.restore item faults).2 (s.clipSave item) ∧ (item.media = [] ∨ WasDeleted s (s.restore item faults).2 item)) := by
  have refl : Around s s := ⟨rfl, rfl, .refl s⟩
  unfold restore
  by_cases unread : faults.find = true
  · rw [if_pos unread]
    exact ⟨refl, .inl ⟨⟨rfl, rfl⟩, nofun⟩⟩
  by_cases there : (s.clips.get item.id.text).isSome = true
  · rw [if_neg unread, if_pos there]
    exact ⟨refl, .inl ⟨⟨rfl, rfl⟩, fun _ => .inl there⟩⟩
  rw [if_neg unread, if_neg there]
  have reads : faults.find = false := by simpa using unread
  have absent : s.clips.get item.id.text = none := by simpa using there
  cases found : s.clipFindByHash item.contentHash faults with
  | error error => exact ⟨refl, .inl ⟨⟨rfl, rfl⟩, nofun⟩⟩
  | ok duplicate =>
    dsimp only
    split_ifs with media
    · have removed := remove_fewer s item.id.text
      have gone : (s.pending.remove item.id.text).get item.id.text = none := Table.get_remove_self _ _
      cases held : s.pending.get item.id.text with
      | none =>
        simp only [takeForRestore, held]
        exact ⟨⟨rfl, rfl, removed⟩, .inl ⟨⟨rfl, rfl⟩, nofun⟩⟩
      | some pending =>
        simp only [takeForRestore, held]
        set s₁ : Service := { s with pending := s.pending.remove item.id.text } with s₁_is
        rcases restoreItem_cases s₁ item duplicate (some pending) faults (fun _ _ => gone) with
          ⟨same, states, done⟩ | ⟨saves, apart, result⟩
        · refine ⟨?_, .inl ⟨same, fun ok => .inr ?_⟩⟩
          · rcases states with state | state | ⟨_, ⟨⟩, state⟩
            · rw [state]
              exact ⟨rfl, rfl, removed⟩
            · rw [state]
              exact ⟨rfl, rfl, (protectItemMedia_fewer s₁ item).trans removed⟩
            rw [state]
            refine ⟨rfl, rfl, fun id other found => ?_⟩
            rw [Table.get_insert] at found
            split_ifs at found with own
            · cases found
              exact ⟨_, own ▸ held, rfl⟩
            · exact removed id other found
          · obtain ⟨existing, rfl, shared⟩ := done ok
            exact ⟨existing, rfl, shared⟩
        · rw [result]
          refine ⟨⟨rfl, rfl, (protectItemMedia_fewer _ item).trans removed⟩,
            .inr ⟨duplicate, reads, saves, absent, rfl, apart, ⟨rfl, rfl⟩, .inr ⟨by rw [held]; rfl, ?_⟩⟩⟩
          show ((s.pending.remove item.id.text).map _).get item.id.text = none
          rw [Table.get_map, gone]
          rfl
    · have bare : item.media = [] := by
        rw [Bool.or_eq_true, not_or] at media
        simp [Clip.media, not_isSome_iff_eq_none.mp media.1, not_isSome_iff_eq_none.mp media.2]
      rcases restoreItem_cases s item duplicate none faults nofun with ⟨same, states, done⟩ | ⟨saves, apart, result⟩
      · refine ⟨?_, .inl ⟨same, fun ok => .inr ?_⟩⟩
        · rcases states with state | state | ⟨_, ⟨⟩, _⟩
          · rwa [state]
          · rw [state]
            exact ⟨rfl, rfl, protectItemMedia_fewer s item⟩
        · obtain ⟨existing, rfl, shared⟩ := done ok
          exact ⟨existing, rfl, shared⟩
      · rw [result]
        exact ⟨⟨rfl, rfl, protectItemMedia_fewer _ item⟩, .inr ⟨duplicate, reads, saves, absent, rfl, apart, ⟨rfl, rfl⟩, .inl bare⟩⟩

theorem finalize_cases (s : Service) (id : Text) (token : Nat) (faults : Faults) :
    ((s.finalizeDeletedMedia id token faults).2 = s ∧ ∀ pending, s.pending.get id = some pending → pending.token ≠ token) ∨
      ∃ pending, s.pending.get id = some pending ∧ pending.token = token ∧ (s.finalizeDeletedMedia id token faults).2 =
        Service.cleanupMedia { s with pending := s.pending.remove id } pending.paths faults := by
  rw [finalizeDeletedMedia, expire]
  cases held : s.pending.get id with
  | none => exact .inl ⟨rfl, nofun⟩
  | some pending =>
    by_cases same : pending.token = token
    · exact .inr ⟨pending, rfl, same, by simp [same]⟩
    · refine .inl ⟨by simp [same], ?_⟩
      rintro _ ⟨⟩
      exact same

theorem cleanupOrphans_same (s : Service) (mediaPaths : List Text) (faults : Faults) :
    SameItems (s.cleanupOrphans mediaPaths faults).2 s := by
  rw [Service.cleanupOrphans]
  split_ifs
  · exact ⟨rfl, rfl⟩
  · exact (removeOrphans_same s s.clipMediaPaths faults 0 mediaPaths).1

theorem finalize_same (s : Service) (id : Text) (token : Nat) (faults : Faults) :
    SameItems (s.finalizeDeletedMedia id token faults).2 s := by
  obtain ⟨same, _⟩ | ⟨pending, _, _, same⟩ := finalize_cases s id token faults
  · rw [same]
    exact ⟨rfl, rfl⟩
  · rw [same]
    exact (cleanupMedia_same _ _ faults).1

variable {ρ : Type} {cipher : Cipher ρ}

/-- The tables of the store hold the items, and the same index of hashes. -/
structure Mirrors (cipher : Cipher ρ) (store : ClipTables ρ) (s : Service) : Prop where
  items : Represents cipher store fun id => (s.clips.get id).map Clip.toClipItem
  hashes : store.byHash = s.byHash

theorem mirrors_empty (ready : Bool) : Mirrors cipher (.empty ready) .empty := ⟨represents_empty ready, rfl⟩

section
variable {store next : ClipTables ρ} (mirrors : Mirrors cipher store s)
include mirrors

theorem save_mirrors
    (done : ClipStore.save cipher item.toClipItem store = .ok next) : Mirrors cipher next (s.clipSave item) := by
  constructor
  · convert save_represents mirrors.items done using 1
    funext id
    rw [clipSave, Table.get_insert, Function.update_apply]
    split_ifs <;> rfl
  obtain ⟨enc, encoded, ⟨free, rfl⟩ | ⟨old, held, rfl⟩⟩ := save_cases mirrors.items done
  · have absent : s.clips.get item.id.text = none := map_eq_none_iff.mp free
    simp [putEntry, clipSave, absent, mirrors.hashes]
  · obtain ⟨clip, there, rfl⟩ := map_eq_some_iff.mp held
    simp only [clipSave, there, putEntry, removeEntry, mirrors.hashes]
    exact (removeHash_insert _ _ _ _).symm

theorem delete_mirrors
    (done : ClipStore.delete id store = .ok next) : Mirrors cipher next (s.clipDelete id) := by
  have held := delete_represents mirrors.items done
  obtain ⟨free, rfl⟩ | ⟨old, there, rfl⟩ := ClipIndex.delete_cases mirrors.items done
  · have absent : s.clips.get id = none := map_eq_none_iff.mp free
    rw [clipDelete, absent]
    exact mirrors
  obtain ⟨clip, stored, rfl⟩ := map_eq_some_iff.mp there
  rw [clipDelete, stored]
  refine ⟨?_, congrArg (removeHashIfOwned · clip.contentHash id) mirrors.hashes⟩
  convert held using 1
  funext other
  rw [Table.get_remove, Function.update_apply]
  split_ifs <;> rfl

theorem removeDoomed_mirrors (doomed : List Text)
    (done : removeDoomed store doomed = .ok next) : ∃ s', s.clipRemoveDoomed doomed = some s' ∧ Mirrors cipher next s' := by
  induction doomed generalizing store s with
  | nil =>
    cases done
    exact ⟨s, rfl, mirrors⟩
  | cons id doomed ih =>
    rw [removeDoomed, mirrors.items.metas] at done
    cases there : s.clips.get id with
    | none => simp [there] at done
    | some clip =>
      rw [there] at done
      obtain ⟨pair, read, done⟩ := bind_ok done
      rw [decodeMeta_itemMeta clip.toClipItem id pair read] at done
      have removed : ClipStore.delete id store = .ok (removeEntry id (itemKey clip.toClipItem) clip.contentHash store) := by
        rw [ClipStore.delete, storedMeta, mirrors.items.metas, there]
        simp [read, decodeMeta_itemMeta clip.toClipItem id pair read, Except.map, bind, Except.bind]
      rw [clipRemoveDoomed, there, if_pos isSome_some]
      exact ih (delete_mirrors mirrors removed) done

end

theorem clear_mirrors (s : Service) : Mirrors cipher ClipStore.clear { s with clips := .empty, byHash := .empty } :=
  ⟨represents_empty true, rfl⟩

inductive Act
  | capture (reading : Option CapturedClip) (tick : CaptureTick)
  | copy (id : Text) (now : DateTime)
  | delete (id : Text)
  | restore (item : Clip)
  | finalize (id : Text) (token : Nat)
  | cleanupOrphans (mediaPaths : List Text)
  | clear

def Act.run (p : Platform) (s : Service) (faults : Faults) : Act → Service
  | .capture reading tick => (s.captureTick p reading tick faults).2
  | .copy id now => (s.copyToClipboard id now faults).2
  | .delete id => (s.delete id faults).2
  | .restore item => (s.restore item faults).2
  | .finalize id token => (s.finalizeDeletedMedia id token faults).2
  | .cleanupOrphans mediaPaths => (s.cleanupOrphans mediaPaths faults).2
  | .clear => (s.clear faults).2

/-- The service, and what is remembered of the run: every version of an item that was stored, the image and the thumbnail
    captured under an id, and the tokens of the deletions of an id. -/
structure Traced where
  service : Service
  ever : List Clip
  images : Table Text (Bytes × Bytes)
  issued : List (Text × Nat)

def Traced.start : Traced := ⟨.empty, [], .empty, []⟩

def capturedImages (p : Platform) (images : Table Text (Bytes × Bytes)) : Act → Table Text (Bytes × Bytes)
  | .capture (some captured) tick =>
    match captured.imagePng with
    | some png => images.insert tick.id.text (png, (p.makeThumbnail png).getD [])
    | none => images
  | _ => images

theorem clipId_ext {left right : ClipId} (same : left.text = right.text) : left = right := by
  cases left
  cases same
  rfl

theorem capturedImages_other {images : Table Text (Bytes × Bytes)} {act : Act}
    (other : ∀ reading tick, act = .capture reading tick → id ≠ tick.id.text) : (capturedImages p images act).get id = images.get id := by
  unfold capturedImages
  split
  · next captured tick =>
    split
    · exact Table.get_insert_ne _ _ (other _ tick rfl)
    · rfl
  · rfl

def issuedTokens (s : Service) (faults : Faults) : Act → List (Text × Nat)
  | .delete id =>
    match (s.delete id faults).1 with
    | .ok (some token) => [(id, token)]
    | _ => []
  | _ => []

def Traced.next (p : Platform) (t : Traced) (step : Act × Faults) : Traced :=
  let s := step.1.run p t.service step.2
  { service := s
    ever := t.ever ++ s.clips.entries.map (·.2)
    images := capturedImages p t.images step.1
    issued := t.issued ++ issuedTokens t.service step.2 step.1 }

/-- A new item gets an id that no item had, and only what was stored is restored. -/
def Allowed (t : Traced) : Act → Prop
  | .capture _ tick => ∀ item ∈ t.ever, item.id ≠ tick.id
  | .restore item => item ∈ t.ever
  | _ => True

instance (t : Traced) (act : Act) : Decidable (Allowed t act) :=
  match act with
  | .capture _ tick => inferInstanceAs (Decidable (∀ item ∈ t.ever, item.id ≠ tick.id))
  | .restore item => inferInstanceAs (Decidable (item ∈ t.ever))
  | .copy _ _ | .delete _ | .finalize _ _ | .cleanupOrphans _ | .clear => .isTrue trivial

def step (p : Platform) (t : Traced) (act : Act × Faults) : Option Traced := some (t.next p act)

/-- The items of the history. -/
def Stored (s : Service) (item : Clip) : Prop := s.clips.get item.id.text = some item

/-- The content of an item. That of an image is what was captured under its id. -/
def contentOf (images : Table Text (Bytes × Bytes)) (item : Clip) : Option Payload :=
  match item.kind with
  | .Files => some (.files item.files)
  | .Image => (images.get item.id.text).map fun image => .image image.1
  | _ => item.text.map .text

/-- A fingerprint that tells all contents apart. -/
def plainHash : Payload → Text
  | .text content => 't' :: content
  | .image png => 'i' :: png.map fun byte => Char.ofNat byte.toNat
  | .files paths => 'f' :: paths.flatMap fun path => path.flatMap (fun c => ['.', c]) ++ [';']

theorem pathText_inj {left right rest rest' : Text}
    (same : left.flatMap (fun c => ['.', c]) ++ ';' :: rest = right.flatMap (fun c => ['.', c]) ++ ';' :: rest') :
    left = right ∧ rest = rest' := by
  induction left generalizing right with
  | nil =>
    cases right with
    | nil => simpa using same
    | cons c right => simp at same
  | cons c left ih =>
    cases right with
    | nil => simp at same
    | cons d right =>
      simp only [flatMap_cons, cons_append, nil_append, List.cons.injEq, true_and] at same
      obtain ⟨rfl, same⟩ := same
      obtain ⟨rfl, rfl⟩ := ih same
      exact ⟨rfl, rfl⟩

theorem byteChar_inj : Function.Injective fun byte : UInt8 => Char.ofNat byte.toNat := by
  intro left right same
  have small : ∀ byte : UInt8, (Char.ofNat byte.toNat).toNat = byte.toNat := by
    intro byte
    have less := byte.toNat_lt
    have valid : Nat.isValidChar byte.toNat := .inl (by omega)
    simp [Char.ofNat, valid, Char.ofNatAux]
  have numbers := congrArg Char.toNat same
  rw [small, small] at numbers
  exact UInt8.toNat_inj.mp numbers

theorem plainHash_inj : Function.Injective plainHash := by
  intro left right same
  cases left <;> cases right <;> simp only [plainHash, List.cons.injEq, Char.reduceEq, false_and, true_and] at same
  · next left right =>
    induction left generalizing right with
    | nil =>
      cases right with
      | nil => rfl
      | cons path right => simp at same
    | cons path left ih =>
      cases right with
      | nil => simp at same
      | cons path' right =>
        simp only [flatMap_cons, append_assoc, cons_append, nil_append] at same
        obtain ⟨rfl, rest⟩ := pathText_inj same
        have tails := ih right rest
        simp only [Payload.files.injEq] at tails
        rw [tails]
  · next left right => rw [map_injective_iff.mpr byteChar_inj same]
  · rw [same]

def plainPlatform : Platform where
  hash := plainHash
  reverseHash := plainHash
  dir := ['d']
  makeThumbnail := some
  fileName := some

def noFaults : Faults := ⟨.Other [], false, false, false, [], .done, .done, []⟩

def plainTick (id : ClipId) : CaptureTick := ⟨⟨true, true, 100⟩, none, id, ⟨0, epoch_small⟩, []⟩

end Ramag.ClipboardRuns
