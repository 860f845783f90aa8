import Ramag.ClipboardRuns

/-!
The media files of the clipboard history stay as long as an item of the history
or a deletion that can be taken back needs them, in every run that keeps the
sweep, the end of a deletion, the pruning and the rollback of a capture off the
files of others, and whose new items do not meet a file with another content.
-/
namespace Ramag.ClipboardMedia
open Strings Domain ClipFilter OrderedTables ClipboardService ClipboardRuns List
open ClipboardService.Service Runs
open ClipIndex (sampleId isDigit_one)

variable {p : Platform} {s s' : Service} {faults : Faults} {t : Traced}

/-- An item of the history, or one whose deletion can be taken back. -/
def Alive (s : Service) (id : Text) : Prop := (s.clips.get id).isSome = true ∨ (s.pending.get id).isSome = true

/-- The media files of an item are there, with what was captured for it. -/
structure Intact (media : Table Text Bytes) (images : Table Text (Bytes × Bytes)) (item : Clip) : Prop where
  image : ∀ path, item.imagePath = some path → ∃ image, images.get item.id.text = some image ∧ media.get path = some image.1
  thumb : ∀ path, item.thumbPath = some path → ∃ image, images.get item.id.text = some image ∧ media.get path = some image.2

/-- A file of an item that is alive, and not one of those set aside. -/
def Needed (t : Traced) (aside : List Text) (path : Text) : Prop :=
  ∃ item ∈ t.ever, path ∈ item.media ∧ item.id.text ∉ aside ∧ Alive t.service item.id.text

variable {item : Clip}

variable {path : Text}

theorem mem_media : path ∈ item.media ↔ item.imagePath = some path ∨ item.thumbPath = some path := by simp [Clip.media]

/-- Items of one id and one set of files. -/
def SameMedia (left right : Clip) : Prop :=
  left.id = right.id ∧ left.imagePath = right.imagePath ∧ left.thumbPath = right.thumbPath

theorem SameMedia.media {left right : Clip} (same : SameMedia left right) : left.media = right.media := by
  rw [Clip.media, Clip.media, same.2.1, same.2.2]

variable {images : Table Text (Bytes × Bytes)}

variable {media : Table Text Bytes}

theorem SameMedia.intact {left right : Clip} (same : SameMedia left right)
    (intact : Intact media images left) : Intact media images right := by
  obtain ⟨id, image, thumb⟩ := same
  exact ⟨fun path is => id ▸ intact.image path (image.trans is), fun path is => id ▸ intact.thumb path (thumb.trans is)⟩

theorem intact_bare (bare : item.media = []) : Intact media images item := by
  have none (path : Text) : ¬ (item.imagePath = some path ∨ item.thumbPath = some path) := by
    rw [← mem_media, bare]
    exact not_mem_nil
  exact ⟨fun path is => absurd (.inl is) (none path), fun path is => absurd (.inr is) (none path)⟩

theorem Intact.held (intact : Intact media images item) (mem : path ∈ item.media) : ∃ content, media.get path = some content := by
  rcases mem_media.mp mem with is | is
  · obtain ⟨image, _, held⟩ := intact.image path is
    exact ⟨_, held⟩
  · obtain ⟨image, _, held⟩ := intact.thumb path is
    exact ⟨_, held⟩

theorem Intact.keep {media' : Table Text Bytes} {images images' : Table Text (Bytes × Bytes)}
    (intact : Intact media images item) (captured : images'.get item.id.text = images.get item.id.text)
    (files : ∀ path ∈ item.media, media'.get path = media.get path) : Intact media' images' item := by
  refine ⟨fun path is => ?_, fun path is => ?_⟩
  · rw [captured, files path (mem_media.mpr (.inl is))]
    exact intact.image path is
  · rw [captured, files path (mem_media.mpr (.inr is))]
    exact intact.thumb path is

/-- The files that a new item gets. -/
def newMedia (p : Platform) (captured : CapturedClip) (settings : ClipboardSettings) (contentHash : Text) : List Text :=
  if captured.imagePng.isSome && settings.captureImages then [imageFile p contentHash, thumbFile p contentHash] else []

/-- The condition on a capture that makes a new item. Its files are not there with another content; and what is removed when
    the capture fails, or by the pruning after it, is not needed by another item. -/
structure Writes (p : Platform) (t : Traced) (captured : CapturedClip) (contentHash : Text) (tick : CaptureTick)
    (faults : Faults) : Prop where
  fresh : faults.save = false → tick.settings.captureImages = true → ∀ png thumb, captured.imagePng = some png →
    p.makeThumbnail png = some thumb →
    (∀ content, t.service.media.get (imageFile p contentHash) = some content → content = png) ∧
      ∀ content, t.service.media.get (thumbFile p contentHash) = some content → content = thumb
  rollback : faults.thumb ≠ .done ∨ faults.save = true → ∀ path ∈ newMedia p captured tick.settings contentHash,
    t.service.containsPath path = false → ¬ Needed t [] path
  prune : faults.save = false → ∀ id ∈ tick.doomed, ∀ path, (path ∈ ((t.service.clips.get id).map Clip.media).getD [] ∨
      id = tick.id.text ∧ path ∈ newMedia p captured tick.settings contentHash) →
    ¬ Needed t tick.doomed path ∧ (tick.id.text ∈ tick.doomed ∨ path ∉ newMedia p captured tick.settings contentHash)

/-- The condition on a step. -/
def Guarded (p : Platform) (t : Traced) : Act × Faults → Prop
  | (.capture (some captured) tick, faults) =>
    ∀ hash kind contentHash, decideCapture p captured tick.settings = .Record hash kind →
      t.service.resolve p captured kind hash faults = .ok (.inr contentHash) → Writes p t captured contentHash tick faults
  | (.delete _, _) => t.service.nextToken + 1 < U64_VALUES
  | (.finalize id token, _) => ∀ pending, t.service.pending.get id = some pending → pending.token = token →
    ∀ path ∈ pending.paths, ¬ Needed t [id] path
  | (.cleanupOrphans mediaPaths, _) => ∀ path ∈ mediaPaths, path ∉ t.service.clipMediaPaths → ¬ Needed t [] path
  | _ => True

structure Safe (t : Traced) : Prop where
  named : ∀ {id item}, t.service.clips.get id = some item → item.id.text = id ∧ item ∈ t.ever
  apart : ∀ {id pending}, t.service.pending.get id = some pending → t.service.clips.get id = none
  staged : ∀ {id pending}, t.service.pending.get id = some pending → ∃ item ∈ t.ever, item.id.text = id ∧ item.media ≠ []
  versions : ∀ left ∈ t.ever, ∀ right ∈ t.ever, left.id = right.id → SameMedia left right
  intact : ∀ item ∈ t.ever, Alive t.service item.id.text → Intact t.service.media t.images item

/-- What a step does to the items and to the files they need. The items are versions of those there were, or new ones whose
    files were written. -/
structure Moves (t : Traced) (images : Table Text (Bytes × Bytes)) (s : Service) : Prop where
  items : ∀ {id item}, s.clips.get id = some item → item.id.text = id ∧
    ((∃ old ∈ t.ever, SameMedia old item) ∨ (∀ other ∈ t.ever, other.id ≠ item.id) ∧ Intact s.media images item)
  kept : ∀ item ∈ t.ever, Alive s item.id.text → item.media = [] ∨
    Alive t.service item.id.text ∧ ∀ path ∈ item.media, s.media.get path = t.service.media.get path
  apart : ∀ {id pending}, s.pending.get id = some pending → s.clips.get id = none
  staged : ∀ {id pending}, s.pending.get id = some pending → ∃ item ∈ t.ever, item.id.text = id ∧ item.media ≠ []

variable {act : Act}

theorem Moves.safe (safe : Safe t) (allowed : Allowed t act)
    (moves : Moves t (capturedImages p t.images act) (act.run p t.service faults)) : Safe (t.next p (act, faults)) := by
  have stored : ∀ item ∈ (act.run p t.service faults).clips.entries.map (·.2),
      (act.run p t.service faults).clips.get item.id.text = some item := by
    intro item mem
    obtain ⟨⟨id, _⟩, there, rfl⟩ := mem_map.mp mem
    have held := Table.get_eq_some.mpr there
    rw [(moves.items held).1]
    exact held
  have images : ∀ item ∈ t.ever, (capturedImages p t.images act).get item.id.text = t.images.get item.id.text := by
    intro item mem
    refine capturedImages_other fun reading tick is text => ?_
    subst is
    exact allowed item mem (clipId_ext text)
  have old : ∀ item ∈ t.ever, Alive (act.run p t.service faults) item.id.text →
      Intact (act.run p t.service faults).media (capturedImages p t.images act) item := by
    intro item mem alive
    rcases moves.kept item mem alive with bare | ⟨before, files⟩
    · exact intact_bare bare
    · exact (safe.intact item mem before).keep (images item mem) files
  have origin : ∀ item ∈ (t.next p (act, faults)).ever, (∃ old ∈ t.ever, SameMedia old item) ∨
      (act.run p t.service faults).clips.get item.id.text = some item ∧ (∀ other ∈ t.ever, other.id ≠ item.id) ∧
        Intact (act.run p t.service faults).media (capturedImages p t.images act) item := by
    intro item mem
    rcases mem_append.mp mem with before | added
    · exact .inl ⟨item, before, rfl, rfl, rfl⟩
    · have held := stored item added
      exact (moves.items held).2.imp_right fun new => ⟨held, new⟩
  refine ⟨fun held => ⟨(moves.items held).1, ?_⟩, moves.apart, fun held => ?_, ?_, ?_⟩
  · exact mem_append_right _ (mem_map.mpr ⟨_, Table.get_eq_some.mp held, rfl⟩)
  · obtain ⟨item, mem, rest⟩ := moves.staged held
    exact ⟨item, mem_append_left _ mem, rest⟩
  · intro left inLeft right inRight same
    rcases origin left inLeft with ⟨one, one_in, first⟩ | ⟨held, alone, _⟩ <;>
      rcases origin right inRight with ⟨other, other_in, second⟩ | ⟨held', alone', _⟩
    · have both := safe.versions one one_in other other_in (first.1.trans (same.trans second.1.symm))
      exact ⟨same, first.2.1.symm.trans (both.2.1.trans second.2.1), first.2.2.symm.trans (both.2.2.trans second.2.2)⟩
    · exact absurd (first.1.trans same) (alone' one one_in)
    · exact absurd (second.1.trans same.symm) (alone other other_in)
    · rw [same, held'] at held
      cases held
      exact ⟨rfl, rfl, rfl⟩
  · intro item mem alive
    rcases origin item mem with ⟨one, one_in, same⟩ | ⟨_, _, intact⟩
    · exact same.intact (old one one_in (same.1 ▸ alive))
    · exact intact

variable {id : Text}

theorem Alive.before (same : SameItems s' s) (fewer : Fewer s' s) (alive : Alive s' id) : Alive s id := by
  rcases alive with stored | pending
  · exact .inl (same.1 ▸ stored)
  · obtain ⟨held, found⟩ := Option.isSome_iff_exists.mp pending
    obtain ⟨before, there, _⟩ := fewer id held found
    exact .inr (by rw [there]; rfl)

theorem fewer_none {left right : Service} (fewer : Fewer left right) (absent : right.pending.get id = none) :
    left.pending.get id = none := by
  cases held : left.pending.get id with
  | none => rfl
  | some pending =>
    obtain ⟨before, there, _⟩ := fewer id pending held
    simp [absent] at there

theorem Safe.still (safe : Safe t) (same : SameItems s' t.service)
    (fewer : Fewer s' t.service) (files : ∀ item ∈ t.ever, Alive s' item.id.text → Alive t.service item.id.text →
      ∀ path ∈ item.media, s'.media.get path = t.service.media.get path) : Moves t images s' where
  items held := by
    obtain ⟨own, mem⟩ := safe.named (same.1 ▸ held)
    exact ⟨own, .inl ⟨_, mem, rfl, rfl, rfl⟩⟩
  kept item mem alive := .inr ⟨alive.before same fewer, files item mem alive (alive.before same fewer)⟩
  apart held := by
    obtain ⟨before, there, _⟩ := fewer _ _ held
    rw [same.1]
    exact safe.apart there
  staged held := by
    obtain ⟨before, there, _⟩ := fewer _ _ held
    exact safe.staged there

theorem Safe.save (safe : Safe t) {old item : Clip} (mem : old ∈ t.ever)
    (version : SameMedia old item) (alive : item.media = [] ∨ Alive t.service item.id.text)
    (same : SameItems s' (t.service.clipSave item)) (fewer : Fewer s' t.service) (free : s'.pending.get item.id.text = none)
    (media : s'.media = t.service.media) : Moves t images s' := by
  have clips (id : Text) : s'.clips.get id = if id = item.id.text then some item else t.service.clips.get id := by
    rw [same.1, clipSave, Table.get_insert]
    congr
  refine ⟨fun held => ?_, fun other inEver aliveNow => ?_, fun {id pending} held => ?_, fun held => ?_⟩
  · rw [clips] at held
    split_ifs at held with own
    · cases held
      exact ⟨own.symm, .inl ⟨old, mem, version⟩⟩
    · obtain ⟨name, inEver⟩ := safe.named held
      exact ⟨name, .inl ⟨_, inEver, rfl, rfl, rfl⟩⟩
  · have files : ∀ path ∈ other.media, s'.media.get path = t.service.media.get path := fun path _ => by rw [media]
    by_cases own : other.id.text = item.id.text
    · have both := safe.versions old mem other inEver (version.1.trans (clipId_ext own).symm)
      rw [← both.media, version.media]
      exact alive.imp_right fun before => ⟨own ▸ before, fun path _ => by rw [media]⟩
    refine .inr ⟨?_, files⟩
    rcases aliveNow with stored | pending
    · rw [clips, if_neg own] at stored
      exact .inl stored
    · obtain ⟨held, found⟩ := Option.isSome_iff_exists.mp pending
      obtain ⟨before, there, _⟩ := fewer _ held found
      exact .inr (by rw [there]; rfl)
  · rw [clips]
    split_ifs with own
    · simp [own, free] at held
    · obtain ⟨before, there, _⟩ := fewer _ _ held
      exact safe.apart there
  · obtain ⟨before, there, _⟩ := fewer _ _ held
    exact safe.staged there

theorem Safe.touch (safe : Safe t) (held : t.service.clips.get id = some item) (now : DateTime) (source : Option ClipSource) :
    Moves t images (t.service.clipSave { item with lastUsedAt := now, source := source }) := by
  obtain ⟨own, mem⟩ := safe.named held
  have stored : (t.service.clips.get item.id.text).isSome = true := by rw [own, held]; rfl
  have free : t.service.pending.get item.id.text = none := by
    cases found : t.service.pending.get item.id.text with
    | none => rfl
    | some pending => simp [safe.apart found] at stored
  have version : SameMedia item { item with lastUsedAt := now, source := source } := ⟨rfl, rfl, rfl⟩
  exact safe.save mem version (.inr (.inl stored)) ⟨rfl, rfl⟩ (.refl _) free rfl

theorem delete_moves (safe : Safe t) (id : Text) (faults : Faults) : Moves t images (t.service.delete id faults).2 := by
  rcases delete_cases t.service id faults with ⟨same, _⟩ | ⟨current, held, rest⟩
  · rw [same]
    exact safe.still ⟨rfl, rfl⟩ (.refl _) fun _ _ _ _ _ _ => rfl
  obtain ⟨own, mem⟩ := safe.named held
  have deleted : t.service.clipDelete current.id.text = { t.service with
      clips := t.service.clips.remove current.id.text
      byHash := ClipStore.removeHashIfOwned t.service.byHash current.contentHash current.id.text } := by
    rw [clipDelete, own, held]
  have items : ∀ {other item}, (t.service.clips.remove current.id.text).get other = some item →
      item.id.text = other ∧ ((∃ old ∈ t.ever, SameMedia old item) ∨ (∀ other ∈ t.ever, other.id ≠ item.id) ∧
        Intact t.service.media images item) := by
    intro other item found
    rw [Table.get_remove] at found
    split_ifs at found
    obtain ⟨name, inEver⟩ := safe.named found
    exact ⟨name, .inl ⟨_, inEver, rfl, rfl, rfl⟩⟩
  have alone : ∀ {other}, t.service.clips.get other = none → (t.service.clips.remove current.id.text).get other = none := by
    intro other absent
    rw [Table.get_remove, absent, ite_self]
  rcases rest with ⟨bare, done⟩ | ⟨filed, done⟩
  · rw [done, deleted]
    refine ⟨items, fun item inEver alive => .inr ⟨?_, fun _ _ => rfl⟩, fun found => alone (safe.apart found),
      fun found => safe.staged found⟩
    rcases alive with stored | staged
    · rw [Table.get_remove] at stored
      split_ifs at stored
      · cases stored
      · exact .inl stored
    · exact .inr staged
  · rw [done, deleted]
    refine ⟨items, fun item inEver alive => .inr ⟨?_, fun _ _ => rfl⟩, fun {other _} found => ?_, fun {other _} found => ?_⟩
    · by_cases same : item.id.text = current.id.text
      · rw [same, own, Alive, held]
        exact .inl rfl
      rcases alive with stored | staged
      · rw [Table.get_remove_ne _ same] at stored
        exact .inl stored
      · rw [Table.get_insert_ne _ _ same] at staged
        exact .inr staged
    · by_cases same : other = current.id.text
      · rw [same]
        exact Table.get_remove_self _ _
      · rw [Table.get_insert_ne _ _ same] at found
        exact alone (safe.apart found)
    · by_cases same : other = current.id.text
      · exact ⟨current, mem, same.symm, filed⟩
      · rw [Table.get_insert_ne _ _ same] at found
        exact safe.staged found

theorem restore_moves (safe : Safe t) (mem : item ∈ t.ever) (faults : Faults) : Moves t images (t.service.restore item faults).2 := by
  obtain ⟨⟨media, _, fewer⟩, ⟨same, _⟩ | ⟨_, _, _, absent, _, _, same, deleted⟩⟩ := restore_cases t.service item faults
  · exact safe.still same fewer fun _ _ _ _ _ _ => by rw [media]
  refine safe.save mem ⟨rfl, rfl, rfl⟩ (deleted.imp_right fun was => .inr was.1) same fewer ?_ media
  rcases deleted with bare | was
  · refine fewer_none fewer ?_
    cases held : t.service.pending.get item.id.text with
    | none => rfl
    | some pending =>
      obtain ⟨other, inEver, own, filed⟩ := safe.staged held
      have both := safe.versions other inEver item mem (clipId_ext own)
      exact absurd (both.media.trans bare) filed
  · exact was.2

/-! ### Captures -/

theorem putMedia_get (s : Service) (path : Text) (content : Bytes) (other : Text) : (s.putMedia path content).media.get other =
      if other = path then some ((s.media.get path).getD content) else s.media.get other := by
  rw [putMedia]
  cases held : s.media.get path with
  | some found =>
    rw [if_pos Option.isSome_some]
    split_ifs with same
    · rw [same, held]
      rfl
    · rfl
  | none =>
    by_cases same : other = path
    · rw [if_pos same, same]
      exact Table.get_insert_self _ _ _
    · rw [if_neg same]
      exact Table.get_insert_ne _ _ same

theorem putMedia_kept {other : Text} {content found : Bytes} (held : s.media.get other = some found) :
    (s.putMedia path content).media.get other = some found := by
  rw [putMedia_get]
  split_ifs with same
  · rw [← same, held]
    rfl
  · exact held

/-- A write that succeeds puts the file, unless it is there; any write keeps the files that are there. -/
theorem persistMedia_cases {content : Bytes} {written : Written} {stored : Bool} (is : s.persistMedia path content written = (stored, s')) :
    (stored = true → written = .done ∧ s' = s.putMedia path content) ∧ (stored = false → written ≠ .done) ∧
      SamePending s' s ∧ ∀ other found, s.media.get other = some found → s'.media.get other = some found := by
  have pending := (persistMedia_same s path content written).2
  cases written with
  | done =>
    cases is
    exact ⟨fun _ => ⟨rfl, rfl⟩, nofun, pending, fun _ _ held => putMedia_kept held⟩
  | failed left =>
    cases left <;> cases is
    · exact ⟨nofun, fun _ => nofun, pending, fun _ _ held => held⟩
    · exact ⟨nofun, fun _ => nofun, pending, fun _ _ held => putMedia_kept held⟩

theorem containsPath_same (same : SamePending s' s) (path : Text) : s'.containsPath path = s.containsPath path := by
  rw [containsPath, containsPath, same.1]

/-- A file that a rollback takes away. -/
def RolledBack (p : Platform) (s : Service) (captured : CapturedClip) (settings : ClipboardSettings) (contentHash : Text)
    (faults : Faults) (path : Text) : Prop :=
  (faults.thumb ≠ .done ∨ faults.save = true) ∧ path ∈ newMedia p captured settings contentHash ∧ s.containsPath path = false

theorem stageMedia_cases (p : Platform) (s : Service) (captured : CapturedClip) (contentHash : Text)
    (settings : ClipboardSettings) (faults : Faults) :
    (∃ png thumb, captured.imagePng = some png ∧ settings.captureImages = true ∧ p.makeThumbnail png = some thumb ∧
        s.stageMedia p captured contentHash settings faults = (.ok (some (some (imageFile p contentHash), some (thumbFile p contentHash))),
            (s.putMedia (imageFile p contentHash) png).putMedia (thumbFile p contentHash) thumb)) ∨
      (newMedia p captured settings contentHash = [] ∧ s.stageMedia p captured contentHash settings faults = (.ok (some (none, none)), s)) ∨
      ((∀ paths, (s.stageMedia p captured contentHash settings faults).1 ≠ .ok (some paths)) ∧
        ∀ path content, s.media.get path = some content →
          (s.stageMedia p captured contentHash settings faults).2.media.get path = some content ∨
            RolledBack p s captured settings contentHash faults path) := by
  unfold stageMedia
  split
  · next png found on =>
    have files : newMedia p captured settings contentHash = [imageFile p contentHash, thumbFile p contentHash] := by
      rw [newMedia, found, on]
      rfl
    cases decoded : p.makeThumbnail png with
    | none => exact .inr (.inr ⟨nofun, fun path content held => .inl held⟩)
    | some thumb =>
      dsimp only
      rcases first : s.persistMedia (imageFile p contentHash) png faults.image with ⟨_ | _, s₁⟩
      · obtain ⟨_, _, _, kept⟩ := persistMedia_cases first
        exact .inr (.inr ⟨nofun, fun path content held => .inl (kept path content held)⟩)
      obtain ⟨done, _, pending, kept⟩ := persistMedia_cases first
      dsimp only
      rcases second : s₁.persistMedia (thumbFile p contentHash) thumb faults.thumb with ⟨_ | _, s₂⟩
      · obtain ⟨_, failed, pending', kept'⟩ := persistMedia_cases second
        refine .inr (.inr ⟨nofun, fun path content held => ?_⟩)
        rw [cleanupMedia_get]
        split_ifs with gone
        · obtain ⟨listed, free⟩ := mem_filter.mp gone.1
          obtain rfl := mem_singleton.mp listed
          rw [containsPath_same (pending'.trans pending), Bool.not_eq_true'] at free
          exact .inr ⟨.inl (failed rfl), by rw [files]; exact mem_cons_self, free⟩
        · exact .inl (kept' path content (kept path content held))
      · obtain ⟨done', _, _, _⟩ := persistMedia_cases second
        refine .inl ⟨png, thumb, found, on, decoded, ?_⟩
        rw [(done' rfl).2, (done rfl).2]
  · next absent =>
    refine .inr (.inl ⟨?_, rfl⟩)
    rw [newMedia]
    split_ifs with both
    · rw [Bool.and_eq_true, Option.isSome_iff_exists] at both
      obtain ⟨⟨png, found⟩, on⟩ := both
      exact (absent png found on).elim
    · rfl

theorem removeDoomed_held (doomed : List Text) (removed : s.clipRemoveDoomed doomed = some s') :
    s'.media = s.media ∧ SamePending s' s ∧ (∀ id ∈ doomed, (s.clips.get id).isSome = true ∧ s'.clips.get id = none) ∧
      ∀ id item, s'.clips.get id = some item → s.clips.get id = some item := by
  induction doomed generalizing s with
  | nil =>
    cases removed
    exact ⟨rfl, ⟨rfl, rfl⟩, nofun, fun _ _ held => held⟩
  | cons id doomed ih =>
    rw [clipRemoveDoomed] at removed
    split_ifs at removed with there
    obtain ⟨old, held⟩ := Option.isSome_iff_exists.mp there
    have deleted : s.clipDelete id = { s with clips := s.clips.remove id
                                              byHash := ClipStore.removeHashIfOwned s.byHash old.contentHash id } := by
      rw [clipDelete, held]
    obtain ⟨media, pending, gone, kept⟩ := ih removed
    rw [deleted] at media pending gone kept
    have before : ∀ other item, s'.clips.get other = some item → other ≠ id ∧ s.clips.get other = some item := by
      intro other item found
      have earlier := kept other item found
      rw [Table.get_remove] at earlier
      split_ifs at earlier with same
      exact ⟨same, earlier⟩
    refine ⟨media, pending, fun other mem => ?_, fun other item found => (before other item found).2⟩
    have absent : s'.clips.get id = none := by
      cases found : s'.clips.get id with
      | none => rfl
      | some item => exact absurd rfl (before id item found).1
    rcases mem_cons.mp mem with rfl | later
    · exact ⟨there, absent⟩
    obtain ⟨stored, none⟩ := gone other later
    refine ⟨?_, none⟩
    rw [Table.get_remove] at stored
    split_ifs at stored
    · cases stored
    · exact stored

theorem prune_cases (s : Service) (doomed : List Text) (faults : Faults) : SamePending (s.prune doomed faults) s ∧
      (∀ id item, (s.prune doomed faults).clips.get id = some item → s.clips.get id = some item) ∧
      ∀ path, (s.prune doomed faults).media.get path = s.media.get path ∨
        (∃ id ∈ doomed, ∃ item, s.clips.get id = some item ∧ path ∈ item.media) ∧
          ∀ id ∈ doomed, (s.clips.get id).isSome = true ∧ (s.prune doomed faults).clips.get id = none := by
  rw [Service.prune]
  cases removed : s.clipRemoveDoomed doomed with
  | none => exact ⟨⟨rfl, rfl⟩, fun _ _ held => held, fun _ => .inl rfl⟩
  | some pruned =>
    obtain ⟨media, pending, gone, kept⟩ := removeDoomed_held doomed removed
    have same := cleanupMedia_same pruned (doomed.flatMap fun id => ((s.clips.get id).map Clip.media).getD []) faults
    refine ⟨same.2.trans pending, fun id item held => kept id item (same.1.1 ▸ held), fun path => ?_⟩
    rw [cleanupMedia_get]
    split_ifs with cleaned
    · obtain ⟨id, mem, listed⟩ := mem_flatMap.mp cleaned.1
      refine .inr ⟨⟨id, mem, ?_⟩, fun other inDoomed => ?_⟩
      · cases held : s.clips.get id with
        | none => simp [held] at listed
        | some item => exact ⟨item, rfl, by simpa [held] using listed⟩
      · rw [same.1.1]
        exact gone other inDoomed
    · exact .inl (by rw [media])

variable {captured : CapturedClip}

variable {kind : ClipKind} {contentHash : Text} {tick : CaptureTick}

theorem recordNew_failed (failed : (s.recordNew p captured kind contentHash tick faults).1 ≠ .ok true) :
    SamePending (s.recordNew p captured kind contentHash tick faults).2 s ∧ ∀ path content, s.media.get path = some content →
      (s.recordNew p captured kind contentHash tick faults).2.media.get path = some content ∨
        RolledBack p s captured tick.settings contentHash faults path := by
  have same := (stageMedia_same p s captured contentHash tick.settings faults).2
  have cases := stageMedia_cases p s captured contentHash tick.settings faults
  rw [recordNew] at failed ⊢
  rcases staging : s.stageMedia p captured contentHash tick.settings faults with ⟨outcome, staged⟩
  rw [staging] at same failed cases
  have kept : (∃ paths, outcome = .ok (some paths) ∧ (newItem p captured kind contentHash tick paths).media =
      newMedia p captured tick.settings contentHash) ∨ ∀ paths, outcome ≠ .ok (some paths) := by
    rcases cases with ⟨png, thumb, found, on, _, is⟩ | ⟨bare, is⟩ | ⟨not, _⟩
    · cases is
      exact .inl ⟨_, rfl, by simp [newItem, Clip.media, newMedia, found, on]⟩
    · cases is
      exact .inl ⟨_, rfl, by rw [bare]; rfl⟩
    · exact .inr not
  have files : ∀ path content, s.media.get path = some content → staged.media.get path = some content ∨
      RolledBack p s captured tick.settings contentHash faults path := by
    intro path content held
    rcases cases with ⟨png, thumb, _, _, _, is⟩ | ⟨_, is⟩ | ⟨_, kept⟩
    · cases is
      exact .inl (putMedia_kept (putMedia_kept held))
    · cases is
      exact .inl held
    · exact kept path content held
  rcases outcome with error | (_ | paths)
  · exact ⟨same, files⟩
  · exact ⟨same, files⟩
  · split_ifs at failed ⊢ with unsaved
    · have cleaned := (cleanupMedia_same staged (staged.unprotectedStagedMedia (newItem p captured kind contentHash tick paths).media)
        faults).2
      refine ⟨cleaned.trans same, fun path content held => ?_⟩
      rw [cleanupMedia_get]
      split_ifs with gone
      · obtain ⟨listed, free⟩ := mem_filter.mp gone.1
        rw [containsPath_same same, Bool.not_eq_true'] at free
        rcases kept with ⟨_, ⟨⟩, media⟩ | not
        · exact .inr ⟨.inr unsaved, media ▸ listed, free⟩
        · exact absurd rfl (not paths)
      · exact files path content held
    · exact absurd rfl failed

theorem recordNew_failed_moves (safe : Safe t) (writes : Writes p t captured contentHash tick faults)
    (failed : (t.service.recordNew p captured kind contentHash tick faults).1 ≠ .ok true)
    (same : SameItems (t.service.recordNew p captured kind contentHash tick faults).2 t.service) :
    Moves t images (t.service.recordNew p captured kind contentHash tick faults).2 := by
  obtain ⟨pending, files⟩ := recordNew_failed failed
  refine safe.still same (.same pending.1) fun item mem _ alive path inMedia => ?_
  obtain ⟨content, held⟩ := (safe.intact item mem alive).held inMedia
  rcases files path content held with kept | ⟨fails, listed, free⟩
  · rw [kept, held]
  · exact absurd ⟨item, mem, inMedia, not_mem_nil, alive⟩ (writes.rollback fails path listed free)

theorem recordNew_saved_moves (safe : Safe t) (new : ∀ item ∈ t.ever, item.id ≠ tick.id)
    (writes : Writes p t captured contentHash tick faults)
    {paths : Option Text × Option Text} {staged : Service} (saves : faults.save = false)
    (staging : t.service.stageMedia p captured contentHash tick.settings faults = (.ok (some paths), staged)) :
    Moves t (capturedImages p t.images (.capture (some captured) tick))
      (((staged.clipSave (newItem p captured kind contentHash tick paths)).protectItemMedia
        (newItem p captured kind contentHash tick paths)).prune tick.doomed faults) := by
  set item := newItem p captured kind contentHash tick paths with item_is
  set saved := (staged.clipSave item).protectItemMedia item with saved_is
  have same := stageMedia_same p t.service captured contentHash tick.settings faults
  have cases := stageMedia_cases p t.service captured contentHash tick.settings faults
  rw [staging] at same cases
  obtain ⟨pending, stored, files⟩ := prune_cases saved tick.doomed faults
  have clips_new : saved.clips.get tick.id.text = some item := Table.get_insert_self _ _ _
  have clips_old : ∀ id, id ≠ tick.id.text → saved.clips.get id = t.service.clips.get id := by
    intro id other
    rw [← same.1.1]
    exact Table.get_insert_ne _ _ other
  have fewer : Fewer (saved.prune tick.doomed faults) t.service :=
    (Fewer.same pending.1).trans ((protectItemMedia_fewer _ item).trans (.same same.2.1))
  have apartNew : ∀ other ∈ t.ever, other.id.text ≠ tick.id.text := fun other mem text => new other mem (clipId_ext text)
  have media : item.media = newMedia p captured tick.settings contentHash := by
    rcases cases with ⟨png, thumb, found, on, _, is⟩ | ⟨bare, is⟩ | ⟨not, _⟩
    · cases is
      simp [item_is, newItem, Clip.media, newMedia, found, on]
    · cases is
      rw [bare]
      rfl
    · exact absurd rfl (not paths)
  -- what the pruning takes belongs to doomed items, and is covered by the condition
  have pruned : ∀ path, (∃ id ∈ tick.doomed, ∃ item, saved.clips.get id = some item ∧ path ∈ item.media) →
      ¬ Needed t tick.doomed path ∧ (tick.id.text ∈ tick.doomed ∨ path ∉ newMedia p captured tick.settings contentHash) := by
    rintro path ⟨id, mem, doomed, held, listed⟩
    refine writes.prune saves id mem path ?_
    by_cases own : id = tick.id.text
    · rw [own, clips_new] at held
      cases held
      exact .inr ⟨own, media ▸ listed⟩
    · rw [clips_old id own] at held
      rw [held]
      exact .inl listed
  have before : ∀ path content, t.service.media.get path = some content → saved.media.get path = some content := by
    intro path content held
    rcases cases with ⟨png, thumb, _, _, _, is⟩ | ⟨_, is⟩ | ⟨not, _⟩
    · cases is
      exact putMedia_kept (putMedia_kept held)
    · cases is
      exact held
    · exact absurd rfl (not paths)
  refine ⟨fun {id found} held => ?_, fun other mem alive => .inr ?_, fun {id staying} held => ?_, fun held => ?_⟩
  · have there := stored id found held
    by_cases own : id = tick.id.text
    · rw [own, clips_new] at there
      cases there
      refine ⟨own.symm, .inr ⟨new, ?_⟩⟩
      have survives : ∀ path ∈ newMedia p captured tick.settings contentHash,
          (saved.prune tick.doomed faults).media.get path = saved.media.get path := by
        intro path listed
        refine (files path).resolve_right fun gone => ?_
        have kept : tick.id.text ∉ tick.doomed := fun doomed => by
          have absent := (gone.2 tick.id.text doomed).2
          simp [← own, held] at absent
        exact ((pruned path gone.1).2.resolve_left kept) listed
      rcases cases with ⟨png, thumb, found, on, decoded, is⟩ | ⟨bare, _⟩ | ⟨not, _⟩
      · cases is
        obtain ⟨fresh, freshThumb⟩ := writes.fresh saves on png thumb found decoded
        have image : (capturedImages p t.images (.capture (some captured) tick)).get tick.id.text = some (png, thumb) := by
          simp [capturedImages, found, decoded]
        have listed : newMedia p captured tick.settings contentHash = [imageFile p contentHash, thumbFile p contentHash] := by
          rw [newMedia, found, on]
          rfl
        have written : ∀ path content, (∀ there, t.service.media.get path = some there → there = content) →
            (t.service.media.get path).getD content = content := by
          intro path content same
          cases held : t.service.media.get path with
          | none => rfl
          | some there => exact same there held
        have apart : thumbFile p contentHash ≠ imageFile p contentHash := by
          intro equal
          have lengths := congrArg List.length equal
          simp [thumbFile, imageFile] at lengths
        have full : saved.media.get (imageFile p contentHash) = some png := by
          change (putMedia _ _ _).media.get _ = _
          rw [putMedia_get, if_neg apart.symm, putMedia_get, if_pos rfl, written _ _ fresh]
        have small : saved.media.get (thumbFile p contentHash) = some thumb := by
          change (putMedia _ _ _).media.get _ = _
          rw [putMedia_get, if_pos rfl, putMedia_get, if_neg apart, written _ _ freshThumb]
        refine ⟨fun path is => ⟨_, image, ?_⟩, fun path is => ⟨_, image, ?_⟩⟩
        · obtain rfl : imageFile p contentHash = path := Option.some.inj is
          rw [survives _ (by rw [listed]; exact mem_cons_self), full]
        · obtain rfl : thumbFile p contentHash = path := Option.some.inj is
          rw [survives _ (by rw [listed]; exact mem_cons_of_mem _ mem_cons_self), small]
      · exact intact_bare (media.trans bare)
      · exact absurd rfl (not paths)
    · rw [clips_old id own] at there
      obtain ⟨name, mem⟩ := safe.named there
      exact ⟨name, .inl ⟨found, mem, rfl, rfl, rfl⟩⟩
  · have other_new := apartNew other mem
    have alive_before : Alive t.service other.id.text := by
      rcases alive with kept | waiting
      · obtain ⟨found, held⟩ := Option.isSome_iff_exists.mp kept
        have there := stored _ found held
        rw [clips_old _ other_new] at there
        exact .inl (by rw [there]; rfl)
      · obtain ⟨held, found⟩ := Option.isSome_iff_exists.mp waiting
        obtain ⟨earlier, there, _⟩ := fewer _ held found
        exact .inr (by rw [there]; rfl)
    refine ⟨alive_before, fun path listed => ?_⟩
    obtain ⟨content, held⟩ := (safe.intact other mem alive_before).held listed
    rw [held, ← before path content held]
    refine (files path).resolve_right fun gone => ?_
    refine (pruned path gone.1).1 ⟨other, mem, listed, fun doomed => ?_, alive_before⟩
    obtain ⟨was, absent⟩ := gone.2 _ doomed
    rcases alive with kept | waiting
    · simp [absent] at kept
    · obtain ⟨held, found⟩ := Option.isSome_iff_exists.mp waiting
      obtain ⟨earlier, there, _⟩ := fewer _ held found
      simp [clips_old _ other_new, safe.apart there] at was
  · obtain ⟨earlier, there, _⟩ := fewer _ _ held
    cases found : (saved.prune tick.doomed faults).clips.get id with
    | none => rfl
    | some other =>
      have kept := stored id other found
      obtain ⟨old, mem, own, _⟩ := safe.staged there
      simp [clips_old id (own ▸ apartNew old mem), safe.apart there] at kept
  · obtain ⟨earlier, there, _⟩ := fewer _ _ held
    exact safe.staged there

theorem resolve_stored {hash : Text}
    (resolved : s.resolve p captured kind hash faults = .ok (.inl item)) : ∃ id, s.clips.get id = some item := by
  rw [resolve] at resolved
  split at resolved
  · cases resolved
  · cases resolved
  next existing found =>
  split_ifs at resolved
  · cases resolved
    exact findByHash_stored found
  dsimp only at resolved
  split at resolved
  · cases resolved
  · cases resolved
  next other found' =>
  split_ifs at resolved
  · cases resolved
    exact findByHash_stored found'
  · cases resolved

theorem capture_moves (safe : Safe t) {reading : Option CapturedClip} (new : ∀ item ∈ t.ever, item.id ≠ tick.id)
    (guarded : Guarded p t (.capture reading tick, faults)) :
    Moves t (capturedImages p t.images (.capture reading tick)) (t.service.captureTick p reading tick faults).2 := by
  have unchanged {images : Table Text (Bytes × Bytes)} : Moves t images t.service := safe.still ⟨rfl, rfl⟩ (.refl _) fun _ _ _ _ _ _ => rfl
  obtain same | ⟨captured, hash, kind, rfl, decided, same⟩ := captureTick_cases p t.service reading tick faults
  · rw [same]
    exact unchanged
  rw [same, record]
  rcases resolved : t.service.resolve p captured kind hash faults with error | existing | contentHash
  · exact unchanged
  · obtain ⟨id, held⟩ := resolve_stored resolved
    dsimp only
    rw [touchFound]
    split_ifs
    · exact unchanged
    · exact safe.touch held tick.now _
  · have writes := guarded hash kind contentHash decided resolved
    rcases recordNew_cases p t.service captured kind contentHash tick faults with
      ⟨failed, same⟩ | ⟨paths, staged, saves, staging, done⟩
    · exact recordNew_failed_moves safe writes failed same
    · dsimp only
      rw [done]
      exact recordNew_saved_moves safe new writes saves staging

theorem finalize_moves (safe : Safe t) {token : Nat} (guarded : Guarded p t (.finalize id token, faults)) :
    Moves t images (t.service.finalizeDeletedMedia id token faults).2 := by
  obtain ⟨same, _⟩ | ⟨pending, held, token_is, same⟩ := finalize_cases t.service id token faults
  · rw [same]
    exact safe.still ⟨rfl, rfl⟩ (.refl _) fun _ _ _ _ _ _ => rfl
  rw [same]
  have kept := cleanupMedia_same { t.service with pending := t.service.pending.remove id } pending.paths faults
  have fewer := (Fewer.same kept.2.1).trans (remove_fewer t.service id)
  refine safe.still kept.1 fewer fun item mem alive before path listed => ?_
  rw [cleanupMedia_get, if_neg]
  rintro ⟨gone, _⟩
  refine guarded pending held token_is path gone ⟨item, mem, listed, fun own => ?_, before⟩
  obtain rfl := mem_singleton.mp own
  rcases alive with stored | waiting
  · simp [kept.1.1, safe.apart held] at stored
  · simp [kept.2.1, Table.get_remove_self] at waiting

theorem cleanupOrphans_moves (safe : Safe t) {mediaPaths : List Text} (guarded : Guarded p t (.cleanupOrphans mediaPaths, faults)) :
    Moves t images (t.service.cleanupOrphans mediaPaths faults).2 := by
  rw [Service.cleanupOrphans]
  split_ifs
  · exact safe.still ⟨rfl, rfl⟩ (.refl _) fun _ _ _ _ _ _ => rfl
  have kept := removeOrphans_same t.service t.service.clipMediaPaths faults 0 mediaPaths
  refine safe.still kept.1 (.same kept.2.1) fun item mem _ before path listed => ?_
  refine (removeOrphans_get t.service t.service.clipMediaPaths faults 0 mediaPaths path).resolve_right fun gone => ?_
  exact guarded path gone.1 gone.2 ⟨item, mem, listed, not_mem_nil, before⟩

theorem run_moves (safe : Safe t) (allowed : Allowed t act) (guarded : Guarded p t (act, faults)) :
    Moves t (capturedImages p t.images act) (act.run p t.service faults) := by
  have unchanged {images : Table Text (Bytes × Bytes)} : Moves t images t.service := safe.still ⟨rfl, rfl⟩ (.refl _) fun _ _ _ _ _ _ => rfl
  cases act with
  | capture reading tick => exact capture_moves safe allowed guarded
  | copy id now =>
    rw [Act.run, copyToClipboard]
    split
    · exact unchanged
    next item found =>
    split_ifs
    · exact unchanged
    · exact safe.touch (currentClip_ok found) now item.source
  | delete id => exact delete_moves safe id faults
  | restore item => exact restore_moves safe allowed faults
  | finalize id token => exact finalize_moves safe guarded
  | cleanupOrphans mediaPaths => exact cleanupOrphans_moves safe guarded
  | clear =>
    rw [Act.run, Service.clear]
    by_cases unsaved : faults.save = true
    · rw [if_pos unsaved]
      exact unchanged
    rw [if_neg unsaved]
    refine ⟨nofun, fun item _ alive => ?_, nofun, nofun⟩
    rcases alive with stored | waiting
    · cases stored
    · cases waiting

/-- The tokens grow, and the pending deletion of an item has the last one that was issued for it. -/
structure Tokens (t : Traced) : Prop where
  issued : t.issued.Pairwise fun earlier later => earlier.2 < later.2
  below : ∀ entry ∈ t.issued, entry.2 ≤ t.service.nextToken
  latest : ∀ id pending, t.service.pending.get id = some pending → ∀ token, (id, token) ∈ t.issued → token ≤ pending.token

theorem recordNew_fewer (p : Platform) (s : Service) (captured : CapturedClip) (kind : ClipKind) (contentHash : Text)
    (tick : CaptureTick) (faults : Faults) : Fewer (s.recordNew p captured kind contentHash tick faults).2 s ∧
      (s.recordNew p captured kind contentHash tick faults).2.nextToken = s.nextToken := by
  rcases recordNew_cases p s captured kind contentHash tick faults with ⟨failed, _⟩ | ⟨paths, staged, _, staging, done⟩
  · have same := (recordNew_failed failed).1
    exact ⟨.same same.1, same.2⟩
  have same := (stageMedia_same p s captured contentHash tick.settings faults).2
  rw [staging] at same
  rw [done]
  set saved := (staged.clipSave (newItem p captured kind contentHash tick paths)).protectItemMedia
    (newItem p captured kind contentHash tick paths)
  have pruned := (prune_cases saved tick.doomed faults).1
  exact ⟨(Fewer.same pruned.1).trans ((protectItemMedia_fewer _ _).trans (.same same.1)), pruned.2.trans same.2⟩

/-- No step but a deletion stages one, or issues a token. -/
theorem run_fewer (p : Platform) (s : Service) (faults : Faults) (act : Act) (kept : ∀ id, act ≠ .delete id) :
    Fewer (act.run p s faults) s ∧ (act.run p s faults).nextToken = s.nextToken := by
  cases act with
  | capture reading tick =>
    rw [Act.run]
    obtain same | ⟨captured, hash, kind, rfl, _, same⟩ := captureTick_cases p s reading tick faults
    · rw [same]
      exact ⟨.refl s, rfl⟩
    rw [same, record]
    rcases s.resolve p captured kind hash faults with error | existing | contentHash
    · exact ⟨.refl s, rfl⟩
    · dsimp only
      rw [touchFound]
      split_ifs <;> exact ⟨.refl s, rfl⟩
    · exact recordNew_fewer p s captured kind contentHash tick faults
  | copy id now =>
    rw [Act.run, copyToClipboard]
    split
    · exact ⟨.refl s, rfl⟩
    · split_ifs <;> exact ⟨.refl s, rfl⟩
  | delete id => exact absurd rfl (kept id)
  | restore item =>
    obtain ⟨_, token, fewer⟩ := (restore_cases s item faults).1
    exact ⟨fewer, token⟩
  | finalize id token =>
    rw [Act.run]
    obtain ⟨same, _⟩ | ⟨pending, _, _, same⟩ := finalize_cases s id token faults
    · rw [same]
      exact ⟨.refl s, rfl⟩
    · rw [same]
      have cleaned := (cleanupMedia_same { s with pending := s.pending.remove id } pending.paths faults).2
      exact ⟨(Fewer.same cleaned.1).trans (remove_fewer s id), cleaned.2⟩
  | cleanupOrphans mediaPaths =>
    rw [Act.run, Service.cleanupOrphans]
    split_ifs
    · exact ⟨.refl s, rfl⟩
    · have same := (removeOrphans_same s s.clipMediaPaths faults 0 mediaPaths).2
      exact ⟨.same same.1, same.2⟩
  | clear =>
    rw [Act.run, Service.clear]
    by_cases unsaved : faults.save = true
    · rw [if_pos unsaved]
      exact ⟨.refl s, rfl⟩
    · rw [if_neg unsaved]
      exact ⟨by rintro _ _ ⟨⟩, rfl⟩

theorem Tokens.next (tokens : Tokens t) (named : ∀ {id item}, t.service.clips.get id = some item → item.id.text = id)
    (guarded : Guarded p t (act, faults)) : Tokens (t.next p (act, faults)) := by
  have still : Fewer (act.run p t.service faults) t.service → (act.run p t.service faults).nextToken = t.service.nextToken →
      issuedTokens t.service faults act = [] → Tokens (t.next p (act, faults)) := by
    intro fewer token none
    have issued : (t.next p (act, faults)).issued = t.issued := by rw [Traced.next, none, append_nil]
    refine ⟨issued ▸ tokens.issued, fun entry mem => ?_, fun id pending held later mem => ?_⟩
    · exact (tokens.below entry (issued ▸ mem)).trans_eq token.symm
    · obtain ⟨before, there, same⟩ := fewer id pending held
      rw [same]
      exact tokens.latest id before there later (issued ▸ mem)
  by_cases deletes : ∃ id, act = .delete id
  · obtain ⟨id, rfl⟩ := deletes
    rcases delete_cases t.service id faults with ⟨same, none⟩ | ⟨current, held, ⟨_, done⟩ | ⟨_, done⟩⟩
    · refine still (.same (congrArg Service.pending same)) (congrArg Service.nextToken same) ?_
      rw [issuedTokens]
      split
      · next token found => exact absurd found (none token)
      · rfl
    · have parts : (t.service.clipDelete current.id.text).pending = t.service.pending ∧
          (t.service.clipDelete current.id.text).nextToken = t.service.nextToken := by
        rw [clipDelete]
        split <;> exact ⟨rfl, rfl⟩
      refine still ?_ ?_ ?_
      · rw [Act.run, done]
        exact .same parts.1
      · rw [Act.run, done]
        exact parts.2
      · rw [issuedTokens, done]
    · have own := named held
      have token : (t.service.nextToken + 1) % U64_VALUES = t.service.nextToken + 1 := Nat.mod_eq_of_lt guarded
      have issued : (t.next p (.delete id, faults)).issued = t.issued ++ [(id, t.service.nextToken + 1)] := by
        rw [Traced.next, issuedTokens, done, token]
      have next : (t.next p (.delete id, faults)).service.nextToken = t.service.nextToken + 1 := by rw [Traced.next, Act.run, done, token]
      have pending (other : Text) : (t.next p (.delete id, faults)).service.pending.get other =
          if other = id then some ⟨t.service.nextToken + 1, current.media⟩ else t.service.pending.get other := by
        rw [Traced.next, Act.run, done, own, token]
        rw [Table.get_insert]
        congr
      refine ⟨?_, fun entry mem => ?_, fun other waiting found later mem => ?_⟩
      · rw [issued, pairwise_append]
        refine ⟨tokens.issued, pairwise_singleton _ _, fun earlier mem last inLast => ?_⟩
        rw [mem_singleton.mp inLast]
        exact Nat.lt_succ_of_le (tokens.below earlier mem)
      · rw [issued] at mem
        rw [next]
        rcases mem_append.mp mem with before | last
        · exact (tokens.below entry before).trans (Nat.le_succ _)
        · rw [mem_singleton.mp last]
      · rw [issued] at mem
        rw [pending] at found
        split_ifs at found with same
        · cases found
          rcases mem_append.mp mem with before | last
          · exact (tokens.below _ before).trans (Nat.le_succ _)
          · cases mem_singleton.mp last
            exact le_rfl
        · rcases mem_append.mp mem with before | last
          · exact tokens.latest other waiting found later before
          · cases mem_singleton.mp last
            exact absurd rfl same
  · have kept : ∀ id, act ≠ .delete id := fun id is => deletes ⟨id, is⟩
    have fewer := run_fewer p t.service faults act kept
    refine still fewer.1 fewer.2 ?_
    unfold issuedTokens
    split
    · next id => exact absurd rfl (kept id)
    · rfl

/-- What a restore leaves when it succeeds: the item, or another one with its content, and the media files. -/
def Restored (t : Traced) (item : Clip) (after : Service) : Prop :=
  ∃ kept, after.clips.get kept.id.text = some kept ∧ (kept.id = item.id ∨ clipItemsSharePayload kept item = true) ∧
    Intact after.media t.images kept

theorem Safe.restored (safe : Safe t) (mem : item ∈ t.ever) (done : (t.service.restore item faults).1 = .ok ()) :
    Restored t item (t.service.restore item faults).2 := by
  have moves : Moves t (capturedImages plainPlatform t.images (.restore item)) ((Act.restore item).run plainPlatform t.service faults) :=
    restore_moves safe mem faults
  have moved : Safe (t.next plainPlatform (.restore item, faults)) := moves.safe safe mem
  have intact : ∀ id kept, (t.service.restore item faults).2.clips.get id = some kept →
      (t.service.restore item faults).2.clips.get kept.id.text = some kept ∧
        Intact (t.service.restore item faults).2.media t.images kept := by
    intro id kept held
    obtain ⟨own, inEver⟩ := moved.named held
    rw [own]
    exact ⟨held, moved.intact kept inEver (.inl (by rw [own]; exact Option.isSome_iff_exists.mpr ⟨kept, held⟩))⟩
  obtain ⟨_, ⟨same, succeeds⟩ | ⟨_, _, _, _, _, _, same, _⟩⟩ := restore_cases t.service item faults
  · rcases succeeds done with stored | ⟨existing, found, shared⟩
    · obtain ⟨existing, held⟩ := Option.isSome_iff_exists.mp stored
      obtain ⟨there, files⟩ := intact item.id.text existing (by rw [same.1]; exact held)
      exact ⟨existing, there, .inl (clipId_ext (safe.named held).1), files⟩
    · obtain ⟨id, held⟩ := findByHash_stored found
      obtain ⟨there, files⟩ := intact id existing (by rw [same.1]; exact held)
      exact ⟨existing, there, .inr shared, files⟩
  · obtain ⟨there, files⟩ := intact item.id.text item (by rw [same.1]; exact Table.get_insert_self _ _ _)
    exact ⟨item, there, .inl rfl, files⟩

theorem reached_safe (reached : Reached (step p) (fun t act => Allowed t act.1 ∧ Guarded p t act) .start t) : Safe t ∧ Tokens t := by
  have start : Safe .start ∧ Tokens .start :=
    ⟨⟨nofun, nofun, nofun, fun _ mem => absurd mem not_mem_nil, fun _ mem => absurd mem not_mem_nil⟩,
      .nil, fun _ mem => absurd mem not_mem_nil, nofun⟩
  refine reached.keeps (P := fun t => Safe t ∧ Tokens t) start fun t t' act kept fair stepped => ?_
  cases stepped
  obtain ⟨safe, tokens⟩ := kept
  exact ⟨(run_moves safe fair.1 fair.2).safe safe fair.1, tokens.next (fun held => (safe.named held).1) fair.2⟩

def copiedImage : CapturedClip := ⟨none, none, some [1], some (1, 1), [], false⟩

def imageItem : Clip :=
  newItem plainPlatform copiedImage .Image (plainHash (.image [1])) (plainTick (sampleId '1' isDigit_one))
    (some (imageFile plainPlatform (plainHash (.image [1]))), some (thumbFile plainPlatform (plainHash (.image [1]))))

/-- The image is deleted, the sweep meets its file, and the image is restored. -/
def sweptActs : List (Act × Faults) :=
  [.capture (some copiedImage) (plainTick (sampleId '1' isDigit_one)), .delete ['1'],
    .cleanupOrphans [imageFile plainPlatform (plainHash (.image [1]))], .restore imageItem].map (·, noFaults)

def copiedOnce : Traced := Traced.start.next plainPlatform (.capture (some copiedImage) (plainTick (sampleId '1' isDigit_one)), noFaults)

end Ramag.ClipboardMedia
