import Ramag.ClipboardRuns

/-!
No content stands twice in the clipboard history, as long as an item that comes
back does not meet another with its content and other rich text, and the image
that is found for a captured one can be read. `Indexed` ties the index of hashes
to the items: it then knows every item, and each hash has one.
-/
namespace Ramag.ClipboardDedup
open Strings Domain ClipFilter OrderedTables ClipStore ClipboardService ClipboardRuns
open ClipboardService.Service Runs
open ClipIndex (sampleId isDigit_one isDigit_two isDigit_three)

variable {p : Platform} {s s' : Service} {faults : Faults} {P : Clip → Prop}

/-- Every item stands under its own id and is the one that its fingerprint leads to. -/
structure Indexed (P : Clip → Prop) (s : Service) : Prop where
  named : ∀ {id item}, s.clips.get id = some item → item.id.text = id
  holds : ∀ {id item}, s.clips.get id = some item → P item
  hashes : ∀ hash id, s.byHash.get hash = some id ↔ ∃ item, s.clips.get id = some item ∧ item.contentHash = hash

theorem indexed_empty (media : Table Text Bytes) (pending : Table Text PendingMediaDelete) (nextToken : Nat) :
    Indexed P ⟨.empty, .empty, media, pending, nextToken⟩ := ⟨nofun, nofun, by simp⟩

theorem Indexed.same (indexed : Indexed P s) (same : SameItems s' s) : Indexed P s' := by
  obtain ⟨clips, byHash⟩ := same
  exact ⟨fun held => indexed.named (clips ▸ held), fun held => indexed.holds (clips ▸ held),
    by rw [clips, byHash]; exact indexed.hashes⟩

theorem Indexed.imp {Q : Clip → Prop} (indexed : Indexed P s)
    (imp : ∀ {id item}, s.clips.get id = some item → P item → Q item) : Indexed Q s :=
  ⟨indexed.named, fun held => imp held (indexed.holds held), indexed.hashes⟩

theorem Indexed.unique (indexed : Indexed P s) {i j : Text} {left right : Clip} (one : s.clips.get i = some left)
    (other : s.clips.get j = some right) (same : left.contentHash = right.contentHash) : i = j := by
  have first := (indexed.hashes left.contentHash i).mpr ⟨left, one, rfl⟩
  have second := (indexed.hashes left.contentHash j).mpr ⟨right, other, same.symm⟩
  rw [first] at second
  exact Option.some.inj second

variable {id : Text} {item : Clip}

section
variable (indexed : Indexed P s)
include indexed

theorem Indexed.find (reads : faults.find = false)
    (held : s.clips.get id = some item) : s.clipFindByHash item.contentHash faults = .ok (some item) := by
  have owner := (indexed.hashes item.contentHash id).mpr ⟨item, held, rfl⟩
  simp [clipFindByHash, reads, owner, held]

theorem Indexed.find_cases (reads : faults.find = false) (hash : Text) :
    (s.clipFindByHash hash faults = .ok none ∧ s.byHash.get hash = none) ∨
      ∃ id item, s.clips.get id = some item ∧ item.contentHash = hash ∧ s.clipFindByHash hash faults = .ok (some item) := by
  cases owner : s.byHash.get hash with
  | none => exact .inl ⟨by simp [clipFindByHash, reads, owner], rfl⟩
  | some id =>
    obtain ⟨item, held, rfl⟩ := (indexed.hashes hash id).mp owner
    exact .inr ⟨id, item, held, rfl, indexed.find reads held⟩

theorem Indexed.save (holds : P item) (owner : ∀ id, s.byHash.get item.contentHash = some id → id = item.id.text)
    (same : ∀ old, s.clips.get item.id.text = some old → old.contentHash = item.contentHash) : Indexed P (s.clipSave item) := by
  have byHash : (s.clipSave item).byHash = s.byHash.insert item.contentHash item.id.text := by
    rw [clipSave]
    split
    · next old held => rw [if_neg (not_not.mpr (same old held))]
    · rfl
  have clips : (s.clipSave item).clips = s.clips.insert item.id.text item := rfl
  refine ⟨fun held => ?_, fun held => ?_, fun hash id => ?_⟩
  · rw [clips, Table.get_insert] at held
    split_ifs at held with own
    · cases held
      exact own.symm
    · exact indexed.named held
  · rw [clips, Table.get_insert] at held
    split_ifs at held with own
    · cases held
      exact holds
    · exact indexed.holds held
  · rw [byHash, clips, Table.get_insert, Table.get_insert]
    by_cases ownHash : hash = item.contentHash <;> by_cases own : id = item.id.text
    · simp [ownHash, own]
    · rw [if_pos ownHash, if_neg own, ← indexed.hashes, ownHash]
      exact ⟨fun equal => absurd (Option.some.inj equal).symm own, fun found => absurd (owner id found) own⟩
    · rw [if_neg ownHash, if_pos own]
      constructor
      · intro found
        obtain ⟨old, held, equal⟩ := (indexed.hashes hash id).mp found
        exact absurd (equal.symm.trans (same old (own ▸ held))) ownHash
      · rintro ⟨_, ⟨⟩, equal⟩
        exact absurd equal.symm ownHash
    · rw [if_neg ownHash, if_neg own]
      exact indexed.hashes hash id

theorem Indexed.delete (id : Text) : Indexed P (s.clipDelete id) := by
  rw [clipDelete]
  split
  · next old held =>
    have own := (indexed.hashes old.contentHash id).mpr ⟨old, held, rfl⟩
    refine ⟨fun found => ?_, fun found => ?_, fun hash other => ?_⟩
    · rw [Table.get_remove] at found
      split_ifs at found
      exact indexed.named found
    · rw [Table.get_remove] at found
      split_ifs at found
      exact indexed.holds found
    · rw [removeHashIfOwned, if_pos own, Table.get_remove, Table.get_remove]
      have hashes := indexed.hashes hash other
      by_cases ownHash : hash = old.contentHash <;> by_cases same : other = id
      · simp [ownHash, same]
      · rw [if_pos ownHash, if_neg same, ← hashes, ownHash, own]
        exact ⟨(by rintro ⟨⟩), fun equal => absurd (Option.some.inj equal).symm same⟩
      · rw [if_neg ownHash, if_pos same, hashes, same, held]
        constructor
        · rintro ⟨_, ⟨⟩, equal⟩
          exact absurd equal.symm ownHash
        · rintro ⟨_, ⟨⟩, _⟩
      · rw [if_neg ownHash, if_neg same]
        exact hashes
  · exact indexed

theorem Indexed.removeDoomed (doomed : List Text)
    (removed : s.clipRemoveDoomed doomed = some s') : Indexed P s' := by
  induction doomed generalizing s with
  | nil =>
    cases removed
    exact indexed
  | cons id doomed ih =>
    rw [clipRemoveDoomed] at removed
    split_ifs at removed
    exact ih (indexed.delete id) removed

theorem Indexed.prune (doomed : List Text) (faults : Faults) : Indexed P (s.prune doomed faults) := by
  rw [Service.prune]
  split
  · exact indexed
  · next pruned removed => exact (indexed.removeDoomed doomed removed).same (cleanupMedia_same pruned _ faults).1

end

/-- The fingerprint and the kind of an item are those of its content. -/
def Fingerprinted (p : Platform) (images : Table Text (Bytes × Bytes)) (item : Clip) : Prop :=
  ∃ payload, contentOf images item = some payload ∧ item.contentHash = p.hash payload ∧ item.kind = kindOf payload

theorem classified_not_files (t : Text) : classifyText t ≠ .Files := (classifyText_textual t).1

theorem classified_not_image (t : Text) : classifyText t ≠ .Image := (classifyText_textual t).2

variable {captured : CapturedClip}

variable {payload : Payload}

theorem payload_held (taken : captured.payload = some payload) : match payload with
    | .files paths => captured.files = paths
    | .image png => captured.imagePng = some png
    | .text content => captured.imagePng = none ∧ captured.text = some content := by
  rw [CapturedClip.payload] at taken
  split_ifs at taken
  · cases taken
    rfl
  cases png : captured.imagePng with
  | some _ =>
    rw [png] at taken
    cases taken
    rfl
  | none =>
    cases text : captured.text with
    | some _ =>
      rw [png, text] at taken
      cases taken
      exact ⟨rfl, rfl⟩
    | none => simp [png, text] at taken

variable {images : Table Text (Bytes × Bytes)}

theorem inline_of_content (content : contentOf images item = some payload) (kind : item.kind = kindOf payload)
    (taken : captured.payload = some payload) (inline : kindOf payload ≠ .Image) :
    inlinePayloadMatches item captured (kindOf payload) = true := by
  have held := payload_held taken
  rw [contentOf, kind] at content
  cases payload with
  | image png => exact absurd rfl inline
  | files paths =>
    have same : item.files = paths := by simpa [kindOf] using content
    simpa [inlinePayloadMatches, kindOf, same] using (show captured.files = paths from held).symm
  | text text =>
    have files := classified_not_files text
    rw [kindOf] at inline content ⊢
    cases classified : classifyText text with
    | Files => exact absurd classified files
    | Image => exact absurd classified inline
    | Text | Link | Color =>
      rw [classified] at content
      have own : item.text = some text := by simpa using content
      simpa [inlinePayloadMatches, own] using held.2.symm

theorem newItem_content (taken : captured.payload = some payload)
    (images : Table Text (Bytes × Bytes)) (hash : Text) (tick : CaptureTick) (paths : Option Text × Option Text) :
    contentOf (capturedImages p images (.capture (some captured) tick)) (newItem p captured (kindOf payload) hash tick paths) =
      some payload := by
  have held := payload_held taken
  cases payload with
  | files paths => exact congrArg (fun files => some (Payload.files files)) held
  | image png =>
    have found : captured.imagePng = some png := held
    simp [contentOf, newItem, kindOf, capturedImages, found]
  | text text =>
    have files := classified_not_files text
    have image := classified_not_image text
    cases classified : classifyText text with
    | Files => exact absurd classified files
    | Image => exact absurd classified image
    | Text | Link | Color => simp [contentOf, newItem, kindOf, held.2]

theorem contentOf_other {act : Act} (other : ∀ reading tick, act = .capture reading tick → item.id ≠ tick.id) :
    contentOf (capturedImages p images act) item = contentOf images item := by
  have kept : (capturedImages p images act).get item.id.text = images.get item.id.text :=
    capturedImages_other fun reading tick same text => other reading tick same (clipId_ext text)
  rw [contentOf, contentOf, kept]

/-- The condition on a step. An item that comes back shares text and rich text, or whatever its content is, with every item
    of its fingerprint; and an image that is stored already can be read when it is captured again. -/
def Fine (p : Platform) (s : Service) : Act × Faults → Prop
  | (.restore item, faults) =>
    faults.find = false → faults.save = false → s.clips.get item.id.text = none →
      ∀ id other, s.clips.get id = some other → other.contentHash = item.contentHash → clipItemsSharePayload other item = true
  | (.capture (some captured) tick, faults) =>
    faults.find = false → faults.save = false → ∀ hash, decideCapture p captured tick.settings = .Record hash .Image →
      ∀ id other, s.clips.get id = some other → other.contentHash = hash → s.payloadMatches other captured .Image faults = true
  | _ => True

/-! ### One step -/

theorem Indexed.touch (indexed : Indexed (Fingerprinted p images) s) (held : s.clips.get id = some item) (now : DateTime)
    (source : Option ClipSource) : Indexed (Fingerprinted p images) (s.clipSave { item with lastUsedAt := now, source := source }) := by
  have own := indexed.named held
  have print : Fingerprinted p images item := indexed.holds held
  refine indexed.save print (fun other found => ?_) (fun old there => ?_)
  · have owner := (indexed.hashes item.contentHash id).mpr ⟨item, held, rfl⟩
    exact (Option.some.inj (found.symm.trans owner)).trans own.symm
  · have same : old = item := Option.some.inj (there.symm.trans (own ▸ held))
    rw [same]

section
variable (inj : Function.Injective p.hash) {tick : CaptureTick} {hash : Text} {kind : ClipKind}
include inj

theorem captured_matches
    (fine : Fine p s (.capture (some captured) tick, faults)) (reads : faults.find = false) (saves : faults.save = false)
    (decided : decideCapture p captured tick.settings = .Record hash kind) (held : s.clips.get id = some item)
    (print : Fingerprinted p images item) (same : item.contentHash = hash) : s.payloadMatches item captured kind faults = true := by
  obtain ⟨payload, taken, rfl, rfl⟩ := decideCapture_record decided
  obtain ⟨own, content, hashed, kinds⟩ := print
  obtain rfl : own = payload := inj (hashed.symm.trans same)
  by_cases inline : kindOf own = .Image
  · rw [inline] at decided ⊢
    exact fine reads saves _ decided id item held same
  · rw [payloadMatches, if_neg (not_not.mpr kinds), if_pos inline]
    exact inline_of_content content kinds taken inline

theorem record_indexed
    (indexed : Indexed (Fingerprinted p (capturedImages p images (.capture (some captured) tick))) s)
    (fresh : s.clips.get tick.id.text = none) (fine : Fine p s (.capture (some captured) tick, faults))
    (decided : decideCapture p captured tick.settings = .Record hash kind) :
    Indexed (Fingerprinted p (capturedImages p images (.capture (some captured) tick))) (s.record p captured kind hash tick faults).2 := by
  by_cases unsaved : faults.find = true ∨ faults.save = true
  · exact indexed.same (record_unsaved p s captured kind hash tick faults unsaved).2
  have reads : faults.find = false := by simpa using fun found => unsaved (.inl found)
  have saves : faults.save = false := by simpa using fun found => unsaved (.inr found)
  rw [record, resolve]
  obtain ⟨found, free⟩ | ⟨id, item, held, same, found⟩ := indexed.find_cases reads hash
  · rw [found]
    obtain ⟨payload, taken, hashes, rfl⟩ := decideCapture_record decided
    rcases recordNew_cases p s captured (kindOf payload) hash tick faults with ⟨_, same⟩ | ⟨paths, staged, _, stagedIs, done⟩
    · exact indexed.same same
    have same : SameItems staged s := by
      have kept := (stageMedia_same p s captured hash tick.settings faults).1
      rwa [stagedIs] at kept
    have before : Indexed _ staged := indexed.same same
    have saved : Indexed _ (staged.clipSave (newItem p captured (kindOf payload) hash tick paths)) := before.save
      ⟨payload, newItem_content taken images hash tick paths, hashes, rfl⟩
      (fun id owner => by
        have owned : s.byHash.get hash = some id := same.2 ▸ owner
        rw [free] at owned
        cases owned)
      (fun old there => by
        have held : s.clips.get tick.id.text = some old := same.1 ▸ there
        rw [fresh] at held
        cases held)
    dsimp only
    rw [done]
    have guarded : Indexed _ ((staged.clipSave (newItem p captured (kindOf payload) hash tick paths)).protectItemMedia
      (newItem p captured (kindOf payload) hash tick paths)) := saved.same ⟨rfl, rfl⟩
    exact guarded.prune tick.doomed faults
  · rw [found]
    have matched := captured_matches inj fine reads saves decided held (indexed.holds held) same
    simp only [matched, if_true, touchFound, saves, Bool.false_eq_true, if_false]
    exact indexed.touch held tick.now _

end

theorem run_indexed (inj : Function.Injective p.hash) (act : Act) (indexed : Indexed (Fingerprinted p (capturedImages p images act)) s)
    (fresh : ∀ reading tick, act = .capture reading tick → s.clips.get tick.id.text = none)
    (restored : ∀ item, act = .restore item → Fingerprinted p images item) (fine : Fine p s (act, faults)) :
    Indexed (Fingerprinted p (capturedImages p images act)) (act.run p s faults) := by
  cases act with
  | capture reading tick =>
    rw [Act.run]
    obtain same | ⟨captured, hash, kind, rfl, decided, same⟩ := captureTick_cases p s reading tick faults
    · rwa [same]
    · rw [same]
      exact record_indexed inj indexed (fresh _ tick rfl) fine decided
  | copy id now =>
    rw [Act.run, copyToClipboard]
    split
    · exact indexed
    next item found =>
    split_ifs
    · exact indexed
    rw [currentClip] at found
    split_ifs at found
    split at found
    · next held =>
      cases found
      exact indexed.touch held now _
    · cases found
  | delete id =>
    rw [Act.run, Service.delete]
    split
    · exact indexed
    next item found =>
    split_ifs
    · exact indexed
    · exact indexed.delete _
    · exact (indexed.delete item.id.text).same ⟨rfl, rfl⟩
  | restore item =>
    obtain ⟨_, ⟨same, _⟩ | ⟨duplicate, reads, saves, absent, found, apart, same, _⟩⟩ := restore_cases s item faults
    · exact indexed.same same
    refine (indexed.save (restored item rfl) (fun id owner => ?_) (fun old there => ?_)).same same
    · obtain ⟨other, held, equal⟩ := (indexed.hashes item.contentHash id).mp owner
      have shared := fine reads saves absent id other held equal
      have looked := indexed.find reads held
      rw [equal, found] at looked
      cases looked
      have own : other.id = item.id := by simpa [shared] using apart
      rw [← own]
      exact (indexed.named held).symm
    · simp [absent] at there
  | finalize id token => exact indexed.same (finalize_same s id token faults)
  | cleanupOrphans mediaPaths => exact indexed.same (cleanupOrphans_same s mediaPaths faults)
  | clear =>
    rw [Act.run, Service.clear]
    by_cases unsaved : faults.save = true
    · rwa [if_pos unsaved]
    · rw [if_neg unsaved]
      exact indexed_empty _ _ _

structure Kept (p : Platform) (t : Traced) : Prop where
  indexed : Indexed (· ∈ t.ever) t.service
  prints : ∀ item ∈ t.ever, Fingerprinted p t.images item

variable {t : Traced}

theorem next_kept {act : Act} (inj : Function.Injective p.hash) (kept : Kept p t) (allowed : Allowed t act)
    (fine : Fine p t.service (act, faults)) : Kept p (t.next p (act, faults)) := by
  have other : ∀ item ∈ t.ever, ∀ reading tick, act = .capture reading tick → item.id ≠ tick.id := by
    rintro item mem reading tick rfl
    exact allowed item mem
  have prints : ∀ item ∈ t.ever, Fingerprinted p (capturedImages p t.images act) item := by
    intro item mem
    obtain ⟨payload, content, rest⟩ := kept.prints item mem
    exact ⟨payload, (contentOf_other (other item mem)).trans content, rest⟩
  have run : Indexed (Fingerprinted p (capturedImages p t.images act)) (act.run p t.service faults) := by
    refine run_indexed inj act (kept.indexed.imp fun _ mem => prints _ mem) (fun reading tick is => ?_)
      (fun item is => ?_) fine
    · cases held : t.service.clips.get tick.id.text with
      | none => rfl
      | some item => exact absurd (clipId_ext (kept.indexed.named held)) (other item (kept.indexed.holds held) reading tick is)
    · subst is
      exact kept.prints item allowed
  refine ⟨run.imp fun held _ => ?_, fun item mem => ?_⟩
  · exact List.mem_append_right _ (List.mem_map.mpr ⟨_, Table.get_eq_some.mp held, rfl⟩)
  rcases List.mem_append.mp mem with before | added
  · exact prints item before
  · obtain ⟨entry, there, rfl⟩ := List.mem_map.mp added
    exact run.holds (Table.get_eq_some.mpr there)

/-- No content stands under two ids. -/
def Distinct (t : Traced) : Prop :=
  ∀ i j left right, t.service.clips.get i = some left → t.service.clips.get j = some right → left.kind = right.kind →
    contentOf t.images left = contentOf t.images right → i = j

/-- Capturing what an item holds adds no item, and makes that item the last one used. -/
def Recaptured (p : Platform) (t : Traced) : Prop :=
  ∀ captured tick faults payload id item, Fine p t.service (.capture (some captured) tick, faults) →
    t.service.clips.get id = some item → contentOf t.images item = some payload → captured.payload = some payload →
    (t.service.captureTick p (some captured) tick faults).2.clips.keys = t.service.clips.keys ∧
      ((t.service.captureTick p (some captured) tick faults).1 = .ok true →
        (t.service.captureTick p (some captured) tick faults).2.clips.get id =
          some { item with lastUsedAt := tick.now, source := tick.source.or item.source })

theorem Kept.distinct (kept : Kept p t) : Distinct t := by
  intro i j left right one other _ same
  obtain ⟨payload, content, hash, _⟩ := kept.prints left (kept.indexed.holds one)
  obtain ⟨payload', content', hash', _⟩ := kept.prints right (kept.indexed.holds other)
  obtain rfl : payload = payload' := Option.some.inj (content.symm.trans (same.trans content'))
  exact kept.indexed.unique one other (hash.trans hash'.symm)

theorem Kept.recaptured (inj : Function.Injective p.hash) (kept : Kept p t) : Recaptured p t := by
  intro captured tick faults payload id item fine held content taken
  obtain same | ⟨_, hash, kind, ⟨⟩, decided, same⟩ := captureTick_cases p t.service (some captured) tick faults
  · rw [same]
    exact ⟨rfl, nofun⟩
  rw [same]
  obtain ⟨payload', taken', rfl, rfl⟩ := decideCapture_record decided
  obtain rfl : payload = payload' := Option.some.inj (taken.symm.trans taken')
  have print := kept.prints item (kept.indexed.holds held)
  have hashed : item.contentHash = p.hash payload := by
    obtain ⟨own, content', hash, _⟩ := print
    rw [hash, Option.some.inj (content.symm.trans content')]
  by_cases unsaved : faults.find = true ∨ faults.save = true
  · obtain ⟨failed, clips, _⟩ := record_unsaved p t.service captured (kindOf payload) (p.hash payload) tick faults unsaved
    exact ⟨congrArg Table.keys clips, fun done => absurd done failed⟩
  have reads : faults.find = false := by simpa using fun found => unsaved (.inl found)
  have saves : faults.save = false := by simpa using fun found => unsaved (.inr found)
  have found := kept.indexed.find reads held
  have matched := captured_matches inj fine reads saves decided held print hashed
  have own := kept.indexed.named held
  rw [hashed] at found
  have touched : t.service.record p captured (kindOf payload) (p.hash payload) tick faults = (.ok true,
      t.service.clipSave { item with lastUsedAt := tick.now, source := tick.source.or item.source }) := by
    simp [record, resolve, found, matched, touchFound, saves]
  rw [touched]
  refine ⟨Table.keys_congr fun key => ?_, fun _ => ?_⟩
  · rw [clipSave, Table.get_insert]
    split_ifs with same
    · have there : t.service.clips.get key = some item := same ▸ own ▸ held
      rw [there]
      rfl
    · rfl
  · rw [clipSave, ← own]
    exact Table.get_insert_self _ _ _

theorem reached_kept (inj : Function.Injective p.hash) (reached : Reached (step p)
    (fun t act => Allowed t act.1 ∧ Fine p t.service act) .start t) : Kept p t := by
  have start : Kept p .start := ⟨indexed_empty .empty .empty 0, fun _ mem => absurd mem List.not_mem_nil⟩
  refine reached.keeps start fun t t' act kept fair stepped => ?_
  cases stepped
  exact next_kept inj kept fair.1 fair.2

def copiedText (rtf : Option Bytes) : CapturedClip := ⟨some ['x'], rtf, none, none, [], false⟩

def textItem (id : ClipId) (rtf : Option Bytes) : Clip :=
  newItem plainPlatform (copiedText rtf) .Text (plainHash (.text ['x'])) (plainTick id) (none, none)

/-- The text is deleted, comes back after it was copied with rich text, and takes the index with it when it is deleted
    again. -/
def twinActs : List (Act × Faults) :=
  [.capture (some (copiedText none)) (plainTick (sampleId '1' isDigit_one)), .delete ['1'],
    .capture (some (copiedText (some [1]))) (plainTick (sampleId '2' isDigit_two)), .restore (textItem (sampleId '1' isDigit_one) none),
    .delete ['1'], .capture (some (copiedText (some [1]))) (plainTick (sampleId '3' isDigit_three))].map (·, noFaults)

end Ramag.ClipboardDedup
