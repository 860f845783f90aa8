import Ramag.UpdateDownload

/-!
A download gives a verified file or leaves nothing behind (`downloads_verified`),
whatever the server sends and whenever the cancellation comes, with one
exception: a partial file that cannot be renamed or removed stays where it is.
-/
namespace Ramag.UpdateDownload
open Strings Domain Programs List Function
open DataSyncGate (saturatingAdd)

/-- What a call has to keep an eye on: the files that it started on, the
    destination, the paths of partial files, and what may be published. -/
structure Watch where
  before : Files
  destination : Path
  partials : Path → Prop
  good : Option Entry → Prop

def Watch.Fine (w : Watch) (entry : Option Entry) : Prop := entry = w.before w.destination ∨ entry = none ∨ w.good entry

structure Watch.Kept (w : Watch) (s : Store) : Prop where
  published : ∀ files ∈ s.moments, w.Fine (files w.destination)
  clean : ∀ path, w.partials path → s.files path = none ∨ s.files path = w.before path

/-- The partial file `own` may be there, and can be renamed to `target`. -/
structure Watch.Open (w : Watch) (own target : Path) (s : Store) : Prop where
  published : ∀ files ∈ s.moments, w.Fine (files w.destination)
  clean : ∀ path, w.partials path → path ≠ own → s.files path = none ∨ s.files path = w.before path
  mine : s.files own = none ∨ s.files own = w.before own ∨ ∃ bytes, s.files own = some (.file bytes)
  clear : s.files target ≠ some .directory

variable {w : Watch} {s : Store} {own target path : Path} {entry : Option Entry}

theorem Watch.published_next {files : Files} (published : ∀ files ∈ s.moments, w.Fine (files w.destination))
    (next : w.Fine (files w.destination)) : ∀ files' ∈ (Store.mk files (s.files :: s.past)).moments, w.Fine (files' w.destination) := by
  intro files' mem
  rcases mem_cons.mp mem with rfl | before
  · exact next
  · exact published files' before

theorem Watch.Kept.put (kept : w.Kept s) (fine : path = w.destination → w.Fine entry)
    (clean : w.partials path → entry = none ∨ entry = w.before path) : w.Kept (s.put path entry) where
  published := by
    refine w.published_next kept.published ?_
    by_cases same : path = w.destination
    · rw [← same, update_self]
      exact fine same
    · rw [update_of_ne (.symm same)]
      exact kept.published s.files mem_cons_self
  clean := by
    intro other watched
    by_cases same : other = path
    · rw [same, Store.put_files, update_self]
      exact clean (same ▸ watched)
    · rw [Store.put_files, update_of_ne same]
      exact kept.clean other watched

theorem Watch.Kept.opened (kept : w.Kept s) (watched : w.partials own) (clear : s.files target ≠ some .directory) : w.Open own target s where
  published := kept.published
  clean := fun path watched _ => kept.clean path watched
  mine := (kept.clean own watched).imp_right .inl
  clear := clear

theorem Watch.Open.put (opened : w.Open own target s) (apart : own ≠ w.destination) (other : own ≠ target) (bytes : List UInt8) :
    w.Open own target (s.put own (some (.file bytes))) where
  published := by
    refine w.published_next opened.published ?_
    rw [update_of_ne apart.symm]
    exact opened.published s.files mem_cons_self
  clean := by
    intro path watched different
    rw [Store.put_files, update_of_ne different]
    exact opened.clean path watched different
  mine := .inr (.inr ⟨bytes, update_self ..⟩)
  clear := by
    rw [Store.put_files, update_of_ne other.symm]
    exact opened.clear

theorem Watch.Open.removed (opened : w.Open own target s) (apart : own ≠ w.destination) : w.Kept (s.put own none) where
  published := by
    refine w.published_next opened.published ?_
    rw [update_of_ne apart.symm]
    exact opened.published s.files mem_cons_self
  clean := by
    intro path watched
    by_cases same : path = own
    · rw [same, Store.put_files, update_self]
      exact .inl rfl
    · rw [Store.put_files, update_of_ne same]
      exact opened.clean path watched same

theorem Watch.Open.closed (opened : w.Open own target s) (gone : s.files own = none ∨ s.files own = some .directory) : w.Kept s where
  published := opened.published
  clean := by
    intro path watched
    by_cases same : path = own
    · subst same
      rcases gone with none | directory
      · exact .inl none
      rcases opened.mine with none | before | ⟨bytes, file⟩
      · exact .inl none
      · exact .inr before
      · rw [directory] at file
        cases file
    · exact opened.clean path watched same

theorem Watch.Open.unpublished (opened : w.Open own w.destination s) (apart : own ≠ w.destination)
    (unwatched : ¬ w.partials w.destination) : w.Open own w.destination (s.put w.destination none) where
  published := by
    refine w.published_next opened.published ?_
    rw [update_self]
    exact .inr (.inl rfl)
  clean := by
    intro path watched different
    rw [Store.put_files, update_of_ne fun same : path = w.destination => unwatched (same ▸ watched)]
    exact opened.clean path watched different
  mine := by
    rw [Store.put_files, update_of_ne apart]
    exact opened.mine
  clear := by simp

theorem Watch.Open.committed {entry : Entry} (opened : w.Open own target s)
    (unwatched : ¬ w.partials target) (fine : target = w.destination → w.Fine (some entry)) (apart : own ≠ w.destination) :
    w.Kept ⟨update (update s.files own none) target (some entry), s.files :: s.past⟩ where
  published := by
    refine w.published_next opened.published ?_
    by_cases same : target = w.destination
    · rw [← same, update_self]
      exact fine same
    · rw [update_of_ne (.symm same), update_of_ne apart.symm]
      exact opened.published s.files mem_cons_self
  clean := by
    intro path watched
    have different : path ≠ target := fun same => unwatched (same ▸ watched)
    have other : update (update s.files own none) target (some entry) path = update s.files own none path := update_of_ne different ..
    simp only [other]
    by_cases same : path = own
    · rw [same, update_self]
      exact .inl rfl
    · rw [update_of_ne same]
      exact opened.clean path watched same

/-! ### The requests -/

section
variable {pre stop : Store → Prop} {refusal : Refusal}

theorem check_triple {wrong : Bool} {error : UpdateError} (failed : ∀ s, pre s → stop s) :
    Triple pre (check wrong error) (fun _ s => wrong = false ∧ pre s) stop := by
  refine .ite (fun _ => .fail failed) fun right => ?_
  exact fun s held => ⟨eq_false_of_ne_true right, held⟩

theorem rejectSymlink_triple (failed : ∀ s, pre s → stop s) :
    Triple pre (rejectSymlink refusal path) (fun _ s => pre s ∧ ∀ link, s.files path ≠ some (.symlink link)) stop := by
  refine .getThen fun v => ?_
  split
  · exact .fail fun s held => failed s held.2
  · exact .fail fun s held => failed s held.2
  case h_3 plain =>
    rintro s ⟨rfl, held⟩
    exact ⟨held, fun link same => plain link same⟩

theorem pathExists_triple (failed : ∀ s, pre s → refusal ≠ none → stop s) :
    Triple pre (pathExists refusal path) (fun there s => there = (s.files path).any Entry.exists ∧ pre s) stop := by
  refine .getThen fun v => ?_
  split
  · exact .fail fun s held => failed s held.2 (Option.some_ne_none _)
  · rintro s ⟨rfl, held⟩
    exact ⟨rfl, held⟩

variable {context : Text → UpdateError}

theorem removeFile_triple (failed : ∀ s, pre s → refusal ≠ none ∨ s.files path = none ∨ s.files path = some .directory → stop s) :
    Triple pre (removeFile refusal path context) (fun _ s => ∃ old, pre old ∧ s = old.put path none) stop := by
  refine .getThen fun v => ?_
  split
  · exact .fail fun s held => failed s held.2 (.inl (Option.some_ne_none _))
  case h_2 gone => exact .fail fun s held => failed s held.2 (.inr (.inl (held.1 ▸ gone)))
  case h_3 directory => exact .fail fun s held => failed s held.2 (.inr (.inr (held.1 ▸ directory)))
  · exact .modify fun s held => ⟨s, held.2, rfl⟩

theorem createNew_triple (failed : ∀ s, pre s → stop s) :
    Triple pre (createNew refusal path context) (fun _ s => ∃ old, pre old ∧ s = old.put path (some (.file []))) stop := by
  refine .getThen fun v => ?_
  split
  · exact .fail fun s held => failed s held.2
  · exact .fail fun s held => failed s held.2
  · exact .modify fun s held => ⟨s, held.2, rfl⟩

theorem rename_triple {new : Path} (failed : ∀ s, pre s → refusal ≠ none ∨ s.files path = none ∨ s.files new = some .directory → stop s) :
    Triple pre (rename refusal path new context) (fun _ s => ∃ old entry, pre old ∧ old.files path = some entry ∧
      s = ⟨update (update old.files path none) new (some entry), old.files :: old.past⟩) stop := by
  refine .getThen fun v => ?_
  split
  · exact .fail fun s held => failed s held.2 (.inl (Option.some_ne_none _))
  case h_2 gone => exact .fail fun s held => failed s held.2 (.inr (.inl (held.1 ▸ gone)))
  case h_3 entry there =>
    refine .ite (fun directory => .fail fun s held => ?_) fun _ => .modify fun s held => ?_
    · exact failed s held.2 (.inr (.inr (held.1 ▸ directory)))
    · exact ⟨s, entry, held.2, held.1 ▸ there, rfl⟩

variable (sha256 : List UInt8 → Text)

/-- The entry is a file of this size and digest. -/
def Matches (size : Nat) (hash : Text) (entry : Option Entry) : Prop :=
  ∃ bytes, entry = some (.file bytes) ∧ bytes.length = size ∧ sha256 bytes = hash

variable {sha256}

section
variable {answers : VerifyAnswers} {size : Nat} {hash : Text} (failed : ∀ s, pre s → stop s)
include failed

theorem verifyFile_triple (plain : ∀ s, pre s → ∀ link, s.files path ≠ some (.symlink link)) : Triple pre (verifyFile sha256 answers path size hash)
      (fun same s => (same = true → Matches sha256 size hash (s.files path)) ∧ pre s) stop := by
  refine .getThen fun v => ?_
  split
  · exact .fail fun s held => failed s held.2
  · exact .fail fun s held => failed s held.2
  case h_3 entry _ there =>
    split
    · exact fun s held => ⟨(fun no => nomatch no), held.2⟩
    case h_2 bytes held =>
      refine .ite (fun _ s held => ⟨(fun no => nomatch no), held.2⟩) fun size => ?_
      split
      · exact .fail fun s held => failed s held.2
      · exact .fail fun s held => failed s held.2
      rintro s ⟨rfl, start⟩
      refine ⟨fun same => ⟨bytes, ?_, not_not.mp size, of_decide_eq_true same⟩, start⟩
      cases entry with
      | file own =>
        cases held
        exact there
      | directory => cases held
      | symlink link => exact absurd there (plain s start link)

theorem verifyFile_same : Triple pre (verifyFile sha256 answers path size hash) (fun _ => pre) stop := by
  refine .getThen fun v => ?_
  split
  · exact .fail fun s held => failed s held.2
  · exact .fail fun s held => failed s held.2
  split
  · exact fun s held => held.2
  refine .ite (fun _ s held => held.2) fun _ => ?_
  split
  · exact .fail fun s held => failed s held.2
  · exact .fail fun s held => failed s held.2
  · exact fun s held => held.2

end

end

section
variable {refusal : Refusal}

theorem check_finishes {wrong : Bool} {error : UpdateError} : Triple.Finishes (check wrong error) :=
  .ite .fail .ret

theorem createNew_finishes {context : Text → UpdateError} : Triple.Finishes (createNew refusal path context) := by
  refine .getThen fun v => ?_
  split
  · exact .fail
  · exact .fail
  · exact .modify

theorem writeAll_finishes {answer : WriteAnswer} {chunk : List UInt8} : Triple.Finishes (writeAll answer path chunk) := by
  cases answer with
  | written => exact .modify
  | failed error left | expired left => exact .bind .modify fun _ => .fail

theorem downloadRounds_finishes {size : Nat} (rounds : List Round) (downloaded : Nat) (hashed : List UInt8) :
    Triple.Finishes (downloadRounds size path rounds downloaded hashed) := by
  induction rounds generalizing downloaded hashed with
  | nil => exact .ret
  | cons round rounds ih =>
    unfold downloadRounds
    split
    · exact .fail
    · exact .fail
    · exact .fail
    · exact .bind check_finishes fun _ => .bind check_finishes fun _ => .bind writeAll_finishes fun _ => ih _ _

variable {sha256 : List UInt8 → Text}

theorem downloadToPartial_finishes {answers : DownloadAnswers} {asset : ReleaseAsset} {hash : Text} :
    Triple.Finishes (downloadToPartial sha256 answers asset path hash) :=
  .bind check_finishes fun _ => .bind .lift fun _ => .bind createNew_finishes fun _ => .bind check_finishes fun _ =>
    .bind (downloadRounds_finishes _ _ _) fun _ => .bind check_finishes fun _ => .bind check_finishes fun _ =>
      .bind check_finishes fun _ => .lift

theorem readBounded_finishes : Triple.Finishes (readBounded refusal path) := by
  refine .getThen fun v => ?_
  split
  · exact .fail
  · exact .fail
  · exact .ite .fail .ret

theorem write_finishes {writer : VerifiedOutput} {attempt : Attempt} : Triple.Finishes (writer.write path attempt) := by
  refine .ite .ret (.ite .ret ?_)
  split
  · exact .ret
  · exact .bind .modify fun _ => .ret

theorem writeAttempts_finishes (attempts : List Attempt) (writer : VerifiedOutput) : Triple.Finishes (writeAttempts path attempts writer) := by
  induction attempts generalizing writer with
  | nil => exact .ret
  | cons attempt attempts ih => exact .bind write_finishes fun _ => ih _

theorem reconstruct_finishes {answers : DeltaAnswers} {base patch : Path} {asset : ReleaseAsset}
    {delta : ReleaseDelta} : Triple.Finishes (reconstruct sha256 answers base patch path asset delta) :=
  .bind readBounded_finishes fun _ => .bind readBounded_finishes fun _ => .bind check_finishes fun _ => .bind .lift fun _ =>
    .bind check_finishes fun _ => .bind createNew_finishes fun _ => .bind (writeAttempts_finishes _ _) fun _ =>
      .bind .lift fun _ => .bind check_finishes fun _ => .lift

end

section
variable {sha256 : List UInt8 → Text}

theorem cleanup_triple (apart : own ≠ w.destination) : Triple (w.Open own target) (cleanup none own) (fun _ => w.Kept) w.Kept := by
  have removal : Triple (w.Open own target) (removeFile none own .Other) (fun _ => w.Kept) w.Kept := by
    refine (removeFile_triple fun s opened refused => ?_).adapt (fun _ => id) ?_
    · exact opened.closed (refused.resolve_left fun no => no rfl)
    · rintro ⟨⟩ s ⟨old, opened, rfl⟩
      exact opened.removed apart
  have logged : Triple (w.Open own target) (removeFile none own .Other).attempt (fun _ => w.Kept) w.Kept :=
    Triple.attempt removal (fun _ _ => id) fun _ => id
  exact .bind logged fun _ => .done

variable {pre : Store → Prop}

theorem abandon_triple {refusal : Refusal} {error : UpdateError} {post : Path → Store → Prop}
    (opened : ∀ s, pre s → w.Open own target s) (apart : own ≠ w.destination) (granted : refusal = none) :
    Triple pre (cleanup refusal own >>= fun _ => Prog.fail error) post w.Kept := by
  rw [granted]
  exact .bind ((cleanup_triple apart).enter opened) fun _ => .halt

variable {stop : Store → Prop}

section
variable (apart : own ≠ w.destination) (other : own ≠ target)
include apart other

theorem append_triple (held chunk : List UInt8) : Triple (fun s => w.Open own target s ∧ s.files own = some (.file held)) (append own chunk)
      (fun _ s => w.Open own target s ∧ s.files own = some (.file (held ++ chunk))) stop := by
  refine Triple.modify fun s start => ⟨start.1.put apart other _, ?_⟩
  rw [Store.put_files, update_self, Store.held, start.2]
  rfl

theorem Watch.Open.writes (held : List UInt8) (answer : WriteAnswer)
    (chunk : List UInt8) : Triple (fun s => w.Open own target s ∧ s.files own = some (.file held)) (writeAll answer own chunk)
      (fun _ s => w.Open own target s ∧ s.files own = some (.file (held ++ chunk))) (w.Open own target) := by
  have left (bytes : List UInt8) : Triple (fun s => w.Open own target s ∧ s.files own = some (.file held))
      (.modify fun store => store.put own (some (.file bytes)) : Update Unit) (fun _ => w.Open own target) (w.Open own target) :=
    Triple.modify fun s start => start.1.put apart other bytes
  cases answer with
  | written => exact append_triple apart other held chunk
  | failed error bytes | expired bytes => exact .bind (left bytes) fun _ => .halt

theorem downloadRounds_triple (size : Nat) (rounds : List Round) (hashed : List UInt8) :
    Triple (fun s => w.Open own target s ∧ s.files own = some (.file hashed)) (downloadRounds size own rounds hashed.length hashed)
      (fun result s => w.Open own target s ∧ s.files own = some (.file result.2) ∧ result.1 = result.2.length) (w.Open own target) := by
  induction rounds generalizing hashed with
  | nil => exact fun s held => ⟨held.1, held.2, rfl⟩
  | cons round rounds ih =>
    unfold downloadRounds
    split
    · exact .fail fun s held => held.1
    · exact .fail fun s held => held.1
    · exact .fail fun s held => held.1
    case h_4 chunk _ =>
      refine .bind (check_triple fun s held => held.1) fun _ => .given fun _ => ?_
      refine .bind (check_triple fun s held => held.1) fun _ => .given fun fits => ?_
      have counted : saturatingAdd hashed.length chunk.length = (hashed ++ chunk).length := by
        have small : ¬ MAX_DOWNLOAD_BYTES < saturatingAdd hashed.length chunk.length := by
          intro large
          simp [large] at fits
        rw [length_append]
        unfold saturatingAdd MAX_DOWNLOAD_BYTES at *
        omega
      rw [counted]
      exact Triple.bind (Watch.Open.writes apart other hashed round.write chunk) fun _ => ih (hashed ++ chunk)

end

variable {asset : ReleaseAsset}

variable {answers : DownloadAnswers} {hash : Text}

theorem downloadToPartial_triple (watched : w.partials own) (apart : own ≠ w.destination) (other : own ≠ target) :
    Triple (fun s => w.Kept s ∧ s.files target ≠ some .directory) (downloadToPartial sha256 answers asset own hash)
      (fun _ s => w.Open own target s ∧ Matches sha256 asset.size hash (s.files own)) (w.Open own target) := by
  have opened : ∀ s, w.Kept s ∧ s.files target ≠ some .directory → w.Open own target s := fun s start => start.1.opened watched start.2
  refine .bind (check_triple opened) fun _ => .given fun _ => ?_
  refine .bind (.lift_same opened) fun _ => .given fun _ => ?_
  have created : Triple (fun s => w.Kept s ∧ s.files target ≠ some .directory)
      (createNew answers.create own fun error => .Storage ("创建更新临时文件失败 " ++ displayed own ++ "：" ++ error))
      (fun _ s => w.Open own target s ∧ s.files own = some (.file [])) (w.Open own target) := by
    refine (createNew_triple opened).adapt (fun _ => id) ?_
    rintro ⟨⟩ s ⟨old, start, rfl⟩
    exact ⟨(opened old start).put apart other [], update_self ..⟩
  refine .bind created fun _ => ?_
  refine .bind (check_triple fun s held => held.1) fun _ => .given fun _ => ?_
  refine .bind (downloadRounds_triple apart other asset.size answers.rounds []) fun result => ?_
  have start : ∀ s, w.Open own target s ∧ s.files own = some (.file result.2) ∧ result.1 = result.2.length → w.Open own target s :=
    fun s held => held.1
  refine .bind (check_triple start) fun _ => .given fun whole => ?_
  refine .bind (check_triple start) fun _ => .given fun digest => ?_
  refine .bind (check_triple start) fun _ => .given fun _ => ?_
  refine .lift (fun s _ _ held => ⟨held.1, result.2, held.2.1, ?_, ?_⟩) start
  · rw [← held.2.2]
    exact not_not.mp (of_decide_eq_false whole)
  · exact not_not.mp (of_decide_eq_false digest)

/-- The watched paths are in this folder. -/
def Watch.Inside (w : Watch) (cacheDir : Path) : Prop :=
  ∀ path, path = w.destination ∨ w.partials path → ∃ name, path = join cacheDir name

theorem join_not_prefix {dir : Path} {name : Text} : ¬ join dir name <+: dir := by
  intro front
  have shorter := front.length_le
  rw [join, length_append] at shorter
  exact absurd shorter (by simp)

theorem makeFolders_join {dir : Path} {name : Text} {files : Files} : makeFolders dir files (join dir name) = files (join dir name) :=
  if_neg fun held => join_not_prefix held.1

variable {cacheDir : Path}

theorem prepareCacheDir_triple {answers : FolderAnswers} (inside : w.Inside cacheDir) :
    Triple w.Kept (prepareCacheDir answers cacheDir) (fun _ => w.Kept) w.Kept := by
  unfold prepareCacheDir
  split
  · exact .halt
  have link (refusal : Refusal) (path : Path) : Triple w.Kept (rejectSymlink refusal path) (fun _ => w.Kept) w.Kept :=
    (rejectSymlink_triple fun _ => id).adapt (fun _ => id) (fun _ _ held => held.1)
  refine .bind (link _ _) fun _ => .bind ?_ fun _ => .bind (link _ _) fun _ => link _ _
  unfold createDirAll
  split
  · exact .halt
  refine .modify fun s kept => ⟨w.published_next kept.published ?_, fun path watched => ?_⟩
  · obtain ⟨name, same⟩ := inside _ (.inl rfl)
    rw [same, makeFolders_join, ← same]
    exact kept.published s.files mem_cons_self
  · obtain ⟨name, rfl⟩ := inside path (.inr watched)
    simp only [makeFolders_join]
    exact kept.clean _ watched

/-- What a download needs of its names and of the commit. -/
structure Stage (w : Watch) (sha256 : List UInt8 → Text) (answers : DownloadAnswers) (asset : ReleaseAsset) (cacheDir : Path) : Prop where
  inside : w.Inside cacheDir
  watched : w.partials (partialOf cacheDir asset.name)
  apart : partialOf cacheDir asset.name ≠ w.destination
  unwatched : ¬ w.partials (join cacheDir asset.name)
  placed : join cacheDir asset.name = w.destination → ∀ hash entry, expectedHash answers asset = .ok hash →
    Matches sha256 asset.size hash entry → w.good entry
  cleanup : answers.cleanup = none
  commit : answers.commit = none

theorem takeCached_triple (unwatched : ¬ w.partials target) :
    Triple (fun s => w.Kept s ∧ ∀ link, s.files target ≠ some (.symlink link)) (takeCached sha256 answers asset target hash)
      (fun taken s => w.Kept s ∧ if taken then Matches sha256 asset.size hash (s.files target) else s.files target ≠ some .directory)
      w.Kept := by
  refine .bind (pathExists_triple fun s start _ => start.1) fun there => ?_
  refine .ite (fun yes => ?_) fun no => ?_
  · refine .bind (verifyFile_triple (fun s start => start.2.1) fun s start => start.2.2) fun same => ?_
    refine .ite (fun taken s held => ⟨held.2.2.1, ?_⟩) fun _ => ?_
    · exact held.1 taken
    refine .bind (removeFile_triple fun s held _ => held.2.2.1) fun _ => ?_
    rintro s ⟨old, held, rfl⟩
    refine ⟨held.2.2.1.put (fun _ => .inr (.inl rfl)) fun watched => absurd watched unwatched, ?_⟩
    rw [if_neg Bool.false_ne_true, Store.put_files, update_self]
    exact Option.some_ne_none _ ∘ Eq.symm
  · rintro s ⟨rfl, kept, -⟩
    refine ⟨kept, ?_⟩
    intro directory
    rw [directory] at no
    exact no rfl

variable {context : Text → UpdateError}

theorem removeExisting_triple {existsRefusal removeRefusal : Refusal} (unknown : ∀ s, pre s → existsRefusal ≠ none → stop s)
    (refused : ∀ s, pre s → removeRefusal ≠ none ∨ s.files path = some .directory → stop s) :
    Triple pre (removeExisting existsRefusal removeRefusal path context)
      (fun _ s => (pre s ∧ (s.files path).any Entry.exists = false) ∨ ∃ old, pre old ∧ s = old.put path none) stop := by
  refine .bind (pathExists_triple unknown) fun there => .ite (fun yes => ?_) fun no s held => ?_
  · refine (removeFile_triple fun s held wrong => ?_).adapt (fun _ => id) ?_
    · rcases wrong with refusal | gone | directory
      · exact refused s held.2 (.inl refusal)
      · rw [held.1, gone] at yes
        cases yes
      · exact refused s held.2 (.inr directory)
    · rintro ⟨⟩ s ⟨old, held, rfl⟩
      exact .inr ⟨old, held.2, rfl⟩
  · exact .inl ⟨held.2, held.1.symm.trans (eq_false_of_ne_true no)⟩

theorem emptied_triple {existsRefusal removeRefusal : Refusal} (apart : own ≠ w.destination) (other : own ≠ target) :
    Triple (fun s => w.Kept s ∧ s.files target ≠ some .directory) (removeExisting existsRefusal removeRefusal own context)
      (fun _ s => w.Kept s ∧ s.files target ≠ some .directory) w.Kept := by
  refine (removeExisting_triple (fun s start _ => start.1) fun s start _ => start.1).adapt (fun _ => id) ?_
  rintro ⟨⟩ s (⟨start, -⟩ | ⟨old, start, rfl⟩)
  · exact start
  · refine ⟨start.1.put (fun same => absurd same apart) fun _ => .inl rfl, ?_⟩
    rw [Store.put_files, update_of_ne other.symm]
    exact start.2

theorem downloadAnew_triple (watched : w.partials own) (apart : own ≠ w.destination) (other : own ≠ target) (unwatched : ¬ w.partials target)
    (placed : target = w.destination → ∀ entry, Matches sha256 asset.size hash entry → w.good entry)
    (cleaned : answers.cleanup = none) (granted : answers.commit = none) :
    Triple (fun s => w.Kept s ∧ s.files target ≠ some .directory) (downloadAnew sha256 answers asset target own hash)
      (fun path s => w.Kept s ∧ path = target ∧ Matches sha256 asset.size hash (s.files target)) w.Kept := by
  refine .bind (emptied_triple apart other) fun _ => ?_
  refine .bind (.attempt_finishing (downloadToPartial_triple watched apart other) downloadToPartial_finishes) fun result => ?_
  cases result with
  | error error => exact abandon_triple (fun _ => id) apart cleaned
  | ok _ =>
    by_cases cancelled : answers.cancelledAtEnd = true
    · simp only [Except.bind, if_pos cancelled]
      exact abandon_triple (fun s held => held.1) apart cleaned
    simp only [Except.bind, if_neg cancelled]
    refine .bind (rename_triple fun s start refused => ?_) fun _ => ?_
    · obtain ⟨opened, bytes, there, -⟩ := start
      rcases refused with refusal | gone | directory
      · exact absurd granted refusal
      · rw [there] at gone
        cases gone
      · exact absurd directory opened.clear
    · rintro s ⟨old, entry, ⟨opened, matching⟩, there, rfl⟩
      rw [there] at matching
      refine ⟨opened.committed unwatched (fun same => .inr (.inr (placed same _ matching))) apart, rfl, ?_⟩
      simp only [update_self]
      exact matching

theorem downloadVerifiedAsset_triple (stage : Stage w sha256 answers asset cacheDir) :
    Triple w.Kept (downloadVerifiedAsset sha256 answers asset cacheDir)
      (fun path s => w.Kept s ∧ path = join cacheDir asset.name ∧ ∃ hash, expectedHash answers asset = .ok hash ∧
        Matches sha256 asset.size hash (s.files path)) w.Kept := by
  have other : partialOf cacheDir asset.name ≠ join cacheDir asset.name := by simp [partialOf, join]
  refine .bind (check_triple fun _ => id) fun _ => .given fun _ => ?_
  refine .bind (.lift_same fun _ => id) fun hash => .given fun digest => ?_
  refine .bind (prepareCacheDir_triple stage.inside) fun _ => ?_
  refine .bind (rejectSymlink_triple fun _ => id) fun _ => ?_
  refine .bind (rejectSymlink_triple fun s held => held.1) fun _ => ?_
  refine .bind ((takeCached_triple stage.unwatched).enter (fun s held => held.1)) fun taken => ?_
  refine .ite (fun yes s held => ?_) fun no => ?_
  · rw [if_pos yes] at held
    exact ⟨held.1, rfl, hash, digest, held.2⟩
  simp only [if_neg no]
  refine (downloadAnew_triple stage.watched stage.apart other stage.unwatched (fun same entry => stage.placed same hash entry digest)
    stage.cleanup stage.commit).adapt (fun _ => id) ?_
  rintro path s ⟨kept, rfl, matching⟩
  exact ⟨kept, rfl, hash, digest, matching⟩

theorem readBounded_triple {refusal : Refusal} (failed : ∀ s, pre s → stop s) : Triple pre (readBounded refusal path) (fun _ => pre) stop := by
  refine .getThen fun v => ?_
  split
  · exact .fail fun s held => failed s held.2
  · exact .fail fun s held => failed s held.2
  · exact .ite (fun _ => .fail fun s held => failed s held.2) fun _ => .ret fun s held => held.2

/-- What the writer has hashed is what the file holds. -/
structure Writes (w : Watch) (own target : Path) (size : Nat) (writer : VerifiedOutput) (s : Store) : Prop where
  opened : w.Open own target s
  there : s.files own = some (.file writer.hashed)
  counted : writer.hashed.length + writer.remaining = size

theorem write_triple {size : Nat} {writer : VerifiedOutput} {attempt : Attempt} (apart : own ≠ w.destination) (other : own ≠ target) :
    Triple (Writes w own target size writer) (writer.write own attempt) (Writes w own target size) (w.Open own target) := by
  refine .ite (fun _ _ => id) fun _ => .ite (fun _ _ => id) fun fits => ?_
  split
  · exact fun _ => id
  case h_2 count _ =>
    refine .weaken (.given fun counted : writer.hashed.length + writer.remaining = size =>
      Triple.bind (append_triple apart other writer.hashed (attempt.bytes.take count)) fun _ => .ret fun s held =>
        ⟨held.1, held.2, ?_⟩) (fun s writes => ⟨writes.counted, writes.opened, writes.there⟩) (fun _ _ => id) fun _ => id
    simp only [length_append, length_take]
    omega

theorem writeAttempts_triple {size : Nat} (apart : own ≠ w.destination) (other : own ≠ target) (attempts : List Attempt) (writer : VerifiedOutput) :
    Triple (Writes w own target size writer) (writeAttempts own attempts writer) (Writes w own target size) (w.Open own target) := by
  induction attempts generalizing writer with
  | nil => exact fun _ => id
  | cons attempt attempts ih => exact .bind (write_triple apart other) fun writer => ih writer

variable {answers : DeltaAnswers}

variable {base : Path} {delta : ReleaseDelta}

theorem reconstruct_triple {patch : Path} (watched : w.partials own) (apart : own ≠ w.destination) (other : own ≠ target) :
    Triple (fun s => w.Kept s ∧ s.files target ≠ some .directory) (reconstruct sha256 answers base patch own asset delta)
      (fun _ s => w.Open own target s ∧ ∃ hash, asset.sha256 = some hash ∧ Matches sha256 asset.size hash (s.files own))
      (w.Open own target) := by
  have opened : ∀ s, w.Kept s ∧ s.files target ≠ some .directory → w.Open own target s := fun s start => start.1.opened watched start.2
  refine .bind (readBounded_triple opened) fun source => .bind (readBounded_triple opened) fun patchBytes => ?_
  refine .bind (check_triple opened) fun _ => .given fun _ => ?_
  refine .bind (.lift_same opened) fun _ => .given fun _ => ?_
  refine .bind (check_triple opened) fun _ => .given fun _ => ?_
  have created : Triple (fun s => w.Kept s ∧ s.files target ≠ some .directory) (createNew answers.create own deltaError)
      (fun _ => Writes w own target asset.size ⟨[], asset.size⟩) (w.Open own target) := by
    refine (createNew_triple opened).adapt (fun _ => id) ?_
    rintro ⟨⟩ s ⟨old, start, rfl⟩
    exact ⟨(opened old start).put apart other [], update_self .., Nat.zero_add _⟩
  refine .bind created fun _ => .bind (writeAttempts_triple apart other _ _) fun writer => ?_
  have start : ∀ s, Writes w own target asset.size writer s → w.Open own target s := fun s writes => writes.opened
  refine .bind (.lift_same start) fun _ => .given fun _ => ?_
  refine .bind (check_triple start) fun _ => .given fun right => ?_
  refine .lift (fun s _ _ writes => ⟨writes.opened, ?_⟩) start
  simp only [Bool.or_eq_false_iff, decide_eq_false_iff_not, not_not] at right
  refine ⟨sha256 writer.hashed, right.2, writer.hashed, writes.there, ?_, rfl⟩
  have whole := writes.counted
  omega

theorem reconstructInto_triple {patch : Path} (watched : w.partials own) (apart : own ≠ w.destination) (unwatched : ¬ w.partials w.destination)
    (placed : ∀ hash entry, asset.sha256 = some hash → Matches sha256 asset.size hash entry → w.good entry)
    (cleaned : answers.cleanup = none) (known : answers.destinationExistsAgain = none) (removed : answers.removeDestination = none)
    (granted : answers.commit = none) : Triple (fun s => w.Kept s ∧ s.files w.destination ≠ some .directory)
      (reconstructInto sha256 answers base patch w.destination own asset delta)
      (fun path s => w.Kept s ∧ path = w.destination ∧ w.good (s.files w.destination)) w.Kept := by
  refine .bind (.attempt_finishing (reconstruct_triple watched apart apart) reconstruct_finishes) fun result => ?_
  cases done : (workerResult answers.joined result).bind fun () => if answers.cancelledAtEnd then .error cancelledError else .ok () with
  | error error =>
    refine abandon_triple (fun s held => (?_ : w.Open own w.destination s)) apart cleaned
    cases result with
    | ok _ => exact held.1
    | error _ => exact held
  | ok _ =>
    obtain ⟨value, whole, -⟩ := bind_ok_iff.mp done
    have made : result = .ok () := by
      cases joined : answers.joined with
      | none => rwa [joined] at whole
      | some error =>
        rw [joined] at whole
        cases whole
    subst made
    have cleared : Triple (fun s => w.Open own w.destination s ∧
          ∃ hash, asset.sha256 = some hash ∧ Matches sha256 asset.size hash (s.files own))
        (removeExisting answers.destinationExistsAgain answers.removeDestination w.destination
          fun error => .Storage ("清理旧更新缓存失败：" ++ error))
        (fun _ s => w.Open own w.destination s ∧ ∃ hash, asset.sha256 = some hash ∧ Matches sha256 asset.size hash (s.files own))
        w.Kept := by
      refine (removeExisting_triple (fun s held refused => absurd known refused) fun s held refused => ?_).adapt (fun _ => id) ?_
      · exact absurd (refused.resolve_left fun refused => refused removed) held.1.clear
      rintro ⟨⟩ s (⟨held, -⟩ | ⟨old, ⟨opened, matching⟩, rfl⟩)
      · exact held
      · refine ⟨opened.unpublished apart unwatched, ?_⟩
        rw [Store.put_files, update_of_ne apart]
        exact matching
    refine .bind cleared fun _ => .bind (rename_triple fun s held refused => ?_) fun _ => ?_
    · obtain ⟨opened, hash, -, bytes, there, -⟩ := held
      rcases refused with refusal | gone | directory
      · exact absurd granted refusal
      · rw [there] at gone
        cases gone
      · exact absurd directory opened.clear
    · rintro s ⟨old, entry, ⟨opened, hash, digest, matching⟩, there, rfl⟩
      rw [there] at matching
      have fine : w.good (some entry) := placed hash _ digest matching
      refine ⟨opened.committed unwatched (fun _ => .inr (.inr fine)) apart, rfl, ?_⟩
      simp only [update_self]
      exact fine

/-- What a delta needs of its names, of the old file and of the commit. -/
structure DeltaStage (w : Watch) (sha256 : List UInt8 → Text) (answers : DeltaAnswers) (asset : ReleaseAsset) (delta : ReleaseDelta)
    (cacheDir : Path) : Prop where
  patch : Stage w sha256 answers.patch (patchAsset delta) cacheDir
  destination : w.destination = join cacheDir asset.name
  notDirectory : ∀ entry, w.Fine entry → entry ≠ some .directory
  watched : w.partials (deltaPartialOf cacheDir asset.name)
  unwatched : ¬ w.partials w.destination
  placed : ∀ hash entry, asset.sha256 = some hash → Matches sha256 asset.size hash entry → w.good entry
  cleanup : answers.cleanup = none
  known : answers.destinationExistsAgain = none
  removed : answers.removeDestination = none
  commit : answers.commit = none

theorem patchBase_triple (stage : DeltaStage w sha256 answers asset delta cacheDir) :
    Triple w.Kept (patchBase sha256 answers asset delta cacheDir base)
      (fun path s => w.Kept s ∧ path = w.destination ∧ w.good (s.files w.destination)) w.Kept := by
  have apart : deltaPartialOf cacheDir asset.name ≠ w.destination := by
    rw [stage.destination]
    simp [deltaPartialOf, join]
  refine .bind (downloadVerifiedAsset_triple stage.patch) fun patch => ?_
  refine .bind (rejectSymlink_triple fun s held => held.1) fun _ => ?_
  rw [← stage.destination]
  refine .bind ((emptied_triple apart apart).enter (fun s held => ⟨held.1.1, ?_⟩)) fun _ => ?_
  · exact stage.notDirectory _ (held.1.1.published s.files mem_cons_self)
  · exact reconstructInto_triple stage.watched apart stage.unwatched stage.placed stage.cleanup stage.known stage.removed stage.commit

theorem baseReady_triple {updates : Path} : Triple w.Kept (baseReady sha256 answers delta updates) (fun _ => w.Kept) w.Kept := by
  have link (refusal : Refusal) (path : Path) : Triple w.Kept (rejectSymlink refusal path) (fun _ => w.Kept) w.Kept :=
    (rejectSymlink_triple fun _ => id).adapt (fun _ => id) (fun _ _ held => held.1)
  refine .bind (link _ _) fun _ => .bind (link _ _) fun _ => .bind (link _ _) fun _ => ?_
  refine .bind (pathExists_triple fun s kept _ => kept) fun there => .ite (fun _ => ?_) fun _ s held => held.2
  exact (verifyFile_same fun _ => id).enter (fun s held => held.2)

theorem alreadyThere_triple : Triple w.Kept (alreadyThere sha256 answers asset path hash)
      (fun there s => w.Kept s ∧ (there = true → Matches sha256 asset.size hash (s.files path))) w.Kept := by
  refine .bind (rejectSymlink_triple fun _ => id) fun _ => ?_
  refine .bind (pathExists_triple fun s held _ => held.1) fun there => .ite (fun _ => ?_) fun _ s held => ?_
  · refine (verifyFile_triple (fun s held => held.2.1) fun s held => held.2.2).adapt (fun _ => id) ?_
    exact fun same s held => ⟨held.2.2.1, held.1⟩
  · exact ⟨held.2.1, fun no => nomatch no⟩

/-- The delta that a call may use. -/
def usedDelta (asset : ReleaseAsset) (currentVersion : Text) : Option ReleaseDelta :=
  if asset.sha256 = none then none else asset.delta.filter (·.fromVersion = currentVersion)

theorem tryDelta_triple {currentVersion : Text}
    (stage : ∀ delta, usedDelta asset currentVersion = some delta → DeltaStage w sha256 answers asset delta cacheDir) :
    Triple w.Kept (tryDelta sha256 answers asset currentVersion cacheDir)
      (fun made s => w.Kept s ∧ ∀ path, made = some path → path = join cacheDir asset.name ∧ w.good (s.files path)) w.Kept := by
  unfold tryDelta
  split
  · exact fun s kept => ⟨kept, fun _ none => nomatch none⟩
  case h_2 delta held =>
    refine .bind (check_triple fun _ => id) fun _ => .given fun _ => ?_
    refine .ite (fun _ s kept => ⟨kept, fun _ none => nomatch none⟩) fun version => ?_
    split
    · exact fun s kept => ⟨kept, fun _ none => nomatch none⟩
    case h_2 hash digest =>
      have stage := stage delta (by rw [usedDelta, digest, held]; simpa using not_not.mp version)
      refine .bind (prepareCacheDir_triple stage.patch.inside) fun _ => ?_
      refine .bind alreadyThere_triple fun there => .ite (fun yes s start => ⟨start.1, ?_⟩) fun _ => ?_
      · rintro path ⟨⟩
        exact ⟨rfl, stage.placed hash _ digest (start.2 yes)⟩
      split
      · exact .fail fun s start => start.1
      refine .bind (baseReady_triple.enter (fun s start => start.1)) fun ready => ?_
      refine .ite (fun _ => ?_) fun _ s kept => ⟨kept, fun _ none => nomatch none⟩
      refine .bind (patchBase_triple stage) fun made => .ret ?_
      rintro s ⟨kept, rfl, good⟩
      refine ⟨kept, ?_⟩
      rintro path ⟨⟩
      exact ⟨stage.destination, good⟩

end

/-- A line of the checksum list that was received gives the asset this digest. -/
def Listed (answers : DownloadAnswers) (name hash : Text) : Prop :=
  ∃ (response : Response) (chunks : List (List UInt8)) (text line field listed : Text), answers.checksum = .came response ∧
    answers.checksumBody = chunks.map .came ∧
    chunks.flatten = ByteTexts.asBytes text ∧ line ∈ Fields.splitTerminator '\n' text ∧
    Fields.splitWhitespace line = [field, listed] ∧ listed.dropWhile (· = '*') = name ∧ hash = toAsciiLowercase field

/-- The digest from the release data. -/
def ReleaseHash (answers : DownloadAnswers) (asset : ReleaseAsset) (hash : Text) : Prop :=
  asset.sha256 = some hash ∨ asset.sha256 = none ∧ Listed answers asset.name hash

variable {name : Text}

theorem findChecksum_ok {hash : Text} {lines : List Text} (found : findChecksum name lines = .ok hash) :
    ∃ line ∈ lines, ∃ field listed, Fields.splitWhitespace line = [field, listed] ∧ listed.dropWhile (· = '*') = name ∧
      hash = toAsciiLowercase field := by
  induction lines with
  | nil => cases found
  | cons line lines ih =>
    have later (found : findChecksum name lines = .ok hash) := ih found
    unfold findChecksum at found
    split at found
    case h_1 field listed fields =>
      split_ifs at found with same
      · obtain ⟨⟨⟩, -, found⟩ := bind_ok_iff.mp found
        cases found
        exact ⟨line, mem_cons_self, field, listed, fields, same, rfl⟩
      · obtain ⟨line, mem, rest⟩ := later found
        exact ⟨line, mem_cons_of_mem _ mem, rest⟩
    case h_2 =>
      obtain ⟨line, mem, rest⟩ := later found
      exact ⟨line, mem_cons_of_mem _ mem, rest⟩

theorem boundedBody_ok {operation : Text} {maxBytes : Nat} {arrivals : List (Waited (List UInt8))} {held body : List UInt8}
    (received : boundedBody operation maxBytes arrivals held = .ok body) :
    ∃ chunks : List (List UInt8), arrivals = chunks.map .came ∧ body = held ++ chunks.flatten := by
  induction arrivals generalizing held with
  | nil =>
    cases received
    exact ⟨[], rfl, (append_nil _).symm⟩
  | cons arrival arrivals ih =>
    cases arrival with
    | idle | failed error => cases received

    | came chunk =>
      unfold boundedBody at received
      split at received
      · cases received
      · obtain ⟨chunks, rfl, rfl⟩ := ih received
        exact ⟨chunk :: chunks, rfl, by simp⟩

theorem expectedHash_ok {answers : DownloadAnswers} {asset : ReleaseAsset} {hash : Text} (digest : expectedHash answers asset = .ok hash) :
    ReleaseHash answers asset hash := by
  unfold expectedHash at digest
  split at digest
  case h_1 given held =>
    cases digest
    exact .inl held
  case h_2 missing =>
    refine .inr ⟨missing, ?_⟩
    unfold fetchChecksum at digest
    split at digest
    · cases digest
    · cases digest
    case h_3 response came =>
      obtain ⟨body, received, parsed⟩ := bind_ok_iff.mp digest
      obtain ⟨⟨⟩, -, received⟩ := bind_ok_iff.mp received
      split at received
      · cases received
      obtain ⟨chunks, arrivals, rfl⟩ := boundedBody_ok received
      unfold parseChecksum at parsed
      split at parsed
      · cases parsed
      case h_2 text decoded =>
        obtain ⟨line, mem, field, listed, fields, name, lower⟩ := findChecksum_ok parsed
        exact ⟨response, chunks, text, line, field, listed, came, arrivals, Utf8Decoding.decode_eq_some.mp decoded, mem, fields,
          name, lower⟩

/-- The paths of the partial files of a call. -/
def partialPaths (asset : ReleaseAsset) (currentVersion : Text) (cacheDir : Path) : List Path :=
  partialOf cacheDir asset.name :: deltaPartialOf cacheDir asset.name ::
    ((usedDelta asset currentVersion).map fun delta => partialOf cacheDir delta.patchName).toList

/-- The entry is the asset that the release describes. -/
def Released (sha256 : List UInt8 → Text) (answers : UpdateAnswers) (asset : ReleaseAsset) (entry : Option Entry) : Prop :=
  ∃ hash, ReleaseHash answers.full asset hash ∧ Matches sha256 asset.size hash entry

/-- What a call that starts on `files` promises. -/
structure Sound (sha256 : List UInt8 → Text) (answers : UpdateAnswers) (asset : ReleaseAsset) (currentVersion : Text) (cacheDir : Path)
    (files : Files) (result : Outcome UpdateError Path × Store) : Prop where
  verified : ∀ path, result.1 = .ok path → path = join cacheDir asset.name ∧ Released sha256 answers asset (result.2.files path)
  /-- No other file is under the destination name at any moment. -/
  published : ∀ moment ∈ result.2.moments, moment (join cacheDir asset.name) = files (join cacheDir asset.name) ∨
    moment (join cacheDir asset.name) = none ∨ Released sha256 answers asset (moment (join cacheDir asset.name))
  clean : (∀ path, result.1 ≠ .ok path) → ∀ path ∈ partialPaths asset currentVersion cacheDir,
    result.2.files path = none ∨ result.2.files path = files path
  fallback : ∀ error store, tryDelta sha256 answers.delta asset currentVersion cacheDir ⟨files, []⟩ = (.error error, store) →
    answers.cancelled = false → result = downloadVerifiedAsset sha256 answers.full asset cacheDir store

/-- The patch has a name of its own beside the names that the installer takes. -/
structure Apart (patchName name : Text) : Prop where
  installer : patchName ≠ name
  part : patchName ≠ name ++ ".part"
  deltaPart : patchName ≠ name ++ ".delta-part"
  partOfPatch : patchName ++ ".part" ≠ name

/-- The commit of a patch is not refused, nor the removal of a partial file. -/
structure DeltaOrderly (answers : DeltaAnswers) (asset : ReleaseAsset) (delta : ReleaseDelta) (cacheDir : Path) (files : Files) : Prop where
  names : Apart delta.patchName asset.name
  notDirectory : files (join cacheDir asset.name) ≠ some .directory
  patchCleanup : answers.patch.cleanup = none
  patchCommit : answers.patch.commit = none
  cleanup : answers.cleanup = none
  known : answers.destinationExistsAgain = none
  removed : answers.removeDestination = none
  commit : answers.commit = none

/-- No request that ends a partial file is refused. -/
structure Orderly (answers : UpdateAnswers) (asset : ReleaseAsset) (currentVersion : Text) (cacheDir : Path) (files : Files) : Prop where
  cleanup : answers.full.cleanup = none
  commit : answers.full.commit = none
  delta : ∀ delta, usedDelta asset currentVersion = some delta → DeltaOrderly answers.delta asset delta cacheDir files

theorem apart_of_last {front back : Text} {c d : Char} (apart : c ≠ d) : front ++ [c] ≠ name ++ (back ++ [d]) := by
  intro same
  have last := congrArg List.getLast? same
  rw [← append_assoc, getLast?_concat, getLast?_concat] at last
  exact apart (Option.some.inj last)

theorem apart_of_named {fromVersion : Text} : Apart (name ++ ".from-" ++ fromVersion ++ ".bsdiff") name where
  installer := by simp
  part := by
    rw [show ".bsdiff" = ".bsdif" ++ ['f'] by decide, show ".part" = ".par" ++ ['t'] by decide, ← append_assoc]
    exact apart_of_last (by decide)
  deltaPart := by
    rw [show ".bsdiff" = ".bsdif" ++ ['f'] by decide,
      show ".delta-part" = ".delta-par" ++ ['t'] by decide, ← append_assoc]
    exact apart_of_last (by decide)
  partOfPatch := by simp

section
variable {sha256 : List UInt8 → Text} {answers : UpdateAnswers} {asset : ReleaseAsset} {currentVersion : Text} {cacheDir : Path} {files : Files}

/-- What the whole call watches. -/
def watchOf (sha256 : List UInt8 → Text) (answers : UpdateAnswers) (asset : ReleaseAsset) (currentVersion : Text) (cacheDir : Path)
    (files : Files) : Watch where
  before := files
  destination := join cacheDir asset.name
  partials path := path ∈ partialPaths asset currentVersion cacheDir
  good := Released sha256 answers asset

theorem mem_partialPaths {path : Path} : path ∈ partialPaths asset currentVersion cacheDir ↔
    path = partialOf cacheDir asset.name ∨ path = deltaPartialOf cacheDir asset.name ∨
      ∃ delta, usedDelta asset currentVersion = some delta ∧ path = partialOf cacheDir delta.patchName := by
  unfold partialPaths
  cases usedDelta asset currentVersion <;> simp

theorem join_inj {dir : Path} {a b : Text} : join dir a = join dir b ↔ a = b := by simp [join]

theorem watch_inside : (watchOf sha256 answers asset currentVersion cacheDir files).Inside cacheDir := by
  rintro path (rfl | watched)
  · exact ⟨_, rfl⟩
  rcases mem_partialPaths.mp watched with rfl | rfl | ⟨delta, -, rfl⟩
  · exact ⟨_, rfl⟩
  · exact ⟨_, rfl⟩
  · exact ⟨_, rfl⟩

section
variable (orderly : Orderly answers asset currentVersion cacheDir files)
include orderly

theorem destination_unwatched : join cacheDir asset.name ∉ partialPaths asset currentVersion cacheDir := by
  intro watched
  rcases mem_partialPaths.mp watched with same | same | ⟨delta, used, same⟩
  · exact absurd (join_inj.mp same) (by simp)
  · exact absurd (join_inj.mp same) (by simp)
  · exact (orderly.delta delta used).names.partOfPatch (join_inj.mp same).symm

theorem full_stage : Stage (watchOf sha256 answers asset currentVersion cacheDir files) sha256 answers.full asset cacheDir where
  inside := watch_inside
  watched := mem_partialPaths.mpr (.inl rfl)
  apart same := absurd (join_inj.mp same) (by simp)
  unwatched := destination_unwatched orderly
  placed _ hash _ digest matching := ⟨hash, expectedHash_ok digest, matching⟩
  cleanup := orderly.cleanup
  commit := orderly.commit

theorem patch_stage {delta : ReleaseDelta} (used : usedDelta asset currentVersion = some delta) :
    Stage (watchOf sha256 answers asset currentVersion cacheDir files) sha256 answers.delta.patch (patchAsset delta) cacheDir where
  inside := watch_inside
  watched := mem_partialPaths.mpr (.inr (.inr ⟨delta, used, rfl⟩))
  apart same := (orderly.delta delta used).names.partOfPatch (join_inj.mp same)
  unwatched watched := by
    rcases mem_partialPaths.mp watched with same | same | ⟨other, used', same⟩
    · exact (orderly.delta delta used).names.part (join_inj.mp same)
    · exact (orderly.delta delta used).names.deltaPart (join_inj.mp same)
    · rw [used, Option.some.injEq] at used'
      subst used'
      exact absurd (join_inj.mp same) (by simp [patchAsset])
  placed same := absurd (join_inj.mp same) (orderly.delta delta used).names.installer
  cleanup := (orderly.delta delta used).patchCleanup
  commit := (orderly.delta delta used).patchCommit

theorem delta_stage {delta : ReleaseDelta} (used : usedDelta asset currentVersion = some delta) :
    DeltaStage (watchOf sha256 answers asset currentVersion cacheDir files) sha256 answers.delta asset delta cacheDir where
  patch := patch_stage orderly used
  destination := rfl
  notDirectory entry := by
    rintro (same | same | ⟨hash, -, bytes, same, -⟩) rfl
    · exact (orderly.delta delta used).notDirectory same.symm
    · cases same
    · cases same
  watched := mem_partialPaths.mpr (.inr (.inl rfl))
  unwatched := destination_unwatched orderly
  placed hash _ digest matching := ⟨hash, .inl digest, matching⟩
  cleanup := (orderly.delta delta used).cleanup
  known := (orderly.delta delta used).known
  removed := (orderly.delta delta used).removed
  commit := (orderly.delta delta used).commit

theorem downloadWithDelta_triple : Triple (watchOf sha256 answers asset currentVersion cacheDir files).Kept
      (downloadWithDelta sha256 answers asset currentVersion cacheDir)
      (fun path s => (watchOf sha256 answers asset currentVersion cacheDir files).Kept s ∧ path = join cacheDir asset.name ∧
        Released sha256 answers asset (s.files path)) (watchOf sha256 answers asset currentVersion cacheDir files).Kept := by
  let w := watchOf sha256 answers asset currentVersion cacheDir files
  have full : Triple w.Kept (downloadVerifiedAsset sha256 answers.full asset cacheDir)
      (fun path s => w.Kept s ∧ path = join cacheDir asset.name ∧ Released sha256 answers asset (s.files path)) w.Kept := by
    refine (downloadVerifiedAsset_triple (full_stage orderly)).adapt (fun _ => id) ?_
    rintro path s ⟨kept, same, hash, digest, matching⟩
    exact ⟨kept, same, hash, expectedHash_ok digest, matching⟩
  have first : Triple w.Kept (tryDelta sha256 answers.delta asset currentVersion cacheDir).attempt
      (fun result s => w.Kept s ∧ ∀ path, result = .ok (some path) → path = join cacheDir asset.name ∧
        Released sha256 answers asset (s.files path)) w.Kept := by
    refine .attempt ?_ (fun error s kept => ⟨kept, fun _ no => nomatch no⟩) fun _ => id
    refine (tryDelta_triple fun delta used => delta_stage orderly used).adapt (fun _ => id) ?_
    exact fun made s held => ⟨held.1, fun path same => held.2 path (Except.ok.inj same)⟩
  refine Triple.bind first fun result => ?_
  have again : Triple (fun s => w.Kept s ∧ ∀ path, result = .ok (some path) → path = join cacheDir asset.name ∧
      Released sha256 answers asset (s.files path)) (downloadVerifiedAsset sha256 answers.full asset cacheDir)
      (fun path s => w.Kept s ∧ path = join cacheDir asset.name ∧ Released sha256 answers asset (s.files path)) w.Kept :=
    full.enter (fun s held => held.1)
  split
  case h_1 path => exact .ret fun s held => ⟨held.1, held.2 path rfl⟩
  case h_2 => exact again
  case h_3 error => exact .ite (fun _ => .fail fun s held => held.1) fun _ => again

end

/-- A call gives the verified installer, or leaves nothing behind. -/
theorem downloads_verified (orderly : Orderly answers asset currentVersion cacheDir files) : Sound sha256 answers asset currentVersion cacheDir files
      (downloadWithDelta sha256 answers asset currentVersion cacheDir ⟨files, []⟩) := by
  have start : (watchOf sha256 answers asset currentVersion cacheDir files).Kept ⟨files, []⟩ := by
    refine ⟨fun moment mem => .inl ?_, fun path _ => .inr rfl⟩
    rw [mem_singleton.mp mem]
    rfl
  have done := downloadWithDelta_triple orderly ⟨files, []⟩ start
  have kept : (watchOf sha256 answers asset currentVersion cacheDir files).Kept
      (downloadWithDelta sha256 answers asset currentVersion cacheDir ⟨files, []⟩).2 := by
    split at done
    case h_1 path s ran => exact ran ▸ done.1
    case h_2 error s ran => exact ran ▸ done
    case h_3 s ran => exact ran ▸ done
  refine ⟨fun path ok => ?_, kept.published, fun _ => kept.clean, fun error store failed going => ?_⟩
  · split at done
    case h_1 own s ran =>
      rw [ran] at ok ⊢
      cases ok
      exact done.2
    case h_2 error s ran => rw [ran] at ok; cases ok
    case h_3 s ran => rw [ran] at ok; cases ok
  · have handled : (tryDelta sha256 answers.delta asset currentVersion cacheDir).attempt ⟨files, []⟩ = (.ok (.error error), store) := by
      rw [Prog.attempt, failed]
    unfold downloadWithDelta
    rw [Prog.bind_of_ok handled]
    simp only [going]
    rfl

end

/-- The digest of the three bytes of `abc`. -/
def abcDigest : Text := "ba7816bf8f01cfea414140de5dae2223b00361a396177a9cb410ff61f20015ad"

/-- An installer of three bytes, with a patch from the version before it. -/
def sampleAsset : ReleaseAsset where
  name := "Ramag-1.1.0-x64.exe"
  size := 3
  sha256 := some abcDigest
  delta := some ⟨"1.0.0", "Ramag-1.0.0-x64.exe", 3, abcDigest, "Ramag-1.1.0-x64.exe" ++ ".from-" ++ "1.0.0" ++ ".bsdiff", 2, abcDigest⟩

/-- A server that sends the whole installer at once. -/
def sampleAnswers (commit : Refusal) : UpdateAnswers where
  delta := { patch := { response := none }, patcher := .error [] }
  full := { response := some (.came ⟨200, "200 OK", "https", some "github.com", some 3⟩)
            rounds := [{ chunk := some (.came [97, 98, 99]) }]
            commit }

def sampleDir : Path := ["updates", "1.1.0"]

theorem downloads_verified_sample : Sound (fun _ => abcDigest) (sampleAnswers none) sampleAsset "1.0.0" sampleDir (fun _ => none)
    (downloadWithDelta (fun _ => abcDigest) (sampleAnswers none) sampleAsset "1.0.0" sampleDir ⟨fun _ => none, []⟩) := by
  refine downloads_verified ⟨rfl, rfl, fun delta used => ?_⟩
  cases used
  exact ⟨apart_of_named, Option.some_ne_none _ ∘ Eq.symm, rfl, rfl, rfl, rfl, rfl, rfl⟩

/-- The installer is downloaded whole and right, and cannot be renamed. -/
theorem downloads_verified_refused : ¬ Sound (fun _ => abcDigest)
    (sampleAnswers (some "Access is denied.")) sampleAsset "1.0.0" sampleDir (fun _ => none)
    (downloadWithDelta (fun _ => abcDigest) (sampleAnswers (some "Access is denied.")) sampleAsset "1.0.0" sampleDir
      ⟨fun _ => none, []⟩) := by
  intro sound
  have failed : ∀ path, (downloadWithDelta (fun _ => abcDigest) (sampleAnswers (some "Access is denied.")) sampleAsset "1.0.0"
      sampleDir ⟨fun _ => none, []⟩).1 ≠ .ok path := by
    intro path ok
    have fails : (downloadWithDelta (fun _ => abcDigest) (sampleAnswers (some "Access is denied.")) sampleAsset "1.0.0"
        sampleDir ⟨fun _ => none, []⟩).1.ctorIdx = 1 := by
      decide +kernel
    rw [ok] at fails
    cases fails
  have left : (downloadWithDelta (fun _ => abcDigest) (sampleAnswers (some "Access is denied.")) sampleAsset "1.0.0"
      sampleDir ⟨fun _ => none, []⟩).2.files (partialOf sampleDir sampleAsset.name) = some (.file [97, 98, 99]) := by
    decide +kernel
  rcases sound.clean failed _ (mem_partialPaths.mpr (.inl rfl)) with none | before
  · rw [left] at none
    cases none
  · rw [left] at before
    cases before

end Ramag.UpdateDownload
