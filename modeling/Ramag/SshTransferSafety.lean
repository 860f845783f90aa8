import Ramag.SshTransfer

/-!
A transfer loses nothing and leaves nothing behind (`transfers_kept`), whatever
request is refused or given up, with one exception on each side: a cancellation
that comes while the temporary file of an upload is being created, or while the
source of a download is being opened, leaves the temporary file.
-/
namespace Ramag.SshTransfer
open Strings Domain SshRemotePath List Function

theorem lastComponent_append {before name : Text} (plain : ∀ c ∈ name, c ≠ '/') : lastComponent (before ++ '/' :: name) = name := by
  unfold lastComponent
  have stops : (before ++ ['/']).rtakeWhile (· ≠ '/') = [] := by simp
  rw [show before ++ '/' :: name = before ++ ['/'] ++ name by simp, List.rtakeWhile, reverse_append]
  rw [List.rtakeWhile, reverse_eq_nil_iff] at stops
  rw [takeWhile_append_of_pos, stops, append_nil, reverse_reverse]
  intro c mem
  exact decide_eq_true (plain c (mem_reverse.mp mem))

theorem trimEndSlashes_of_last {t : Text} {c : Char} (last : c ≠ '/') : trimEndSlashes (t ++ [c]) = t ++ [c] := by
  unfold trimEndSlashes
  simp [isSlash, last]

theorem parse_canonical {t : Text} {c : Char} {kind : SftpNamespaceKind} {path : RemotePath} (last : c ≠ '/')
    (parsed : parseWithNamespace (t ++ [c]) kind = .ok path) : path.canonical = t ++ [c] := by
  obtain ⟨⟨⟩, -, parsed⟩ := bind_ok_iff.mp parsed
  obtain ⟨⟨⟩, -, parsed⟩ := bind_ok_iff.mp parsed
  cases parsed
  unfold normalizeTrailingSeparator
  split
  · rfl
  · exact trimEndSlashes_of_last last

theorem childText_split {path : RemotePath} {name value : Text} (text : path.childText name = .ok value) :
    ∃ before, value = before ++ '/' :: name := by
  unfold RemotePath.childText at text
  have ends : ∀ t : Text, t.getLast? = some '/' → ∃ before, t ++ name = before ++ '/' :: name := by
    intro t last
    obtain ⟨before, rfl⟩ := getLast?_eq_some_iff.mp last
    exact ⟨before, by simp⟩
  cases kind : path.kind with
  | Posix =>
    simp only [kind, Except.ok.injEq] at text
    split at text
    · exact ⟨[], text.symm⟩
    · exact ⟨_, text.symm⟩
  | Virtual =>
    simp only [kind, Except.ok.injEq] at text
    split at text
    · exact ⟨[], text.symm⟩
    split at text
    case isTrue last => exact text ▸ ends _ last
    case isFalse => exact ⟨_, text.symm⟩
  | WindowsDrive =>
    simp only [kind, Except.ok.injEq] at text
    split at text
    case isTrue root =>
      have last : path.canonical.getLast? = some '/' := by
        simp only [RemotePath.isRoot, kind, isDriveRoot, Bool.and_eq_true, decide_eq_true_eq] at root
        exact root.2
      exact text ▸ ends _ last
    case isFalse => exact ⟨_, text.symm⟩
  | Unknown =>
    simp only [kind] at text
    cases text

variable {target unique : Text}

section
variable {marker sibling : Text} (named : remoteSibling target marker unique = .ok sibling)
include named

theorem remoteSibling_ok :
    ∃ path, parseWithNamespace target (inferSftpNamespace target) = .ok path ∧
      lastComponent sibling = siblingName (lastComponent path.canonical) marker unique ∧
      ∃ before, sibling = before ++ '/' :: siblingName (lastComponent path.canonical) marker unique := by
  unfold remoteSibling at named
  split at named
  case h_1 => cases named
  case h_2 path parsed =>
    split at named
    case h_1 => cases named
    case h_2 child beside =>
      cases named
      refine ⟨path, parsed, ?_⟩
      unfold temporarySibling at beside
      split at beside
      case isTrue => cases beside
      obtain ⟨⟨⟩, -, beside⟩ := bind_ok_iff.mp beside
      obtain ⟨⟨⟩, -, beside⟩ := bind_ok_iff.mp beside
      simp only at beside
      split at beside
      case isTrue => cases beside
      obtain ⟨⟨⟩, valid, beside⟩ := bind_ok_iff.mp beside
      obtain ⟨value, text, parsed'⟩ := bind_ok_iff.mp beside
      obtain ⟨before, rfl⟩ := childText_split text
      have plain : ∀ c ∈ siblingName (lastComponent path.canonical) marker unique, c ≠ '/' := by
        rintro _ mem rfl
        have good := (validateRemoteNameForNamespace_ok valid).noSeparator _ mem
        simp [separatorInName] at good
      have canonical : child.canonical = before ++ '/' :: siblingName (lastComponent path.canonical) marker unique := by
        have shape : before ++ '/' :: siblingName (lastComponent path.canonical) marker unique =
            (before ++ '/' :: '.' :: lastComponent path.canonical ++ '.' :: marker ++ '-' :: unique ++ ".tm") ++ ['p'] := by
          simp [siblingName]
        rw [shape] at parsed' ⊢
        exact parse_canonical (by decide) parsed'
      rw [canonical]
      exact ⟨lastComponent_append plain, before, rfl⟩

theorem remoteSibling_ne : sibling ≠ target := by
  obtain ⟨path, parsed, last, before, shape⟩ := remoteSibling_ok named
  rintro rfl
  have canonical : path.canonical = sibling := by
    have ends : sibling = (before ++ '/' :: '.' :: lastComponent path.canonical ++ '.' :: marker ++ '-' :: unique ++ ".tm") ++ ['p'] := by
      rw [shape]
      simp [siblingName]
    rw [ends] at parsed ⊢
    exact parse_canonical (by decide) parsed
  rw [canonical] at last
  have longer := congrArg List.length last
  simp only [siblingName, length_append, length_cons] at longer
  omega

end

theorem remoteSibling_apart {other temp backup : Text} (named : remoteSibling target "ramag-upload" unique = .ok temp)
    (named' : remoteSibling target "ramag-backup" other = .ok backup) : temp ≠ backup := by
  obtain ⟨path, parsed, last, -⟩ := remoteSibling_ok named
  obtain ⟨path', parsed', last', -⟩ := remoteSibling_ok named'
  rw [parsed, Except.ok.injEq] at parsed'
  subst parsed'
  rintro rfl
  rw [last, siblingName, siblingName] at last'
  simp at last'

variable {temp : LocalPath}

theorem localSibling_ne {target : LocalPath} (named : localSibling target unique = .ok temp) : temp ≠ target := by
  unfold localSibling at named
  split at named
  case h_1 => cases named
  case h_2 =>
    split at named
    case h_1 => cases named
    case h_2 name held =>
      cases named
      rintro rfl
      have longer := congrArg (fun name => (name.getD []).length) held
      simp only [Option.getD_some, length_append, length_cons] at longer
      omega

/-! ### What a transfer promises -/

/-- The error says that the old target could not be restored. -/
def SaysLost (error : TransferError) : Prop :=
  ∃ text, error = .Other (changedAndLost ++ text) ∨ error = .Other (replacedAndLost ++ text)

theorem cancelledError_notLost : ¬ SaysLost cancelledError := by
  have begins : "传输已取消".toList.head? = some '传' := by decide
  have changed : changedAndLost.head? = some '远' := by decide
  have replaced : replacedAndLost.head? = some '提' := by decide
  rintro ⟨text, same | same⟩
  · have head := congrArg List.head? (TransferError.Other.inj same)
    rw [begins, head?_append, changed] at head
    cases head
  · have head := congrArg List.head? (TransferError.Other.inj same)
    rw [begins, head?_append, replaced] at head
    cases head

section
variable {Path : Type} {α : Type}

/-- What a transfer started on: the files of its side, the source, and the names
    that a backup may have. -/
structure Start (Path : Type) where
  before : Files Path
  target : Path
  source : Option Entry
  backup : Path → Prop

/-- The old content of the target has a name, or the new content is there. -/
def Start.Safe (start : Start Path) (files : Files Path) : Prop :=
  ∀ old, start.before start.target = some old → files start.target = some old ∨
    (∃ path, start.backup path ∧ files path = some old) ∨ ∃ entry, start.source = some entry ∧ files start.target = some entry

/-- `removes` is whether the transfer's own removals succeed. -/
structure Kept (start : Start Path) (removes : Prop) (result : Except TransferError α × Store Path) : Prop where
  ok : ∀ value, result.1 = .ok value → (∃ entry, start.source = some entry ∧ result.2.files start.target = some entry) ∧
    (removes → ∀ path, path ≠ start.target → result.2.files path = start.before path)
  held : ∀ error, result.1 = .error error → ∀ old, start.before start.target = some old →
    result.2.files start.target = some old ∨ SaysLost error ∧ ∃ path, start.backup path ∧ result.2.files path = some old
  /-- Nothing is left behind, and the target is as it was. -/
  clean : ∀ error, result.1 = .error error → removes → ∀ path, result.2.files path = start.before path ∨
    SaysLost error ∧ (path = start.target ∨ start.backup path)
  moments : ∀ files ∈ result.2.moments, start.Safe files

/-- Only the temporary file is not as it was before. -/
structure Beside (start : Start Path) (temporary : Path) (store : Store Path) : Prop where
  new : start.before temporary = none
  apart : temporary ≠ start.target
  there : ∃ bytes, store.files temporary = some ⟨true, bytes⟩
  others : ∀ path, path ≠ temporary → store.files path = start.before path
  moments : ∀ files ∈ store.moments, start.Safe files

variable {start : Start Path} {temp : Path} {store : Store Path} {removes : Prop}

variable {files : Files Path}

theorem Start.safe_of_target (same : files start.target = start.before start.target) : start.Safe files :=
  fun _ old => .inl (same.trans old)

theorem moments_put (safe : start.Safe files) (moments : ∀ files ∈ store.moments, start.Safe files) :
    ∀ files' ∈ (store.put files).moments, start.Safe files' := by
  intro files' mem
  rcases mem_cons.mp mem with rfl | before
  · exact safe
  · exact moments files' before

variable {error : TransferError}

theorem Kept.unchanged (same : store.files = start.before) (moments : ∀ files ∈ store.moments, start.Safe files) :
    Kept start removes ((.error error, store) : Except TransferError α × Store Path) where
  ok := by
    intro value done
    cases done
  held := fun _ _ old found => .inl (by rw [same]; exact found)
  clean := fun _ _ _ path => .inl (by rw [same])
  moments := moments

theorem Kept.done {new : Entry} {value : α} (source : start.source = some new) (there : store.files start.target = some new)
    (others : removes → ∀ path, path ≠ start.target → store.files path = start.before path)
    (moments : ∀ files ∈ store.moments, start.Safe files) : Kept start removes (.ok value, store) :=
  ⟨fun _ _ => ⟨⟨new, source, there⟩, others⟩, nofun, nofun, moments⟩

variable [DecidableEq Path]

@[simp] theorem write_there {bytes : List UInt8} : (store.write temp bytes).files temp = some ⟨true, bytes⟩ := by
  simp [Store.write]

theorem Beside.write (beside : Beside start temp store) (bytes : List UInt8) :
    Beside start temp (store.write temp bytes) where
  new := beside.new
  apart := beside.apart
  there := ⟨bytes, write_there⟩
  others := fun path other => by
    rw [Store.write, Store.put_files, update_of_ne other]
    exact beside.others path other
  moments := by
    refine moments_put (Start.safe_of_target ?_) beside.moments
    rw [update_of_ne beside.apart.symm]
    exact beside.others _ beside.apart.symm

theorem beside_create (same : store.files = start.before) (moments : ∀ files ∈ store.moments, start.Safe files)
    (new : store.files temp = none) (apart : temp ≠ start.target) : Beside start temp (store.write temp []) where
  new := same ▸ new
  apart := apart
  there := ⟨[], write_there⟩
  others := fun path other => by rw [Store.write, Store.put_files, update_of_ne other, same]
  moments := by
    refine moments_put (Start.safe_of_target ?_) moments
    rw [update_of_ne apart.symm, same]

/-- The transfer has failed, and its temporary file may still be there. -/
structure Failed (start : Start Path) (temporary : Path) (error : TransferError) (store : Store Path) : Prop where
  new : start.before temporary = none
  apart : temporary ≠ start.target
  notBackup : ¬ start.backup temporary
  others : ∀ path, path ≠ temporary → store.files path = start.before path ∨ SaysLost error ∧ (path = start.target ∨ start.backup path)
  held : ∀ old, start.before start.target = some old →
    store.files start.target = some old ∨ SaysLost error ∧ ∃ path, start.backup path ∧ store.files path = some old
  moments : ∀ files ∈ store.moments, start.Safe files

omit [DecidableEq Path] in
theorem Beside.failed (beside : Beside start temp store) (notBackup : ¬ start.backup temp) :
    Failed start temp error store where
  new := beside.new
  apart := beside.apart
  notBackup := notBackup
  others := fun path other => .inl (beside.others path other)
  held := fun _ found => .inl ((beside.others _ beside.apart.symm).trans found)
  moments := beside.moments

theorem remove_cases (store : Store Path) (path : Path) (reply : Reply SftpError) :
    (∃ error, store.remove path reply = (.error error, store) ∧ (reply = .done → store.files path = none)) ∨
      store.remove path reply = (.ok (), store.put (update store.files path none)) := by
  cases reply with
  | refused error => exact .inl ⟨error, rfl, by simp⟩
  | done =>
    cases there : store.files path with
    | none => exact .inl ⟨missing, by simp [Store.remove, there], fun _ => rfl⟩
    | some entry => exact .inr (by simp [Store.remove, there])

theorem rename_cases (store : Store Path) (replaces : Bool) (old new : Path) (reply : Reply SftpError) :
    (∃ error, store.rename replaces old new reply = (.error error, store)) ∨
      ∃ entry, store.files old = some entry ∧ store.rename replaces old new reply =
        (.ok (), store.put (update (update store.files old none) new (some entry))) := by
  cases reply with
  | refused error => exact .inl ⟨error, rfl⟩
  | done =>
    cases there : store.files old with
    | none => exact .inl ⟨missing, by simp [Store.rename, there]⟩
    | some entry =>
      by_cases taken : ((store.files new).isSome && !replaces) = true
      · exact .inl ⟨⟨.Other, "Failure"⟩, by simp only [Store.rename, there, if_pos taken]⟩
      · exact .inr ⟨entry, rfl, by simp only [Store.rename, there, if_neg taken]⟩

omit [DecidableEq Path] in
theorem Start.safe_of_new {entry : Entry} (source : start.source = some entry)
    (there : files start.target = some entry) : start.Safe files :=
  fun _ _ => .inr (.inr ⟨entry, source, there⟩)

theorem Beside.renamed {new : Entry} {value : α} (beside : Beside start temp store) (source : start.source = some new) :
    Kept start removes (.ok value, store.put (update (update store.files temp none) start.target (some new))) := by
  have target : update (update store.files temp none) start.target (some new) start.target = some new := by simp
  refine .done source target (fun _ path aside => ?_) (moments_put (Start.safe_of_new source target) beside.moments)
  rw [Store.put_files, update_of_ne aside]
  by_cases same : path = temp
  · rw [same, update_self, beside.new]
  · rw [update_of_ne same]
    exact beside.others path same

theorem Start.safe_update {value : Option Entry} (safe : start.Safe files) (apart : temp ≠ start.target)
    (notBackup : ¬ start.backup temp) : start.Safe (update files temp value) := by
  intro old found
  rw [update_of_ne apart.symm]
  rcases safe old found with target | ⟨path, backup, held⟩ | new
  · exact .inl target
  · refine .inr (.inl ⟨path, backup, ?_⟩)
    rw [update_of_ne fun same : path = temp => notBackup (same ▸ backup)]
    exact held
  · exact .inr (.inr new)

theorem cleanup_other {reply : Reply SftpError} {path : Path} (other : path ≠ temp) :
    (store.cleanup temp reply).files path = store.files path := by
  rcases remove_cases store temp reply with ⟨refusal, done, -⟩ | done
  · rw [Store.cleanup, done]
  · rw [Store.cleanup, done, Store.put_files, update_of_ne other]

theorem Failed.removed (reply : Reply SftpError) (failed : Failed start temp error store) :
    Failed start temp error (store.cleanup temp reply) where
  new := failed.new
  apart := failed.apart
  notBackup := failed.notBackup
  others := fun path other => by
    rw [cleanup_other other]
    exact failed.others path other
  held := by
    intro value found
    rw [cleanup_other failed.apart.symm]
    refine (failed.held value found).imp_right fun ⟨lost, path, isBackup, held⟩ => ⟨lost, path, isBackup, ?_⟩
    rw [cleanup_other fun same : path = temp => failed.notBackup (same ▸ isBackup)]
    exact held
  moments := by
    rcases remove_cases store temp reply with ⟨refusal, done, -⟩ | done
    · rw [Store.cleanup, done]
      exact failed.moments
    · rw [Store.cleanup, done]
      exact moments_put (Start.safe_update (failed.moments _ mem_cons_self) failed.apart failed.notBackup) failed.moments

theorem Failed.cleaned {reply : Reply SftpError} (failed : Failed start temp error store) (own : removes → reply = .done) :
    Kept start removes ((.error error, store.cleanup temp reply) : Except TransferError α × Store Path) := by
  have last := failed.removed reply
  refine ⟨by simp, ?_, ?_, last.moments⟩
  · rintro _ ⟨⟩
    exact last.held
  rintro _ ⟨⟩ removed path
  by_cases same : path = temp
  · left
    rw [same, failed.new]
    rcases remove_cases store temp reply with ⟨refusal, done, gone⟩ | done
    · rw [Store.cleanup, done]
      exact gone (own removed)
    · rw [Store.cleanup, done, Store.put_files, update_self]
  · exact last.others path same

end

theorem take_append_rest (rest : List UInt8) (n : Nat) : rest.take n ++ rest.drop (rest.take n).length = rest := by
  have same : rest.take n = rest.take (rest.take n).length := by
    rw [take_eq_take_iff, length_take]
    omega
  calc rest.take n ++ rest.drop (rest.take n).length
      = rest.take (rest.take n).length ++ rest.drop (rest.take n).length := by rw [← same]
    _ = rest := take_append_drop _ _

/-- A copy changes the temporary file only, and one that is done has written a first part of the bytes. -/
def Copied {Path : Type} (start : Start Path) (temporary : Path) (written rest : List UInt8) (result : Except TransferError Nat × Store Path) :
    Prop :=
  Beside start temporary result.2 ∧ ∀ size, result.1 = .ok size →
    ∃ done left, done ++ left = written ++ rest ∧ size = done.length ∧ result.2.files temporary = some ⟨true, done⟩

section
variable {Path : Type} {start : Start Path} {temp : Path} {store : Store Path} {written rest : List UInt8}

theorem Beside.stopped {error : TransferError}
    (beside : Beside start temp store) : Copied start temp written rest (.error error, store) :=
  ⟨beside, nofun⟩

theorem Beside.ended (beside : Beside start temp store) (there : store.files temp = some ⟨true, written⟩) :
    Copied start temp written rest (.ok written.length, store) := by
  refine ⟨beside, ?_⟩
  rintro _ ⟨⟩
  exact ⟨written, rest, rfl, rfl, there⟩

theorem Copied.round {n : Nat} {result : Except TransferError Nat × Store Path} (copied : Copied start temp (written ++ rest.take n)
    (rest.drop (rest.take n).length) result) : Copied start temp written rest result := by
  refine ⟨copied.1, fun size finished => ?_⟩
  obtain ⟨done, left, split, count, file⟩ := copied.2 size finished
  refine ⟨done, left, split.trans ?_, count, file⟩
  rw [append_assoc, take_append_rest]

theorem drop_shorter {n : Nat} (some : rest.take n ≠ []) : (rest.drop (rest.take n).length).length < rest.length := by
  have held := length_pos_iff.mpr some
  simp only [length_drop, length_take] at held ⊢
  omega

end

theorem copyUpload_beside {start : Start Text} {temp : Text} {session : Session} {rounds : Nat → UploadRound} {total : Nat}
    (rest : List UInt8) : ∀ (round : Nat) (written : List UInt8) (store : Store Text), Beside start temp store →
      store.files temp = some ⟨true, written⟩ →
      Copied start temp written rest (copyUpload session rounds temp total round rest written store) := by
  induction bytes : rest.length using Nat.strong_induction_on generalizing rest with
  | _ left ih =>
    intro round written store beside there
    unfold copyUpload
    split
    case isTrue => exact beside.stopped
    split
    case h_1 => exact beside.stopped
    case h_2 most _ =>
      simp only
      split
      case isTrue => exact beside.ended there
      case isFalse some =>
        split
        case isTrue => exact beside.stopped
        split
        case h_1 => exact (beside.write _).stopped
        case h_2 => exact (beside.write _).stopped
        case h_3 => exact (ih _ (bytes ▸ drop_shorter some) _ rfl (round + 1) _ _ (beside.write _) write_there).round

theorem copyDownload_beside {start : Start LocalPath} {production : Bool} {rounds : Nat → DownloadRound}
    {total : Nat} (rest : List UInt8) : ∀ (round : Nat) (written : List UInt8) (store : Store LocalPath),
      Beside start temp store → store.files temp = some ⟨true, written⟩ →
      Copied start temp written rest (copyDownload production rounds temp total round rest written store) := by
  induction bytes : rest.length using Nat.strong_induction_on generalizing rest with
  | _ left ih =>
    intro round written store beside there
    unfold copyDownload
    split
    case isTrue => exact beside.stopped
    split
    case isTrue => exact beside.stopped
    split
    case h_1 => exact beside.stopped
    case h_2 =>
      split
      case isTrue => exact beside.ended there
      case isFalse => exact beside.stopped
    case h_3 =>
      split
      case isTrue => exact beside.ended there
      simp only
      split
      case isTrue => exact beside.stopped
      case isFalse some =>
        split
        case isTrue => exact beside.stopped
        split
        case h_1 => exact (beside.write _).stopped
        case h_2 => exact (ih _ (bytes ▸ drop_shorter some) _ rfl (round + 1) _ _ (beside.write _) write_there).round

theorem whole_of_length {bytes done left : List UInt8} (split : done ++ left = [] ++ bytes) (count : bytes.length = done.length) :
    done = bytes := by
  rw [nil_append] at split
  have empty : left = [] := by
    have total := congrArg List.length split
    rw [length_append] at total
    exact length_eq_zero_iff.mp (by omega)
  rw [← split, empty, append_nil]

section
variable {start : Start Text} {temp backup : Text} {old new : Entry} {store : Store Text} {removes : Prop}
  {replaces : Bool} {answers : CommitAnswers}

/-- The old target is in the backup, and the new content in the temporary file. -/
structure Moved (start : Start Text) (temporary backup : Text) (old new : Entry) (store : Store Text) : Prop where
  unused : start.before temporary = none
  fresh : start.before backup = none
  apart : temporary ≠ start.target
  backupApart : backup ≠ start.target
  notBackup : ¬ start.backup temporary
  isBackup : start.backup backup
  before : start.before start.target = some old
  source : start.source = some new
  target : store.files start.target = none
  held : store.files backup = some old
  there : store.files temporary = some new
  others : ∀ path, path ≠ temporary → path ≠ backup → path ≠ start.target → store.files path = start.before path
  moments : ∀ files ∈ store.moments, start.Safe files

section
variable {error : TransferError} (moved : Moved start temp backup old new store)
include moved

theorem Moved.lost (told : SaysLost error) :
    Failed start temp error store where
  new := moved.unused
  apart := moved.apart
  notBackup := moved.notBackup
  others := by
    intro path other
    by_cases target : path = start.target
    · exact .inr ⟨told, .inl target⟩
    by_cases same : path = backup
    · exact .inr ⟨told, .inr (same ▸ moved.isBackup)⟩
    · exact .inl (moved.others path other same target)
  held := by
    intro value found
    rw [moved.before] at found
    exact .inr ⟨told, backup, moved.isBackup, moved.held.trans found⟩
  moments := moved.moments

theorem Moved.restored :
    Failed start temp error (store.put (update (update store.files backup none) start.target (some old))) := by
  have files : ∀ path, path ≠ temp →
      update (update store.files backup none) start.target (some old) path = start.before path := by
    intro path other
    by_cases target : path = start.target
    · rw [target, update_self, moved.before]
    by_cases same : path = backup
    · rw [update_of_ne target, same, update_self, moved.fresh]
    · rw [update_of_ne target, update_of_ne same]
      exact moved.others path other same target
  refine ⟨moved.unused, moved.apart, moved.notBackup, fun path other => .inl (files path other), ?_, ?_⟩
  · intro value found
    exact .inl ((files _ moved.apart.symm).trans found)
  · exact moments_put (Start.safe_of_target (files _ moved.apart.symm)) moved.moments

end

/-- What a commit comes to: the new content is at the target, or it has failed. -/
def Committed {Path α : Type} (start : Start Path) (temporary : Path) (removes : Prop) : Except TransferError α × Store Path → Prop
  | (.ok value, store) => Kept start removes ((.ok value, store) : Except TransferError α × Store Path)
  | (.error error, store) => Failed start temporary error store

theorem restoreChanged_committed {metadata : Except SftpError Entry} (moved : Moved start temp backup old new store) :
    Committed start temp removes (restoreChanged replaces answers store start.target backup metadata) := by
  unfold restoreChanged
  rcases rename_cases store replaces backup start.target answers.restore with ⟨error, done⟩ | ⟨entry, found, done⟩
  · rw [done]
    have told : SaysLost (.Other (changedAndLost ++ error.text)) := ⟨_, .inl rfl⟩
    cases metadata <;> exact moved.lost told
  · rw [done]
    obtain rfl := Option.some_inj.mp (moved.held.symm.trans found)
    cases metadata <;> exact moved.restored

theorem Moved.replaced (warnings : List Text) (moved : Moved start temp backup old new store)
    (own : removes → answers.removeBackup = .done) :
    ∀ store', store' = store.put (update (update store.files temp none) start.target (some new)) →
      Kept start removes ((.ok warnings, (store'.remove backup answers.removeBackup).2) : Except TransferError (List Text) × Store Text) := by
  rintro store' rfl
  have target : update (update store.files temp none) start.target (some new) start.target = some new := by simp
  have moments := moments_put (Start.safe_of_new moved.source target) moved.moments
  have files : ∀ path, path ≠ backup → path ≠ start.target →
      update (update store.files temp none) start.target (some new) path = start.before path := by
    intro path other aside
    rw [update_of_ne aside]
    by_cases same : path = temp
    · rw [same, update_self, moved.unused]
    · rw [update_of_ne same]
      exact moved.others path same other aside
  rcases remove_cases (store.put (update (update store.files temp none) start.target (some new)))
    backup answers.removeBackup with ⟨error, done, gone⟩ | done
  · rw [done]
    refine .done moved.source target (fun removed path aside => ?_) moments
    by_cases same : path = backup
    · rw [same, moved.fresh]
      exact gone (own removed)
    · exact files path same aside
  · rw [done]
    have target' : update (update (update store.files temp none) start.target (some new)) backup none
        start.target = some new := by rw [update_of_ne moved.backupApart.symm, target]
    refine .done moved.source target' (fun _ path aside => ?_) (moments_put (Start.safe_of_new moved.source target') moments)
    by_cases same : path = backup
    · rw [same, Store.put_files, update_self, moved.fresh]
    · rw [Store.put_files, update_of_ne same]
      exact files path same aside

theorem replaceTarget_committed (moved : Moved start temp backup old new store) (own : removes → answers.removeBackup = .done) :
    Committed start temp removes (replaceTarget replaces answers store temp start.target backup) := by
  unfold replaceTarget
  rcases rename_cases store replaces temp start.target answers.replace with ⟨error, done⟩ | ⟨entry, found, done⟩
  · rw [done]
    rcases rename_cases store replaces backup start.target answers.restore with ⟨error', done'⟩ | ⟨entry, found, done'⟩
    · simp only [done']
      have told : SaysLost (.Other (replacedAndLost ++ error.text ++ "；" ++ error'.text)) :=
        ⟨error.text ++ "；" ++ error'.text, .inr (by simp)⟩
      exact (moved.lost told).removed _
    · simp only [done']
      obtain rfl := Option.some_inj.mp (moved.held.symm.trans found)
      exact moved.restored.removed _
  · rw [done]
    obtain rfl := Option.some_inj.mp (moved.there.symm.trans found)
    have kept := fun warnings => Moved.replaced warnings moved own _ rfl
    simp only
    split
    case h_1 removed =>
      have last := kept []
      rw [removed] at last
      exact last
    case h_2 error _ removed =>
      have last := kept ["远程文件已替换，但清理覆盖备份失败：" ++ error.text]
      rw [removed] at last
      exact last

theorem commitRemote_committed {targetExisted : Bool} (beside : Beside start temp store) (notBackup : ¬ start.backup temp)
    (source : start.source = some new) (there : store.files temp = some new)
    (names : ∀ path, start.backup path ↔ remoteSibling start.target "ramag-backup" answers.unique = .ok path)
    (fresh : ∀ path, start.backup path → start.before path = none) (own : removes → answers.removeBackup = .done) :
    Committed start temp removes (commitRemote replaces answers store temp start.target targetExisted) := by
  unfold commitRemote
  cases targetExisted with
  | false =>
    rcases rename_cases store replaces temp start.target answers.publish with ⟨error, done⟩ | ⟨entry, found, done⟩
    · simp only [done]
      exact beside.failed notBackup
    · simp only [done]
      obtain rfl := Option.some_inj.mp (there.symm.trans found)
      exact beside.renamed source
  | true =>
    simp only [Bool.not_true, Bool.false_eq_true, if_false]
    cases named : remoteSibling start.target "ramag-backup" answers.unique with
    | error error => exact beside.failed notBackup
    | ok backup =>
      have isBackup := (names backup).mpr named
      have backupApart : backup ≠ start.target := remoteSibling_ne named
      have differ : temp ≠ backup := fun same => notBackup (same ▸ isBackup)
      rcases rename_cases store replaces start.target backup answers.backup with ⟨error, done⟩ | ⟨old, found, done⟩
      · simp only [done]
        exact beside.failed notBackup
      simp only [done]
      have held := (beside.others _ beside.apart.symm).symm.trans found
      have backed : update (update store.files start.target none) backup (some old) backup = some old := by simp
      have moved : Moved start temp backup old new
          (store.put (update (update store.files start.target none) backup (some old))) := by
        refine ⟨beside.new, fresh backup isBackup, beside.apart, backupApart, notBackup, isBackup, held, source, ?_, backed, ?_, ?_, ?_⟩
        · rw [Store.put_files, update_of_ne backupApart.symm, update_self]
        · rw [Store.put_files, update_of_ne differ, update_of_ne beside.apart]
          exact there
        · intro path other same aside
          rw [Store.put_files, update_of_ne same, update_of_ne aside]
          exact beside.others path other
        · refine moments_put ?_ beside.moments
          intro value found'
          rw [held] at found'
          exact .inr (.inl ⟨backup, isBackup, backed.trans found'⟩)
      split
      · exact replaceTarget_committed moved own
      · exact restoreChanged_committed moved

/-- The transfer's own removals succeed. -/
def UploadAnswers.Removes (answers : UploadAnswers) : Prop :=
  answers.cleanup = .done ∧ answers.commit.cleanup = .done ∧ answers.commit.removeBackup = .done

/-- Where an upload starts. -/
def uploadStart (answers : UploadAnswers) (locals : Files LocalPath) (localPath : LocalPath) (remotePath : Text) (before : Files Text) :
    Start Text where
  before := before
  target := remotePath
  source := locals localPath
  backup := fun path => remoteSibling remotePath "ramag-backup" answers.commit.unique = .ok path

variable {answers : UploadAnswers}

variable {session : Session} {bytes : List UInt8}

theorem transferUpload_copied : (transferUpload session answers bytes temp store).2 =
        (copyUpload session answers.rounds temp bytes.length 0 bytes [] store).2 ∧
      ∀ size, (transferUpload session answers bytes temp store).1 = .ok size →
        (copyUpload session answers.rounds temp bytes.length 0 bytes [] store).1 = .ok size := by
  unfold transferUpload
  rcases copyUpload session answers.rounds temp bytes.length 0 bytes [] store with ⟨copied, after⟩
  cases copied with
  | error error => cases answers.close <;> exact ⟨rfl, fun _ done => nomatch done⟩
  | ok length =>
    by_cases plain : (!session.supportsFsync) = true
    · simp only [if_pos plain]
      cases answers.close with
      | done => exact ⟨rfl, fun _ same => same⟩
      | refused error => exact ⟨rfl, fun _ done => nomatch done⟩
    simp only [if_neg plain]
    rcases answers.fsync with (_ | error) | _
    · cases answers.close with
      | done => exact ⟨rfl, fun _ same => same⟩
      | refused error => exact ⟨rfl, fun _ done => nomatch done⟩
    · cases answers.close <;> exact ⟨rfl, fun _ done => nomatch done⟩
    · cases answers.close <;> exact ⟨rfl, fun _ done => nomatch done⟩

theorem finishUpload_kept {existed : Bool}
    (beside : Beside start temp store) (notBackup : ¬ start.backup temp) (source : start.source = some ⟨true, bytes⟩)
    (empty : store.files temp = some ⟨true, []⟩)
    (names : ∀ path, start.backup path ↔ remoteSibling start.target "ramag-backup" answers.commit.unique = .ok path)
    (fresh : ∀ path, start.backup path → start.before path = none) :
    Kept start answers.Removes (finishUpload session answers bytes existed temp start.target store) := by
  have own : answers.Removes → answers.cleanup = .done := fun removes => removes.1
  have copy : Copied start temp [] bytes (copyUpload session answers.rounds temp bytes.length 0 bytes [] store) :=
    copyUpload_beside bytes 0 [] store beside empty
  have same : (transferUpload session answers bytes temp store).2 = _ ∧ _ := transferUpload_copied
  unfold finishUpload
  revert same
  rcases transferUpload session answers bytes temp store with ⟨transferred, after⟩
  rintro ⟨rfl, success⟩
  cases transferred with
  | error error => exact (copy.1.failed notBackup).cleaned own
  | ok transferred =>
    simp only
    by_cases short : transferred ≠ bytes.length
    · rw [if_pos short]
      exact (copy.1.failed notBackup).cleaned own
    rw [if_neg short]
    split_ifs with cancelled
    · exact (copy.1.failed notBackup).cleaned own
    obtain ⟨done, left, split, count, file⟩ := copy.2 transferred (success transferred rfl)
    rw [whole_of_length split ((not_not.mp short).symm.trans count)] at file
    have committed : Committed start temp answers.Removes (commitRemote session.replaces answers.commit _ temp start.target existed) :=
      commitRemote_committed copy.1 notBackup source file names fresh fun removes => removes.2.2
    revert committed
    rcases commitRemote session.replaces answers.commit _ temp start.target existed with ⟨committed, last⟩
    cases committed with
    | ok warnings => exact fun kept => kept
    | error error => exact fun failed => Failed.cleaned failed own

variable {overwrite : OverwritePolicy}

theorem prepareUpload_ok {locals : Files LocalPath} {localPath : LocalPath} {remotePath : Text} {existed : Bool}
    (prepared : prepareUpload answers locals localPath remotePath overwrite store = .ok (bytes, existed, temp)) :
    locals localPath = some ⟨true, bytes⟩ ∧ remoteSibling remotePath "ramag-upload" answers.unique = .ok temp := by
  unfold prepareUpload at prepared
  iterate 4
    split at prepared
    next => cases prepared
  split at prepared
  case h_1 => cases prepared
  case h_2 entry opened =>
    split at prepared
    case h_1 => cases prepared
    split at prepared
    case isTrue => cases prepared
    case isFalse regular =>
      iterate 3
        split at prepared
        next => cases prepared
      split at prepared
      case h_1 => cases prepared
      case h_2 sibling named =>
        cases prepared
        refine ⟨?_, named⟩
        have found : locals localPath = some entry := by
          unfold localEntry at opened
          split at opened
          · cases opened
          · cases opened
          · cases opened
            assumption
        rw [found]
        obtain ⟨kind, bytes⟩ := entry
        simp only [Bool.not_eq_true, Bool.not_eq_false'] at regular
        rw [regular]

/-- The cancellation comes while the temporary file is being created, and the
    server has created it. -/
def CreatedForNobody (answers : UploadAnswers) (locals : Files LocalPath) (localPath : LocalPath) (remotePath : Text)
    (overwrite : OverwritePolicy) (before : Files Text) : Prop :=
  ∃ bytes existed temporary, prepareUpload answers locals localPath remotePath overwrite ⟨before, []⟩ = .ok (bytes, existed, temporary) ∧
    answers.openTemporary = .cancelled ∧ answers.created = true ∧ before temporary = none

theorem upload_kept {locals : Files LocalPath} {localPath : LocalPath} {remotePath : Text} {before : Files Text}
    (fresh : ∀ path, remoteSibling remotePath "ramag-backup" answers.commit.unique = .ok path → before path = none) :
    Kept (uploadStart answers locals localPath remotePath before) answers.Removes
        (upload session answers locals localPath remotePath overwrite ⟨before, []⟩) ↔
      (answers.Removes → ¬ CreatedForNobody answers locals localPath remotePath overwrite before) := by
  have first : ∀ files ∈ (⟨before, []⟩ : Store Text).moments, (uploadStart answers locals localPath remotePath before).Safe files := by
    intro files mem
    rw [mem_singleton.mp mem]
    exact Start.safe_of_target rfl
  constructor
  · rintro kept removes ⟨bytes, existed, temp, prepared, cancelled, created, new⟩
    unfold upload at kept
    simp only [prepared, cancelled, created, new, Option.isNone_none, Bool.and_self, if_true] at kept
    rcases kept.clean cancelledError rfl removes temp with same | ⟨⟨text, lost⟩, -⟩
    · rw [write_there] at same
      cases same.trans new
    · exact cancelledError_notLost ⟨text, lost⟩
  · intro free
    unfold upload
    cases prepared : prepareUpload answers locals localPath remotePath overwrite ⟨before, []⟩ with
    | error error => exact .unchanged rfl first
    | ok found =>
      obtain ⟨bytes, existed, temp⟩ := found
      obtain ⟨source, named⟩ := prepareUpload_ok prepared
      have apart : temp ≠ remotePath := remoteSibling_ne named
      have notBackup : ¬ (uploadStart answers locals localPath remotePath before).backup temp :=
        fun backup => remoteSibling_apart named backup rfl
      rcases opening : answers.openTemporary with (_ | error) | _
      · by_cases taken : (before temp).isSome = true
        · simp only [if_pos taken]
          exact .unchanged rfl first
        · simp only [if_neg taken]
          have new : before temp = none := by simpa using taken
          exact finishUpload_kept (beside_create rfl first new apart) notBackup source write_there (fun _ => Iff.rfl) fresh
      · exact .unchanged rfl first
      · by_cases created : (answers.created && (before temp).isNone) = true
        · simp only [if_pos created]
          simp only [Bool.and_eq_true, Option.isNone_iff_eq_none] at created
          have beside : Beside (uploadStart answers locals localPath remotePath before) temp _ :=
            beside_create rfl first created.2 apart
          refine ⟨by simp, ?_, ?_, beside.moments⟩
          · rintro _ ⟨⟩ old held
            exact .inl ((beside.others _ apart.symm).trans held)
          · rintro _ - removes
            exact absurd ⟨bytes, existed, temp, prepared, opening, created.1, created.2⟩ (free removes)
        · simp only [if_neg created]
          exact .unchanged rfl first

end

theorem transferDownload_copied {store : Store LocalPath} {production : Bool} {answers : DownloadAnswers} {bytes : List UInt8} :
    (transferDownload answers production bytes temp store).2 =
        (copyDownload production answers.rounds temp bytes.length 0 bytes [] store).2 ∧
      ∀ size, (transferDownload answers production bytes temp store).1 = .ok size →
        (copyDownload production answers.rounds temp bytes.length 0 bytes [] store).1 = .ok size := by
  unfold transferDownload
  rcases copyDownload production answers.rounds temp bytes.length 0 bytes [] store with ⟨copied, after⟩
  cases answers.close with
  | done => exact ⟨rfl, fun _ same => same⟩
  | refused error => cases copied <;> exact ⟨rfl, fun _ done => nomatch done⟩

section
variable {start : Start LocalPath} {temp : LocalPath} {store : Store LocalPath}

/-- The transfer's own removals succeed. -/
def DownloadAnswers.Removes (answers : DownloadAnswers) : Prop := answers.cleanup = .done ∧ answers.removeLink = .done

/-- Where a download starts; it makes no backup. -/
def downloadStart (remotes : Store Text) (remotePath : Text) (localPath : LocalPath) (before : Files LocalPath) : Start LocalPath where
  before := before
  target := localPath
  source := remotes.files remotePath
  backup := fun _ => False

variable {overwrite : OverwritePolicy} {answers : DownloadAnswers}

/-- A commit puts the new content at the target, or fails before it; only a link
    whose temporary name is not removed is an error after it. -/
theorem commitLocal_cases {new : Entry} (beside : Beside start temp store)
    (notBackup : ¬ start.backup temp) (source : start.source = some new) (there : store.files temp = some new) :
    Committed start temp answers.Removes (commitLocal answers store temp start.target overwrite) ∨
      ∃ error after, commitLocal answers store temp start.target overwrite = (.error error, after) ∧
        start.before start.target = none ∧ ¬ answers.Removes := by
  have target : store.files start.target = start.before start.target := beside.others _ beside.apart.symm
  unfold commitLocal
  rcases answers.commitTask with _ | error
  swap
  · exact .inl (beside.failed notBackup)
  cases overwrite with
  | Overwrite =>
    rcases answers.commit with _ | error
    swap
    · exact .inl (beside.failed notBackup)
    left
    simp only [there]
    exact beside.renamed source
  | Refuse =>
    rcases answers.commit with _ | error
    swap
    · exact .inl (beside.failed notBackup)
    split_ifs with taken
    · exact .inl (beside.failed notBackup)
    have free : start.before start.target = none := by
      rw [← target]
      simpa using taken
    simp only [there]
    cases unlinked : answers.removeLink with
    | refused error =>
      refine .inr ⟨_, _, rfl, free, fun removes => ?_⟩
      simp [removes.2] at unlinked
    | done =>
      left
      have linked : update store.files start.target (some new) start.target = some new := by simp
      have moved : update (update store.files start.target (some new)) temp none start.target = some new := by
        rw [update_of_ne beside.apart.symm, linked]
      refine .done source moved (fun _ path aside => ?_)
        (moments_put (Start.safe_of_new source moved) (moments_put (Start.safe_of_new source linked) beside.moments))
      rw [Store.put_files, Store.put_files]
      by_cases same : path = temp
      · rw [same, update_self, beside.new]
      · rw [update_of_ne same, update_of_ne aside]
        exact beside.others path same

variable {production : Bool}

theorem finishDownload_kept {bytes : List UInt8}
    (beside : Beside start temp store) (notBackup : ¬ start.backup temp) (source : start.source = some ⟨true, bytes⟩)
    (empty : store.files temp = some ⟨true, []⟩) :
    Kept start answers.Removes (finishDownload answers production bytes temp start.target overwrite store) := by
  have own : answers.Removes → answers.cleanup = .done := fun removes => removes.1
  have copy : Copied start temp [] bytes (copyDownload production answers.rounds temp bytes.length 0 bytes [] store) :=
    copyDownload_beside bytes 0 [] store beside empty
  have same : (transferDownload answers production bytes temp store).2 = _ ∧ _ := transferDownload_copied
  unfold finishDownload
  revert same
  rcases transferDownload answers production bytes temp store with ⟨transferred, after⟩
  rintro ⟨rfl, success⟩
  cases transferred with
  | error error => exact (copy.1.failed notBackup).cleaned own
  | ok transferred =>
    simp only
    by_cases short : transferred ≠ bytes.length
    · rw [if_pos short]
      exact (copy.1.failed notBackup).cleaned own
    rw [if_neg short]
    rcases finalizeDownload answers with error | _
    · exact (copy.1.failed notBackup).cleaned own
    split_ifs with cancelled
    · exact (copy.1.failed notBackup).cleaned own
    obtain ⟨done, left, split, count, file⟩ := copy.2 transferred (success transferred rfl)
    rw [whole_of_length split ((not_not.mp short).symm.trans count)] at file
    have commit : Committed start temp answers.Removes (commitLocal answers _ temp start.target overwrite) ∨ _ :=
      commitLocal_cases copy.1 notBackup source file
    rcases commit with committed | ⟨error, after, linked, free, kept⟩
    · revert committed
      rcases commitLocal answers _ temp start.target overwrite with ⟨committed, last⟩
      cases committed with
      | ok _ => exact fun kept => kept
      | error error => exact fun failed => Failed.cleaned failed own
    · rw [linked]
      refine ⟨by simp, ?_, fun _ _ removes => absurd removes kept, ?_⟩
      · intro _ _ old found
        simp [free] at found
      · intro files mem old found
        simp [free] at found

/-- The cancellation comes while the source is being opened or its attributes
    are asked for, after the temporary file was created. -/
def CreatedAndLeft (answers : DownloadAnswers) (remotes : Store Text) (remotePath : Text) (localPath : LocalPath)
    (overwrite : OverwritePolicy) (production : Bool) (before : Files LocalPath) : Prop :=
  ∃ temporary, prepareDownload answers remotes remotePath localPath overwrite production ⟨before, []⟩ = .ok temporary ∧
    answers.create = .done ∧ before temporary = none ∧ (answers.openSource = .cancelled ∨
      (∃ reply source, answers.openSource = .answered reply ∧ remotes.lstat remotePath reply = .ok source) ∧ answers.fstat = .cancelled)

variable {remotes : Store Text} {remotePath : Text}

theorem prepareDownload_ok {localPath : LocalPath}
    (prepared : prepareDownload answers remotes remotePath localPath overwrite production store = .ok temp) :
    localSibling localPath answers.unique = .ok temp := by
  unfold prepareDownload at prepared
  repeat
    split at prepared
    next => cases prepared
  exact prepared

theorem lstat_ok {reply : Reply SftpError} {entry : Entry}
    (found : remotes.lstat remotePath reply = .ok entry) : remotes.files remotePath = some entry := by
  unfold Store.lstat at found
  split at found
  · cases found
  · cases found
  · cases found
    assumption

theorem download_kept {localPath : LocalPath} {before : Files LocalPath} :
    Kept (downloadStart remotes remotePath localPath before) answers.Removes
        (download answers remotes remotePath localPath overwrite production ⟨before, []⟩) ↔
      (answers.Removes → ¬ CreatedAndLeft answers remotes remotePath localPath overwrite production before) := by
  have first : ∀ files ∈ (⟨before, []⟩ : Store LocalPath).moments, (downloadStart remotes remotePath localPath before).Safe files := by
    intro files mem
    rw [mem_singleton.mp mem]
    exact Start.safe_of_target rfl
  constructor
  · rintro kept removes ⟨temp, prepared, created, new, cancelled⟩
    have result : download answers remotes remotePath localPath overwrite production ⟨before, []⟩ =
        (.error cancelledError, (⟨before, []⟩ : Store LocalPath).write temp []) := by
      unfold download
      simp only [prepared, created, new, Option.isSome_none, Bool.false_eq_true, if_false]
      unfold openDownload
      rcases cancelled with opening | ⟨⟨reply, source, opened, found⟩, asking⟩
      · simp only [opening]
      · simp only [opened, found, asking]
    rw [result] at kept
    rcases kept.clean cancelledError rfl removes temp with same | ⟨lost, -⟩
    · rw [write_there] at same
      cases same.trans new
    · exact cancelledError_notLost lost
  · intro free
    unfold download
    cases prepared : prepareDownload answers remotes remotePath localPath overwrite production ⟨before, []⟩ with
    | error error => exact .unchanged rfl first
    | ok temp =>
      have apart : temp ≠ localPath := localSibling_ne (prepareDownload_ok prepared)
      have own : answers.Removes → answers.cleanup = .done := fun removes => removes.1
      simp only
      cases created : answers.create with
      | refused error => exact .unchanged rfl first
      | done =>
        by_cases taken : (before temp).isSome = true
        · simp only [if_pos taken]
          exact .unchanged rfl first
        simp only [if_neg taken]
        have new : before temp = none := by simpa using taken
        have beside : Beside (downloadStart remotes remotePath localPath before) temp _ := beside_create rfl first new apart
        have failed : ∀ error, Failed (downloadStart remotes remotePath localPath before) temp error _ :=
          fun error => beside.failed fun backup => backup
        -- The two exits that leave the temporary file.
        have left : CreatedAndLeft answers remotes remotePath localPath overwrite production before →
            Kept (downloadStart remotes remotePath localPath before) answers.Removes
              ((.error cancelledError, _) : Except TransferError Unit × Store LocalPath) := fun happened =>
          ⟨by simp, fun error _ => (by
            intro old held
            exact .inl ((beside.others _ apart.symm).trans held)), fun _ _ removes => absurd happened (free removes), beside.moments⟩
        unfold openDownload
        cases opening : answers.openSource with
        | cancelled => exact left ⟨temp, prepared, created, new, .inl opening⟩
        | answered reply =>
          simp only
          cases opened : remotes.lstat remotePath reply with
          | error error => exact (failed _).cleaned own
          | ok source =>
            rcases asking : answers.fstat with (_ | error) | _
            · simp only
              by_cases other : (!source.regular) = true
              · rw [if_pos other]
                exact (failed _).cleaned own
              rw [if_neg other]
              by_cases sized : (!answers.fstatSize) = true
              · rw [if_pos sized]
                exact (failed _).cleaned own
              rw [if_neg sized]
              split
              · exact (failed _).cleaned own
              have whole : (downloadStart remotes remotePath localPath before).source = some ⟨true, source.bytes⟩ := by
                simp only [Bool.not_eq_true, Bool.not_eq_false'] at other
                rw [← other]
                exact lstat_ok opened
              exact finishDownload_kept beside (fun backup => backup) whole write_there
            · exact (failed _).cleaned own
            · exact left ⟨temp, prepared, created, new, .inr ⟨⟨reply, source, opening, opened⟩, asking⟩⟩

end

/-- Every upload and every download keeps what it promises, if and only if no
    cancellation comes where the temporary file is left. Backup names are new. -/
theorem transfers_kept {session : Session} {answers : UploadAnswers} {answers' : DownloadAnswers} {locals : Files LocalPath}
    {remotes : Files Text} {localPath : LocalPath} {remotePath : Text} {overwrite : OverwritePolicy} {production : Bool}
    (fresh : ∀ path, remoteSibling remotePath "ramag-backup" answers.commit.unique = .ok path → remotes path = none) :
    (Kept (uploadStart answers locals localPath remotePath remotes) answers.Removes
        (upload session answers locals localPath remotePath overwrite ⟨remotes, []⟩) ↔
      (answers.Removes → ¬ CreatedForNobody answers locals localPath remotePath overwrite remotes)) ∧
    (Kept (downloadStart ⟨remotes, []⟩ remotePath localPath locals) answers'.Removes
        (download answers' ⟨remotes, []⟩ remotePath localPath overwrite production ⟨locals, []⟩) ↔
      (answers'.Removes → ¬ CreatedAndLeft answers' ⟨remotes, []⟩ remotePath localPath overwrite production locals)) :=
  ⟨upload_kept fresh, download_kept⟩

def sampleSession : Session := ⟨4, 4, true, false⟩
def sampleLocal : LocalPath := ⟨some "/home", some "a"⟩
def sampleLocals : Files LocalPath := Function.update (fun _ => none) sampleLocal (some ⟨true, [1, 2, 3]⟩)
def sampleRemotes : Files Text := Function.update (fun _ => none) "/b" (some ⟨true, [4, 5]⟩)
def sampleUpload : UploadAnswers := { unique := "0", rounds := fun _ => { read := .ok 2 }, commit := { unique := "1" } }
def sampleDownload : DownloadAnswers := { unique := "2", rounds := fun _ => { size := 2 } }

theorem transfers_kept_sample : Kept (uploadStart sampleUpload sampleLocals sampleLocal "/b" sampleRemotes) sampleUpload.Removes
        (upload sampleSession sampleUpload sampleLocals sampleLocal "/b" .Overwrite ⟨sampleRemotes, []⟩) ∧
      Kept (downloadStart ⟨sampleRemotes, []⟩ "/b" sampleLocal sampleLocals) sampleDownload.Removes
        (download sampleDownload ⟨sampleRemotes, []⟩ "/b" sampleLocal .Overwrite false ⟨sampleLocals, []⟩) := by
  have fresh : ∀ path, remoteSibling "/b" "ramag-backup" sampleUpload.commit.unique = .ok path →
      sampleRemotes path = none := by
    intro path named
    rw [sampleRemotes, update_of_ne (remoteSibling_ne named)]
  have both : (Kept _ _ (upload sampleSession sampleUpload sampleLocals sampleLocal _ .Overwrite _) ↔ _) ∧
      (Kept _ _ (download sampleDownload _ _ sampleLocal .Overwrite false _) ↔ _) := transfers_kept fresh
  refine ⟨both.1.mpr ?_, both.2.mpr ?_⟩
  · rintro - ⟨_, _, _, -, cancelled, -⟩
    cases cancelled
  · rintro - ⟨_, -, -, -, cancelled | ⟨-, cancelled⟩⟩ <;> cases cancelled

/-- The cancellation comes while the source of a download is being opened. -/
def cancelledDownload : DownloadAnswers := { sampleDownload with openSource := .cancelled }

theorem transfers_kept_cancelled : ¬ Kept (downloadStart ⟨sampleRemotes, []⟩ "/b" sampleLocal fun _ => none) cancelledDownload.Removes
      (download cancelledDownload ⟨sampleRemotes, []⟩ "/b" sampleLocal .Refuse false ⟨fun _ => none, []⟩) := by
  intro kept
  refine download_kept.mp kept ⟨rfl, rfl⟩ ⟨⟨some "/home", some ".a.ramag-download-2.tmp"⟩, ?_, rfl, rfl, .inl rfl⟩
  decide +kernel

end Ramag.SshTransfer
