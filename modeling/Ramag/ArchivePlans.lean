import Ramag.ArchiveScan

/-!
What an archive plan promises. The tree is what the server lists below the
canonical root; the plan holds each of its directories and files once, under
plain relative paths, parents first, within the limits, and with links that stay
inside. The scan keeps an invariant over its work list from which the promises
are read off when the list is empty.
-/
namespace Ramag.ArchivePlans
open Strings Domain SshRemotePath ArchiveScan List

/-- A file of a listing: in a packet before the end, and not one of the two names
    that every directory has. -/
def Listed (answers : Nat → Packet) (file : File) : Prop :=
  ∃ n files, answers n = .Files files ∧ file ∈ files ∧ skipped file.filename = false ∧ ∀ m < n, ∃ earlier, answers m = .Files earlier

/-- The directories below the root, by their paths. -/
inductive Directory (server : Server) (canonical : Text) : Text → Prop
  | root : Directory server canonical canonical
  | child {directory path : Text} {file : File} : Directory server canonical directory →
      Listed (server.readdir directory) file → file.attrs.isDir = true →
      joinRemotePath directory file.filename = .ok path → Directory server canonical path

/-- A relative component on the client. -/
structure Plain (client : Client) (name : Text) : Prop where
  isName : IsName name
  noDrive : client = .Windows → hasDrivePrefix name = false

/-- Names in a row, each behind a separator. -/
def chained (separator : Char) (names : List Text) : Text := names.flatMap fun name => separator :: name

/-- The path of plain components below the root of the archive. -/
structure Placed (client : Client) (root path : Text) (names : List Text) : Prop where
  text : path = root ++ chained client.separator names
  plain : ∀ name ∈ root :: names, Plain client name

/-- Follows the components of a link, where the archive's root has no parent. -/
def walk : List Text → List Text → Option (List Text)
  | position, [] => some position
  | position, part :: parts =>
    if part = [] || part = "." then walk position parts
    else if part = ".." then if position.length ≤ 1 then none else walk position.dropLast parts
    else walk (position ++ [part]) parts

def posixResolve (directory : List Text) (target : Text) : Option (List Text) :=
  if target.head? = some '/' then none else walk directory (components target)

/-- By the rules of Windows both slashes separate; a separator in front (a UNC
    path also) and a drive lead away from the link's directory. -/
def windowsResolve (directory : List Text) (target : Text) : Option (List Text) :=
  if target.head?.any separatorInName || hasDrivePrefix target then none
  else walk directory (target.splitOnP separatorInName)

def StaysInside (root : Text) (position : Option (List Text)) : Prop := ∃ names, position = some (root :: names)

structure Safe (server : Server) (client : Client) (limits : Limits) (canonical root : Text) (plan : ArchivePlan) : Prop where
  distinct : (plan.entries.map ArchiveEntry.archivePath).Nodup
  underRoot : ∀ entry ∈ plan.entries, ∃ names, Placed client root entry.archivePath names ∧
    names.length ≤ if entry.kind = .Directory then MAX_REMOTE_ARCHIVE_DEPTH else MAX_REMOTE_ARCHIVE_DEPTH + 1
  parentsFirst : ∀ before entry behind, plan.entries = before ++ entry :: behind → entry.archivePath = root ∨
    ∃ names name, Placed client root entry.archivePath (names ++ [name]) ∧
      ∃ parent ∈ before, parent.kind = .Directory ∧ Placed client root parent.archivePath names
  once : (plan.entries.map ArchiveEntry.remotePath).Nodup
  directories : ∀ directory, Directory server canonical directory →
    ∃ entry ∈ plan.entries, entry.remotePath = directory ∧ entry.kind = .Directory
  files : ∀ directory file, Directory server canonical directory → Listed (server.readdir directory) file →
    file.attrs.isDir = false → file.attrs.isRegular = true →
    ∃ entry ∈ plan.entries, joinRemotePath directory file.filename = .ok entry.remotePath ∧ entry.kind = .File ∧
      entry.attributes = file.attrs
  ofTree : ∀ entry ∈ plan.entries, entry.kind = .Directory ∧ Directory server canonical entry.remotePath ∨
    entry.kind ≠ .Directory ∧ ∃ directory file, Directory server canonical directory ∧
      Listed (server.readdir directory) file ∧ file.attrs.isDir = false ∧
      joinRemotePath directory file.filename = .ok entry.remotePath ∧ entry.attributes = file.attrs
  total : plan.totalBytes = ((plan.entries.filter (·.kind = .File)).map fun entry => entry.attributes.len).sum
  entryLimit : plan.entries.length ≤ limits.maxEntries
  byteLimit : plan.totalBytes ≤ limits.maxBytes
  retainedLimit : (plan.entries.map fun entry => pathCharge entry.remotePath entry.archivePath).sum ≤ MAX_REMOTE_ARCHIVE_RETAINED_BYTES
  links : ∀ entry ∈ plan.entries, ∀ target, entry.kind = .Symlink target →
    ∃ names name, Placed client root entry.archivePath (names ++ [name]) ∧
      StaysInside root (posixResolve (root :: names) target) ∧ StaysInside root (windowsResolve (root :: names) target)

/-- No link of the tree leads to a drive, and on Windows no name starts with one. -/
structure NoDrives (server : Server) (client : Client) (canonical root : Text) : Prop where
  links : ∀ directory file path target, Directory server canonical directory → Listed (server.readdir directory) file →
    file.attrs.isDir = false → file.attrs.isRegular = false → joinRemotePath directory file.filename = .ok path →
    readLink server path = .ok target → hasDrivePrefix target = false
  names : client = .Windows → hasDrivePrefix root = false ∧ ∀ directory file, Directory server canonical directory →
    Listed (server.readdir directory) file → hasDrivePrefix file.filename = false

def remoteAt (canonical : Text) (names : List Text) : Text :=
  if names = [] then canonical else trimEndSlashes canonical ++ chained '/' names

def archiveAt (client : Client) (root : Text) (names : List Text) : Text := names.foldl client.join root

theorem chained_snoc (separator : Char) (names : List Text) (name : Text) :
    chained separator (names ++ [name]) = chained separator names ++ separator :: name := by
  simp [chained]

variable {name : Text}

theorem takeWhile_chained {separator : Char} (free : separator ∉ name) (names : List Text) :
    (name ++ chained separator names).takeWhile (· ≠ separator) = name := by
  have inside : ∀ c ∈ name, decide (c ≠ separator) = true := by
    intro c mem
    exact decide_eq_true fun same => free (same ▸ mem)
  rw [takeWhile_append_of_pos inside]
  cases names with
  | nil | cons other names => simp [chained]

variable {a b : List Text}

theorem chained_inj {separator : Char} (ofA : ∀ name ∈ a, separator ∉ name)
    (ofB : ∀ name ∈ b, separator ∉ name) (same : chained separator a = chained separator b) : a = b := by
  induction a generalizing b with
  | nil =>
    cases b with
    | nil => rfl
    | cons name b => simp [chained] at same
  | cons name a ih =>
    cases b with
    | nil => simp [chained] at same
    | cons other b =>
      have freeName := ofA name mem_cons_self
      have freeOther := ofB other mem_cons_self
      have tails : name ++ chained separator a = other ++ chained separator b := List.cons.inj same |>.2
      have first : name = other := by rw [← takeWhile_chained freeName a, tails, takeWhile_chained freeOther b]
      subst first
      rw [ih (fun n mem => ofA n (mem_cons_of_mem _ mem)) (fun n mem => ofB n (mem_cons_of_mem _ mem))
        (append_cancel_left tails)]

variable {canonical : Text} {names : List Text}

theorem remoteAt_snoc {path : Text} (areNames : ∀ n ∈ names, IsName n)
    (joined : joinRemotePath (remoteAt canonical names) name = .ok path) : path = remoteAt canonical (names ++ [name]) := by
  obtain ⟨rfl, -⟩ := joinRemotePath_ok joined
  rcases eq_nil_or_concat names with rfl | ⟨front, last, rfl⟩
  · simp [remoteAt, chained]
  have isLast : IsName last := areNames last (by simp)
  simp only [remoteAt, concat_eq_append, append_eq_nil_iff, cons_ne_self, and_false, if_false, chained_snoc]
  rw [← append_assoc, trimEndSlashes_name _ isLast]
  simp

theorem remoteAt_ne (isName : IsName name) : remoteAt canonical (names ++ [name]) ≠ canonical := by
  intro same
  have text : trimEndSlashes canonical ++ chained '/' names ++ '/' :: name = canonical := by simpa [remoteAt, chained_snoc] using same
  have trimmed : trimEndSlashes canonical = canonical := by rw [← text, trimEndSlashes_name _ isName]
  have lengths := congrArg List.length text
  rw [trimmed] at lengths
  simp at lengths

theorem noSlash (isName : IsName name) : '/' ∉ name := fun mem => absurd (isName.noSeparator '/' mem) (by decide)

theorem remoteAt_inj (ofA : ∀ name ∈ a, IsName name)
    (ofB : ∀ name ∈ b, IsName name) (same : remoteAt canonical a = remoteAt canonical b) : a = b := by
  rcases eq_nil_or_concat a with rfl | ⟨frontA, lastA, rfl⟩
  · rcases eq_nil_or_concat b with rfl | ⟨frontB, lastB, rfl⟩
    · rfl
    · rw [concat_eq_append] at same ofB
      exact absurd same.symm (remoteAt_ne (ofB lastB (by simp)))
  rcases eq_nil_or_concat b with rfl | ⟨frontB, lastB, rfl⟩
  · rw [concat_eq_append] at same ofA
    exact absurd same (remoteAt_ne (ofA lastA (by simp)))
  · refine chained_inj (fun n m => noSlash (ofA n m)) (fun n m => noSlash (ofB n m)) ?_
    simpa [remoteAt] using same

/-! ### Paths of the archive -/

theorem archiveAt_snoc (client : Client) (root : Text) (names : List Text) (name : Text) :
    archiveAt client root (names ++ [name]) = client.join (archiveAt client root names) name := by
  simp [archiveAt]

theorem separator_inName (client : Client) : separatorInName client.separator = true := by
  cases client <;> rfl

theorem noSeparator (client : Client) (isName : IsName name) : client.separator ∉ name := fun mem =>
  absurd (isName.noSeparator _ mem) (by simp [separator_inName])

variable {client : Client} {root : Text}

theorem chained_last (areNames : ∀ n ∈ root :: names, IsName n)
    {c : Char} (last : (root ++ chained client.separator names).getLast? = some c) : separatorInName c = false := by
  rcases eq_nil_or_concat names with rfl | ⟨front, name, rfl⟩
  · rw [chained, flatMap_nil, append_nil] at last
    exact (areNames root mem_cons_self).noSeparator c (mem_of_getLast? last)
  have isName : IsName name := areNames name (by simp)
  obtain ⟨first, rest, rfl⟩ := exists_cons_of_ne_nil isName.held
  have inName : (first :: rest).getLast? = some c := by simpa [chained_snoc, getLast?_append, getLast?_cons] using last
  exact isName.noSeparator c (mem_of_getLast? inName)

theorem join_plain (plain : ∀ n ∈ root :: names, Plain client n)
    (isPlain : Plain client name) : client.join (root ++ chained client.separator names) name =
      root ++ chained client.separator (names ++ [name]) := by
  have held : root ≠ [] := (plain root mem_cons_self).isName.held
  have noReplace : ¬ (client = .Windows && hasDrivePrefix name) = true := by
    intro replaced
    simp only [Bool.and_eq_true, decide_eq_true_eq] at replaced
    rw [isPlain.noDrive replaced.1] at replaced
    cases replaced.2
  have separates : ∀ c, separatorInName c = true → (root ++ chained client.separator names).getLast? ≠ some c := by
    intro c separator last
    simp [chained_last (fun n mem => (plain n mem).isName) last] at separator
  have noBareDrive : ¬ (client = .Windows ∧ hasDrivePrefix (root ++ chained client.separator names) = true ∧
      (root ++ chained client.separator names).length = 2) := by
    rintro ⟨windows, drive, two⟩
    rcases eq_nil_or_concat names with rfl | ⟨front, last, rfl⟩
    · simp [chained, flatMap_nil, append_nil, (plain root mem_cons_self).noDrive windows] at drive
    have atRoot := length_pos_iff.mpr held
    have atLast := length_pos_iff.mpr (plain last (by simp)).isName.held
    simp only [concat_eq_append, chained_snoc, length_append, length_cons] at two
    omega
  unfold Client.join
  rw [if_neg noReplace, if_neg, chained_snoc, append_assoc]
  simp only [Bool.or_eq_true, Bool.and_eq_true, decide_eq_true_eq, append_eq_nil_iff, not_or, and_assoc]
  exact ⟨fun nothing => held nothing.1, separates _ (separator_inName client), separates '/' rfl, noBareDrive⟩

theorem archiveAt_plain (plain : ∀ n ∈ root :: names, Plain client n) : Placed client root (archiveAt client root names) names := by
  refine ⟨?_, plain⟩
  induction names using List.reverseRecOn with
  | nil => simp [archiveAt, chained]
  | append_singleton names name ih =>
    have before : ∀ n ∈ root :: names, Plain client n := by
      intro n mem
      exact plain n (by simp at mem ⊢; tauto)
    rw [archiveAt_snoc, ih before, join_plain before (plain name (by simp))]

theorem Placed.names_eq {path : Text} (ofA : Placed client root path a) (ofB : Placed client root path b) : a = b := by
  refine chained_inj (fun n m => noSeparator client (ofA.plain n (mem_cons_of_mem _ m)).isName)
    (fun n m => noSeparator client (ofB.plain n (mem_cons_of_mem _ m)).isName) ?_
  exact append_cancel_left (ofA.text.symm.trans ofB.text)

theorem walk_down {parts : List Text} (noUp : "..".toList ∉ parts) (position : List Text) :
    ∃ names, walk position parts = some (position ++ names) := by
  induction parts generalizing position with
  | nil => exact ⟨[], by simp [walk]⟩
  | cons part parts ih =>
    have notUp : part ≠ ".." := fun same => noUp (same ▸ mem_cons_self)
    have later : "..".toList ∉ parts := fun mem => noUp (mem_cons_of_mem _ mem)
    rw [walk]
    split_ifs
    · exact ih later position
    · obtain ⟨names, walked⟩ := ih later (position ++ [part])
      exact ⟨part :: names, by rw [walked, append_assoc, singleton_append]⟩

variable {target : Text}

theorem components_windows (noBackslash : ∀ c ∈ target, c ≠ '\\') : target.splitOnP separatorInName = components target := by
  induction target with
  | nil => rfl
  | cons c target ih =>
    have same : separatorInName c = isSlash c := by simp [separatorInName, isSlash, noBackslash c mem_cons_self]
    rw [components, splitOnP_cons_eq_if_modifyHead, splitOnP_cons_eq_if_modifyHead, same,
      ih fun d mem => noBackslash d (mem_cons_of_mem c mem)]
    rfl

theorem validateLinkTarget_ok (valid : validateLinkTarget target = .ok ()) :
    target.head? ≠ some '/' ∧ (∀ c ∈ target, c ≠ '\\') ∧ "..".toList ∉ components target := by
  unfold validateLinkTarget at valid
  split_ifs at valid with bad
  simp only [Bool.or_eq_true, decide_eq_true_eq, not_or, any_eq_true, not_exists, not_and] at bad
  obtain ⟨⟨⟨⟨⟨⟨-, -⟩, notAbsolute⟩, -⟩, noBackslash⟩, noUp⟩, -⟩ := bad
  exact ⟨notAbsolute, noBackslash, fun mem => noUp _ mem rfl⟩

theorem link_stays (valid : validateLinkTarget target = .ok ()) (root : Text) (names : List Text) :
    StaysInside root (posixResolve (root :: names) target) ∧
      (StaysInside root (windowsResolve (root :: names) target) ↔ hasDrivePrefix target = false) := by
  obtain ⟨notAbsolute, noBackslash, noUp⟩ := validateLinkTarget_ok valid
  obtain ⟨below, walked⟩ := walk_down noUp (root :: names)
  have stays : StaysInside root (walk (root :: names) (components target)) := ⟨names ++ below, walked⟩
  have relative : target.head?.any separatorInName = false := by
    cases target with
    | nil => rfl
    | cons c target =>
      have noSlash : c ≠ '/' := fun same => notAbsolute (same ▸ rfl)
      simp [separatorInName, noSlash, noBackslash c mem_cons_self]
  constructor
  · rw [posixResolve, if_neg notAbsolute]
    exact stays
  rw [windowsResolve, relative, Bool.false_or, components_windows noBackslash]
  cases drive : hasDrivePrefix target with
  | false => exact iff_of_true stays rfl
  | true => exact iff_of_false (fun ⟨_, nowhere⟩ => nomatch nowhere) (by simp)

end Ramag.ArchivePlans
