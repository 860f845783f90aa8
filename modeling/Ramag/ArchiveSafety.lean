import Ramag.ArchiveWalk

/-!
The promises of a finished scan. They hold exactly when no link of the tree leads
to a drive of Windows and, on a Windows client, no name starts with a drive.
-/
namespace Ramag.ArchiveSafety
open Strings Domain SshRemotePath ArchiveScan ArchivePlans ArchiveWalk List

section
variable {server : Server} {client : Client} {limits : Limits} {canonical root : Text} {s : Scan}

theorem directory_plain (noDrives : NoDrives server client canonical root) {directory : Text}
    (ofTree : Directory server canonical directory) :
    ∃ names, directory = remoteAt canonical names ∧ ∀ name ∈ names, Plain client name := by
  induction ofTree with
  | root => exact ⟨[], rfl, fun name mem => nomatch mem⟩
  | @child directory path file above listed isDir joined ih =>
    obtain ⟨names, rfl, plain⟩ := ih
    refine ⟨names ++ [file.filename], remoteAt_snoc (fun n mem => (plain n mem).isName) joined, ?_⟩
    intro name mem
    rcases mem_append.mp mem with old | new
    · exact plain name old
    · rw [mem_singleton.mp new]
      exact ⟨(joinRemotePath_ok joined).2, fun windows => (noDrives.names windows).2 _ file above listed⟩

section
variable (done : Finished server client limits canonical root s)
include done

theorem root_plain
    (noDrives : NoDrives server client canonical root) : Plain client root :=
  ⟨done.root, fun windows => (noDrives.names windows).1⟩

theorem entry_placed
    (noDrives : NoDrives server client canonical root) {entry : ArchiveEntry} {names : List Text} (ofTree : OfTree server canonical entry)
    (place : At client canonical root entry.remotePath entry.archivePath names) : Placed client root entry.archivePath names := by
  have plain : ∀ name ∈ names, Plain client name := by
    rcases ofTree with ⟨-, isDirectory⟩ | ⟨-, directory, file, above, listed, -, joined, -⟩
    · obtain ⟨others, here, plain⟩ := directory_plain noDrives isDirectory
      obtain rfl := remoteAt_inj place.areNames (fun n mem => (plain n mem).isName) (place.remote.symm.trans here)
      exact plain
    obtain ⟨others, rfl, plain⟩ := directory_plain noDrives above
    have here := remoteAt_snoc (fun n mem => (plain n mem).isName) joined
    have isName := (joinRemotePath_ok joined).2
    have named : ∀ n ∈ others ++ [file.filename], Plain client n := by
      intro name mem
      rcases mem_append.mp mem with old | new
      · exact plain name old
      · rw [mem_singleton.mp new]
        exact ⟨isName, fun windows => (noDrives.names windows).2 _ file above listed⟩
    obtain rfl := remoteAt_inj place.areNames (fun n mem => (named n mem).isName) (place.remote.symm.trans here)
    exact named
  rw [place.archive]
  refine archiveAt_plain fun name mem => ?_
  rcases mem_cons.mp mem with rfl | below
  · exact root_plain done noDrives
  · exact plain name below

theorem entry_describes {entry : ArchiveEntry}
    (mem : entry ∈ s.entries) (file : entry.kind ≠ .Directory) :
    Describes server entry ∧ ∃ directory listed, Directory server canonical directory ∧
      Listed (server.readdir directory) listed ∧ listed.attrs.isDir = false ∧
      joinRemotePath directory listed.filename = .ok entry.remotePath ∧ entry.attributes = listed.attrs := by
  obtain ⟨⟨isDirectory, -⟩ | ⟨-, directory, listed, above, inListing, notDir, joined, attributes⟩, -⟩ := done.kept.entries entry mem
  · exact absurd isDirectory file
  obtain ⟨-, -, -, -, other, inEntries, here, described⟩ := done.listed above inListing
  rw [joined, Except.ok.injEq] at here
  obtain rfl := done.same mem inEntries here
  exact ⟨(described notDir).1, directory, listed, above, inListing, notDir, joined, attributes⟩

end

theorem sum_fileBytes (entries : List ArchiveEntry) :
    (entries.map fileBytes).sum = ((entries.filter (·.kind = .File)).map fun entry => entry.attributes.len).sum := by
  induction entries with
  | nil => rfl
  | cons entry entries ih =>
    by_cases file : entry.kind = .File <;> simp [fileBytes, file, ih]

section
variable (done : Finished server client limits canonical root s)
include done

theorem safe_of_noDrives (noDrives : NoDrives server client canonical root) :
    Safe server client limits canonical root ⟨s.entries, s.totalBytes⟩ where
  distinct := by
    refine .map_on (fun a ofA b ofB same => ?_) (.of_map _ done.distinct)
    obtain ⟨treeA, namesA, placeA, -⟩ := done.kept.entries a ofA
    obtain ⟨treeB, namesB, placeB, -⟩ := done.kept.entries b ofB
    have placedB := entry_placed done noDrives treeB placeB
    obtain rfl := (entry_placed done noDrives treeA placeA).names_eq (same ▸ placedB)
    exact done.same ofA ofB (placeA.remote.trans placeB.remote.symm)
  underRoot := by
    intro entry mem
    obtain ⟨ofTree, names, place, depth⟩ := done.kept.entries entry mem
    exact ⟨names, entry_placed done noDrives ofTree place, depth⟩
  parentsFirst := by
    intro before entry behind split
    have split : s.entries = before ++ entry :: behind := split
    have within : ∀ other ∈ before ++ entry :: behind, other ∈ s.entries := fun other there => split ▸ there
    have mem : entry ∈ s.entries := within entry (by simp)
    rcases done.kept.parents before entry behind split with top | ⟨parent, inBefore, kind, name, joined⟩
    · obtain ⟨-, names, place, -⟩ := done.kept.entries entry mem
      obtain rfl : names = [] := remoteAt_inj place.areNames (fun n none => nomatch none) (place.remote.symm.trans top)
      exact .inl place.archive
    have ofParent := within parent (mem_append_left _ inBefore)
    obtain ⟨-, names, placeParent, place⟩ := done.joined ofParent mem joined
    obtain ⟨treeParent, -⟩ := done.kept.entries parent ofParent
    obtain ⟨tree, -⟩ := done.kept.entries entry mem
    exact .inr ⟨names, name, entry_placed done noDrives tree place, parent, inBefore, kind,
      entry_placed done noDrives treeParent placeParent⟩
  once := done.distinct
  directories directory ofTree := done.directories ofTree
  files := by
    intro directory file ofTree listed notDir regular
    obtain ⟨-, -, -, -, entry, mem, joined, described⟩ := done.listed ofTree listed
    obtain ⟨describes, attributes⟩ := described notDir
    refine ⟨entry, mem, joined, ?_, attributes⟩
    rw [← attributes] at regular
    unfold Describes at describes
    cases kind : entry.kind with
    | Directory => simp [kind] at describes
    | File => rfl
    | Symlink target => simp [kind, regular] at describes
  ofTree entry mem := (done.kept.entries entry mem).1
  total := by rw [done.kept.total, sum_fileBytes]
  entryLimit := done.kept.room
  byteLimit := done.kept.bytes
  retainedLimit := done.kept.charged.trans done.kept.retained
  links := by
    intro entry mem target kind
    have file : entry.kind ≠ .Directory := by simp [kind]
    obtain ⟨describes, directory, listed, above, inListing, notDir, joined, attributes⟩ := entry_describes done mem file
    obtain ⟨parent, ofParent, rfl, -⟩ := done.listed above inListing
    obtain ⟨-, names, -, place⟩ := done.joined ofParent mem joined
    simp only [Describes, kind] at describes
    obtain ⟨irregular, read, valid⟩ := describes
    have noDrive := noDrives.links _ listed _ target above inListing notDir (attributes ▸ irregular) joined read
    obtain ⟨posix, windows⟩ := link_stays valid root names
    exact ⟨names, listed.filename, entry_placed done noDrives (done.kept.entries entry mem).1 place, posix, windows.mpr noDrive⟩

theorem noDrives_of_safe
    (safe : Safe server client limits canonical root ⟨s.entries, s.totalBytes⟩) : NoDrives server client canonical root where
  links := by
    intro directory file path target ofTree listed notDir irregular joined read
    obtain ⟨-, -, -, -, entry, mem, here, described⟩ := done.listed ofTree listed
    obtain ⟨describes, attributes⟩ := described notDir
    rw [joined, Except.ok.injEq] at here
    subst here
    rw [← attributes] at irregular
    cases kind : entry.kind with
    | Directory => simp [Describes, kind] at describes
    | File => simp [Describes, kind, irregular] at describes
    | Symlink found =>
      simp only [Describes, kind] at describes
      obtain ⟨-, readFound, valid⟩ := describes
      obtain rfl : target = found := by simpa [read] using readFound
      obtain ⟨names, -, -, -, stays⟩ := safe.links entry mem target kind
      exact (link_stays valid root names).2.mp stays
  names := by
    intro windows
    obtain ⟨top, ofTop, -⟩ := done.directories .root
    obtain ⟨names, placedTop, -⟩ := safe.underRoot top ofTop
    have rootPlain := placedTop.plain root mem_cons_self
    refine ⟨rootPlain.noDrive windows, fun directory file ofTree listed => ?_⟩
    obtain ⟨parent, ofParent, rfl, -, entry, mem, joined, -⟩ := done.listed ofTree listed
    obtain ⟨path, -⟩ := done.joined ofParent mem joined
    by_contra drive
    have isName := (joinRemotePath_ok joined).2
    -- a name with a drive replaces the path, which then cannot be below the root
    have replaced : entry.archivePath = file.filename := by rw [path, Client.join, if_pos (by simp [windows, drive])]
    obtain ⟨below, placed, -⟩ := safe.underRoot entry mem
    have text := replaced.symm.trans placed.text
    cases below with
    | nil =>
      rw [chained, flatMap_nil, append_nil] at text
      rw [text] at drive
      exact drive (rootPlain.noDrive windows)
    | cons first others =>
      refine noSeparator client isName ?_
      rw [text]
      simp [chained]

theorem safe_iff :
    Safe server client limits canonical root ⟨s.entries, s.totalBytes⟩ ↔ NoDrives server client canonical root :=
  ⟨noDrives_of_safe done, safe_of_noDrives done⟩

end

end

theorem scanRoot_name {server : Server} {remotePath canonical root : Text}
    (rooted : scanRoot server remotePath = .ok (canonical, root)) : IsName root := by
  obtain ⟨⟨⟩, -, rooted⟩ := bind_ok rooted
  obtain ⟨found, -, rooted⟩ := bind_ok rooted
  obtain ⟨⟨⟩, -, rooted⟩ := bind_ok rooted
  obtain ⟨attributes, -, rooted⟩ := bind_ok rooted
  by_cases isDir : attributes.isDir = true
  · rw [if_neg (by simpa using isDir)] at rooted
    simp only [bind_ok_iff] at rooted
    obtain ⟨path, -, ⟨⟩, named, rooted⟩ := rooted
    cases rooted
    exact validateRemoteName_ok (mapError_ok named)
  · rw [if_pos (by simpa using isDir)] at rooted
    cases rooted

theorem scanDirectory_ok {server : Server} {client : Client} {production : Bool} {remotePath : Text} {plan : ArchivePlan}
    (scanned : scanDirectory server client production remotePath = .ok plan) :
    ∃ canonical root s, scanRoot server remotePath = .ok (canonical, root) ∧ plan = ⟨s.entries, s.totalBytes⟩ ∧
      Finished server client (limitsOf production) canonical root s := by
  obtain ⟨⟨canonical, root⟩, rooted, scanned⟩ := bind_ok scanned
  obtain ⟨s, looped, same⟩ := bind_ok scanned
  cases same
  obtain ⟨kept, expanded, queue⟩ := scanLoop_keeps start_kept start_expanded looped
  exact ⟨canonical, root, s, rooted, rfl, kept, expanded, queue, scanRoot_name rooted⟩

/-- The plan of a successful scan is safe and complete exactly when nothing leads
    to a drive. -/
theorem plan_safe {server : Server} {client : Client} {production : Bool} {remotePath : Text} {plan : ArchivePlan}
    (scanned : scanDirectory server client production remotePath = .ok plan) :
    ∃ canonical root, scanRoot server remotePath = .ok (canonical, root) ∧
      (Safe server client (limitsOf production) canonical root plan ↔ NoDrives server client canonical root) := by
  obtain ⟨canonical, root, s, rooted, rfl, done⟩ := scanDirectory_ok scanned
  exact ⟨canonical, root, rooted, safe_iff done⟩

/-- A server with one directory `/srv`, a file in it and a link beside the file. -/
def sampleServer (target : Text) : Server where
  canonicalize _ := .ok "/srv"
  rootLstat _ := .ok { isDir := true }
  lstat _ := .ok { isDir := true }
  opendir _ := .ok ()
  readdir _ packet :=
    if packet = 0 then
      .Files [⟨".", { isDir := true }, 0⟩, ⟨"b", { isSymlink := true }, 0⟩, ⟨"a", { isRegular := true, size := some 3 }, 0⟩]
    else .Eof
  close _ := .ok ()
  readlink _ := .ok [target]
  connectionFailed _ := false
  interrupted _ := none

private def samplePlan (target : Text) : ArchivePlan :=
  ⟨[⟨"/srv", "srv", { isDir := true }, .Directory⟩, ⟨"/srv/a", "srv/a", { isRegular := true, size := some 3 }, .File⟩,
    ⟨"/srv/b", "srv/b", { isSymlink := true }, .Symlink target⟩], 3⟩

theorem plan_safe_sample : ∃ canonical root, scanRoot (sampleServer "a") "srv" = .ok (canonical, root) ∧
      (Safe (sampleServer "a") .Posix (limitsOf true) canonical root (samplePlan "a") ↔
        NoDrives (sampleServer "a") .Posix canonical root) := by
  have scanned : scanDirectory (sampleServer "a") .Posix true "srv" = .ok (samplePlan "a") := by decide +kernel
  exact plan_safe scanned

/-- A target on another drive is accepted, and by the rules of Windows it is not
    below the root of the archive. -/
theorem plan_safe_drive : ¬ ∀ (server : Server) (client : Client) (production : Bool) (remotePath : Text) (plan : ArchivePlan),
      scanDirectory server client production remotePath = .ok plan → ∃ canonical root, scanRoot server remotePath = .ok (canonical, root) ∧
        Safe server client (limitsOf production) canonical root plan := by
  intro all
  have scanned : scanDirectory (sampleServer "C:x") .Posix true "srv" = .ok (samplePlan "C:x") := by decide +kernel
  obtain ⟨canonical, root, -, safe⟩ := all _ _ _ _ _ scanned
  obtain ⟨names, -, -, -, below, stays⟩ :=
    safe.links ⟨"/srv/b", "srv/b", { isSymlink := true }, .Symlink "C:x"⟩ (by simp [samplePlan]) _ rfl
  cases stays

end Ramag.ArchiveSafety
