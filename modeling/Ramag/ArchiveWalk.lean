import Ramag.ArchivePlans

/-!
The walk over the remote tree keeps its invariant: queue and entries are distinct
known paths of the tree, every parent stands before its children, and what is
counted stays within the limits. What a listed file leaves behind is never lost,
so an empty queue means a complete plan.
-/
namespace Ramag.ArchiveWalk
open Strings Domain SshRemotePath ArchiveScan ArchivePlans List

/-- The packets before `packet` are files, and `entries` are theirs. -/
structure Reading (answers : Nat → Packet) (packet : Nat) (entries : List File) : Prop where
  files : ∀ m < packet, ∃ earlier, answers m = .Files earlier
  taken : ∀ file, file ∈ entries ↔ ∃ n < packet, ∃ files, answers n = .Files files ∧ file ∈ files ∧ skipped file.filename = false

variable {maxEntries : Nat} {entries : List File}

theorem takeFiles_mem {retained charged : Nat} {files before : List File}
    (taken : takeFiles maxEntries files before retained = .ok (entries, charged)) (file : File) :
    file ∈ entries ↔ file ∈ before ∨ file ∈ files ∧ skipped file.filename = false := by
  induction files generalizing before retained with
  | nil =>
    cases taken
    simp
  | cons first files ih =>
    rw [takeFiles] at taken
    split_ifs at taken with skip full
    · rw [ih taken]
      constructor
      · rintro (old | ⟨mem, kept⟩)
        · exact .inl old
        · exact .inr ⟨mem_cons_of_mem _ mem, kept⟩
      rintro (old | ⟨mem, kept⟩)
      · exact .inl old
      · rcases mem_cons.mp mem with rfl | mem
        · simp [skip] at kept
        · exact .inr ⟨mem, kept⟩
    · obtain ⟨next, -, taken⟩ := bind_ok taken
      have passed : skipped first.filename = false := by simpa using skip
      rw [ih taken, mem_append, mem_singleton]
      constructor
      · rintro ((old | rfl) | ⟨mem, kept⟩)
        · exact .inl old
        · exact .inr ⟨mem_cons_self, passed⟩
        · exact .inr ⟨mem_cons_of_mem _ mem, kept⟩
      rintro (old | ⟨mem, kept⟩)
      · exact .inl (.inl old)
      · rcases mem_cons.mp mem with rfl | mem
        · exact .inl (.inr rfl)
        · exact .inr ⟨mem, kept⟩

theorem readPackets_mem {answers : Nat → Packet} {left packet retained : Nat} {before : List File} (reading : Reading answers packet before)
    (read : readPackets answers maxEntries left packet before retained = .ok entries) (file : File) :
    file ∈ entries ↔ Listed answers file := by
  induction left generalizing packet before retained with
  | zero => cases read
  | succ left ih =>
    rw [readPackets] at read
    cases answer : answers packet with
    | Failed error => simp [answer] at read
    | Eof =>
      rw [answer] at read
      cases read
      rw [reading.taken]
      constructor
      · rintro ⟨n, early, files, here, mem, kept⟩
        exact ⟨n, files, here, mem, kept, fun m earlier => reading.files m (by omega)⟩
      rintro ⟨n, files, here, mem, kept, first⟩
      have early : n < packet := by
        by_contra late
        rcases Nat.lt_or_eq_of_le (Nat.not_lt.mp late) with past | rfl
        · obtain ⟨earlier, other⟩ := first packet past
          simp [answer] at other
        · simp [answer] at here
      exact ⟨n, early, files, here, mem, kept⟩
    | Files files =>
      rw [answer] at read
      simp only at read
      split_ifs at read
      cases taken : takeFiles maxEntries files before retained with
      | error error => simp [taken] at read
      | ok both =>
        rw [taken] at read
        refine ih ⟨fun m early => ?_, fun other => ?_⟩ read
        · rcases Nat.lt_succ_iff_lt_or_eq.mp early with before | rfl
          · exact reading.files m before
          · exact ⟨files, answer⟩
        rw [takeFiles_mem taken, reading.taken]
        constructor
        · rintro (⟨n, early, rest⟩ | ⟨mem, kept⟩)
          · exact ⟨n, by omega, rest⟩
          · exact ⟨packet, by omega, files, answer, mem, kept⟩
        rintro ⟨n, early, found, here, mem, kept⟩
        rcases Nat.lt_succ_iff_lt_or_eq.mp early with before | rfl
        · exact .inl ⟨n, before, found, here, mem, kept⟩
        · rw [answer] at here
          cases here
          exact .inr ⟨mem, kept⟩

variable {server : Server}

theorem readDirectoryFiles_mem {path : Text} (read : readDirectoryFiles server path maxEntries = .ok entries) (file : File) :
    file ∈ entries ↔ Listed (server.readdir path) file := by
  unfold readDirectoryFiles at read
  cases opened : server.opendir path with
  | error error => simp [opened] at read
  | ok =>
    simp only [opened] at read
    have none : Reading (server.readdir path) 0 [] := ⟨fun m early => absurd early (by omega), fun file => by simp⟩
    split at read
    · exact readPackets_mem none read file
    · cases read
    · cases read

theorem chargeRetainedBytes_ok {retained additional limit next : Nat}
    (charged : chargeRetainedBytes retained additional limit = .ok next) : next = retained + additional ∧ next ≤ limit := by
  unfold chargeRetainedBytes at charged
  split_ifs at charged with beyond above
  cases charged
  exact ⟨rfl, Nat.not_lt.mp above⟩

variable {limits : Limits}

theorem addBytes_ok {total size next : Nat} (added : addBytes limits total size = .ok next) :
    next = total + size ∧ next ≤ limits.maxBytes := by
  unfold addBytes at added
  split_ifs at added with beyond above
  cases added
  exact ⟨rfl, Nat.not_lt.mp above⟩

variable {s s' : Scan}

theorem pushEntry_ok {entry : ArchiveEntry} (pushed : pushEntry limits entry s = .ok s') :
    s.entries.length < limits.maxEntries ∧ s' = { s with entries := s.entries ++ [entry] } := by
  unfold pushEntry at pushed
  split_ifs at pushed with full
  cases pushed
  exact ⟨by omega, rfl⟩

/-- What the plan's entry says of the file it stands for. -/
def Describes (server : Server) (entry : ArchiveEntry) : Prop :=
  match entry.kind with
  | .Directory => False
  | .File => entry.attributes.isRegular = true
  | .Symlink target => entry.attributes.isRegular = false ∧ readLink server entry.remotePath = .ok target ∧
    validateLinkTarget target = .ok ()

def fileBytes (entry : ArchiveEntry) : Nat := if entry.kind = .File then entry.attributes.len else 0

/-- A new entry, with its bytes counted and its path charged. -/
structure Pushed (limits : Limits) (entry : ArchiveEntry) (s s' : Scan) : Prop where
  queue : s'.queue = s.queue
  entries : s'.entries = s.entries ++ [entry]
  room : s.entries.length < limits.maxEntries
  total : s'.totalBytes = s.totalBytes + fileBytes entry
  bytes : s.totalBytes ≤ limits.maxBytes → s'.totalBytes ≤ limits.maxBytes
  charged : s.retainedBytes + pathCharge entry.remotePath entry.archivePath ≤ s'.retainedBytes
  retained : s'.retainedBytes ≤ MAX_REMOTE_ARCHIVE_RETAINED_BYTES

theorem recordChild_ok {remote archive : Text} {child : File} (charged : s.retainedBytes ≤ MAX_REMOTE_ARCHIVE_RETAINED_BYTES)
    (recorded : recordChild server limits remote archive child s = .ok s') :
    ∃ kind, Describes server ⟨remote, archive, child.attrs, kind⟩ ∧ s'.seen = s.seen ∧ s'.queue = s.queue ∧
      s'.entries = s.entries ++ [⟨remote, archive, child.attrs, kind⟩] ∧ s.entries.length < limits.maxEntries ∧
      s'.totalBytes = s.totalBytes + fileBytes ⟨remote, archive, child.attrs, kind⟩ ∧
      (s.totalBytes ≤ limits.maxBytes → s'.totalBytes ≤ limits.maxBytes) ∧
      s.retainedBytes ≤ s'.retainedBytes ∧ s'.retainedBytes ≤ MAX_REMOTE_ARCHIVE_RETAINED_BYTES := by
  unfold recordChild at recorded
  split_ifs at recorded with regular link
  · obtain ⟨total, added, pushed⟩ := bind_ok recorded
    obtain ⟨room, rfl⟩ := pushEntry_ok pushed
    obtain ⟨rfl, inside⟩ := addBytes_ok added
    exact ⟨.File, regular, rfl, rfl, rfl, room, rfl, fun _ => inside, Nat.le_refl _, charged⟩
  simp only [bind_ok_iff] at recorded
  obtain ⟨target, read, ⟨⟩, valid, retained, paid, pushed⟩ := recorded
  obtain ⟨room, rfl⟩ := pushEntry_ok pushed
  obtain ⟨rfl, inside⟩ := chargeRetainedBytes_ok paid
  refine ⟨.Symlink target, ⟨by simpa using regular, read, valid⟩, rfl, rfl, rfl, room, rfl, id, ?_, inside⟩
  exact Nat.le_add_right _ _

theorem visitChild_ok {client : Client} {directory : Pending} {child : File}
    (visited : visitChild server client limits directory child s = .ok s') :
    ∃ remote, joinRemotePath directory.remotePath child.filename = .ok remote ∧ remote ∉ s.seen ∧ s'.seen = remote :: s.seen ∧
      (child.attrs.isDir = true ∧ directory.depth < MAX_REMOTE_ARCHIVE_DEPTH ∧
          s'.queue = s.queue ++ [⟨remote, client.join directory.archivePath child.filename, directory.depth + 1⟩] ∧
          s'.entries = s.entries ∧ s'.totalBytes = s.totalBytes ∧ s.retainedBytes ≤ s'.retainedBytes ∧
          s'.retainedBytes ≤ MAX_REMOTE_ARCHIVE_RETAINED_BYTES ∨ child.attrs.isDir = false ∧ ∃ kind,
          Describes server ⟨remote, client.join directory.archivePath child.filename, child.attrs, kind⟩ ∧
          Pushed limits ⟨remote, client.join directory.archivePath child.filename, child.attrs, kind⟩ s s') := by
  obtain ⟨⟨⟩, -, visited⟩ := bind_ok visited
  obtain ⟨⟨⟩, -, visited⟩ := bind_ok visited
  obtain ⟨remote, joined, visited⟩ := bind_ok visited
  by_cases known : remote ∈ s.seen
  · rw [if_pos known] at visited
    cases visited
  rw [if_neg known] at visited
  obtain ⟨retained, paid, visited⟩ := bind_ok visited
  obtain ⟨rfl, inside⟩ := chargeRetainedBytes_ok paid
  refine ⟨remote, mapError_ok joined, known, ?_⟩
  split_ifs at visited with isDir deep
  · cases visited
    exact ⟨rfl, .inl ⟨isDir, Nat.not_le.mp deep, rfl, rfl, rfl, Nat.le_add_right _ _, inside⟩⟩
  · obtain ⟨kind, describes, seen, queue, entries, room, total, bytes, grown, kept⟩ := recordChild_ok inside visited
    exact ⟨seen, .inr ⟨by simpa using isDir, kind, describes, queue, entries, room, total, bytes, grown, kept⟩⟩

theorem visitDirectory_ok {client : Client} {directory : Pending} (visited : visitDirectory server client limits directory s = .ok s') :
    ∃ attributes children between, Pushed limits ⟨directory.remotePath, directory.archivePath, attributes, .Directory⟩ s between ∧
      between.seen = s.seen ∧ (∀ file, file ∈ children ↔ Listed (server.readdir directory.remotePath) file) ∧
      visitChildren server client limits directory children between = .ok s' := by
  obtain ⟨⟨⟩, -, visited⟩ := bind_ok visited
  obtain ⟨attributes, -, visited⟩ := bind_ok visited
  by_cases isDir : attributes.isDir = true
  swap
  · rw [if_pos (by simpa using isDir)] at visited
    cases visited
  rw [if_neg (by simpa using isDir)] at visited
  simp only [bind_ok_iff] at visited
  obtain ⟨retained, paid, between, pushed, children, read, visiting⟩ := visited
  obtain ⟨rfl, inside⟩ := chargeRetainedBytes_ok paid
  obtain ⟨room, same⟩ := pushEntry_ok pushed
  refine ⟨attributes, _, between, ?_, by rw [same], fun file => ?_, visiting⟩
  · subst same
    exact ⟨rfl, rfl, room, rfl, id, Nat.le_refl _, inside⟩
  · rw [mem_insertionSort]
    exact readDirectoryFiles_mem read file

/-! ### The invariant of the walk -/

section
variable (server : Server) (client : Client) (limits : Limits) (canonical root : Text)

/-- A node of the tree with its paths on both sides. -/
structure At (remote archive : Text) (names : List Text) : Prop where
  remote : remote = remoteAt canonical names
  archive : archive = archiveAt client root names
  areNames : ∀ name ∈ names, IsName name

/-- The directory of a path stands among the entries. -/
def HasParent (entries : List ArchiveEntry) (remote : Text) : Prop :=
  remote = canonical ∨ ∃ parent ∈ entries, parent.kind = .Directory ∧ ∃ name, joinRemotePath parent.remotePath name = .ok remote

def OfTree (entry : ArchiveEntry) : Prop :=
  entry.kind = .Directory ∧ Directory server canonical entry.remotePath ∨
    entry.kind ≠ .Directory ∧ ∃ directory file, Directory server canonical directory ∧
      Listed (server.readdir directory) file ∧ file.attrs.isDir = false ∧
      joinRemotePath directory file.filename = .ok entry.remotePath ∧ entry.attributes = file.attrs

def remotes (s : Scan) : List Text := s.entries.map ArchiveEntry.remotePath ++ s.queue.map Pending.remotePath

def depthLimit (kind : ArchiveKind) : Nat :=
  if kind = .Directory then MAX_REMOTE_ARCHIVE_DEPTH else MAX_REMOTE_ARCHIVE_DEPTH + 1

structure Kept (s : Scan) : Prop where
  entries : ∀ entry ∈ s.entries, OfTree server canonical entry ∧
    ∃ names, At client canonical root entry.remotePath entry.archivePath names ∧ names.length ≤ depthLimit entry.kind
  queue : ∀ pending ∈ s.queue, Directory server canonical pending.remotePath ∧ pending.depth ≤ MAX_REMOTE_ARCHIVE_DEPTH ∧
    ∃ names, At client canonical root pending.remotePath pending.archivePath names ∧ names.length = pending.depth
  distinct : (remotes s).Nodup
  seen : ∀ remote ∈ remotes s, remote ∈ s.seen
  parents : ∀ before entry behind, s.entries = before ++ entry :: behind → HasParent canonical before entry.remotePath
  parentsQueue : ∀ pending ∈ s.queue, HasParent canonical s.entries pending.remotePath
  total : s.totalBytes = (s.entries.map fileBytes).sum
  room : s.entries.length ≤ limits.maxEntries
  bytes : s.totalBytes ≤ limits.maxBytes
  charged : (s.entries.map fun entry => pathCharge entry.remotePath entry.archivePath).sum ≤ s.retainedBytes
  retained : s.retainedBytes ≤ MAX_REMOTE_ARCHIVE_RETAINED_BYTES

end

section
variable {server : Server} {client : Client} {limits : Limits} {canonical root : Text}

variable {remote : Text}

theorem HasParent.mono {entries more : List ArchiveEntry} (has : HasParent canonical entries remote)
    (within : ∀ entry ∈ entries, entry ∈ more) : HasParent canonical more remote := by
  rcases has with same | ⟨parent, mem, rest⟩
  · exact .inl same
  · exact .inr ⟨parent, within parent mem, rest⟩

theorem At.child {archive name path : Text} {names : List Text} (place : At client canonical root remote archive names)
    (joined : joinRemotePath remote name = .ok path) : At client canonical root path (client.join archive name) (names ++ [name]) := by
  refine ⟨remoteAt_snoc place.areNames (place.remote ▸ joined), ?_, ?_⟩
  · rw [archiveAt_snoc, place.archive]
  intro n mem
  rcases mem_append.mp mem with old | new
  · exact place.areNames n old
  · rw [mem_singleton.mp new]
    exact (joinRemotePath_ok joined).2

variable {s s' : Scan}

variable {entry : ArchiveEntry}

theorem Kept.push (kept : Kept server client limits canonical root s)
    (pushed : Pushed limits entry s s') (seen : ∀ remote ∈ s.seen, remote ∈ s'.seen) (known : entry.remotePath ∈ s'.seen)
    (fresh : entry.remotePath ∉ remotes s) (ofTree : OfTree server canonical entry)
    (place : ∃ names, At client canonical root entry.remotePath entry.archivePath names ∧ names.length ≤ depthLimit entry.kind)
    (parent : HasParent canonical s.entries entry.remotePath) : Kept server client limits canonical root s' where
  entries := by
    intro other mem
    rw [pushed.entries, mem_append, mem_singleton] at mem
    rcases mem with old | rfl
    · exact kept.entries other old
    · exact ⟨ofTree, place⟩
  queue := by
    intro pending mem
    exact kept.queue pending (pushed.queue ▸ mem)
  distinct := by
    have order : (remotes s').Perm (entry.remotePath :: remotes s) := by
      simp only [remotes, pushed.entries, pushed.queue, map_append, map_cons, map_nil, append_assoc, singleton_append]
      exact perm_middle
    exact order.nodup_iff.mpr (nodup_cons.mpr ⟨fresh, kept.distinct⟩)
  seen := by
    intro remote mem
    simp only [remotes, pushed.entries, pushed.queue, map_append, mem_append, map_cons, map_nil, mem_singleton] at mem
    rcases mem with (old | rfl) | waiting
    · exact seen remote (kept.seen remote (mem_append_left _ old))
    · exact known
    · exact seen remote (kept.seen remote (mem_append_right _ waiting))
  parents := by
    intro before other behind split
    rw [pushed.entries] at split
    rcases eq_nil_or_concat behind with rfl | ⟨front, last, rfl⟩
    · obtain ⟨rfl, same⟩ := append_inj' split rfl
      cases same
      exact parent
    · rw [concat_eq_append, ← cons_append, ← append_assoc] at split
      exact kept.parents before other front (append_inj' split rfl).1
  parentsQueue := by
    intro pending mem
    refine (kept.parentsQueue pending (pushed.queue ▸ mem)).mono fun other there => ?_
    rw [pushed.entries]
    exact mem_append_left _ there
  total := by
    rw [pushed.total, pushed.entries, kept.total]
    simp
  room := by
    have room := pushed.room
    rw [pushed.entries, length_append, length_singleton]
    exact room
  bytes := pushed.bytes kept.bytes
  charged := by
    have charged := kept.charged
    have more := pushed.charged
    rw [pushed.entries, map_append, sum_append]
    simp only [map_cons, map_nil, sum_cons, sum_nil]
    omega
  retained := pushed.retained

theorem Kept.enqueue {pending : Pending} (kept : Kept server client limits canonical root s)
    (queue : s'.queue = s.queue ++ [pending]) (entries : s'.entries = s.entries) (total : s'.totalBytes = s.totalBytes)
    (grown : s.retainedBytes ≤ s'.retainedBytes) (retained : s'.retainedBytes ≤ MAX_REMOTE_ARCHIVE_RETAINED_BYTES)
    (seen : s'.seen = pending.remotePath :: s.seen) (fresh : pending.remotePath ∉ remotes s)
    (ofTree : Directory server canonical pending.remotePath) (depth : pending.depth ≤ MAX_REMOTE_ARCHIVE_DEPTH)
    (place : ∃ names, At client canonical root pending.remotePath pending.archivePath names ∧ names.length = pending.depth)
    (parent : HasParent canonical s.entries pending.remotePath) : Kept server client limits canonical root s' where
  entries := entries ▸ kept.entries
  queue := by
    intro other mem
    rw [queue, mem_append, mem_singleton] at mem
    rcases mem with old | rfl
    · exact kept.queue other old
    · exact ⟨ofTree, depth, place⟩
  distinct := by
    have same : remotes s' = remotes s ++ [pending.remotePath] := by simp [remotes, entries, queue]
    rw [same]
    exact (perm_append_singleton _ _).nodup_iff.mpr (nodup_cons.mpr ⟨fresh, kept.distinct⟩)
  seen := by
    intro remote mem
    have same : remotes s' = remotes s ++ [pending.remotePath] := by simp [remotes, entries, queue]
    rw [same, mem_append, mem_singleton] at mem
    rw [seen]
    rcases mem with old | rfl
    · exact mem_cons_of_mem _ (kept.seen remote old)
    · exact mem_cons_self
  parents := entries ▸ kept.parents
  parentsQueue := by
    intro other mem
    rw [queue, mem_append, mem_singleton] at mem
    rw [entries]
    rcases mem with old | rfl
    · exact kept.parentsQueue other old
    · exact parent
  total := by rw [total, entries, kept.total]
  room := entries ▸ kept.room
  bytes := total ▸ kept.bytes
  charged := entries ▸ kept.charged.trans grown
  retained := retained

/-- A directory that was taken from the queue, and is an entry now. -/
structure Opened (server : Server) (client : Client) (canonical root : Text) (s : Scan) (directory : Pending) : Prop where
  ofTree : Directory server canonical directory.remotePath
  place : ∃ names, At client canonical root directory.remotePath directory.archivePath names ∧ names.length = directory.depth
  depth : directory.depth ≤ MAX_REMOTE_ARCHIVE_DEPTH
  entry : ∃ entry ∈ s.entries, entry.remotePath = directory.remotePath ∧ entry.kind = .Directory

/-- A directory that waits or was opened. -/
def Held (s : Scan) (remote : Text) : Prop :=
  (∃ pending ∈ s.queue, pending.remotePath = remote) ∨ ∃ entry ∈ s.entries, entry.remotePath = remote ∧ entry.kind = .Directory

/-- Where a listed file of a directory is kept. -/
def Recorded (server : Server) (s : Scan) (directory : Text) (file : File) : Prop :=
  ∃ remote, joinRemotePath directory file.filename = .ok remote ∧
    if file.attrs.isDir then Held s remote
    else ∃ entry ∈ s.entries, entry.remotePath = remote ∧ Describes server entry ∧ entry.attributes = file.attrs

/-- Entries stay, what waits still waits, and no directory is added. -/
structure Grows (s s' : Scan) : Prop where
  queue : ∀ pending ∈ s.queue, pending ∈ s'.queue
  entries : ∀ entry ∈ s.entries, entry ∈ s'.entries
  directories : ∀ entry ∈ s'.entries, entry.kind = .Directory → entry ∈ s.entries

variable {s : Scan}

theorem Grows.rfl : Grows s s := ⟨fun _ mem => mem, fun _ mem => mem, fun _ mem _ => mem⟩

theorem Grows.trans {a b c : Scan} (first : Grows a b) (second : Grows b c) : Grows a c where
  queue pending mem := second.queue pending (first.queue pending mem)
  entries entry mem := second.entries entry (first.entries entry mem)
  directories entry mem kind := first.directories entry (second.directories entry mem kind) kind

theorem Held.mono (held : Held s remote) (grows : Grows s s') : Held s' remote := by
  rcases held with ⟨pending, mem, same⟩ | ⟨entry, mem, rest⟩
  · exact .inl ⟨pending, grows.queue pending mem, same⟩
  · exact .inr ⟨entry, grows.entries entry mem, rest⟩

theorem Recorded.mono {directory : Text} {file : File} (recorded : Recorded server s directory file)
    (grows : Grows s s') : Recorded server s' directory file := by
  obtain ⟨remote, joined, kept⟩ := recorded
  refine ⟨remote, joined, ?_⟩
  split_ifs at kept ⊢
  · exact kept.mono grows
  · obtain ⟨entry, mem, rest⟩ := kept
    exact ⟨entry, grows.entries entry mem, rest⟩

variable {directory : Pending}

theorem Opened.mono (opened : Opened server client canonical root s directory)
    (grows : Grows s s') : Opened server client canonical root s' directory := by
  obtain ⟨entry, mem, rest⟩ := opened.entry
  exact ⟨opened.ofTree, opened.place, opened.depth, entry, grows.entries entry mem, rest⟩

theorem visitChild_keeps {child : File}
    (kept : Kept server client limits canonical root s) (opened : Opened server client canonical root s directory)
    (listed : Listed (server.readdir directory.remotePath) child) (visited : visitChild server client limits directory child s = .ok s') :
    Kept server client limits canonical root s' ∧ Grows s s' ∧ Recorded server s' directory.remotePath child := by
  obtain ⟨remote, joined, unseen, seen, outcome⟩ := visitChild_ok visited
  obtain ⟨names, place, depth⟩ := opened.place
  obtain ⟨parentEntry, present, parentRemote, parentKind⟩ := opened.entry
  have fresh : remote ∉ remotes s := fun mem => unseen (kept.seen remote mem)
  have parent : HasParent canonical s.entries remote := .inr ⟨parentEntry, present, parentKind, child.filename, parentRemote ▸ joined⟩
  have placed := place.child joined
  rcases outcome with ⟨isDir, shallow, queue, entries, total, grown, retained⟩ | ⟨isFile, kind, describes, pushed⟩
  · refine ⟨?_, ⟨fun p mem => ?_, fun e mem => entries ▸ mem, fun e mem _ => entries ▸ mem⟩, remote, joined, ?_⟩
    · refine kept.enqueue queue entries total grown retained seen fresh (.child opened.ofTree listed isDir joined) shallow
        ⟨_, placed, ?_⟩ parent
      rw [length_append, depth, length_singleton]
    · rw [queue]
      exact mem_append_left _ mem
    · rw [if_pos isDir, Held, queue]
      exact .inl ⟨_, mem_append_right _ mem_cons_self, rfl⟩
  · have notDirectory : kind ≠ .Directory := by
      rintro rfl
      exact describes
    refine ⟨?_, ⟨fun p mem => pushed.queue ▸ mem, fun e mem => ?_, fun e mem isDirectory => ?_⟩, remote, joined, ?_⟩
    · refine kept.push pushed (fun r mem => seen ▸ mem_cons_of_mem _ mem) (seen ▸ mem_cons_self) fresh
        (.inr ⟨notDirectory, directory.remotePath, child, opened.ofTree, listed, isFile, joined, rfl⟩) ⟨_, placed, ?_⟩ parent
      have atMost := opened.depth
      simp only [depthLimit, if_neg notDirectory, length_append, length_singleton]
      omega
    · rw [pushed.entries]
      exact mem_append_left _ mem
    · rw [pushed.entries, mem_append, mem_singleton] at mem
      rcases mem with old | rfl
      · exact old
      · exact absurd isDirectory notDirectory
    · rw [if_neg (by simp [isFile]), pushed.entries]
      exact ⟨_, mem_append_right _ mem_cons_self, rfl, describes, rfl⟩

theorem visitChildren_keeps {children : List File}
    (kept : Kept server client limits canonical root s) (opened : Opened server client canonical root s directory)
    (listed : ∀ child ∈ children, Listed (server.readdir directory.remotePath) child)
    (visited : visitChildren server client limits directory children s = .ok s') :
    Kept server client limits canonical root s' ∧ Grows s s' ∧ ∀ child ∈ children, Recorded server s' directory.remotePath child := by
  induction children generalizing s with
  | nil =>
    cases visited
    exact ⟨kept, Grows.rfl, fun child mem => nomatch mem⟩
  | cons child children ih =>
    rw [visitChildren] at visited
    cases first : visitChild server client limits directory child s with
    | error error => simp [first] at visited
    | ok next =>
      rw [first] at visited
      obtain ⟨keptNext, grown, recorded⟩ := visitChild_keeps kept opened (listed child mem_cons_self) first
      obtain ⟨keptLast, grownLast, others⟩ := ih keptNext (opened.mono grown)
        (fun other mem => listed other (mem_cons_of_mem _ mem)) visited
      refine ⟨keptLast, grown.trans grownLast, fun other mem => ?_⟩
      rcases mem_cons.mp mem with rfl | later
      · exact recorded.mono grownLast
      · exact others other later

/-- Nothing is lost: the root is held, and the listing of every directory entry is
    recorded. -/
structure Expanded (server : Server) (canonical : Text) (s : Scan) : Prop where
  root : Held s canonical
  listings : ∀ entry ∈ s.entries, entry.kind = .Directory → ∀ file, Listed (server.readdir entry.remotePath) file →
    Recorded server s entry.remotePath file

variable {rest : List Pending}

theorem Held.opened (held : Held s remote) (queue : s.queue = directory :: rest) (pushed : Pushed limits entry { s with queue := rest } s')
    (same : entry.remotePath = directory.remotePath) (kind : entry.kind = .Directory) : Held s' remote := by
  rcases held with ⟨pending, mem, here⟩ | ⟨other, mem, other'⟩
  · rw [queue] at mem
    rcases mem_cons.mp mem with rfl | later
    · refine .inr ⟨entry, ?_, same.trans here, kind⟩
      rw [pushed.entries]
      exact mem_append_right _ mem_cons_self
    · exact .inl ⟨pending, pushed.queue ▸ later, here⟩
  · refine .inr ⟨other, ?_, other'⟩
    rw [pushed.entries]
    exact mem_append_left _ mem

theorem Kept.pop (kept : Kept server client limits canonical root s) (queue : s.queue = directory :: rest) :
    Kept server client limits canonical root { s with queue := rest } ∧
      directory.remotePath ∉ remotes { s with queue := rest } := by
  have within : ∀ pending ∈ rest, pending ∈ s.queue := fun pending mem => queue ▸ mem_cons_of_mem _ mem
  have order : (remotes s).Perm (directory.remotePath :: remotes { s with queue := rest }) := by
    simp only [remotes, queue, map_cons]
    exact perm_middle
  obtain ⟨fresh, distinct⟩ := nodup_cons.mp (order.nodup_iff.mp kept.distinct)
  refine ⟨{ kept with queue := ?_, distinct := distinct, seen := ?_, parentsQueue := ?_ }, fresh⟩
  · exact fun pending mem => kept.queue pending (within pending mem)
  · exact fun remote mem => kept.seen remote (order.mem_iff.mpr (mem_cons_of_mem _ mem))
  · exact fun pending mem => kept.parentsQueue pending (within pending mem)

theorem visitDirectory_keeps (kept : Kept server client limits canonical root s) (expanded : Expanded server canonical s)
    (queue : s.queue = directory :: rest) (visited : visitDirectory server client limits directory { s with queue := rest } = .ok s') :
    Kept server client limits canonical root s' ∧ Expanded server canonical s' := by
  obtain ⟨attributes, children, between, pushed, seen, listed, visiting⟩ := visitDirectory_ok visited
  obtain ⟨keptRest, fresh⟩ := kept.pop queue
  have waiting : directory ∈ s.queue := queue ▸ mem_cons_self
  obtain ⟨ofTree, depth, names, place, length⟩ := kept.queue directory waiting
  have known : directory.remotePath ∈ s.seen := kept.seen _ (mem_append_right _ (mem_map_of_mem waiting))
  have keptBetween : Kept server client limits canonical root between := by
    refine keptRest.push pushed (fun r mem => seen ▸ mem) (seen ▸ known) fresh (.inl ⟨rfl, ofTree⟩)
      ⟨names, place, ?_⟩ (kept.parentsQueue directory waiting)
    rw [length]
    exact depth
  have present : ∃ entry ∈ between.entries, entry.remotePath = directory.remotePath ∧ entry.kind = .Directory := by
    rw [pushed.entries]
    exact ⟨_, mem_append_right _ mem_cons_self, rfl, rfl⟩
  have opened : Opened server client canonical root between directory := ⟨ofTree, ⟨names, place, length⟩, depth, present⟩
  obtain ⟨keptLast, grows, recorded⟩ := visitChildren_keeps keptBetween opened (fun c mem => (listed c).mp mem) visiting
  refine ⟨keptLast, (expanded.root.opened queue pushed rfl rfl).mono grows, fun entry mem isDirectory file inListing => ?_⟩
  have before := grows.directories entry mem isDirectory
  rw [pushed.entries, mem_append, mem_singleton] at before
  rcases before with old | rfl
  · obtain ⟨remote, joined, held⟩ := expanded.listings entry old isDirectory file inListing
    refine Recorded.mono ⟨remote, joined, ?_⟩ grows
    split_ifs at held ⊢
    · exact held.opened queue pushed rfl rfl
    obtain ⟨other, there, rest⟩ := held
    refine ⟨other, ?_, rest⟩
    rw [pushed.entries]
    exact mem_append_left _ there
  · exact recorded file ((listed file).mpr inListing)

theorem scanLoop_keeps {rounds : Nat} (kept : Kept server client limits canonical root s)
    (expanded : Expanded server canonical s) (run : scanLoop server client limits rounds s = .ok s') :
    Kept server client limits canonical root s' ∧ Expanded server canonical s' ∧ s'.queue = [] := by
  induction rounds generalizing s with
  | zero => cases run
  | succ rounds ih =>
    rw [scanLoop] at run
    cases queue : s.queue with
    | nil =>
      rw [queue] at run
      cases run
      exact ⟨kept, expanded, queue⟩
    | cons directory rest =>
      rw [queue] at run
      cases visited : visitDirectory server client limits directory { s with queue := rest } with
      | error error => simp [visited] at run
      | ok next =>
        simp only [visited] at run
        obtain ⟨keptNext, expandedNext⟩ := visitDirectory_keeps kept expanded queue visited
        exact ih keptNext expandedNext run

theorem start_kept : Kept server client limits canonical root ⟨[⟨canonical, root, 0⟩], [canonical], [], 0, 0⟩ where
  entries entry mem := nomatch mem
  queue pending mem := by
    obtain rfl := mem_singleton.mp mem
    exact ⟨.root, Nat.zero_le _, [], ⟨rfl, rfl, fun name mem => nomatch mem⟩, rfl⟩
  distinct := nodup_singleton _
  seen remote mem := mem
  parents before entry behind split := by simp at split
  parentsQueue pending mem := by
    obtain rfl := mem_singleton.mp mem
    exact .inl rfl
  total := rfl
  room := Nat.zero_le _
  bytes := Nat.zero_le _
  charged := Nat.zero_le _
  retained := Nat.zero_le _

theorem start_expanded : Expanded server canonical ⟨[⟨canonical, root, 0⟩], [canonical], [], 0, 0⟩ where
  root := .inl ⟨_, mem_singleton.mpr rfl, rfl⟩
  listings _ mem := nomatch mem

/-- What is known of the scan when its queue is empty. -/
structure Finished (server : Server) (client : Client) (limits : Limits) (canonical root : Text) (s : Scan) : Prop where
  kept : Kept server client limits canonical root s
  expanded : Expanded server canonical s
  queue : s.queue = []
  root : IsName root

section
variable (done : Finished server client limits canonical root s)
include done

theorem Finished.distinct : (s.entries.map ArchiveEntry.remotePath).Nodup := by
  have distinct := done.kept.distinct
  rwa [remotes, done.queue, map_nil, append_nil] at distinct

theorem Finished.same {a b : ArchiveEntry}
    (ofA : a ∈ s.entries) (ofB : b ∈ s.entries) (path : a.remotePath = b.remotePath) : a = b :=
  inj_on_of_nodup_map done.distinct ofA ofB path

theorem Finished.held
    (held : Held s remote) : ∃ entry ∈ s.entries, entry.remotePath = remote ∧ entry.kind = .Directory := by
  rcases held with ⟨pending, mem, -⟩ | opened
  · simp [done.queue] at mem
  · exact opened

theorem Finished.directories {directory : Text}
    (ofTree : Directory server canonical directory) : ∃ entry ∈ s.entries, entry.remotePath = directory ∧ entry.kind = .Directory := by
  induction ofTree with
  | root => exact done.held done.expanded.root
  | child _ listed isDir joined ih =>
    obtain ⟨entry, mem, rfl, kind⟩ := ih
    obtain ⟨remote, here, held⟩ := done.expanded.listings entry mem kind _ listed
    rw [here, Except.ok.injEq] at joined
    rw [if_pos isDir, joined] at held
    exact done.held held

theorem Finished.listed {directory : Text} {file : File}
    (ofTree : Directory server canonical directory) (listed : Listed (server.readdir directory) file) :
    ∃ parent ∈ s.entries, parent.remotePath = directory ∧ parent.kind = .Directory ∧ ∃ entry ∈ s.entries,
      joinRemotePath directory file.filename = .ok entry.remotePath ∧
      (file.attrs.isDir = false → Describes server entry ∧ entry.attributes = file.attrs) := by
  obtain ⟨parent, mem, rfl, kind⟩ := done.directories ofTree
  refine ⟨parent, mem, rfl, kind, ?_⟩
  obtain ⟨remote, joined, held⟩ := done.expanded.listings parent mem kind file listed
  cases isDir : file.attrs.isDir with
  | true =>
    rw [if_pos isDir] at held
    obtain ⟨entry, inEntries, rfl, -⟩ := done.held held
    exact ⟨entry, inEntries, joined, nofun⟩
  | false =>
    rw [if_neg (by simp [isDir])] at held
    obtain ⟨entry, inEntries, rfl, described⟩ := held
    exact ⟨entry, inEntries, joined, fun _ => described⟩

theorem Finished.joined {parent : ArchiveEntry}
    (ofParent : parent ∈ s.entries) (ofEntry : entry ∈ s.entries) {name : Text}
    (joined : joinRemotePath parent.remotePath name = .ok entry.remotePath) : entry.archivePath = client.join parent.archivePath name ∧
      ∃ names, At client canonical root parent.remotePath parent.archivePath names ∧
        At client canonical root entry.remotePath entry.archivePath (names ++ [name]) := by
  obtain ⟨-, names, place, -⟩ := done.kept.entries parent ofParent
  obtain ⟨-, others, placed, -⟩ := done.kept.entries entry ofEntry
  have child := place.child joined
  obtain rfl : others = names ++ [name] := remoteAt_inj placed.areNames child.areNames (placed.remote.symm.trans child.remote)
  exact ⟨placed.archive.trans child.archive.symm, names, place, placed⟩

end

end

end Ramag.ArchiveWalk
