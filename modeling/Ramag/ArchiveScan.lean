import Mathlib
import Ramag.SshRemotePath

/-!
The scan of a remote directory for its download as an archive. Everything that
the server answers is a parameter: what a path stands for, the packets of a
directory's listing and the targets of links.
-/
namespace Ramag.ArchiveScan
open Strings Domain SshRemotePath

def MAX_REMOTE_ARCHIVE_DEPTH : Nat := 64
def MAX_REMOTE_ARCHIVE_ENTRIES : Nat := 100000
def MAX_REMOTE_ARCHIVE_RETAINED_BYTES : Nat := 64 * 1024 * 1024
def MAX_REMOTE_DIRECTORY_RETAINED_BYTES : Nat := 64 * 1024 * 1024
def MAX_PRODUCTION_DIRECTORY_ENTRIES : Nat := 5000
def MAX_PRODUCTION_DOWNLOAD_BYTES : Nat := 256 * 1024 * 1024
def MAX_PRODUCTION_DOWNLOAD_SECONDS : Nat := 300
def U64_MAX : Nat := 2 ^ 64 - 1

/-- The attributes of a file, with what the SFTP crate makes of its mode. -/
structure FileAttributes where
  isDir : Bool := false
  isRegular : Bool := false
  isSymlink : Bool := false
  size : Option UInt64 := none
  deriving DecidableEq

def FileAttributes.len (attributes : FileAttributes) : Nat := (attributes.size.getD 0).toNat

/-- A file of a listing. `retained` is what its record takes in memory. -/
structure File where
  filename : Text
  attrs : FileAttributes
  retained : Nat := 0

/-- What the server sends for a packet of a listing. -/
inductive Packet
  | Files (files : List File)
  | Eof
  | Failed (error : DomainError)

/-- Where the deadline and the cancellation are looked at. -/
inductive Checkpoint
  | directory (remote : Text)
  | child (directory name : Text)

structure Server where
  canonicalize : Text → Result Text
  rootLstat : Text → Result FileAttributes
  lstat : Text → Result FileAttributes
  opendir : Text → Result Unit
  readdir : Text → Nat → Packet
  close : Text → Result Unit
  readlink : Text → Result (List Text)
  connectionFailed : DomainError → Bool
  interrupted : Checkpoint → Option DomainError

def skipped (name : Text) : Bool := name = "." || name = ".."

def chargeListing (retained additional : Nat) : Result Nat :=
  if U64_MAX < retained + additional then .error (.Forbidden "远程目录协议数据大小溢出，已停止处理远端数据")
  else if MAX_REMOTE_DIRECTORY_RETAINED_BYTES < retained + additional then
    .error (.Forbidden ("远程目录协议数据超过 " ++ natText (MAX_REMOTE_DIRECTORY_RETAINED_BYTES / 1024 / 1024) ++ " MiB 安全上限"))
  else .ok (retained + additional)

/-- The files of one packet, behind those of the packets before it. -/
def takeFiles (maxEntries : Nat) : List File → List File → Nat → Result (List File × Nat)
  | [], entries, retained => .ok (entries, retained)
  | entry :: files, entries, retained =>
    if skipped entry.filename then takeFiles maxEntries files entries retained
    else if maxEntries ≤ entries.length then
      .error (.Forbidden ("远程目录条目超过 " ++ natText maxEntries ++ " 个安全上限"))
    else do
      let retained ← chargeListing retained entry.retained
      takeFiles maxEntries files (entries ++ [entry]) retained

/-- At most `left` packets, the next of which is `packet`. -/
def readPackets (answers : Nat → Packet) (maxEntries : Nat) : Nat → Nat → List File → Nat → Result (List File)
  | 0, _, _, _ => .error (.Other "远端目录返回了过多空数据包，已停止读取")
  | left + 1, packet, entries, retained =>
    match answers packet with
    | .Eof => .ok entries
    | .Failed error => .error error
    | .Files files =>
      if files = [] then .error (.Other "远端目录返回了空数据包而非结束标记")
      else
        match takeFiles maxEntries files entries retained with
        | .ok (entries, retained) => readPackets answers maxEntries left (packet + 1) entries retained
        | .error error => .error error

variable (server : Server)

def readDirectoryFiles (path : Text) (maxEntries : Nat) : Result (List File) :=
  match server.opendir path with
  | .error error => .error error
  | .ok () =>
    let result := readPackets (server.readdir path) maxEntries (maxEntries + 32) 0 [] 0
    match server.close path, result with
    | .ok (), result => result
    | .error closeError, .ok _ => .error closeError
    | .error closeError, .error error => .error (if server.connectionFailed closeError then closeError else error)

/-- The system of the client, whose paths the archive's paths are built with. -/
inductive Client
  | Posix
  | Windows
  deriving DecidableEq

def hasDrivePrefix : Text → Bool
  | letter :: ':' :: _ => letter.isAlpha
  | _ => false

def Client.separator : Client → Char
  | .Posix => '/'
  | .Windows => '\\'

variable (client : Client)

/-- `Path::join` of a name without separators. On Windows a name with a drive
    replaces the path, and a bare drive takes no separator. -/
def Client.join (path name : Text) : Text :=
  if client = .Windows && hasDrivePrefix name then name
  else if path = [] || path.getLast? = some client.separator || path.getLast? = some '/' ||
      (client = .Windows && hasDrivePrefix path && path.length = 2) then path ++ name
  else path ++ client.separator :: name

inductive ArchiveKind
  | Directory
  | File
  | Symlink (target : Text)
  deriving DecidableEq

structure ArchiveEntry where
  remotePath : Text
  archivePath : Text
  attributes : FileAttributes
  kind : ArchiveKind
  deriving DecidableEq

structure ArchivePlan where
  entries : List ArchiveEntry
  totalBytes : Nat
  deriving DecidableEq

structure Limits where
  maxEntries : Nat
  maxBytes : Nat

def limitsOf (production : Bool) : Limits :=
  if production then ⟨MAX_PRODUCTION_DIRECTORY_ENTRIES, MAX_PRODUCTION_DOWNLOAD_BYTES⟩
  else ⟨MAX_REMOTE_ARCHIVE_ENTRIES, U64_MAX⟩

def chargeRetainedBytes (retained additional limit : Nat) : Result Nat :=
  if U64_MAX < retained + additional then .error (.Forbidden "目录路径数据大小溢出")
  else if limit < retained + additional then
    .error (.Forbidden ("目录路径数据超过 " ++ natText (limit / 1024 / 1024) ++ " MiB"))
  else .ok (retained + additional)

def pathCharge (remote archive : Text) : Nat :=
  min (min (min (byteLen remote * 2) U64_MAX + byteLen archive) U64_MAX + 96) U64_MAX

def chargePathBytes (retained : Nat) (remote archive : Text) (limit : Nat) : Result Nat :=
  chargeRetainedBytes retained (pathCharge remote archive) limit

def archiveEntryLimit (maxEntries : Nat) : DomainError :=
  .Forbidden ("目录项目超过 " ++ natText maxEntries ++ " 个")

def validateLinkTarget (target : Text) : Result Unit :=
  if target = [] || MAX_SSH_PATH_BYTES < byteLen target || target.head? = some '/' || target.any (· = '\x00') ||
      target.any (· = '\\') || (components target).any (· = "..") ||
      (components target).head?.any (fun part => part.getLast? = some ':') then
    .error (.Forbidden "目录含可能越界的符号链接，已停止下载")
  else .ok ()

def readLink (path : Text) : Result Text := do
  let files ← server.readlink path
  match files with
  | target :: _ => .ok target
  | [] => .error (.Other "远端未返回符号链接目标")

/-! ### The scan -/

/-- A directory that waits for its listing. -/
structure Pending where
  remotePath : Text
  archivePath : Text
  depth : Nat

structure Scan where
  queue : List Pending
  seen : List Text
  entries : List ArchiveEntry := []
  retainedBytes : Nat := 0
  totalBytes : Nat := 0

def ensureNotInterrupted (checkpoint : Checkpoint) : Result Unit :=
  match server.interrupted checkpoint with
  | some error => .error error
  | none => .ok ()

variable (limits : Limits)

def addBytes (total size : Nat) : Result Nat :=
  if U64_MAX < total + size then .error (.Forbidden "目录文件总大小溢出，已停止下载")
  else if limits.maxBytes < total + size then
    .error (.Forbidden ("远程目录文件总大小超过 " ++ natText (limits.maxBytes / 1024 / 1024) ++ " MiB 生产下载上限"))
  else .ok (total + size)

def pushEntry (entry : ArchiveEntry) (s : Scan) : Result Scan :=
  if limits.maxEntries < s.entries.length + 1 then .error (archiveEntryLimit limits.maxEntries)
  else .ok { s with entries := s.entries ++ [entry] }

/-- A child that is no directory. -/
def recordChild (remote archive : Text) (child : File) (s : Scan) : Result Scan :=
  if child.attrs.isRegular then do
    let totalBytes ← addBytes limits s.totalBytes child.attrs.len
    pushEntry limits ⟨remote, archive, child.attrs, .File⟩ { s with totalBytes }
  else if child.attrs.isSymlink then do
    let target ← readLink server remote
    validateLinkTarget target
    let retainedBytes ← chargeRetainedBytes s.retainedBytes (byteLen target) MAX_REMOTE_ARCHIVE_RETAINED_BYTES
    pushEntry limits ⟨remote, archive, child.attrs, .Symlink target⟩ { s with retainedBytes }
  else .error (.Forbidden ("目录含不支持的特殊文件：" ++ child.filename))

def visitChild (directory : Pending) (child : File) (s : Scan) :
    Result Scan := do
  ensureNotInterrupted server (.child directory.remotePath child.filename)
  (validateRemoteName child.filename).mapError fun error => .Other ("远端返回了无效文件名：" ++ error)
  let remote ← (joinRemotePath directory.remotePath child.filename).mapError .Other
  if remote ∈ s.seen then .error (.Forbidden "远端目录返回了重复路径，已停止下载")
  else
    let archive := client.join directory.archivePath child.filename
    let retainedBytes ← chargePathBytes s.retainedBytes remote archive MAX_REMOTE_ARCHIVE_RETAINED_BYTES
    let s := { s with seen := remote :: s.seen, retainedBytes }
    if child.attrs.isDir then
      if MAX_REMOTE_ARCHIVE_DEPTH ≤ directory.depth then
        .error (.Forbidden ("目录深度超过 " ++ natText MAX_REMOTE_ARCHIVE_DEPTH ++ " 层"))
      else .ok { s with queue := s.queue ++ [⟨remote, archive, directory.depth + 1⟩] }
    else recordChild server limits remote archive child s

def visitChildren (server : Server) (client : Client) (limits : Limits) (directory : Pending) : List File → Scan → Result Scan
  | [], s => .ok s
  | child :: children, s =>
    match visitChild server client limits directory child s with
    | .ok s => visitChildren server client limits directory children s
    | .error error => .error error

/-- A directory that was taken from the queue of `s`. -/
def visitDirectory (directory : Pending) (s : Scan) :
    Result Scan := do
  ensureNotInterrupted server (.directory directory.remotePath)
  let attributes ← server.lstat directory.remotePath
  if !attributes.isDir then .error (.Forbidden "目录内容已变化，请重新下载")
  else
    let retainedBytes ← chargePathBytes s.retainedBytes directory.remotePath directory.archivePath
      MAX_REMOTE_ARCHIVE_RETAINED_BYTES
    let s ← pushEntry limits ⟨directory.remotePath, directory.archivePath, attributes, .Directory⟩ { s with retainedBytes }
    let children ← readDirectoryFiles server directory.remotePath (limits.maxEntries - s.entries.length)
    visitChildren server client limits directory (children.insertionSort fun a b => a.filename ≤ b.filename) s

/-- Every round adds an entry, so the limit ends the loop before the rounds do. -/
def scanLoop (server : Server) (client : Client) (limits : Limits) : Nat → Scan → Result Scan
  | 0, _ => .error (archiveEntryLimit limits.maxEntries)
  | rounds + 1, s =>
    match s.queue with
    | [] => .ok s
    | directory :: queue =>
      match visitDirectory server client limits directory { s with queue } with
      | .ok s => scanLoop server client limits rounds s
      | .error error => .error error

def rootNameOf (path : RemotePath) (canonical : Text) : Text :=
  if path.isRoot then
    match path.kind with
    | .WindowsDrive => "drive-root"
    | .Posix | .Virtual | .Unknown => "root"
  else
    let name := ((components (trimEndSlashes canonical)).getLast?).getD []
    if name = [] then "root" else name

/-- The canonical path of the directory and its name in the archive. -/
def scanRoot (remotePath : Text) : Result (Text × Text) := do
  (validateRemotePath remotePath).mapError .InvalidConfig
  let canonical ← server.canonicalize remotePath
  (validateRemotePath canonical).mapError fun error => .Other ("远端返回了无效目录路径：" ++ error)
  let attributes ← server.rootLstat canonical
  if !attributes.isDir then .error (.InvalidConfig "下载源必须是目录")
  else
    let path ← (parseWithNamespace canonical (inferSftpNamespace canonical)).mapError .InvalidConfig
    let rootName := rootNameOf path canonical
    (validateRemoteName rootName).mapError .InvalidConfig
    .ok (canonical, rootName)

def scanDirectory (production : Bool) (remotePath : Text) :
    Result ArchivePlan := do
  let (canonical, rootName) ← scanRoot server remotePath
  let limits := limitsOf production
  let s ← scanLoop server client limits (limits.maxEntries + 1) ⟨[⟨canonical, rootName, 0⟩], [canonical], [], 0, 0⟩
  .ok ⟨s.entries, s.totalBytes⟩

end Ramag.ArchiveScan
