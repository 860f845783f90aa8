import Ramag.SshRemotePath

/-!
Uploads and downloads of one file over SFTP. The remote and the local files are
maps; what each request is answered, and whether the cancellation comes while it
is awaited, is a parameter. A transfer writes a temporary file beside the target
and commits it by renaming. The maps between the changes are kept, the latest
first.
-/
namespace Ramag.SshTransfer
open Strings Domain SshRemotePath

def MAX_PRODUCTION_DOWNLOAD_BYTES : Nat := 256 * 1024 * 1024
def MAX_PRODUCTION_DOWNLOAD_SECONDS : Nat := 300
def MAX_CONCURRENT_PRODUCTION_DOWNLOADS : Nat := 1

/-- The errors of a transfer, by the variants of the source's `DomainError`. -/
inductive TransferError
  | ConnectionFailed (message : Text)
  | InvalidConfig (message : Text)
  | Forbidden (message : Text)
  | NotFound (message : Text)
  | Other (message : Text)
  deriving DecidableEq

def TransferError.isConnectionFailed : TransferError → Bool
  | .ConnectionFailed _ => true
  | _ => false

/-- What `map_sftp_error` tells apart in an error of the SFTP crate. -/
inductive SftpErrorKind
  /-- A timeout, an I/O error, a packet that was not expected, or a lost connection. -/
  | Connection
  | NoSuchFile
  | PermissionDenied
  | Eof
  | Other
  deriving DecidableEq

structure SftpError where
  kind : SftpErrorKind
  text : Text

def mapSftpError (context : Text) (error : SftpError) : TransferError :=
  match error.kind with
  | .Connection => .ConnectionFailed (context ++ "失败：" ++ error.text)
  | .NoSuchFile => .NotFound (context ++ "的远程项目")
  | .PermissionDenied => .Forbidden (context ++ "：权限不足")
  | _ => .Other (context ++ "失败：" ++ error.text)

def cancelledError : TransferError := .Other "传输已取消"

/-- What a path stands for: a regular file, or something else such as a
    directory or a link. -/
structure Entry where
  regular : Bool
  bytes : List UInt8

abbrev Files (Path : Type) := Path → Option Entry

/-- A map with the maps before it. -/
structure Store (Path : Type) where
  files : Files Path
  past : List (Files Path) := []

variable {Path : Type} (store : Store Path)

def Store.put (files : Files Path) : Store Path := ⟨files, store.files :: store.past⟩

@[simp] theorem Store.put_files (files : Files Path) : (store.put files).files = files := rfl

/-- Every map that there was, and the one that there is. -/
def Store.moments : List (Files Path) := store.files :: store.past

/-- Whether a request is done, or refused with nothing changed. -/
inductive Reply (ε : Type)
  | done
  | refused (error : ε)

/-- A request that may be given up while it is awaited. -/
inductive Await (ε : Type)
  | answered (reply : Reply ε)
  | cancelled

section
variable [DecidableEq Path]

def missing : SftpError := ⟨.NoSuchFile, "No such file"⟩

/-- `SSH_FXP_RENAME`, on a server that replaces a file of the new name or one
    that refuses to. -/
def Store.rename (store : Store Path) (replaces : Bool) (old new : Path) (reply : Reply SftpError) : Except SftpError Unit × Store Path :=
  match reply, store.files old with
  | .refused error, _ => (.error error, store)
  | .done, none => (.error missing, store)
  | .done, some entry =>
    if (store.files new).isSome && !replaces then (.error ⟨.Other, "Failure"⟩, store)
    else (.ok (), store.put (Function.update (Function.update store.files old none) new (some entry)))

def Store.lstat (store : Store Path) (path : Path) (reply : Reply SftpError) : Except SftpError Entry :=
  match reply, store.files path with
  | .refused error, _ => .error error
  | .done, none => .error missing
  | .done, some entry => .ok entry

def Store.remove (store : Store Path) (path : Path) (reply : Reply SftpError) : Except SftpError Unit × Store Path :=
  match reply, store.files path with
  | .refused error, _ => (.error error, store)
  | .done, none => (.error missing, store)
  | .done, some _ => (.ok (), store.put (Function.update store.files path none))

/-- A file of the store gets new bytes. -/
def Store.write (store : Store Path) (path : Path) (bytes : List UInt8) : Store Path :=
  store.put (Function.update store.files path (some ⟨true, bytes⟩))

/-- `cleanup_remote` and `cleanup_local`: what goes wrong is only logged. -/
def Store.cleanup (store : Store Path) (path : Path) (reply : Reply SftpError) : Store Path := (store.remove path reply).2

end

def validatePortableToken (label value : Text) (maxBytes : Nat) : Except Text Unit :=
  if value = [] || maxBytes < byteLen value || !value.all (fun c => c.isAlphanum || c = '-') then
    .error (label ++ "格式无效")
  else .ok ()

/-- The text behind the last slash. -/
def lastComponent (t : Text) : Text := t.rtakeWhile (· ≠ '/')

/-- The text before the last slash; nothing when there is none. -/
def beforeLastSlash (t : Text) : Text := (t.rdropWhile (· ≠ '/')).dropLast

def parent (path : RemotePath) : RemotePath :=
  if path.kind = .Virtual && isVirtualWindowsDriveRoot path.canonical then ⟨"/", path.kind⟩
  else if path.isRoot then path
  else
    let before := beforeLastSlash path.canonical
    let index := byteLen before
    ⟨match path.kind with
      | .Posix => if index = 0 then "/" else before
      | .Virtual =>
        if index = 0 then "/"
        else if index = 3 && hasVirtualWindowsDrivePrefix path.canonical then before ++ "/"
        else before
      | .WindowsDrive => if index = 2 then before ++ "/" else before
      | .Unknown => before, path.kind⟩

def siblingName (name marker unique : Text) : Text := '.' :: name ++ '.' :: marker ++ '-' :: unique ++ ".tmp"

def temporarySibling (path : RemotePath) (marker unique : Text) : Except Text RemotePath :=
  if path.isRoot then .error "不能为远端根目录创建临时兄弟路径"
  else do
    validatePortableToken "临时文件标记" marker 32
    validatePortableToken "临时文件标识" unique 64
    let name := lastComponent path.canonical
    if name = [] then .error "远程目标缺少文件名"
    else (parent path).joinChild (siblingName name marker unique)

def remoteSibling (target marker unique : Text) : Except TransferError Text :=
  match parseWithNamespace target (inferSftpNamespace target) with
  | .error error => .error (.InvalidConfig error)
  | .ok path =>
    match temporarySibling path marker unique with
    | .error error => .error (.InvalidConfig error)
    | .ok sibling => .ok sibling.canonical

/-- What `Path` gives for a local path: its parent, and its last component when
    it is UTF-8. -/
structure LocalPath where
  parent : Option Text
  fileName : Option Text
  deriving DecidableEq

def localSibling (target : LocalPath) (unique : Text) : Except TransferError LocalPath :=
  match target.parent with
  | none => .error (.InvalidConfig "本地下载目标缺少父目录")
  | some parent =>
    match target.fileName with
    | none => .error (.InvalidConfig "本地下载目标缺少 UTF-8 文件名")
    | some name => .ok ⟨some parent, some ('.' :: name ++ ".ramag-download-" ++ unique ++ ".tmp")⟩

example : remoteSibling "/srv/a.txt" "ramag-upload" "0a" =
    .ok "/srv/.a.txt.ramag-upload-0a.tmp" := by decide

inductive OverwritePolicy
  | Refuse
  | Overwrite
  deriving DecidableEq

/-- What the requests of a commit are answered. -/
structure CommitAnswers where
  /-- The identifier in the name of the backup. -/
  unique : Text
  /-- The rename to a target that did not exist. -/
  publish : Reply SftpError := .done
  backup : Reply SftpError := .done
  lstat : Reply SftpError := .done
  replace : Reply SftpError := .done
  /-- The rename of the backup to the target again. -/
  restore : Reply SftpError := .done
  cleanup : Reply SftpError := .done
  removeBackup : Reply SftpError := .done

def changedAndLost : Text := "远程目标类型发生变化且恢复原目标失败："
def replacedAndLost : Text := "提交远程上传文件失败且恢复原文件也失败："

variable (replaces : Bool)

/-- The backup is not a regular file: the target is restored. -/
def restoreChanged (answers : CommitAnswers) (store : Store Text) (target backup : Text)
    (metadata : Except SftpError Entry) : Except TransferError (List Text) × Store Text :=
  match metadata, store.rename replaces backup target answers.restore with
  | _, (.error rollbackError, store) => (.error (.Other (changedAndLost ++ rollbackError.text)), store)
  | .error error, (.ok (), store) => (.error (mapSftpError "再次确认远程覆盖目标" error), store)
  | .ok _, (.ok (), store) => (.error (.Forbidden "远程覆盖目标已不再是普通文件；已恢复原目标"), store)

/-- The temporary file takes the place of the target, which is in the backup. -/
def replaceTarget (answers : CommitAnswers) (store : Store Text) (temporary target backup : Text) :
    Except TransferError (List Text) × Store Text :=
  match store.rename replaces temporary target answers.replace with
  | (.error error, store) =>
    let (rollback, store) := store.rename replaces backup target answers.restore
    let store := store.cleanup temporary answers.cleanup
    match rollback with
    | .ok () => (.error (mapSftpError "提交远程上传文件" error), store)
    | .error rollbackError => (.error (.Other (replacedAndLost ++ error.text ++ "；" ++ rollbackError.text)), store)
  | (.ok (), store) =>
    match store.remove backup answers.removeBackup with
    | (.ok (), store) => (.ok [], store)
    | (.error error, store) => (.ok ["远程文件已替换，但清理覆盖备份失败：" ++ error.text], store)

/-- `commit_remote_with_file_system`, with the warnings of its outcome. -/
def commitRemote (answers : CommitAnswers) (store : Store Text) (temporary target : Text)
    (targetExisted : Bool) : Except TransferError (List Text) × Store Text :=
  if !targetExisted then
    match store.rename replaces temporary target answers.publish with
    | (.ok (), store) => (.ok [], store)
    | (.error error, store) => (.error (mapSftpError "提交远程上传文件" error), store)
  else
    match remoteSibling target "ramag-backup" answers.unique with
    | .error error => (.error error, store)
    | .ok backup =>
      match store.rename replaces target backup answers.backup with
      | (.error error, store) => (.error (mapSftpError "暂存被覆盖的远程文件" error), store)
      | (.ok (), store) =>
        match store.lstat backup answers.lstat with
        | .ok ⟨true, _⟩ => replaceTarget replaces answers store temporary target backup
        | metadata => restoreChanged replaces answers store target backup metadata

structure Session where
  writeChunkBytes : Nat
  readChunkBytes : Nat
  supportsFsync : Bool
  /-- A rename replaces a file of the new name. -/
  replaces : Bool

def changedUploadSize (expected actual : Nat) : TransferError :=
  .Other ("上传期间本地文件大小发生变化：开始时 " ++ natText expected ++ " bytes，实际读取 " ++ natText actual ++ " bytes")

/-- One round of `copy_upload`. -/
structure UploadRound where
  /-- The cancellation came before the round. -/
  cancelled : Bool := false
  /-- How many bytes a read gives at most, or its error. -/
  read : Except Text Nat
  write : Await SftpError := .answered .done
  /-- What a write that is refused or given up makes of the file. -/
  left : List UInt8 := []

/-- The rounds from `round` on, where `rest` is still to be read. -/
def copyUpload (session : Session) (rounds : Nat → UploadRound) (temporary : Text) (total : Nat) (round : Nat)
    (rest written : List UInt8) (store : Store Text) : Except TransferError Nat × Store Text :=
  if (rounds round).cancelled then (.error cancelledError, store)
  else
    match (rounds round).read with
    | .error error => (.error (.Other ("读取本地上传文件失败：" ++ error)), store)
    | .ok size =>
      let data := rest.take (min size session.writeChunkBytes)
      if _ : data = [] then (.ok written.length, store)
      else
        let next := written.length + data.length
        if total < next then (.error (changedUploadSize total next), store)
        else
          match (rounds round).write with
          | .cancelled => (.error cancelledError, store.write temporary (rounds round).left)
          | .answered (.refused error) => (.error (mapSftpError "写入远程上传文件" error), store.write temporary (rounds round).left)
          | .answered .done =>
            copyUpload session rounds temporary total (round + 1) (rest.drop data.length) (written ++ data)
              (store.write temporary (written ++ data))
termination_by rest.length
decreasing_by
  have held : 0 < (rest.take (min size session.writeChunkBytes)).length := List.length_pos_iff.mpr ‹_›
  simp only [List.length_drop, List.length_take] at held ⊢
  omega

structure UploadAnswers where
  /-- Why no transfer slot was given. -/
  permit : Option TransferError := none
  cancelledAtStart : Bool := false
  metadata : Reply Text := .done
  openSource : Reply Text := .done
  openedMetadata : Reply Text := .done
  targetLstat : Await SftpError := .answered .done
  unique : Text
  openTemporary : Await SftpError := .answered .done
  /-- The server has created the temporary file of an open that was given up. -/
  created : Bool := false
  rounds : Nat → UploadRound
  fsync : Await SftpError := .answered .done
  close : Reply SftpError := .done
  cancelledAtEnd : Bool := false
  cleanup : Reply SftpError := .done
  commit : CommitAnswers

def noSuchLocalFile : Text := "No such file or directory (os error 2)"

def localEntry (files : Files LocalPath) (path : LocalPath) (reply : Reply Text) : Except Text Entry :=
  match reply, files path with
  | .refused error, _ => .error error
  | .done, none => .error noSuchLocalFile
  | .done, some entry => .ok entry

/-- `remote_lstat` -/
def remoteLstat (store : Store Text) (path context : Text) (answer : Await SftpError) : Except TransferError (Option Entry) :=
  match answer with
  | .cancelled => .error cancelledError
  | .answered reply =>
    match store.lstat path reply with
    | .ok entry => .ok (some entry)
    | .error error => if error.kind = .NoSuchFile then .ok none else .error (mapSftpError context error)

/-- What an upload finds out before it changes anything: the bytes of the
    source, whether the target exists, and the name of the temporary file. -/
def prepareUpload (answers : UploadAnswers) (locals : Files LocalPath) (localPath : LocalPath) (remotePath : Text)
    (overwrite : OverwritePolicy) (store : Store Text) : Except TransferError (List UInt8 × Bool × Text) :=
  match answers.permit with
  | some error => .error error
  | none =>
    if answers.cancelledAtStart then .error cancelledError
    else
      match localEntry locals localPath answers.metadata with
      | .error error => .error (.Other ("读取本地上传文件信息失败：" ++ error))
      | .ok metadata =>
        if !metadata.regular then .error (.InvalidConfig "上传源必须是普通文件；首个版本不上传目录或符号链接")
        else
          match localEntry locals localPath answers.openSource with
          | .error error => .error (.Other ("打开本地上传文件失败：" ++ error))
          | .ok source =>
            match answers.openedMetadata with
            | .refused error => .error (.Other ("读取已打开上传文件信息失败：" ++ error))
            | .done =>
              if !source.regular then .error (.InvalidConfig "上传源不再是普通文件")
              else
                match remoteLstat store remotePath "检查远程目标" answers.targetLstat with
                | .error error => .error error
                | .ok existing =>
                  if existing.isSome && overwrite = .Refuse then .error (.Forbidden "远程目标已存在；请明确确认覆盖后重试")
                  else if existing.any (!·.regular) then
                    .error (.Forbidden "只允许覆盖远程普通文件，不能覆盖目录、符号链接或特殊文件")
                  else
                    match remoteSibling remotePath "ramag-upload" answers.unique with
                    | .error error => .error error
                    | .ok temporary => .ok (source.bytes, existing.isSome, temporary)

variable (session : Session)

/-- The copy, the sync and the close of an open temporary file. -/
def transferUpload (answers : UploadAnswers) (bytes : List UInt8) (temporary : Text) (store : Store Text) :
    Except TransferError Nat × Store Text :=
  let (copied, store) := copyUpload session answers.rounds temporary bytes.length 0 bytes [] store
  let synced :=
    match copied with
    | .error error => .error error
    | .ok transferred =>
      if !session.supportsFsync then .ok transferred
      else
        match answers.fsync with
        | .cancelled => .error cancelledError
        | .answered .done => .ok transferred
        | .answered (.refused error) => .error (mapSftpError "同步远程上传临时文件" error)
  match answers.close with
  | .done => (synced, store)
  | .refused error =>
    let closeError := mapSftpError "关闭远程上传临时文件" error
    match synced with
    | .ok _ => (.error closeError, store)
    | .error error => (.error (if closeError.isConnectionFailed then closeError else error), store)

/-- An upload from the open temporary file on. -/
def finishUpload (answers : UploadAnswers) (bytes : List UInt8) (existed : Bool) (temporary target : Text)
    (store : Store Text) : Except TransferError (List Text) × Store Text :=
  match transferUpload session answers bytes temporary store with
  | (.error error, store) => (.error error, store.cleanup temporary answers.cleanup)
  | (.ok transferred, store) =>
    if transferred ≠ bytes.length then
      (.error (changedUploadSize bytes.length transferred), store.cleanup temporary answers.cleanup)
    else if answers.cancelledAtEnd then (.error cancelledError, store.cleanup temporary answers.cleanup)
    else
      match commitRemote session.replaces answers.commit store temporary target existed with
      | (.ok warnings, store) => (.ok warnings, store)
      | (.error error, store) => (.error error, store.cleanup temporary answers.cleanup)

/-- The whole of `upload`. The temporary file is created only when there is none
    of its name. -/
def upload (answers : UploadAnswers) (locals : Files LocalPath) (localPath : LocalPath) (remotePath : Text)
    (overwrite : OverwritePolicy) (store : Store Text) : Except TransferError (List Text) × Store Text :=
  match prepareUpload answers locals localPath remotePath overwrite store with
  | .error error => (.error error, store)
  | .ok (bytes, existed, temporary) =>
    match answers.openTemporary with
    | .cancelled =>
      (.error cancelledError,
        if answers.created && (store.files temporary).isNone then store.write temporary [] else store)
    | .answered (.refused error) => (.error (mapSftpError "创建远程上传临时文件" error), store)
    | .answered .done =>
      if (store.files temporary).isSome then
        (.error (mapSftpError "创建远程上传临时文件" ⟨.Other, "Failure"⟩), store)
      else finishUpload session answers bytes existed temporary remotePath (store.write temporary [])

/-! ### Downloads -/

/-- One round of `copy_download`. -/
structure DownloadRound where
  /-- The cancellation came before the round. -/
  cancelled : Bool := false
  /-- The deadline of a production download has passed. -/
  late : Bool := false
  read : Await SftpError := .answered .done
  /-- How many bytes the packet brings at most. -/
  size : Nat
  write : Reply Text := .done
  /-- What a write that is refused makes of the file. -/
  left : List UInt8 := []

/-- The rounds from `round` on, where `rest` is still to be read. -/
def copyDownload (production : Bool) (rounds : Nat → DownloadRound) (temporary : LocalPath) (total : Nat) (round : Nat)
    (rest written : List UInt8) (store : Store LocalPath) : Except TransferError Nat × Store LocalPath :=
  if (rounds round).cancelled then (.error cancelledError, store)
  else if production && (rounds round).late then
    (.error (.Forbidden ("生产下载超过 " ++ natText MAX_PRODUCTION_DOWNLOAD_SECONDS ++ " 秒安全上限")), store)
  else
    match (rounds round).read with
    | .cancelled => (.error cancelledError, store)
    | .answered (.refused error) =>
      if error.kind = .Eof then (.ok written.length, store)
      else (.error (mapSftpError "读取远程下载文件" error), store)
    | .answered .done =>
      if rest = [] then (.ok written.length, store)
      else
        let data := rest.take (rounds round).size
        if _ : data = [] then (.error (.ConnectionFailed "远端返回了空下载数据包而非结束标记"), store)
        else
          let next := written.length + data.length
          if total < next then
            (.error (.ConnectionFailed ("下载期间远程文件大小发生变化：开始时 " ++ natText total ++ " bytes，已收到 " ++
              natText next ++ " bytes")), store)
          else
            match (rounds round).write with
            | .refused error => (.error (.Other ("写入本地下载文件失败：" ++ error)), store.write temporary (rounds round).left)
            | .done =>
              copyDownload production rounds temporary total (round + 1) (rest.drop data.length) (written ++ data)
                (store.write temporary (written ++ data))
termination_by rest.length
decreasing_by
  have held : 0 < (rest.take (rounds round).size).length := List.length_pos_iff.mpr ‹_›
  simp only [List.length_drop, List.length_take] at held ⊢
  omega

structure DownloadAnswers where
  /-- Why no transfer slot was given. -/
  permit : Option TransferError := none
  /-- The slot of production downloads is free. -/
  productionSlot : Bool := true
  cancelledAtStart : Bool := false
  lstat : Await SftpError := .answered .done
  /-- The server gives the size of the file with its attributes. -/
  lstatSize : Bool := true
  tryExists : Reply Text := .done
  /-- A local path that is no regular file leads to something. -/
  leadsSomewhere : Bool := true
  unique : Text
  create : Reply Text := .done
  openSource : Await SftpError := .answered .done
  fstat : Await SftpError := .answered .done
  fstatSize : Bool := true
  rounds : Nat → DownloadRound
  close : Reply SftpError := .done
  flush : Reply Text := .done
  sync : Reply Text := .done
  cancelledAtEnd : Bool := false
  /-- The blocking task of the commit does not run. -/
  commitTask : Reply Text := .done
  /-- The hard link, or the rename, of the commit. -/
  commit : Reply Text := .done
  removeLink : Reply Text := .done
  cleanup : Reply SftpError := .done

def ensureProductionDownloadSize (size : Option Nat) : Except TransferError Unit :=
  match size with
  | none => .error (.Forbidden "生产下载必须先获得远程文件大小")
  | some size =>
    if MAX_PRODUCTION_DOWNLOAD_BYTES < size then
      .error (.Forbidden ("生产下载文件超过 " ++ natText (MAX_PRODUCTION_DOWNLOAD_BYTES / 1024 / 1024) ++ " MiB 安全上限"))
    else .ok ()

/-- `try_exists` follows links. -/
def localExists (store : Store LocalPath) (answers : DownloadAnswers) (path : LocalPath) : Except TransferError Bool :=
  match answers.tryExists with
  | .refused error => .error (.Other ("检查本地下载目标失败：" ++ error))
  | .done =>
    match store.files path with
    | none => .ok false
    | some entry => .ok (entry.regular || answers.leadsSomewhere)

/-- The size of a file as the server gives it. -/
def givenSize (entry : Entry) (given : Bool) : Option Nat := if given then some entry.bytes.length else none

variable (answers : DownloadAnswers) (remotes : Store Text) (remotePath : Text)

/-- What a download finds out before it changes anything: the name of the
    temporary file. -/
def prepareDownload (localPath : LocalPath)
    (overwrite : OverwritePolicy) (production : Bool) (store : Store LocalPath) : Except TransferError LocalPath :=
  match answers.permit with
  | some error => .error error
  | none =>
    if production && !answers.productionSlot then
      .error (.Forbidden ("生产下载并发已达 " ++ natText MAX_CONCURRENT_PRODUCTION_DOWNLOADS ++ " 个上限"))
    else if answers.cancelledAtStart then .error cancelledError
    else
      match answers.lstat with
      | .cancelled => .error cancelledError
      | .answered reply =>
        match remotes.lstat remotePath reply with
        | .error error => .error (mapSftpError "读取远程下载文件信息" error)
        | .ok metadata =>
          if !metadata.regular then .error (.InvalidConfig "下载源必须是普通文件；首个版本不下载目录或符号链接")
          else
            match if production then ensureProductionDownloadSize (givenSize metadata answers.lstatSize) else .ok () with
            | .error error => .error error
            | .ok () =>
              match localExists store answers localPath with
              | .error error => .error error
              | .ok targetExists =>
                if targetExists && overwrite = .Refuse then .error (.Forbidden "本地目标已存在；请明确确认覆盖后重试")
                else localSibling localPath answers.unique

/-- The copy and the close of an open source. -/
def transferDownload (production : Bool) (bytes : List UInt8) (temporary : LocalPath)
    (store : Store LocalPath) : Except TransferError Nat × Store LocalPath :=
  let (copied, store) := copyDownload production answers.rounds temporary bytes.length 0 bytes [] store
  match answers.close with
  | .done => (copied, store)
  | .refused error =>
    let closeError := mapSftpError "关闭远程下载文件" error
    match copied with
    | .ok _ => (.error closeError, store)
    | .error error => (.error (if closeError.isConnectionFailed then closeError else error), store)

/-- `finalize`: what was written is brought to the disk. -/
def finalizeDownload : Except TransferError Unit :=
  match answers.flush with
  | .refused error => .error (.Other ("刷新本地下载临时文件失败：" ++ error))
  | .done =>
    match answers.sync with
    | .refused error => .error (.Other ("同步本地下载临时文件失败：" ++ error))
    | .done => .ok ()

/-- `commit_local` -/
def commitLocal (store : Store LocalPath) (temporary target : LocalPath) (overwrite : OverwritePolicy) :
    Except TransferError Unit × Store LocalPath :=
  match answers.commitTask with
  | .refused error => (.error (.Other ("提交本地下载任务异常退出：" ++ error)), store)
  | .done =>
    match overwrite, answers.commit with
    | .Refuse, .refused error => (.error (.Other ("原子提交本地下载文件失败：" ++ error)), store)
    | .Refuse, .done =>
      if (store.files target).isSome then (.error (.Forbidden "本地目标已存在；未覆盖原文件"), store)
      else
        match store.files temporary with
        | none => (.error (.Other ("原子提交本地下载文件失败：" ++ noSuchLocalFile)), store)
        | some entry =>
          let store := store.put (Function.update store.files target (some entry))
          match answers.removeLink with
          | .refused error => (.error (.Other ("清理本地下载临时链接失败：" ++ error)), store)
          | .done => (.ok (), store.put (Function.update store.files temporary none))
    | .Overwrite, .refused error => (.error (.Other ("原子替换本地下载文件失败：" ++ error)), store)
    | .Overwrite, .done =>
      match store.files temporary with
      | none => (.error (.Other ("原子替换本地下载文件失败：" ++ noSuchLocalFile)), store)
      | some entry => (.ok (), store.put (Function.update (Function.update store.files temporary none) target (some entry)))

/-- A download from the open source on. -/
def finishDownload (production : Bool) (bytes : List UInt8) (temporary target : LocalPath)
    (overwrite : OverwritePolicy) (store : Store LocalPath) : Except TransferError Unit × Store LocalPath :=
  match transferDownload answers production bytes temporary store with
  | (.error error, store) => (.error error, store.cleanup temporary answers.cleanup)
  | (.ok transferred, store) =>
    if transferred ≠ bytes.length then
      (.error (.ConnectionFailed ("下载期间远程文件大小发生变化：开始时 " ++ natText bytes.length ++ " bytes，实际读取 " ++
        natText transferred ++ " bytes")), store.cleanup temporary answers.cleanup)
    else
      match finalizeDownload answers with
      | .error error => (.error error, store.cleanup temporary answers.cleanup)
      | .ok () =>
        if answers.cancelledAtEnd then (.error cancelledError, store.cleanup temporary answers.cleanup)
        else
          match commitLocal answers store temporary target overwrite with
          | (.ok (), store) => (.ok (), store)
          | (.error error, store) => (.error error, store.cleanup temporary answers.cleanup)

/-- A download from the created temporary file on. Two requests are given up
    with `?` when the cancellation comes, and the temporary file is left. -/
def openDownload (temporary target : LocalPath)
    (overwrite : OverwritePolicy) (production : Bool) (store : Store LocalPath) : Except TransferError Unit × Store LocalPath :=
  match answers.openSource with
  | .cancelled => (.error cancelledError, store)
  | .answered reply =>
    match remotes.lstat remotePath reply with
    | .error error => (.error (mapSftpError "打开远程下载文件" error), store.cleanup temporary answers.cleanup)
    | .ok source =>
      match answers.fstat with
      | .cancelled => (.error cancelledError, store)
      | .answered (.refused error) => (.error (mapSftpError "确认已打开远程下载文件" error), store.cleanup temporary answers.cleanup)
      | .answered .done =>
        if !source.regular then
          (.error (.Forbidden "远程下载源在打开时已不再是普通文件"), store.cleanup temporary answers.cleanup)
        else if !answers.fstatSize then
          (.error (.Other "远端未返回下载文件大小，无法执行有界传输"), store.cleanup temporary answers.cleanup)
        else
          match if production then ensureProductionDownloadSize (some source.bytes.length) else .ok () with
          | .error error => (.error error, store.cleanup temporary answers.cleanup)
          | .ok () => finishDownload answers production source.bytes temporary target overwrite store

/-- The whole of `download`. -/
def download (localPath : LocalPath)
    (overwrite : OverwritePolicy) (production : Bool) (store : Store LocalPath) : Except TransferError Unit × Store LocalPath :=
  match prepareDownload answers remotes remotePath localPath overwrite production store with
  | .error error => (.error error, store)
  | .ok temporary =>
    match answers.create with
    | .refused error => (.error (.Other ("创建本地下载临时文件失败：" ++ error)), store)
    | .done =>
      if (store.files temporary).isSome then
        (.error (.Other "创建本地下载临时文件失败：File exists (os error 17)"), store)
      else openDownload answers remotes remotePath temporary localPath overwrite production (store.write temporary [])

end Ramag.SshTransfer
