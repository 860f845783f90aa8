import Ramag.DataSyncGate
import Ramag.Fields
import Ramag.Programs
import Ramag.Utf8Decoding

/-!
The download of an update: the whole installer, or a patch that makes it from the
installer of the running version. The file system is a map, whose earlier values
are kept; what every request is answered, and every look at the cancellation
flag, is a parameter. So is the digest, written in hexadecimal digits.
-/
namespace Ramag.UpdateDownload
open Strings Domain Programs
open DataSyncGate (saturatingAdd)

def MAX_CHECKSUM_BYTES : Nat := 64 * 1024
def MAX_DOWNLOAD_BYTES : Nat := 512 * 1024 * 1024
def MAX_DELTA_BASE_BYTES : Nat := 128 * 1024 * 1024

/-- The errors of a download, by the variants of the source's `DomainError`. -/
inductive UpdateError
  | ConnectionFailed (message : Text)
  | Storage (message : Text)
  | NotFound (message : Text)
  | Other (message : Text)

structure ReleaseDelta where
  fromVersion : Text
  baseName : Text
  baseSize : Nat
  baseSha256 : Text
  patchName : Text
  patchSize : Nat
  patchSha256 : Text

/-- The URL of an asset is left out: what is answered does not depend on it. -/
structure ReleaseAsset where
  name : Text
  size : Nat
  sha256 : Option Text
  delta : Option ReleaseDelta

/-! ### The file system -/

abbrev Path := List Text

def join (dir : Path) (name : Text) : Path := dir ++ [name]

def parent (path : Path) : Option Path := if path = [] then none else some path.dropLast

def displayed (path : Path) : Text := path.flatMap fun name => '/' :: name

inductive Entry
  | file (bytes : List UInt8)
  | directory
  /-- A link, with the file that it leads to. -/
  | symlink (target : Option (List UInt8))
  deriving DecidableEq

abbrev Files := Path → Option Entry

/-- A map with the maps before it. -/
structure Store where
  files : Files
  past : List Files := []

variable (store : Store)

def Store.put (path : Path) (entry : Option Entry) : Store :=
  ⟨Function.update store.files path entry, store.files :: store.past⟩

/-- Every map that there was, and the one that there is. -/
def Store.moments : List Files := store.files :: store.past

@[simp] theorem Store.put_files (path : Path) (entry : Option Entry) :
    (store.put path entry).files = Function.update store.files path entry := rfl

abbrev Update (α : Type) := Prog Store UpdateError α

/-- Why a request is refused; nothing when it is granted. -/
abbrev Refusal := Option Text

def check (wrong : Bool) (error : UpdateError) : Update Unit := if wrong then Prog.fail error else pure ()

variable (refusal : Refusal) (path : Path)

def rejectSymlink : Update Unit := do
  let store ← Prog.get
  match refusal, store.files path with
  | some error, _ => Prog.fail (.Storage ("检查更新缓存路径失败 " ++ displayed path ++ "：" ++ error))
  | none, some (.symlink _) => Prog.fail (.Storage ("更新缓存路径不能是符号链接：" ++ displayed path))
  | none, _ => pure ()

/-- Links are followed. -/
def Entry.exists : Entry → Bool
  | .symlink none => false
  | _ => true

/-- The bytes of a file, behind a link or not. -/
def Entry.bytes : Entry → Option (List UInt8)
  | .file bytes => some bytes
  | .directory => none
  | .symlink target => target

def pathExists : Update Bool := do
  let store ← Prog.get
  match refusal with
  | some error => Prog.fail (.Storage ("检查更新缓存路径失败 " ++ displayed path ++ "：" ++ error))
  | none => pure ((store.files path).any Entry.exists)

def noSuchFile : Text := "No such file or directory (os error 2)"
def isADirectory : Text := "Is a directory (os error 21)"
def fileExists : Text := "File exists (os error 17)"

def removeFile (context : Text → UpdateError) : Update Unit := do
  let store ← Prog.get
  match refusal, store.files path with
  | some error, _ => Prog.fail (context error)
  | none, none => Prog.fail (context noSuchFile)
  | none, some .directory => Prog.fail (context isADirectory)
  | none, some _ => Prog.modify fun store => store.put path none

/-- A file that is there is removed. -/
def removeExisting (existsRefusal removeRefusal : Refusal) (path : Path) (context : Text → UpdateError) : Update Unit := do
  if ← pathExists existsRefusal path then removeFile removeRefusal path context

/-- A removal that is only logged when it fails. -/
def cleanup : Update Unit := do
  let _ ← (removeFile refusal path .Other).attempt
  pure ()

def createNew (context : Text → UpdateError) : Update Unit := do
  let store ← Prog.get
  match refusal, store.files path with
  | some error, _ => Prog.fail (context error)
  | none, some _ => Prog.fail (context fileExists)
  | none, none => Prog.modify fun store => store.put path (some (.file []))

/-- What an open file holds. -/
def Store.held : List UInt8 := ((store.files path).bind Entry.bytes).getD []

def append (bytes : List UInt8) : Update Unit :=
  Prog.modify fun store => store.put path (some (.file (store.held path ++ bytes)))

def rename (old new : Path) (context : Text → UpdateError) : Update Unit := do
  let store ← Prog.get
  match refusal, store.files old with
  | some error, _ => Prog.fail (context error)
  | none, none => Prog.fail (context noSuchFile)
  | none, some entry =>
    if store.files new = some .directory then Prog.fail (context isADirectory)
    else Prog.modify fun store => ⟨Function.update (Function.update store.files old none) new (some entry), store.files :: store.past⟩

/-- The folder with every folder that it is in. -/
def makeFolders (dir : Path) (files : Files) : Files := fun path => if path <+: dir ∧ files path = none then some .directory else files path

structure FolderAnswers where
  parentLink : Refusal := none
  create : Refusal := none
  parentLinkAgain : Refusal := none
  folderLink : Refusal := none

def createDirAll (dir : Path) : Update Unit :=
  match refusal with
  | some error => Prog.fail (.Storage ("创建更新缓存目录失败 " ++ displayed dir ++ "：" ++ error))
  | none => Prog.modify fun store => ⟨makeFolders dir store.files, store.files :: store.past⟩

def prepareCacheDir (answers : FolderAnswers) (cacheDir : Path) : Update Unit :=
  match parent cacheDir with
  | none => Prog.fail (.Storage "更新缓存目录缺少父目录")
  | some cacheParent => do
    rejectSymlink answers.parentLink cacheParent
    createDirAll answers.create cacheDir
    rejectSymlink answers.parentLinkAgain cacheParent
    rejectSymlink answers.folderLink cacheDir

structure VerifyAnswers where
  metadata : Refusal := none
  opened : Refusal := none
  read : Refusal := none

variable (sha256 : List UInt8 → Text)

def verifyFile (answers : VerifyAnswers) (path : Path) (expectedSize : Nat) (expectedHash : Text) : Update Bool := do
  let store ← Prog.get
  let failed (context : String) (error : Text) : UpdateError := .Storage (context.toList ++ displayed path ++ "：" ++ error)
  match answers.metadata, store.files path with
  | some error, _ => Prog.fail (failed "读取更新缓存信息失败 " error)
  | none, none => Prog.fail (failed "读取更新缓存信息失败 " noSuchFile)
  | none, some entry =>
    match entry.bytes with
    | none => pure false
    | some bytes =>
      if bytes.length ≠ expectedSize then pure false
      else
        match answers.opened, answers.read with
        | some error, _ => Prog.fail (failed "读取更新缓存失败 " error)
        | none, some error => Prog.fail (failed "校验更新缓存失败 " error)
        | none, none => pure (decide (sha256 bytes = expectedHash))

structure RequestError where
  isTimeout : Bool
  text : Text

def requestError (operation : Text) (error : RequestError) : UpdateError :=
  if error.isTimeout then .ConnectionFailed (operation ++ "超时")
  else .ConnectionFailed (operation ++ "失败：" ++ error.text)

/-- What comes of a wait of at most thirty seconds. -/
inductive Waited (α : Type)
  | idle
  | failed (error : RequestError)
  | came (value : α)

/-- A response, with the URL that the redirects led to. -/
structure Response where
  status : Nat
  /-- The status with its reason, as it is displayed. -/
  statusText : Text
  scheme : Text
  host : Option Text
  contentLength : Option Nat

variable (response : Response)

def isAllowedHttpUrl : Bool :=
  if response.scheme ≠ "https".toList then false
  else response.host = some "github.com".toList || response.host.any fun host => ".githubusercontent.com".toList.isSuffixOf host

def ensureSuccess (operation : Text) : Except UpdateError Unit :=
  if 200 ≤ response.status ∧ response.status < 300 then .ok ()
  else if response.status = 404 then .error (.ConnectionFailed (operation ++ "失败：没有已发布的稳定版本"))
  else if response.status = 403 ∨ response.status = 429 then
    .error (.ConnectionFailed (operation ++ "失败：GitHub 请求频率受限，请稍后重试"))
  else .error (.ConnectionFailed (operation ++ "失败：GitHub 返回 HTTP " ++ response.statusText))

/-- The loop of `bounded_response_body`; the response ends with the list. -/
def boundedBody (operation : Text) (maxBytes : Nat) : List (Waited (List UInt8)) → List UInt8 → Except UpdateError (List UInt8)
  | [], body => .ok body
  | .idle :: _, _ => .error (.ConnectionFailed (operation ++ "超过 30 秒无数据"))
  | .failed error :: _, _ => .error (requestError operation error)
  | .came chunk :: chunks, body =>
    if saturatingAdd body.length chunk.length > maxBytes then
      .error (.ConnectionFailed (operation ++ "响应超过 " ++ natText maxBytes ++ " bytes 上限"))
    else boundedBody operation maxBytes chunks (body ++ chunk)

def boundedResponseBody (chunks : List (Waited (List UInt8))) (operation : Text) (maxBytes : Nat) :
    Except UpdateError (List UInt8) := do
  ensureSuccess response operation
  if response.contentLength.any (maxBytes < ·) then
    .error (.ConnectionFailed (operation ++ "响应超过 " ++ natText maxBytes ++ " bytes 上限"))
  else boundedBody operation maxBytes chunks []

def isAsciiHexdigit (c : Char) : Bool := c.isDigit || ('a' ≤ c && c ≤ 'f') || ('A' ≤ c && c ≤ 'F')

def validateSha256 (value : Text) : Except UpdateError Unit :=
  if byteLen value = 64 && value.all isAsciiHexdigit then .ok () else .error (.Other "更新 SHA-256 格式无效")

/-- The loop of `parse_checksum`. The carriage return that a line may end with
    is whitespace between its fields. -/
def findChecksum (assetName : Text) : List Text → Except UpdateError Text
  | [] => .error (.NotFound ("校验清单中缺少安装包：" ++ assetName))
  | line :: lines =>
    match Fields.splitWhitespace line with
    | [hash, name] =>
      if name.dropWhile (· = '*') = assetName then do
        validateSha256 hash
        pure (toAsciiLowercase hash)
      else findChecksum assetName lines
    | _ => findChecksum assetName lines

def parseChecksum (body : List UInt8) (assetName : Text) : Except UpdateError Text :=
  match Utf8Decoding.decode body with
  | none => .error (.Other ("更新校验清单不是 UTF-8：" ++ Utf8Decoding.utf8Error body))
  | some text => findChecksum assetName (Fields.splitTerminator '\n' text)

/-- What a write comes to. One that fails, or that the time limit ends, leaves
    any bytes in the file. -/
inductive WriteAnswer
  | written
  | failed (error : Text) (left : List UInt8)
  | expired (left : List UInt8)

/-- One round of the loop of `download_to_partial`. -/
structure Round where
  /-- The next bytes; nothing when the time limit ends the wait. -/
  chunk : Option (Waited (List UInt8))
  cancelled : Bool := false
  write : WriteAnswer := .written

structure DownloadAnswers where
  cancelledAtStart : Bool := false
  checksum : Waited Response := .idle
  checksumBody : List (Waited (List UInt8)) := []
  folder : FolderAnswers := {}
  destinationLink : Refusal := none
  partialLink : Refusal := none
  destinationExists : Refusal := none
  cached : VerifyAnswers := {}
  removeDestination : Refusal := none
  partialExists : Refusal := none
  removePartial : Refusal := none
  cancelledBeforeRequest : Bool := false
  /-- The response; nothing when the time limit ends the wait. -/
  response : Option (Waited Response)
  create : Refusal := none
  /-- The time limit ends the wait for the new file, which may be there. -/
  createExpired : Bool := false
  rounds : List Round := []
  sync : Refusal := none
  syncExpired : Bool := false
  cancelledAtEnd : Bool := false
  cleanup : Refusal := none
  commit : Refusal := none

def cancelledError : UpdateError := .Other "更新下载已取消"
def expiredError : UpdateError := .ConnectionFailed "安装包下载超过 30 分钟上限"

variable (answers : DownloadAnswers)

def fetchChecksum (assetName : Text) : Except UpdateError Text :=
  match answers.checksum with
  | .idle => .error (.ConnectionFailed "等待更新校验清单超过 30 秒")
  | .failed error => .error (requestError "读取更新校验清单" error)
  | .came response => do
    let body ← boundedResponseBody response answers.checksumBody "读取更新校验清单" MAX_CHECKSUM_BYTES
    parseChecksum body assetName

variable (asset : ReleaseAsset)

def expectedHash : Except UpdateError Text :=
  match asset.sha256 with
  | some hash => .ok hash
  | none => fetchChecksum answers asset.name

def writeAll (answer : WriteAnswer) (path : Path) (chunk : List UInt8) : Update Unit :=
  match answer with
  | .written => append path chunk
  | .failed error left => do
    Prog.modify fun store => store.put path (some (.file left))
    Prog.fail (.Storage ("写入更新临时文件失败 " ++ displayed path ++ "：" ++ error))
  | .expired left => do
    Prog.modify fun store => store.put path (some (.file left))
    Prog.fail expiredError

/-- The loop of `download_to_partial`: how many bytes came, and what was hashed.
    The response ends with the list. -/
def downloadRounds (size : Nat) (partialPath : Path) : List Round → Nat → List UInt8 → Update (Nat × List UInt8)
  | [], downloaded, hashed => pure (downloaded, hashed)
  | round :: rounds, downloaded, hashed =>
    match round.chunk with
    | none => Prog.fail expiredError
    | some .idle => Prog.fail (.ConnectionFailed "读取安装包超过 30 秒无数据")
    | some (.failed error) => Prog.fail (requestError "读取安装包" error)
    | some (.came chunk) => do
      check round.cancelled cancelledError
      let downloaded := saturatingAdd downloaded chunk.length
      check (downloaded > size || downloaded > MAX_DOWNLOAD_BYTES) (.ConnectionFailed "安装包实际大小超过发布元数据")
      writeAll round.write partialPath chunk
      downloadRounds size partialPath rounds downloaded (hashed ++ chunk)

/-- The checks of `download_to_partial` on the response. -/
def receiveResponse (size : Nat) : Except UpdateError Unit :=
  match answers.response with
  | none => .error expiredError
  | some .idle => .error (.ConnectionFailed "等待安装包响应超过 30 秒")
  | some (.failed error) => .error (requestError "下载安装包" error)
  | some (.came response) => do
    ensureSuccess response "下载安装包"
    if !isAllowedHttpUrl response then .error (.ConnectionFailed "安装包下载跳转到了不受信任的地址")
    else
      match response.contentLength with
      | none => .ok ()
      | some length =>
        if length ≠ size then
          .error (.ConnectionFailed ("安装包响应大小不匹配：期望 " ++ natText size ++ " bytes，实际 " ++ natText length ++ " bytes"))
        else .ok ()

/-- `download_to_partial` under its time limit of thirty minutes, which may end
    it wherever it waits. -/
def downloadToPartial (partialPath : Path) (expectedHash : Text) : Update Unit := do
  check answers.cancelledBeforeRequest cancelledError
  Prog.lift (receiveResponse answers asset.size)
  createNew answers.create partialPath fun error => .Storage ("创建更新临时文件失败 " ++ displayed partialPath ++ "：" ++ error)
  check answers.createExpired expiredError
  let (downloaded, hashed) ← downloadRounds asset.size partialPath answers.rounds 0 []
  check (downloaded ≠ asset.size) (.ConnectionFailed ("安装包下载不完整：期望 " ++ natText asset.size ++ " bytes，实际 " ++
    natText downloaded ++ " bytes"))
  check (sha256 hashed ≠ expectedHash) (.ConnectionFailed ("安装包 SHA-256 校验失败：期望 " ++ expectedHash ++ "，实际 " ++ sha256 hashed))
  check answers.syncExpired expiredError
  Prog.lift (match answers.sync with
    | some error => .error (.Storage ("同步更新临时文件失败 " ++ displayed partialPath ++ "：" ++ error))
    | none => .ok ())

/-- Whether the file under the destination name is the asset; any other is
    removed. -/
def takeCached (destination : Path) (expectedHash : Text) : Update Bool := do
  if ← pathExists answers.destinationExists destination then
    if ← verifyFile sha256 answers.cached destination asset.size expectedHash then pure true
    else do
      removeFile answers.removeDestination destination fun error => .Storage ("清理无效更新缓存失败 " ++ displayed destination ++ "：" ++ error)
      pure false
  else pure false

/-- The download into the partial file, and its commit. -/
def downloadAnew (destination partialPath : Path) (expectedHash : Text) :
    Update Path := do
  removeExisting answers.partialExists answers.removePartial partialPath fun error =>
    .Storage ("清理更新临时文件失败 " ++ displayed partialPath ++ "：" ++ error)
  let result ← (downloadToPartial sha256 answers asset partialPath expectedHash).attempt
  match result.bind fun () => if answers.cancelledAtEnd then .error cancelledError else .ok () with
  | .error error => do
    cleanup answers.cleanup partialPath
    Prog.fail error
  | .ok () => do
    rename answers.commit partialPath destination fun error => .Storage ("提交已校验更新文件失败 " ++ displayed destination ++ "：" ++ error)
    pure destination

variable (cacheDir : Path)

def partialOf (name : Text) : Path := join cacheDir (name ++ ".part")

def downloadVerifiedAsset : Update Path := do
  check answers.cancelledAtStart cancelledError
  let expectedHash ← Prog.lift (expectedHash answers asset)
  prepareCacheDir answers.folder cacheDir
  let destination := join cacheDir asset.name
  let partialPath := partialOf cacheDir asset.name
  rejectSymlink answers.destinationLink destination
  rejectSymlink answers.partialLink partialPath
  if ← takeCached sha256 answers asset destination expectedHash then pure destination
  else downloadAnew sha256 answers asset destination partialPath expectedHash

/-- One call of the writer by the patcher. -/
structure Attempt where
  bytes : List UInt8
  cancelled : Bool := false
  /-- How many bytes the file takes, or why it takes none. -/
  answer : Except Text Nat

structure DeltaAnswers where
  cancelledAtStart : Bool := false
  folder : FolderAnswers := {}
  destinationLink : Refusal := none
  destinationExists : Refusal := none
  cached : VerifyAnswers := {}
  updatesLink : Refusal := none
  baseFolderLink : Refusal := none
  baseLink : Refusal := none
  baseExists : Refusal := none
  base : VerifyAnswers := {}
  patch : DownloadAnswers
  partialLink : Refusal := none
  partialExists : Refusal := none
  removePartial : Refusal := none
  readBase : Refusal := none
  readPatch : Refusal := none
  /-- The size of the target that the patch names, or why it is no patch. -/
  patcher : Except Text Nat
  create : Refusal := none
  /-- What the patcher writes. -/
  attempts : List Attempt := []
  /-- How the patcher ends. It may go on behind a write that failed. -/
  applied : Refusal := none
  sync : Refusal := none
  joined : Refusal := none
  cancelledAtEnd : Bool := false
  cleanup : Refusal := none
  destinationExistsAgain : Refusal := none
  removeDestination : Refusal := none
  commit : Refusal := none

def deltaError (error : Text) : UpdateError := .Other ("安装包差分处理失败：" ++ error)

/-- `VerifiedOutput`, whose file is in the store. -/
structure VerifiedOutput where
  hashed : List UInt8
  remaining : Nat

/-- `VerifiedOutput::write`; one that fails changes nothing. -/
def VerifiedOutput.write (writer : VerifiedOutput) (output : Path) (attempt : Attempt) : Update VerifiedOutput :=
  if attempt.cancelled then pure writer
  else if attempt.bytes.length > writer.remaining then pure writer
  else
    match attempt.answer with
    | .error _ => pure writer
    | .ok count => do
      append output (attempt.bytes.take count)
      pure ⟨writer.hashed ++ attempt.bytes.take count, writer.remaining - (attempt.bytes.take count).length⟩

def writeAttempts (output : Path) : List Attempt → VerifiedOutput → Update VerifiedOutput
  | [], writer => pure writer
  | attempt :: attempts, writer => do
    let writer ← writer.write output attempt
    writeAttempts output attempts writer

def readBounded (refusal : Refusal) (path : Path) : Update (List UInt8) := do
  let store ← Prog.get
  match refusal, (store.files path).bind Entry.bytes with
  | some error, _ => Prog.fail (deltaError error)
  | none, none => Prog.fail (deltaError noSuchFile)
  | none, some bytes => if bytes.length > MAX_DELTA_BASE_BYTES then Prog.fail (.Other "增量输入超过内存预算") else pure bytes

def reconstruct (answers : DeltaAnswers) (base patch output : Path) (asset : ReleaseAsset) (delta : ReleaseDelta) : Update Unit := do
  let source ← readBounded answers.readBase base
  let patchBytes ← readBounded answers.readPatch patch
  check (sha256 source ≠ delta.baseSha256 || sha256 patchBytes ≠ delta.patchSha256) (.Other "增量输入校验失败")
  let targetSize ← Prog.lift (answers.patcher.mapError deltaError)
  check (targetSize ≠ asset.size) (.Other "增量目标大小与完整安装包不一致")
  createNew answers.create output deltaError
  let writer ← writeAttempts output answers.attempts ⟨[], asset.size⟩
  Prog.lift (match answers.applied with
    | some error => .error (deltaError error)
    | none => .ok ())
  check (writer.remaining ≠ 0 || asset.sha256 ≠ some (sha256 writer.hashed)) (.Other "增量重建安装包 SHA-256 校验失败")
  Prog.lift (match answers.sync with
    | some error => .error (deltaError error)
    | none => .ok ())

/-- What the caller gets from the worker, which may end without a result. -/
def workerResult (joined : Refusal) (result : Except UpdateError Unit) : Except UpdateError Unit :=
  match joined with
  | some error => .error (.Other ("增量重建任务失败：" ++ error))
  | none => result

/-- The reconstruction in its worker, and its commit. -/
def reconstructInto (answers : DeltaAnswers) (base patch destination partialPath : Path) (asset : ReleaseAsset) (delta : ReleaseDelta) :
    Update Path := do
  let result ← (reconstruct sha256 answers base patch partialPath asset delta).attempt
  match (workerResult answers.joined result).bind fun () => if answers.cancelledAtEnd then .error cancelledError else .ok () with
  | .error error => do
    cleanup answers.cleanup partialPath
    Prog.fail error
  | .ok () => do
    removeExisting answers.destinationExistsAgain answers.removeDestination destination fun error => .Storage ("清理旧更新缓存失败：" ++ error)
    rename answers.commit partialPath destination fun error => .Storage ("保存增量安装包失败：" ++ error)
    pure destination

def patchAsset (delta : ReleaseDelta) : ReleaseAsset := ⟨delta.patchName, delta.patchSize, some delta.patchSha256, none⟩

def deltaPartialOf (name : Text) : Path := join cacheDir (name ++ ".delta-part")

/-- The patch is downloaded and used. -/
def patchBase (answers : DeltaAnswers) (asset : ReleaseAsset) (delta : ReleaseDelta) (cacheDir base : Path) : Update Path := do
  let patch ← downloadVerifiedAsset sha256 answers.patch (patchAsset delta) cacheDir
  let partialPath := deltaPartialOf cacheDir asset.name
  rejectSymlink answers.partialLink partialPath
  removeExisting answers.partialExists answers.removePartial partialPath fun error => .Storage ("清理差分临时文件失败：" ++ error)
  reconstructInto sha256 answers base patch (join cacheDir asset.name) partialPath asset delta

/-- Whether the installer of the running version is there. -/
def baseReady (answers : DeltaAnswers) (delta : ReleaseDelta) (updates : Path) : Update Bool := do
  let baseDir := join updates delta.fromVersion
  let base := join baseDir delta.baseName
  rejectSymlink answers.updatesLink updates
  rejectSymlink answers.baseFolderLink baseDir
  rejectSymlink answers.baseLink base
  if ← pathExists answers.baseExists base then verifyFile sha256 answers.base base delta.baseSize delta.baseSha256
  else pure false

/-- Whether the destination is the installer already. -/
def alreadyThere (answers : DeltaAnswers) (asset : ReleaseAsset) (destination : Path) (expectedHash : Text) : Update Bool := do
  rejectSymlink answers.destinationLink destination
  if ← pathExists answers.destinationExists destination then
    verifyFile sha256 answers.cached destination asset.size expectedHash
  else pure false

def tryDelta (answers : DeltaAnswers) (asset : ReleaseAsset) (currentVersion : Text) (cacheDir : Path) : Update (Option Path) :=
  match asset.delta with
  | none => pure none
  | some delta => do
    check answers.cancelledAtStart cancelledError
    if delta.fromVersion ≠ currentVersion then pure none
    else
      match asset.sha256 with
      | none => pure none
      | some expectedHash => do
        prepareCacheDir answers.folder cacheDir
        if ← alreadyThere sha256 answers asset (join cacheDir asset.name) expectedHash then pure (some (join cacheDir asset.name))
        else
          match parent cacheDir with
          | none => Prog.fail (.Storage "更新缓存目录缺少父目录")
          | some updates => do
            if ← baseReady sha256 answers delta updates then
              let path ← patchBase sha256 answers asset delta cacheDir (join (join updates delta.fromVersion) delta.baseName)
              pure (some path)
            else pure none

structure UpdateAnswers where
  delta : DeltaAnswers
  /-- The flag is set when the patch has failed. -/
  cancelled : Bool := false
  full : DownloadAnswers

def downloadWithDelta (answers : UpdateAnswers) (asset : ReleaseAsset) (currentVersion : Text) (cacheDir : Path) : Update Path := do
  match ← (tryDelta sha256 answers.delta asset currentVersion cacheDir).attempt with
  | .ok (some path) => pure path
  | .ok none => downloadVerifiedAsset sha256 answers.full asset cacheDir
  | .error error => if answers.cancelled then Prog.fail error else downloadVerifiedAsset sha256 answers.full asset cacheDir

end Ramag.UpdateDownload
