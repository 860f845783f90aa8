import Ramag.ApiHistory

/-!
The clipboard history as the service keeps it: the stored items with the index
of their hashes, the media files, and the deletions that can still be taken
back. Captures, touches, deletions, restores, the end of a deletion, the sweep
of orphaned files and clearing all happen one at a time, under one lock; only
the listing for the sweep is read before.
-/
namespace Ramag.ClipboardService
open Strings Domain Fields ClipFilter OrderedTables ClipStore
open DataSyncGate (saturatingAdd)
open ApiHistory (displayError)

def MAX_IMAGE_DIMENSION : Nat := 16384
def MAX_IMAGE_PIXELS : Nat := 64 * 1024 * 1024
def MAX_ORPHAN_REMOVALS_PER_RUN : Nat := 10000
def MAX_URL_BYTES : Nat := 16 * 1024
def MAX_PREVIEW_CHARS : Nat := 120
def U64_VALUES : Nat := 2 ^ 64

abbrev Bytes := List UInt8

inductive ClipKind | Text | Link | Color | Image | Files
  deriving DecidableEq

structure ClipSource where
  bundleId : Text
  name : Text
  deriving DecidableEq

/-- A stored item: what the tables of the history read of it, and the rest. -/
structure Clip extends ClipItem where
  kind : ClipKind
  imageDims : Option (Nat × Nat)
  source : Option ClipSource
  byteSize : Nat
  createdAt : DateTime
  deriving DecidableEq

/-- The media files of an item. -/
def Clip.media (item : Clip) : List Text := item.imagePath.toList ++ item.thumbPath.toList

structure ClipboardSettings where
  enabled : Bool
  captureImages : Bool
  maxItemBytes : Nat

/-- What was read from the clipboard. -/
structure CapturedClip where
  text : Option Text
  rtf : Option Bytes
  imagePng : Option Bytes
  imageDims : Option (Nat × Nat)
  files : List Text
  concealed : Bool

/-- The content that a fingerprint is taken of. -/
inductive Payload
  | files (paths : List Text)
  | image (png : Bytes)
  | text (content : Text)

/-- What the service takes from others: the fingerprint of a content and the one of the content read backwards,
    where media files are kept, the thumbnail of an image, and the last part of a path. -/
structure Platform where
  hash : Payload → Text
  reverseHash : Payload → Text
  dir : Text
  makeThumbnail : Bytes → Option Bytes
  fileName : Text → Option Text

def isSafeHttpUrl (value : Text) : Bool :=
  let value := trim value
  if byteLen value > MAX_URL_BYTES || value.any (fun c => isWhitespace c || isControl c) then false
  else
    let lower := toAsciiLowercase value
    ("http://".toList.isPrefixOf lower || "https://".toList.isPrefixOf lower) && decide (byteLen value > 10)

def isColor (t : Text) : Bool :=
  match stripPrefix ['#'] t with
  | some hex => [3, 4, 6, 8].contains (byteLen hex) && hex.all fun c => (hexValue c).isSome
  | none =>
    let lower := toAsciiLowercase t
    ["rgb(", "rgba(", "hsl(", "hsla("].any fun start => start.toList.isPrefixOf lower && [')'].isSuffixOf lower

def classifyText (s : Text) : ClipKind :=
  let t := trim s
  if isSafeHttpUrl t then .Link else if isColor t then .Color else .Text

/-- The length of the paths, and of a line break between any two. -/
def filePayloadLen (files : List Text) : Nat :=
  files.foldl (fun total path => saturatingAdd total (byteLen path)) (files.length - 1)

inductive CaptureDecision
  | Skip (reason : Text)
  | Record (hash : Text) (kind : ClipKind)

variable (p : Platform) (captured : CapturedClip)

def decideCapture (settings : ClipboardSettings) : CaptureDecision :=
  if captured.concealed then .Skip "concealed"
  else if !captured.files.isEmpty then
    if filePayloadLen captured.files > settings.maxItemBytes then .Skip "files too large"
    else .Record (p.hash (.files captured.files)) .Files
  else
    match captured.imagePng with
    | some png =>
      if png.length > settings.maxItemBytes then .Skip "image too large"
      else
        match captured.imageDims with
        | none => .Skip "invalid image"
        | some (width, height) =>
          if width = 0 ∨ height = 0 ∨ width > MAX_IMAGE_DIMENSION ∨ height > MAX_IMAGE_DIMENSION ∨
              width * height > MAX_IMAGE_PIXELS then .Skip "image dimensions too large"
          else if !settings.captureImages then .Skip "image capture disabled"
          else .Record (p.hash (.image png)) .Image
    | none =>
      match captured.text with
      | some text =>
        if (trim text).isEmpty then .Skip "empty text"
        else if byteLen text + (captured.rtf.map List.length).getD 0 > settings.maxItemBytes then
          .Skip "text too large"
        else .Record (p.hash (.text text)) (classifyText text)
      | none => .Skip "empty"

/-- The content that counts, files before an image before a text. -/
def CapturedClip.payload : Option Payload :=
  if !captured.files.isEmpty then some (.files captured.files)
  else (captured.imagePng.map .image).or (captured.text.map .text)

/-- A second fingerprint for a content whose first one stands for another. -/
def collisionHash (primary : Text) : Text :=
  primary ++ '-' :: p.reverseHash (captured.payload.getD (.text []))

def inlinePayloadMatches (existing : Clip) (captured : CapturedClip) : ClipKind → Bool
  | .Files => existing.files == captured.files
  | .Text | .Link | .Color => existing.text == captured.text
  | .Image => false

def firstLine (t : Text) : Text :=
  let line := t.takeWhile (· ≠ '\n')
  if '\n' ∈ t ∧ ['\r'].isSuffixOf line then line.dropLast else line

def makePreview (kind : ClipKind) (text : Option Text) (files : List Text) (dims : Option (Nat × Nat)) : Text :=
  let fileName := fun path => (p.fileName path).getD path
  match kind with
  | .Image =>
    match dims with
    | some (w, h) => "图片 " ++ natText w ++ '×' :: natText h
    | none => "图片"
  | .Files =>
    match files with
    | [] => "文件"
    | [one] => fileName one
    | first :: _ => fileName first ++ " 等 " ++ natText files.length ++ " 个文件"
  | _ =>
    let line := firstLine (trim (text.getD []))
    if line.length > MAX_PREVIEW_CHARS then line.take MAX_PREVIEW_CHARS ++ ['…'] else line

/-- A deletion that can still be taken back: its token, and the files that go when it is over. -/
structure PendingMediaDelete where
  token : Nat
  paths : List Text

/-- The items under their ids, the ids under the hashes, the media files with what they unseal to, and the
    pending deletions under the ids of their items. -/
structure Service where
  clips : Table Text Clip
  byHash : Table Text Text
  media : Table Text Bytes
  pending : Table Text PendingMediaDelete
  nextToken : Nat

def Service.empty : Service := ⟨.empty, .empty, .empty, .empty, 0⟩

/-- How a file write ends. A write that fails may still leave the file. -/
inductive Written | done | failed (left : Bool)

/-- What goes wrong outside the service: reading from the store, writing to it or to the clipboard, and writing media
    files; and the media files that cannot be read or removed. -/
structure Faults where
  error : DomainError
  find : Bool
  save : Bool
  write : Bool
  unreadable : List Text
  image : Written
  thumb : Written
  stuck : List Text

variable (s : Service) (id : Text) (paths : List Text) (faults : Faults) (item : Clip) (path : Text)

namespace Service

def clipSave : Service :=
  let byHash :=
    match s.clips.get item.id.text with
    | some old => if old.contentHash ≠ item.contentHash then removeHashIfOwned s.byHash old.contentHash item.id.text else s.byHash
    | none => s.byHash
  { s with clips := s.clips.insert item.id.text item, byHash := byHash.insert item.contentHash item.id.text }

def clipDelete : Service :=
  match s.clips.get id with
  | some old => { s with clips := s.clips.remove id, byHash := removeHashIfOwned s.byHash old.contentHash id }
  | none => s

/-- The transaction of a pruning, which an item that is not there undoes. -/
def clipRemoveDoomed (s : Service) : List Text → Option Service
  | [] => some s
  | id :: doomed => if (s.clips.get id).isSome then clipRemoveDoomed (s.clipDelete id) doomed else none

def clipFindByHash (hash : Text) (faults : Faults) : Result (Option Clip) :=
  if faults.find then .error faults.error
  else
    match s.byHash.get hash with
    | none => .ok none
    | some id =>
      match s.clips.get id with
      | some item => .ok (some item)
      | none => .error (.Storage ("剪贴哈希索引 " ++ hash ++ " 指向缺失条目 " ++ id))

def clipMediaPaths : List Text := s.clips.entries.flatMap fun entry => entry.2.media

/-- A file that is there is kept as it is. -/
def putMedia (content : Bytes) : Service :=
  if (s.media.get path).isSome then s else { s with media := s.media.insert path content }

/-- Whether the file was written. -/
def persistMedia (content : Bytes) : Written → Bool × Service
  | .done => (true, s.putMedia path content)
  | .failed left => (false, if left then s.putMedia path content else s)

def removeMedia (faults : Faults) : Service :=
  if path ∈ faults.stuck then s else { s with media := s.media.remove path }

def cleanupMedia : Service :=
  paths.foldl (fun s path => s.removeMedia path faults) s

def loadImage (faults : Faults) : Result (Option Bytes) :=
  match item.imagePath with
  | none => .ok none
  | some path =>
    if path ∈ faults.unreadable then .error faults.error
    else
      match s.media.get path with
      | some content => .ok (some content)
      | none => .error faults.error

def stage : Nat × Service :=
  let token := (s.nextToken + 1) % U64_VALUES
  (token, { s with nextToken := token, pending := s.pending.insert id ⟨token, paths⟩ })

def takeForRestore : Option PendingMediaDelete × Service :=
  (s.pending.get id, { s with pending := s.pending.remove id })

def putBack (pending : PendingMediaDelete) : Service :=
  if (s.pending.get id).isSome then s else { s with pending := s.pending.insert id pending }

/-- The files of a deletion that is over, unless another deletion of the item is pending. -/
def expire (token : Nat) : Option (List Text) × Service :=
  match s.pending.get id with
  | some pending => if pending.token ≠ token then (none, s) else (some pending.paths, { s with pending := s.pending.remove id })
  | none => (none, s)

def containsPath : Bool := s.pending.entries.any fun entry => decide (path ∈ entry.2.paths)

/-- Files of a stored item are taken off the pending deletions. -/
def protectPaths : Service :=
  { s with pending := s.pending.map fun pending => ⟨pending.token, pending.paths.filter (· ∉ paths)⟩ }

def unprotectedStagedMedia : List Text := paths.filter fun path => !s.containsPath path

def protectItemMedia : Service := s.protectPaths item.media

/-! ### Recording -/

def payloadMatches (existing : Clip) (captured : CapturedClip) (kind : ClipKind) (faults : Faults) : Bool :=
  if existing.kind ≠ kind then false
  else if kind ≠ .Image then inlinePayloadMatches existing captured kind
  else
    match captured.imagePng with
    | none => false
    | some expected =>
      if existing.byteSize ≠ expected.length ∨ existing.imageDims ≠ captured.imageDims then false
      else
        match s.loadImage existing faults with
        | .ok (some actual) => actual == expected
        | .ok none => false
        | .error _ => false

/-- The stored item that a captured content is counted to, or the fingerprint of a new one. -/
def resolve (s : Service) (captured : CapturedClip) (kind : ClipKind) (hash : Text) (faults : Faults) : Result (Clip ⊕ Text) :=
  match s.clipFindByHash hash faults with
  | .error error => .error error
  | .ok none => .ok (.inr hash)
  | .ok (some existing) =>
    if s.payloadMatches existing captured kind faults then .ok (.inl existing)
    else
      let contentHash := collisionHash p captured hash
      match s.clipFindByHash contentHash faults with
      | .error error => .error error
      | .ok none => .ok (.inr contentHash)
      | .ok (some existing) => if s.payloadMatches existing captured kind faults then .ok (.inl existing) else .ok (.inr contentHash)

def imageFile (hash : Text) : Text := p.dir ++ '/' :: hash ++ ".img"

def thumbFile (hash : Text) : Text := p.dir ++ '/' :: hash ++ ".thumb"

/-- Writes the image and its thumbnail, or neither is left behind. An image that cannot be decoded is ignored. -/
def stageMedia (s : Service) (captured : CapturedClip) (contentHash : Text) (settings : ClipboardSettings)
    (faults : Faults) : Result (Option (Option Text × Option Text)) × Service :=
  match captured.imagePng, settings.captureImages with
  | some png, true =>
    match p.makeThumbnail png with
    | none => (.ok none, s)
    | some thumb =>
      let full := imageFile p contentHash
      match s.persistMedia full png faults.image with
      | (false, s) => (.error faults.error, s)
      | (true, s) =>
        match s.persistMedia (thumbFile p contentHash) thumb faults.thumb with
        | (false, s) => (.error faults.error, s.cleanupMedia (s.unprotectedStagedMedia [full]) faults)
        | (true, s) => (.ok (some (some full, some (thumbFile p contentHash))), s)
  | _, _ => (.ok (some (none, none)), s)

def byteSizeOf : Nat :=
  match captured.imagePng, captured.text with
  | some png, _ => png.length
  | none, some text => byteLen text + (captured.rtf.map List.length).getD 0
  | none, none => (captured.files.map byteLen).sum

def prune (doomed : List Text) (faults : Faults) : Service :=
  match s.clipRemoveDoomed doomed with
  | none => s
  | some pruned => pruned.cleanupMedia (doomed.flatMap fun id => ((s.clips.get id).map Clip.media).getD []) faults

end Service

/-- What a capture is given besides the content: the settings, the source, the id of a new item, the time, and the items
    that the store then takes out as too many or too old. -/
structure CaptureTick where
  settings : ClipboardSettings
  source : Option ClipSource
  id : ClipId
  now : DateTime
  doomed : List Text

namespace Service

def newItem (kind : ClipKind) (contentHash : Text) (tick : CaptureTick) (paths : Option Text × Option Text) : Clip where
  id := tick.id
  text := captured.text
  rtf := captured.rtf
  imagePath := paths.1
  thumbPath := paths.2
  files := captured.files
  preview := makePreview p kind captured.text captured.files captured.imageDims
  contentHash := contentHash
  lastUsedAt := tick.now
  kind := kind
  imageDims := captured.imageDims
  source := tick.source
  byteSize := byteSizeOf captured
  createdAt := tick.now

def recordNew (s : Service) (captured : CapturedClip) (kind : ClipKind) (contentHash : Text)
    (tick : CaptureTick) (faults : Faults) : Result Bool × Service :=
  match s.stageMedia p captured contentHash tick.settings faults with
  | (.error error, s) => (.error error, s)
  | (.ok none, s) => (.ok false, s)
  | (.ok (some paths), s) =>
    let item := newItem p captured kind contentHash tick paths
    if faults.save then (.error faults.error, s.cleanupMedia (s.unprotectedStagedMedia item.media) faults)
    else (.ok true, ((s.clipSave item).protectItemMedia item).prune tick.doomed faults)

def touchFound (existing : Clip) (tick : CaptureTick) (faults : Faults) : Result Bool × Service :=
  if faults.save then (.error faults.error, s)
  else (.ok true, s.clipSave { existing with lastUsedAt := tick.now, source := tick.source.or existing.source })

def record (s : Service) (captured : CapturedClip) (kind : ClipKind) (hash : Text) (tick : CaptureTick)
    (faults : Faults) : Result Bool × Service :=
  match s.resolve p captured kind hash faults with
  | .error error => (.error error, s)
  | .ok (.inl existing) => s.touchFound existing tick faults
  | .ok (.inr contentHash) => s.recordNew p captured kind contentHash tick faults

/-- Whether the content was recorded. There is no reading when nothing new was copied. -/
def captureTick (s : Service) (reading : Option CapturedClip) (tick : CaptureTick) (faults : Faults) : Result Bool × Service :=
  if !tick.settings.enabled then (.ok false, s)
  else
    match reading with
    | none => (.ok false, s)
    | some captured =>
      match decideCapture p captured tick.settings with
      | .Skip _ => (.ok false, s)
      | .Record hash kind => s.record p captured kind hash tick faults

def currentClip : Result Clip :=
  if faults.find then .error faults.error
  else
    match s.clips.get id with
    | some item => .ok item
    | none => .error (.NotFound "该剪贴记录已被删除或清空，请刷新列表后重试")

/-- Writes an item to the clipboard, which makes it the last one used. -/
def copyToClipboard (now : DateTime) (faults : Faults) : Result Unit × Service :=
  match s.currentClip id faults with
  | .error error => (.error error, s)
  | .ok current =>
    if faults.write || faults.save then (.error faults.error, s)
    else (.ok (), s.clipSave { current with lastUsedAt := now })

/-- The token of a deletion that leaves media files. -/
def delete : Result (Option Nat) × Service :=
  match s.currentClip id faults with
  | .error error => (.error error, s)
  | .ok current =>
    if faults.save then (.error faults.error, s)
    else
      let s := s.clipDelete current.id.text
      if current.media.isEmpty then (.ok none, s)
      else
        let (token, s) := s.stage current.id.text current.media
        (.ok (some token), s)

def clipItemsSharePayload (left right : Clip) : Bool :=
  if left.kind ≠ right.kind ∨ left.contentHash ≠ right.contentHash then false
  else
    match left.kind with
    | .Image =>
      left.byteSize == right.byteSize && left.imageDims == right.imageDims && left.imagePath == right.imagePath &&
        left.thumbPath == right.thumbPath
    | .Files => left.files == right.files
    | _ => left.text == right.text && left.rtf == right.rtf

/-- Saves a deleted item again, or keeps the item that has its content. -/
def restoreItem (duplicate : Option Clip) (pending : Option PendingMediaDelete) (faults : Faults) : Result Unit × Service :=
  if (duplicate.any fun existing => existing.id ≠ item.id && clipItemsSharePayload existing item) then
    (.ok (), s.protectItemMedia item)
  else if faults.save then
    (.error faults.error, (pending.map fun pending => s.putBack item.id.text pending).getD s)
  else (.ok (), (s.clipSave item).protectItemMedia item)

def restore (faults : Faults) : Result Unit × Service :=
  if faults.find then (.error faults.error, s)
  else if (s.clips.get item.id.text).isSome then (.ok (), s)
  else
    match s.clipFindByHash item.contentHash faults with
    | .error error => (.error error, s)
    | .ok duplicate =>
      if item.imagePath.isSome || item.thumbPath.isSome then
        match s.takeForRestore item.id.text with
        | (none, s) => (.error (.Storage "图片撤销窗口已过期，媒体文件已清理"), s)
        | (some pending, s) => s.restoreItem item duplicate (some pending) faults
      else s.restoreItem item duplicate none faults

def finalizeDeletedMedia (token : Nat) (faults : Faults) : Result Unit × Service :=
  match s.expire id token with
  | (none, s) => (.ok (), s)
  | (some paths, s) => (if paths.any (· ∈ faults.stuck) then .error faults.error else .ok (), s.cleanupMedia paths faults)

/-- Removes the listed files that no item refers to, up to a number of them. -/
def removeOrphans (s : Service) (referenced : List Text) (faults : Faults) (removed : Nat) : List Text → Nat × Service
  | [] => (removed, s)
  | path :: paths =>
    if path ∈ referenced then removeOrphans s referenced faults removed paths
    else if removed ≥ MAX_ORPHAN_REMOVALS_PER_RUN then (removed, s)
    else if path ∈ faults.stuck then removeOrphans s referenced faults removed paths
    else removeOrphans (s.removeMedia path faults) referenced faults (removed + 1) paths

/-- The listing was read before, outside the lock. -/
def cleanupOrphans (mediaPaths : List Text) (faults : Faults) : Result Nat × Service :=
  if faults.find then (.error faults.error, s)
  else
    let (removed, s) := s.removeOrphans s.clipMediaPaths faults 0 mediaPaths
    (.ok removed, s)

def clear : Result Unit × Service :=
  if faults.save then (.error faults.error, s)
  else
    let media := s.media.keys.foldl (fun media path => if path ∈ faults.stuck then media else media.remove path) s.media
    (if s.media.keys.any (· ∈ faults.stuck) then
        .error (.Storage ("历史已清空，但媒体文件清理未完成：" ++ displayError faults.error)) else .ok (),
      { s with clips := .empty, byHash := .empty, pending := .empty, media := media })

end Service

end Ramag.ClipboardService
