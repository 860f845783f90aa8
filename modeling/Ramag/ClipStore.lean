import Ramag.Fields
import Ramag.ClipFilter
import Ramag.OrderedTables
import Mathlib.Data.Char
import Mathlib.Data.List.Lex

/-!
The store of the clipboard history: the encrypted clips by their ids, and four
tables kept beside them, by recency, by content hash, from an id to both, and
the search filters.
-/
namespace Ramag.ClipStore
open Strings Domain Fields ClipFilter OrderedTables
open DataSyncGate (saturatingAdd)

def U64_MAX : Nat := 2 ^ 64 - 1
def MAX_CLIP_PRUNE_BATCH : Nat := 10000
def MAX_CLIP_MEDIA_PATHS : Nat := 200000
def MAX_CLIP_MEDIA_PATH_BYTES : Nat := 256 * 1024
def MAX_CLIP_MEDIA_PATH_TOTAL_BYTES : Nat := 64 * 1024 * 1024

/-- How clips are written under the key: encrypted records, read back as they were, and the hash of the
    search windows. -/
structure Cipher (ρ : Type) where
  encode : ClipItem → Result ρ
  decodeRecord : Text → ρ → Result ClipItem
  unicode : Unicode
  searchTokenHash : List UInt8 → UInt64
  readsBack : ∀ item record, encode item = .ok record → ∀ uuid, decodeRecord uuid record = .ok item

def Cipher.filter {ρ : Type} (cipher : Cipher ρ) (item : ClipItem) : Filter :=
  buildFilter cipher.unicode cipher.searchTokenHash item

structure ClipTables (ρ : Type) where
  clips : Table Text ρ
  byTime : Table Text Text
  byHash : Table Text Text
  uuidMeta : Table Text Text
  searchFilters : Table Text Filter
  searchReady : Bool

def ClipTables.empty {ρ : Type} (searchReady : Bool) : ClipTables ρ :=
  ⟨.empty, .empty, .empty, .empty, .empty, searchReady⟩

/-- A number in lower case hexadecimal digits, padded to a width. -/
def hexFixed : Nat → Nat → Text
  | 0, _ => []
  | width + 1, n => hexFixed width (n / 16) ++ [Nat.digitChar (n % 16)]

def timestampMillis (time : DateTime) : Int := time.nanos / 1000000

def usedMillis (time : DateTime) : Nat := (max (timestampMillis time) 0).toNat

/-- The later the time, the earlier the key. -/
def recencyKey (lastUsed : DateTime) (uuid : Text) : Text :=
  hexFixed 16 (U64_MAX - usedMillis lastUsed) ++ ':' :: uuid

def hexValue (c : Char) : Option Nat :=
  if c.isDigit then some (c.toNat - 48)
  else if 97 ≤ c.toNat ∧ c.toNat ≤ 102 then some (c.toNat - 87)
  else if 65 ≤ c.toNat ∧ c.toNat ≤ 70 then some (c.toNat - 55)
  else none

def readHex (value : Nat) : Text → Except ParseIntError Nat
  | [] => .ok value
  | c :: digits =>
    match hexValue c with
    | none => .error .InvalidDigit
    | some digit => if value * 16 + digit ≤ U64_MAX then readHex (value * 16 + digit) digits else .error .PosOverflow

/-- `u64::from_str_radix(_, 16)` -/
def parseHexU64 : Text → Except ParseIntError Nat
  | [] => .error .Empty
  | ['+'] | ['-'] => .error .InvalidDigit
  | '+' :: digits => readHex 0 digits
  | digits => readHex 0 digits

/-- `as i64` -/
def asI64 (n : Nat) : Int := if n < 2 ^ 63 then n else (n : Int) - 2 ^ 64

def millisFromRecencyKey (rk : Text) : Result Int :=
  match splitOnce ':' rk with
  | none => .error (.Storage ("剪贴时间索引格式无效：" ++ rk))
  | some (hex, uuid) =>
    if uuid.isEmpty || byteLen hex ≠ 16 then .error (.Storage ("剪贴时间索引格式无效：" ++ rk))
    else
      match parseHexU64 hex with
      | .error error => .error (.Storage ("剪贴时间索引格式无效 " ++ rk ++ "：" ++ error.text))
      | .ok inverted => .ok (asI64 (U64_MAX - inverted))

def encodeMeta (rk hash : Text) : Text := rk ++ '\t' :: hash

def decodeMeta (uuid value : Text) : Result (Text × Text) :=
  match splitOnce '\t' value with
  | none => .error (.Storage ("剪贴索引元数据 " ++ uuid ++ " 格式无效"))
  | some (rk, hash) =>
    if rk.isEmpty || hash.isEmpty then .error (.Storage ("剪贴索引元数据 " ++ uuid ++ " 格式无效"))
    else .ok (rk, hash)

section
variable {ρ : Type} (cipher : Cipher ρ)

def removeHashIfOwned (byHash : Table Text Text) (hash uuid : Text) : Table Text Text :=
  if byHash.get hash = some uuid then byHash.remove hash else byHash

/-- What the tables say of an id, or why it is left alone. -/
def storedMeta (store : ClipTables ρ) (uuid refusal : Text) : Result (Option (Text × Text)) :=
  match store.uuidMeta.get uuid with
  | some value => (decodeMeta uuid value).map some
  | none =>
    if (store.clips.get uuid).isSome then
      .error (.Storage ("剪贴条目 " ++ uuid ++ " 缺少索引元数据，" ++ refusal))
    else .ok none

def save (item : ClipItem) (store : ClipTables ρ) : Result (ClipTables ρ) := do
  let uuid := item.id.text
  let hash := item.contentHash
  let rk := recencyKey item.lastUsedAt uuid
  let enc ← cipher.encode item
  let searchFilter := cipher.filter item
  let oldMeta ← storedMeta store uuid "拒绝覆盖"
  let store :=
    match oldMeta with
    | some (oldRk, oldHash) =>
      { store with
        byTime := store.byTime.remove oldRk
        searchFilters := store.searchFilters.remove oldRk
        byHash := if oldHash ≠ hash then removeHashIfOwned store.byHash oldHash uuid else store.byHash }
    | none => store
  .ok { store with
    clips := store.clips.insert uuid enc
    byTime := store.byTime.insert rk uuid
    searchFilters := store.searchFilters.insert rk searchFilter
    byHash := store.byHash.insert hash uuid
    uuidMeta := store.uuidMeta.insert uuid (encodeMeta rk hash) }

/-- Takes an entry out of the tables. -/
def removeEntry (uuid rk hash : Text) (store : ClipTables ρ) : ClipTables ρ :=
  { store with
    clips := store.clips.remove uuid
    byTime := store.byTime.remove rk
    searchFilters := store.searchFilters.remove rk
    byHash := removeHashIfOwned store.byHash hash uuid
    uuidMeta := store.uuidMeta.remove uuid }

def delete (id : Text) (store : ClipTables ρ) : Result (ClipTables ρ) := do
  match ← storedMeta store id "拒绝不完整删除" with
  | some (rk, hash) => .ok (removeEntry id rk hash store)
  | none => .ok { store with uuidMeta := store.uuidMeta.remove id, clips := store.clips.remove id }

def clear : ClipTables ρ := .empty true

/-- The indexes are built when there are clips and no times. -/
def needsMigration (seen : ClipTables ρ) : Bool :=
  decide (0 < seen.clips.entries.length) && decide (seen.byTime.entries.length = 0)

def migrateEntries (store : ClipTables ρ) : List (Text × ρ) → Result (ClipTables ρ)
  | [] => .ok store
  | (uuid, value) :: entries => do
    let item ← cipher.decodeRecord uuid value
    let rk := recencyKey item.lastUsedAt uuid
    let store := { store with
      byTime := store.byTime.insert rk uuid
      searchFilters := store.searchFilters.insert rk (cipher.filter item)
      byHash := store.byHash.insert item.contentHash uuid
      uuidMeta := store.uuidMeta.insert uuid (encodeMeta rk item.contentHash) }
    migrateEntries store entries

/-- The first transaction, which only reads, may see an earlier store. -/
def migrateIndexes (seen store : ClipTables ρ) : Result (ClipTables ρ) :=
  if needsMigration seen then do
    let store ← migrateEntries cipher { store with searchFilters := .empty } store.clips.entries
    .ok { store with searchReady := true }
  else .ok store

/-! ### Pruning -/

def selectFrom (excess : Nat) (cutoffMillis : Int) (oldestIndex : Nat) (doomed : List Text) : List (Text × Text) → Result (List Text)
  | [] => .ok doomed
  | (rk, uuid) :: entries => do
    let overCount := decide (oldestIndex < excess)
    let millis ← millisFromRecencyKey rk
    let overAge := decide (millis < cutoffMillis)
    if !overCount && !overAge then .ok doomed
    else if doomed.length + 1 ≥ MAX_CLIP_PRUNE_BATCH then .ok (doomed ++ [uuid])
    else selectFrom excess cutoffMillis (oldestIndex + 1) (doomed ++ [uuid]) entries

/-- The entries to go: the oldest ones that are over the count or over the age. -/
def selectPruneCandidates (byTime : Table Text Text) (maxItems : Nat) (cutoffMillis : Int) : Result (List Text) := do
  let oldestOverAge ← match byTime.entries.getLast? with
    | some (rk, _) => (millisFromRecencyKey rk).map fun millis => decide (millis < cutoffMillis)
    | none => .ok false
  let total := byTime.entries.length
  if total ≤ maxItems && !oldestOverAge then .ok []
  else selectFrom (total - maxItems) cutoffMillis 0 [] byTime.entries.reverse

def pushMediaPath (paths : List Text) (retainedBytes : Nat) (path : Text) : Result (List Text × Nat) :=
  if byteLen path > MAX_CLIP_MEDIA_PATH_BYTES then
    .error (.Storage ("剪贴媒体路径超过 " ++ natText (MAX_CLIP_MEDIA_PATH_BYTES / 1024 / 1024) ++ " MiB 安全上限"))
  else if paths.length + 1 > MAX_CLIP_MEDIA_PATHS then
    .error (.Storage ("剪贴媒体路径超过 " ++ natText MAX_CLIP_MEDIA_PATHS ++ " 条安全上限"))
  else if retainedBytes + byteLen path > MAX_CLIP_MEDIA_PATH_TOTAL_BYTES then
    .error (.Storage ("剪贴媒体路径总数据超过 " ++ natText (MAX_CLIP_MEDIA_PATH_TOTAL_BYTES / 1024 / 1024) ++ " MiB 安全上限"))
  else .ok (paths ++ [path], retainedBytes + byteLen path)

def pushMediaPaths (images : List Text × Nat) : List Text → Result (List Text × Nat)
  | [] => .ok images
  | path :: paths => do
    let images ← pushMediaPath images.1 images.2 path
    pushMediaPaths images paths

def doomedImages (clips : Table Text ρ) (images : List Text × Nat) : List Text → Result (List Text × Nat)
  | [] => .ok images
  | uuid :: doomed =>
    match clips.get uuid with
    | none => .error (.Storage ("待清理剪贴索引指向缺失条目 " ++ uuid))
    | some value => do
      let item ← cipher.decodeRecord uuid value
      let images ← pushMediaPaths images (item.imagePath.toList ++ item.thumbPath.toList)
      doomedImages clips images doomed

def removeDoomed (store : ClipTables ρ) : List Text → Result (ClipTables ρ)
  | [] => .ok store
  | uuid :: doomed =>
    match store.uuidMeta.get uuid with
    | none => .error (.Storage ("待清理剪贴条目 " ++ uuid ++ " 缺少索引元数据"))
    | some value => do
      let (rk, hash) ← decodeMeta uuid value
      removeDoomed (removeEntry uuid rk hash store) doomed

/-- The entries are chosen and their images looked up in transactions of their own, which may see earlier
    stores. -/
def prune (maxItems : Nat) (cutoffMillis : Int) (seen shown store : ClipTables ρ) :
    Result (ClipTables ρ × List Text) := do
  let doomed ← selectPruneCandidates seen.byTime maxItems cutoffMillis
  if doomed.isEmpty then .ok (store, [])
  else
    let images ← doomedImages cipher shown.clips ([], 0) doomed
    let store ← removeDoomed store doomed
    .ok (store, images.1)

def loadIndexedClip (clips : Table Text ρ) (rk uuid : Text) : Result ClipItem :=
  match clips.get uuid with
  | none => .error (.Storage ("剪贴时间索引 " ++ rk ++ " 指向缺失条目 " ++ uuid))
  | some value => cipher.decodeRecord uuid value

def listEntries (clips : Table Text ρ) (maxInlineBytes : Nat) (out : List ClipItem) (totalInlineBytes : Nat) :
    List (Text × Text) → Result (List ClipItem)
  | [] => .ok out
  | (rk, uuid) :: entries => do
    let item ← loadIndexedClip cipher clips rk uuid
    let nextTotal := min (totalInlineBytes + inlinePayloadBytes item) U64_MAX
    if !out.isEmpty && decide (nextTotal > maxInlineBytes) then .ok out
    else if nextTotal ≥ maxInlineBytes then .ok (out ++ [item])
    else listEntries clips maxInlineBytes (out ++ [item]) nextTotal entries

def listRecentBounded (store : ClipTables ρ) (limit maxInlineBytes : Nat) : Result (List ClipItem) :=
  if maxInlineBytes = 0 then .ok []
  else listEntries cipher store.clips maxInlineBytes [] 0 (store.byTime.entries.take limit)

def listRecent (store : ClipTables ρ) (limit : Nat) : Result (List ClipItem) :=
  listRecentBounded cipher store limit U64_MAX

def findByHash (store : ClipTables ρ) (hash : Text) : Result (Option ClipItem) :=
  match store.byHash.get hash with
  | none => .ok none
  | some uuid =>
    match store.clips.get uuid with
    | some value => (cipher.decodeRecord uuid value).map some
    | none => .error (.Storage ("剪贴哈希索引 " ++ hash ++ " 指向缺失条目 " ++ uuid))

end

end Ramag.ClipStore
