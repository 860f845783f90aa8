import Ramag.DataSyncGate
import Ramag.Fields
import Ramag.Json

/-!
The pages of a `find` command. `MongoPager` rewrites `skip` and `limit` of the
command for each page and asks for one document more than it shows; a `Tab` is
what the user moves through with next, previous and another page size.
-/
namespace Ramag.MongoPaging
open Strings Domain Json Fields
open DataSyncGate (saturatingAdd)

def MAX_RESULT_PAGE_SIZE : Nat := 10000
def INTERACTIVE_RESULT_WARNING_BYTES : Nat := 128 * 1024 * 1024

def validateResultPageSize (value : Nat) : Except Text Nat :=
  if 1 ≤ value ∧ value ≤ MAX_RESULT_PAGE_SIZE then .ok value else .error "每页行数必须是 1-10000 的整数"

structure MongoPager where
  baseCommand : Value
  baseSkip : Nat
  userLimit : Option Nat
  pageSize : Nat
  /-- Where each page begins, counted from the original `skip`. -/
  pageOffsets : List Nat
  page : Nat
  hasMore : Bool

structure PageRequest where
  page : Nat
  pageSize : Nat
  relativeOffset : Nat
  visibleLimit : Nat
  usesSentinel : Bool

structure MongoQueryResult where
  documents : List Value
  elapsedMs : Nat
  summary : Text
  truncated : Bool
  retainedBytes : Nat
  memoryWarning : Bool

def readWithBudget (documents : List Value) (elapsedMs : Nat) (truncated : Bool) (retainedBytes : Nat) : MongoQueryResult where
  documents := documents
  elapsedMs := elapsedMs
  summary :=
    if truncated then
      "已加载前 " ++ natText documents.length ++ " 条（结果被截断），" ++ natText elapsedMs ++ " ms"
    else natText documents.length ++ " 条，" ++ natText elapsedMs ++ " ms"
  truncated := truncated
  retainedBytes := retainedBytes
  memoryWarning := decide (INTERACTIVE_RESULT_WARNING_BYTES ≤ retainedBytes)

def SKIP : Text := "skip"
def LIMIT : Text := "limit"
def BATCH_SIZE : Text := "batchSize"

/-- `u64::try_from(value.as_i64()?).ok()` -/
def asCount (value : Value) : Option Nat :=
  match value.asI64 with
  | some n => if n < 0 then none else some n.toInt.toNat
  | none => none

variable (object : List (Text × Value))

/-- The `skip` of a command that may be paged. -/
def skipOf : Option Nat :=
  match object.lookup SKIP with
  | none => some 0
  | some value => asCount value

/-- The `limit` of a command that may be paged; zero stands for none. -/
def limitOf : Option (Option Nat) :=
  match object.lookup LIMIT with
  | none => some none
  | some value => if value.asI64 = some 0 then some none else (asCount value).map some

def specialMode : Bool :=
  ["tailable".toList, "awaitData".toList, "singleBatch".toList].any fun key => (object.lookup key).bind asBool = some true

def MongoPager.fromCommand (command : Value) (pageSize : Nat) : Option MongoPager := do
  let _ ← (validateResultPageSize pageSize).toOption
  let object ← command.asObject
  let find ← object.lookup "find".toList
  let _ ← find.asStr
  if specialMode object then none
  else
    let baseSkip ← skipOf object
    let userLimit ← limitOf object
    return { baseCommand := command, baseSkip, userLimit, pageSize, pageOffsets := [0], page := 0, hasMore := false }

/-- `Map::insert`: a key that is there keeps its place. -/
def insertField (key : Text) (value : Value) : List (Text × Value) → List (Text × Value)
  | [] => [(key, value)]
  | field :: fields => if field.1 = key then (key, value) :: fields else field :: insertField key value fields

variable (pager : MongoPager)

/-- What the user's limit leaves from an offset on. -/
def MongoPager.remaining (relativeOffset : Nat) : Option Nat := pager.userLimit.map (· - relativeOffset)

def MongoPager.request (page relativeOffset : Nat) : PageRequest :=
  let remaining := pager.remaining relativeOffset
  let visibleLimit := remaining.elim pager.pageSize (min · pager.pageSize)
  { page, pageSize := pager.pageSize, relativeOffset, visibleLimit, usesSentinel := remaining.all (visibleLimit < ·) }

/-- The document behind the page is fetched too, unless the user's limit ends there. -/
def PageRequest.fetchLimit (request : PageRequest) : Nat := request.visibleLimit + (if request.usesSentinel then 1 else 0)

/-- `json!(n)` -/
def jsonCount (n : Nat) : Value := .Number (.PosInt (UInt64.ofNat n))

def pageFields (skip fetchLimit : Nat) : List (Text × Value) :=
  insertField BATCH_SIZE (jsonCount fetchLimit) (insertField LIMIT (jsonCount fetchLimit) (insertField SKIP (jsonCount skip) object))

def MongoPager.commandForPage (page : Nat) : Except Text (Value × PageRequest) :=
  match pager.pageOffsets[page]? with
  | none => .error "MongoDB 分页只能逐页前进或返回已加载页"
  | some relativeOffset =>
    if pager.remaining relativeOffset = some 0 then .error "已达到原命令 limit 指定的末尾"
    else
      let request := pager.request page relativeOffset
      let skip := pager.baseSkip + relativeOffset
      if request.fetchLimit ≥ USIZE_VALUES then .error "MongoDB 分页读取数量溢出"
      else if skip ≥ 2 ^ 64 then .error "MongoDB skip 超出 u64 范围"
      else if skip ≥ 2 ^ 63 then .error "MongoDB skip 超出 i64 范围"
      else
        match pager.baseCommand.asObject with
        | none => .error "MongoDB find 命令必须是 JSON 对象"
        | some object => .ok (.Object (pageFields object skip request.fetchLimit), request)

/-- `true` when a new request is needed. -/
def MongoPager.setPageSize (pageSize : Nat) : Except Text (Bool × MongoPager) :=
  match validateResultPageSize pageSize with
  | .error message => .error message
  | .ok _ =>
    if pager.pageSize = pageSize then .ok (false, pager)
    else .ok (true, { pager with pageSize, pageOffsets := [0], page := 0, hasMore := false })

def MongoPager.finishRequest (request : PageRequest) (displayed : Nat) (hasMore : Bool) : MongoPager :=
  let nextOffset := saturatingAdd request.relativeOffset displayed
  let hasMore := hasMore && nextOffset != request.relativeOffset
  let loaded := pager.pageOffsets.take (request.page + 1)
  { pager with page := request.page, hasMore, pageOffsets := if hasMore then loaded ++ [nextOffset] else loaded }

def MongoPager.acceptsAdjacentPage (requestedPage : Nat) : Bool :=
  requestedPage + 1 = pager.page || (pager.page + 1 = requestedPage && pager.hasMore)

def summary (truncated : Bool) (displayed elapsedMs : Nat) : Text :=
  if truncated then "已加载前 " ++ natText displayed ++ " 条（结果被截断）, " ++ natText elapsedMs ++ "ms"
  else natText displayed ++ " docs, " ++ natText elapsedMs ++ "ms"

section
variable (retained : List Value → Nat)

/-- The result without the document behind the page, and whether there is more;
    `retained` is what documents take in memory. -/
def finishPage (result : MongoQueryResult) (request : PageRequest) : MongoQueryResult × Bool :=
  let hasMore := result.truncated || (request.usesSentinel && request.visibleLimit < result.documents.length)
  let kept :=
    if request.visibleLimit < result.documents.length then
      let documents := result.documents.take request.visibleLimit
      { result with
        documents, retainedBytes := retained documents
        memoryWarning := decide (INTERACTIVE_RESULT_WARNING_BYTES ≤ retained documents) }
    else result
  ({ kept with summary := summary kept.truncated kept.documents.length kept.elapsedMs }, hasMore)

end

/-- The fields that a page leaves as they are. -/
def otherFields (object : List (Text × Value)) : List (Text × Value) :=
  object.filter fun field => field.1 ∉ [SKIP, LIMIT, BATCH_SIZE]

/-- A server, and the driver that reads its answers. -/
structure Driver where
  /-- What a `find` with these fields and without `skip` and `limit` finds. -/
  results : List (Text × Value) → List Value
  /-- How many documents of the answer to a command are kept at most. -/
  keeps : Value → Nat
  nonzero : ∀ command, 0 < keeps command
  elapsedMs : Value → Nat
  /-- What documents take of the driver's budget. -/
  budget : List Value → Nat
  /-- What documents take in memory. -/
  retained : List Value → Nat

variable (driver : Driver)

/-- `skip` and `limit` as the server takes them. -/
def found (object : List (Text × Value)) : List Value :=
  let documents := (driver.results (otherFields object)).drop ((skipOf object).getD 0)
  match (limitOf object).getD none with
  | none => documents
  | some limit => documents.take limit

def Driver.answer (command : Value) : MongoQueryResult :=
  let documents := found driver (command.asObject.getD [])
  let kept := documents.take (driver.keeps command)
  readWithBudget kept (driver.elapsedMs command) (decide (driver.keeps command < documents.length)) (driver.budget kept)

/-! ### The query tab -/

structure Shown where
  page : Nat
  pageSize : Nat
  hasMore : Bool
  result : MongoQueryResult

structure Tab where
  pager : MongoPager
  shown : Shown

/-- The request is sent and its answer is shown. -/
def executeCommand (pager : MongoPager) (command : Value) (request : PageRequest) : Tab :=
  let (result, hasMore) := finishPage driver.retained (driver.answer command) request
  let pager := pager.finishRequest request result.documents.length hasMore
  { pager, shown := { page := request.page, pageSize := request.pageSize, hasMore := pager.hasMore, result } }

/-- The first page; no tab when the command is not paged. -/
def runParsed (command : Value) (pageSize : Nat) : Option Tab :=
  match MongoPager.fromCommand command pageSize with
  | none => none
  | some pager =>
    match pager.commandForPage 0 with
    | .error _ => none
    | .ok (command, request) => some (executeCommand driver pager command request)

inductive Op
  | page (requestedPage : Nat)
  | pageSize (requestedSize : Nat)

variable (tab : Tab)

def Tab.handlePage (requestedPage : Nat) : Tab :=
  if tab.pager.acceptsAdjacentPage requestedPage then
    match tab.pager.commandForPage requestedPage with
    | .error _ => tab
    | .ok (command, request) => executeCommand driver tab.pager command request
  else tab

def Tab.handlePageSize (requestedSize : Nat) : Tab :=
  match tab.pager.setPageSize requestedSize with
  | .error _ | .ok (false, _) => tab
  | .ok (true, pager) =>
    match pager.commandForPage 0 with
    | .error _ => { tab with pager }
    | .ok (command, request) => executeCommand driver pager command request

def Tab.step : Op → Tab
  | .page requestedPage => tab.handlePage driver requestedPage
  | .pageSize requestedSize => tab.handlePageSize driver requestedSize

def Tab.run (ops : List Op) : Tab := ops.foldl (Tab.step driver) tab

def Tab.next : Tab := tab.handlePage driver (tab.shown.page + 1)
def Tab.previous : Tab := tab.handlePage driver (tab.shown.page - 1)

/-! ### When the pages are exact -/

open List Option

theorem asI64_jsonCount {n : Nat} (small : n < 2 ^ 63) : (jsonCount n).asI64 = some (Int64.ofNat n) := by
  have fits : UInt64.ofNat n ≤ I64_MAX := by
    rw [UInt64.le_iff_toNat_le, UInt64.toNat_ofNat', Nat.mod_eq_of_lt (by omega)]
    exact Nat.le_of_lt_succ small
  show (if UInt64.ofNat n ≤ I64_MAX then some (UInt64.ofNat n).toInt64 else none) = _
  rw [if_pos fits, UInt64.toInt64_ofNat']

theorem asCount_jsonCount {n : Nat} (small : n < 2 ^ 63) : asCount (jsonCount n) = some n := by
  have value := Int64.toInt_ofNat_of_lt small
  have positive : ¬ Int64.ofNat n < 0 := by
    rw [Int64.lt_iff_toInt_lt, value]
    exact Int.not_lt.mpr (Int.natCast_nonneg n)
  rw [asCount, asI64_jsonCount small]
  show (if Int64.ofNat n < 0 then none else some (Int64.ofNat n).toInt.toNat) = some n
  rw [if_neg positive, value, Int.toNat_natCast]

private theorem lookup_field (name : Text) (value : Value) (fields : List (Text × Value)) (other : Text) :
    ((name, value) :: fields).lookup other = if other = name then some value else fields.lookup other := by
  rw [lookup_cons]
  by_cases same : other = name
  · simp [same]
  · rw [beq_false_of_ne same, if_neg same]

theorem lookup_insertField (key : Text) (value : Value) (fields : List (Text × Value)) (other : Text) :
    (insertField key value fields).lookup other = if other = key then some value else fields.lookup other := by
  induction fields with
  | nil => exact lookup_field key value [] other
  | cons field fields ih =>
    obtain ⟨name, held⟩ := field
    rw [insertField, lookup_field]
    split
    · next here =>
      obtain rfl : name = key := here
      rw [lookup_field]
      split <;> rfl
    next elsewhere =>
    rw [lookup_field, ih]
    by_cases first : other = name
    · have other' : other ≠ key := fun same => elsewhere (first.symm.trans same)
      rw [if_pos first, if_neg other', if_pos first]
    · rw [if_neg first, if_neg first]

theorem otherFields_cons (field : Text × Value) (fields : List (Text × Value)) : otherFields (field :: fields) =
      if field.1 ∈ [SKIP, LIMIT, BATCH_SIZE] then otherFields fields else field :: otherFields fields := by
  rw [otherFields, filter_cons]
  by_cases paged : field.1 ∈ [SKIP, LIMIT, BATCH_SIZE]
  · rw [if_pos paged, if_neg (by rw [decide_eq_true_eq, not_not]; exact paged), otherFields]
  · rw [if_neg paged, if_pos (decide_eq_true paged), otherFields]

theorem otherFields_insertField {key : Text} (paged : key ∈ [SKIP, LIMIT, BATCH_SIZE]) (value : Value)
    (fields : List (Text × Value)) : otherFields (insertField key value fields) = otherFields fields := by
  induction fields with
  | nil => rw [insertField, otherFields_cons, if_pos paged]
  | cons field fields ih =>
    rw [insertField]
    split
    · next here =>
      rw [otherFields_cons, otherFields_cons, if_pos paged, if_pos (here ▸ paged)]
    · rw [otherFields_cons, otherFields_cons, ih]

theorem otherFields_pageFields (object : List (Text × Value)) (skip fetchLimit : Nat) :
    otherFields (pageFields object skip fetchLimit) = otherFields object := by
  rw [pageFields, otherFields_insertField (by decide), otherFields_insertField (by decide), otherFields_insertField (by decide)]

theorem skipOf_pageFields (object : List (Text × Value)) {skip : Nat} (small : skip < 2 ^ 63) (fetchLimit : Nat) :
    skipOf (pageFields object skip fetchLimit) = some skip := by
  have value : (pageFields object skip fetchLimit).lookup SKIP = some (jsonCount skip) := by
    rw [pageFields, lookup_insertField, if_neg (by decide), lookup_insertField, if_neg (by decide), lookup_insertField, if_pos rfl]
  rw [skipOf, value]
  exact asCount_jsonCount small

theorem limitOf_pageFields (object : List (Text × Value)) (skip : Nat) {fetchLimit : Nat} (some' : 0 < fetchLimit)
    (small : fetchLimit < 2 ^ 63) : limitOf (pageFields object skip fetchLimit) = some (some fetchLimit) := by
  have value : (pageFields object skip fetchLimit).lookup LIMIT = some (jsonCount fetchLimit) := by
    rw [pageFields, lookup_insertField, if_neg (by decide), lookup_insertField, if_pos rfl]
  have nonzero : (jsonCount fetchLimit).asI64 ≠ some 0 := by
    rw [asI64_jsonCount small, ne_eq, some_inj, ← Int64.toInt_inj, Int64.toInt_ofNat_of_lt small]
    show ¬ (fetchLimit : Int) = 0
    omega
  rw [limitOf, value]
  show (if (jsonCount fetchLimit).asI64 = some 0 then some none else (asCount (jsonCount fetchLimit)).map some) = _
  rw [if_neg nonzero, asCount_jsonCount small, map_some]

theorem found_pageFields (driver : Driver) (object : List (Text × Value)) {skip fetchLimit : Nat} (near : skip < 2 ^ 63)
    (some' : 0 < fetchLimit) (small : fetchLimit < 2 ^ 63) :
    found driver (pageFields object skip fetchLimit) = ((driver.results (otherFields object)).drop skip).take fetchLimit := by
  rw [found, skipOf_pageFields object near, limitOf_pageFields object skip some' small, otherFields_pageFields]
  rfl

/-! ### One page -/

/-- The pager of a command that was accepted. -/
structure Prepared (object : List (Text × Value)) (pager : MongoPager) : Prop where
  command : pager.baseCommand = .Object object
  skip : skipOf object = some pager.baseSkip
  limit : limitOf object = some pager.userLimit
  near : pager.baseSkip < 2 ^ 63
  limited : pager.userLimit ≠ some 0
  size : 1 ≤ pager.pageSize ∧ pager.pageSize ≤ MAX_RESULT_PAGE_SIZE

/-- What the user's own command finds. -/
def wanted (driver : Driver) (pager : MongoPager) : List Value := found driver (pager.baseCommand.asObject.getD [])

/-- The command that asks for the page at an offset. -/
def pageCommand (pager : MongoPager) (offset : Nat) : Value :=
  .Object (pageFields (pager.baseCommand.asObject.getD []) (pager.baseSkip + offset) (pager.request 0 offset).fetchLimit)

/-- The page at an offset: what is wanted from there on, cut to the page size and
    to what the driver keeps. -/
def pageAt (driver : Driver) (pager : MongoPager) (offset : Nat) : List Value :=
  ((wanted driver pager).drop offset).take (min pager.pageSize (driver.keeps (pageCommand pager offset)))

section
variable {object : List (Text × Value)} {pager : MongoPager} (prepared : Prepared object pager)
include prepared

theorem fetchLimit_pos (page : Nat) {offset : Nat}
    (open' : pager.remaining offset ≠ some 0) : 0 < (pager.request page offset).visibleLimit := by
  have size := prepared.size.1
  unfold MongoPager.request
  cases left : pager.remaining offset with
  | none => exact size
  | some left' =>
    rw [left] at open'
    have positive : left' ≠ 0 := fun zero => open' (congrArg some zero)
    show 0 < min left' pager.pageSize
    omega

theorem fetchLimit_le (page offset : Nat) :
    (pager.request page offset).visibleLimit ≤ pager.pageSize ∧ (pager.request page offset).fetchLimit ≤ MAX_RESULT_PAGE_SIZE + 1 := by
  have size := prepared.size.2
  have visible : (pager.request page offset).visibleLimit ≤ pager.pageSize := by
    unfold MongoPager.request
    cases pager.remaining offset with
    | none => exact Nat.le_refl _
    | some left => exact Nat.min_le_right _ _
  unfold PageRequest.fetchLimit
  split <;> omega

end

/-- A page is never asked for beyond the user's limit. -/
theorem fetchLimit_remaining {pager : MongoPager} (page : Nat) {offset left : Nat} (known : pager.remaining offset = some left) :
    (pager.request page offset).fetchLimit ≤ left := by
  unfold PageRequest.fetchLimit MongoPager.request
  rw [known]
  show min left pager.pageSize + (if decide (min left pager.pageSize < left) = true then 1 else 0) ≤ left
  split
  · next more =>
    have := of_decide_eq_true more
    omega
  · exact Nat.min_le_left _ _

theorem commandForPage_ok {object : List (Text × Value)} {pager : MongoPager} (prepared : Prepared object pager) {page : Nat}
    {command : Value} {request : PageRequest} :
    pager.commandForPage page = .ok (command, request) ↔ ∃ offset, pager.pageOffsets[page]? = some offset ∧
      pager.remaining offset ≠ some 0 ∧ pager.baseSkip + offset < 2 ^ 63 ∧ command = pageCommand pager offset ∧
      request = pager.request page offset := by
  have small := fun offset => (fetchLimit_le prepared page offset).2
  have values : MAX_RESULT_PAGE_SIZE + 1 < USIZE_VALUES := by decide
  unfold MongoPager.commandForPage
  cases pager.pageOffsets[page]? with
  | none => simp
  | some offset =>
    have fits : ¬ (pager.request page offset).fetchLimit ≥ USIZE_VALUES := by
      have := small offset
      omega
    have asked : (pager.request page offset).fetchLimit = (pager.request 0 offset).fetchLimit := rfl
    simp only [some_inj, exists_eq_left']
    by_cases ended : pager.remaining offset = some 0
    · simp [ended]
    by_cases near : pager.baseSkip + offset < 2 ^ 63
    · rw [if_neg ended, if_neg fits, if_neg (by omega), if_neg (by omega), prepared.command]
      simp only [Value.asObject, pageCommand, prepared.command, getD_some, Except.ok.injEq, Prod.mk.injEq, asked]
      constructor
      · rintro ⟨rfl, rfl⟩
        exact ⟨ended, near, rfl, rfl⟩
      · rintro ⟨-, -, rfl, rfl⟩
        exact ⟨rfl, rfl⟩
    · rw [if_neg ended, if_neg fits]
      constructor
      · intro done
        by_cases far : pager.baseSkip + offset ≥ 2 ^ 64
        · rw [if_pos far] at done
          cases done
        · rw [if_neg far, if_pos (by omega)] at done
          cases done
      · rintro ⟨-, near', -⟩
        exact absurd near' near

theorem cut_page (xs : List Value) (visible keep : Nat) (sentinel : Bool) (whole : sentinel = false → xs.length ≤ visible) :
    ((xs.take (visible + if sentinel then 1 else 0)).take keep).take visible = xs.take (min visible keep) ∧
    (decide (keep < (xs.take (visible + if sentinel then 1 else 0)).length) ||
      (sentinel && decide (visible < ((xs.take (visible + if sentinel then 1 else 0)).take keep).length))) =
        decide (min visible keep < xs.length) := by
  rw [take_take, take_take]
  cases sentinel with
  | true =>
    have least : min (min visible keep) (visible + 1) = min visible keep := by omega
    refine ⟨congrArg xs.take ?_, ?_⟩
    · rw [if_pos rfl, least]
    rw [Bool.true_and, ← Bool.decide_or]
    refine decide_eq_decide.mpr ?_
    simp only [if_true, length_take]
    omega
  | false =>
    have short := whole rfl
    have least : min (min visible keep) visible = min visible keep := by omega
    refine ⟨congrArg xs.take ?_, ?_⟩
    · rw [if_neg Bool.false_ne_true, Nat.add_zero, least]
    rw [Bool.false_and, Bool.or_false]
    refine decide_eq_decide.mpr ?_
    simp only [Bool.false_eq_true, if_false, length_take]
    omega

theorem finishPage_documents (retained : List Value → Nat) (result : MongoQueryResult) (request : PageRequest) :
    (finishPage retained result request).1.documents = result.documents.take request.visibleLimit := by
  unfold finishPage
  split
  · rfl
  · next fits => exact (take_of_length_le (Nat.le_of_not_lt fits)).symm

variable (driver : Driver) {object : List (Text × Value)} {pager : MongoPager}

theorem wanted_eq (prepared : Prepared object pager) : wanted driver pager = (match pager.userLimit with
      | none => (driver.results (otherFields object)).drop pager.baseSkip
      | some limit => ((driver.results (otherFields object)).drop pager.baseSkip).take limit) := by
  rw [wanted, prepared.command, Value.asObject, getD_some, found, prepared.skip, prepared.limit]
  rfl

theorem wanted_rest (offset : Nat) (prepared : Prepared object pager) :
    (wanted driver pager).drop offset = (match pager.remaining offset with
      | none => (driver.results (otherFields object)).drop (pager.baseSkip + offset)
      | some left => ((driver.results (otherFields object)).drop (pager.baseSkip + offset)).take left) := by
  rw [wanted_eq driver prepared, MongoPager.remaining]
  cases pager.userLimit with
  | none => exact drop_drop
  | some limit =>
    rw [drop_take, drop_drop]
    rfl

theorem found_page {offset : Nat} (prepared : Prepared object pager) (open' : pager.remaining offset ≠ some 0)
    (near : pager.baseSkip + offset < 2 ^ 63) (page : Nat) : found driver ((pageCommand pager offset).asObject.getD []) =
      ((wanted driver pager).drop offset).take (pager.request page offset).fetchLimit := by
  have positive := fetchLimit_pos prepared 0 open'
  have small := (fetchLimit_le prepared 0 offset).2
  have bound : MAX_RESULT_PAGE_SIZE + 1 < 2 ^ 63 := by decide
  have asked : 0 < (pager.request 0 offset).fetchLimit := Nat.lt_of_lt_of_le positive (Nat.le_add_right _ _)
  have same : (pager.request page offset).fetchLimit = (pager.request 0 offset).fetchLimit := rfl
  rw [pageCommand, Value.asObject, getD_some, prepared.command, Value.asObject, getD_some,
    found_pageFields driver object near asked (by omega), wanted_rest driver offset prepared, same]
  cases left : pager.remaining offset with
  | none => rfl
  | some left' => rw [take_take, Nat.min_eq_left (fetchLimit_remaining 0 left)]

theorem wanted_ends (prepared : Prepared object pager) (page offset : Nat) : ((pager.request page offset).usesSentinel = false →
      ((wanted driver pager).drop offset).length ≤ (pager.request page offset).visibleLimit) ∧
    ((pager.request page offset).visibleLimit = pager.pageSize ∨
      ((wanted driver pager).drop offset).length ≤ (pager.request page offset).visibleLimit) := by
  rw [wanted_rest driver offset prepared]
  unfold MongoPager.request
  cases left : pager.remaining offset with
  | none => exact ⟨by rintro ⟨⟩, Or.inl rfl⟩
  | some left' =>
    have short : (take left' ((driver.results (otherFields object)).drop (pager.baseSkip + offset))).length ≤ left' := length_take_le _ _
    show (decide (min left' pager.pageSize < left') = false → _ ≤ min left' pager.pageSize) ∧
      (min left' pager.pageSize = pager.pageSize ∨ _ ≤ min left' pager.pageSize)
    simp only [decide_eq_false_iff_not]
    exact ⟨fun _ => by omega, by omega⟩

theorem shown_page {offset : Nat} (prepared : Prepared object pager) (open' : pager.remaining offset ≠ some 0)
    (near : pager.baseSkip + offset < 2 ^ 63) (page : Nat) :
    (finishPage driver.retained (driver.answer (pageCommand pager offset)) (pager.request page offset)).1.documents =
      pageAt driver pager offset ∧ (finishPage driver.retained (driver.answer (pageCommand pager offset)) (pager.request page offset)).2 =
      decide (offset + (pageAt driver pager offset).length < (wanted driver pager).length) := by
  obtain ⟨whole, full⟩ := wanted_ends driver prepared page offset
  have fetched := found_page driver prepared open' near page
  obtain ⟨documents, more⟩ := cut_page ((wanted driver pager).drop offset) (pager.request page offset).visibleLimit
    (driver.keeps (pageCommand pager offset)) (pager.request page offset).usesSentinel whole
  have kept : (driver.answer (pageCommand pager offset)).documents =
      (((wanted driver pager).drop offset).take (pager.request page offset).fetchLimit).take
        (driver.keeps (pageCommand pager offset)) := by
    rw [← fetched]
    rfl
  have cut : (driver.answer (pageCommand pager offset)).truncated = decide (driver.keeps (pageCommand pager offset) <
        (((wanted driver pager).drop offset).take (pager.request page offset).fetchLimit).length) := by
    rw [← fetched]
    rfl
  have inside := (fetchLimit_le prepared page offset).1
  have pageLength : (pageAt driver pager offset).length =
      min (min (pager.request page offset).visibleLimit (driver.keeps (pageCommand pager offset)))
        ((wanted driver pager).drop offset).length := by
    rw [pageAt, length_take]
    omega
  have piece : pageAt driver pager offset = ((wanted driver pager).drop offset).take
      (min (pager.request page offset).visibleLimit (driver.keeps (pageCommand pager offset))) := by
    rw [pageAt]
    rcases full with same | short
    · rw [same]
    · rw [take_eq_take_iff]
      omega
  refine ⟨?_, ?_⟩
  · rw [finishPage_documents, kept, piece]
    exact documents
  show ((driver.answer (pageCommand pager offset)).truncated || ((pager.request page offset).usesSentinel &&
    decide ((pager.request page offset).visibleLimit < (driver.answer (pageCommand pager offset)).documents.length))) = _
  rw [cut, kept]
  refine more.trans (decide_eq_decide.mpr ?_)
  rw [pageLength, length_drop]
  omega

/-- Where a page begins when each one begins where the one before ends. -/
def offsetAt (pages : Nat → List Value) : Nat → Nat
  | 0 => 0
  | n + 1 => offsetAt pages n + (pages (offsetAt pages n)).length

theorem pageAt_cut (pager : MongoPager) (offset : Nat) :
    pageAt driver pager offset = ((wanted driver pager).drop offset).take (pageAt driver pager offset).length := by
  conv_lhs => rw [pageAt]
  rw [take_eq_take_iff, pageAt, length_take]
  omega

theorem pages_wanted (pager : MongoPager) (n : Nat) : ((range n).map (offsetAt (pageAt driver pager))).flatMap (pageAt driver pager) =
      (wanted driver pager).take (offsetAt (pageAt driver pager) n) := by
  induction n with
  | zero => rfl
  | succ n ih =>
    rw [range_succ, map_append, flatMap_append, ih, offsetAt, take_add]
    rw [map_singleton, flatMap_singleton, ← pageAt_cut]

theorem pageAt_length (prepared : Prepared object pager) (offset : Nat) : (pageAt driver pager offset).length ≤ pager.pageSize ∧
    (offset < (wanted driver pager).length ↔ 0 < (pageAt driver pager offset).length) := by
  have size := prepared.size.1
  have keeps := driver.nonzero (pageCommand pager offset)
  rw [pageAt, length_take, length_drop]
  omega

variable {driver}

/-- A tab that shows the page where it stands. -/
structure Walked (driver : Driver) (object : List (Text × Value)) (tab : Tab) : Prop where
  prepared : Prepared object tab.pager
  page : tab.shown.page = tab.pager.page
  hasMore : tab.shown.hasMore = tab.pager.hasMore
  offsets : tab.pager.pageOffsets =
    (range (tab.pager.page + 1 + if tab.pager.hasMore then 1 else 0)).map (offsetAt (pageAt driver tab.pager))
  documents : tab.shown.result.documents = pageAt driver tab.pager (offsetAt (pageAt driver tab.pager) tab.pager.page)
  more : tab.pager.hasMore = decide (offsetAt (pageAt driver tab.pager) (tab.pager.page + 1) < (wanted driver tab.pager).length)

theorem Prepared.finish (prepared : Prepared object pager) (request : PageRequest) (displayed : Nat) (more : Bool) :
    Prepared object (pager.finishRequest request displayed more) :=
  ⟨prepared.command, prepared.skip, prepared.limit, prepared.near, prepared.limited, prepared.size⟩

theorem executeCommand_walked {loaded page : Nat} {command : Value} {request : PageRequest} (prepared : Prepared object pager)
    (offsets : pager.pageOffsets = (range loaded).map (offsetAt (pageAt driver pager)))
    (sent : pager.commandForPage page = .ok (command, request)) : Walked driver object (executeCommand driver pager command request) ∧
    (executeCommand driver pager command request).pager.page = page ∧
    pageAt driver (executeCommand driver pager command request).pager = pageAt driver pager := by
  obtain ⟨offset, known, open', near, rfl, rfl⟩ := (commandForPage_ok prepared).mp sent
  obtain ⟨documents, more⟩ := shown_page driver prepared open' near page
  obtain ⟨fits, goesOn⟩ := pageAt_length driver prepared offset
  have size := prepared.size.2
  have limit : MAX_RESULT_PAGE_SIZE < 2 ^ 63 := by decide
  have inside : page < loaded := by
    rw [offsets] at known
    have := (List.getElem?_eq_some_iff.mp known).1
    rwa [List.length_map, List.length_range] at this
  have place : offset = offsetAt (pageAt driver pager) page := by
    rw [offsets, getElem?_map, getElem?_range inside] at known
    exact (some_inj.mp known).symm
  have next : saturatingAdd offset (pageAt driver pager offset).length = offset + (pageAt driver pager offset).length := by
    rw [saturatingAdd, Nat.min_eq_left (by omega)]
  have flag : (decide (offset + (pageAt driver pager offset).length < (wanted driver pager).length) &&
      (offset + (pageAt driver pager offset).length != offset)) =
        decide (offsetAt (pageAt driver pager) (page + 1) < (wanted driver pager).length) := by
    rw [offsetAt, ← place]
    by_cases follows : offset + (pageAt driver pager offset).length < (wanted driver pager).length
    · have moved : offset + (pageAt driver pager offset).length ≠ offset := by
        omega
      rw [decide_eq_true follows, bne_iff_ne.mpr moved]
      rfl
    · rw [decide_eq_false follows, Bool.false_and]
  have shape : (executeCommand driver pager (pageCommand pager offset) (pager.request page offset)).pager =
      { pager with
        page := page, hasMore := decide (offsetAt (pageAt driver pager) (page + 1) < (wanted driver pager).length)
        pageOffsets := if decide (offsetAt (pageAt driver pager) (page + 1) < (wanted driver pager).length)
          then pager.pageOffsets.take (page + 1) ++ [offset + (pageAt driver pager offset).length]
          else pager.pageOffsets.take (page + 1) } := by
    show pager.finishRequest (pager.request page offset) (finishPage driver.retained _ _).1.documents.length (finishPage driver.retained _ _).2 = _
    rw [documents, more]
    unfold MongoPager.finishRequest
    dsimp only
    rw [show (pager.request page offset).relativeOffset = offset from rfl, next, flag]
    rfl
  have loadedPages : pager.pageOffsets.take (page + 1) = (range (page + 1)).map (offsetAt (pageAt driver pager)) := by
    rw [offsets, ← map_take, take_range, Nat.min_eq_left inside]
  have pages : pageAt driver (executeCommand driver pager (pageCommand pager offset) (pager.request page offset)).pager = pageAt driver pager := by
    rw [shape]
    rfl
  have all : wanted driver (executeCommand driver pager (pageCommand pager offset) (pager.request page offset)).pager = wanted driver pager := by
    rfl
  refine ⟨⟨?_, ?_, rfl, ?_, ?_, ?_⟩, ?_, pages⟩
  · exact prepared.finish _ _ _
  · rw [shape]
    rfl
  · rw [pages, shape]
    simp only [loadedPages]
    split
    · rw [range_succ (n := page + 1), map_append, map_singleton]
      rw [offsetAt, ← place]
    · rfl
  · rw [pages, shape]
    show (finishPage driver.retained _ _).1.documents = _
    rw [documents, place]
  · rw [pages, all, shape]
  · rw [shape]

theorem asCount_lt {value : Value} {n : Nat} (count : asCount value = some n) : n < 2 ^ 63 := by
  unfold asCount at count
  split at count
  · next m _ =>
    split at count
    · cases count
    · have bound := Int64.toInt_lt m
      cases count
      omega
  · cases count

theorem skipOf_lt {skip : Nat} (known : skipOf object = some skip) : skip < 2 ^ 63 := by
  unfold skipOf at known
  split at known
  · cases known
    decide
  · exact asCount_lt known

theorem limitOf_nonzero {limit : Option Nat} (known : limitOf object = some limit) : limit ≠ some 0 := by
  unfold limitOf at known
  split at known
  · cases known
    nofun
  next value _ =>
  split at known
  · cases known
    nofun
  next nonzero =>
  obtain ⟨n, count, rfl⟩ := map_eq_some_iff.mp known
  rintro ⟨⟩
  unfold asCount at count
  split at count
  · next m read =>
    split at count
    · cases count
    next positive =>
    have zero : m.toInt = 0 := by
      rw [Int64.lt_iff_toInt_lt] at positive
      have low : (0 : Int64).toInt = 0 := rfl
      have := some_inj.mp count
      omega
    rw [show m = 0 from Int64.toInt_inj.mp zero] at read
    exact nonzero read
  · cases count

theorem fromCommand_prepared {command : Value} {pageSize : Nat} (accepted : MongoPager.fromCommand command pageSize = some pager) :
    ∃ object, command = .Object object ∧ Prepared object pager ∧ pager.pageOffsets = [0] := by
  obtain ⟨size, valid, accepted⟩ := bind_eq_some_iff.mp accepted
  obtain ⟨object, isObject, accepted⟩ := bind_eq_some_iff.mp accepted
  obtain ⟨_, _, accepted⟩ := bind_eq_some_iff.mp accepted
  obtain ⟨_, _, accepted⟩ := bind_eq_some_iff.mp accepted
  split at accepted
  · cases accepted
  obtain ⟨skip, skipped, accepted⟩ := bind_eq_some_iff.mp accepted
  obtain ⟨limit, limited, accepted⟩ := bind_eq_some_iff.mp accepted
  cases accepted
  obtain ⟨fields, rfl⟩ : ∃ fields, command = .Object fields := by
    cases command <;> cases isObject
    exact ⟨_, rfl⟩
  cases isObject
  have sized : 1 ≤ pageSize ∧ pageSize ≤ MAX_RESULT_PAGE_SIZE := by
    unfold validateResultPageSize at valid
    split at valid
    · assumption
    · cases valid
  exact ⟨object, rfl, ⟨rfl, skipped, limited, skipOf_lt skipped, limitOf_nonzero limited, sized⟩, rfl⟩

theorem firstPage_ok (prepared : Prepared object pager) (fresh : pager.pageOffsets = [0]) :
    ∃ command request, pager.commandForPage 0 = .ok (command, request) := by
  refine ⟨_, _, (commandForPage_ok prepared).mpr ⟨0, by rw [fresh]; rfl, ?_, prepared.near, rfl, rfl⟩⟩
  rw [MongoPager.remaining]
  simpa using prepared.limited

theorem first_walked (prepared : Prepared object pager) (fresh : pager.pageOffsets = [0]) {command : Value} {request : PageRequest}
    (sent : pager.commandForPage 0 = .ok (command, request)) : Walked driver object (executeCommand driver pager command request) := by
  have offsets : pager.pageOffsets = (range 1).map (offsetAt (pageAt driver pager)) := fresh
  exact (executeCommand_walked prepared offsets sent).1

variable {tab : Tab}

theorem handlePage_walked (walked : Walked driver object tab) (requested : Nat) :
    Walked driver object (tab.handlePage driver requested) := by
  unfold Tab.handlePage
  split
  · split
    · exact walked
    · next sent => exact (executeCommand_walked walked.prepared walked.offsets sent).1
  · exact walked

theorem handlePageSize_walked (walked : Walked driver object tab) (requested : Nat) :
    Walked driver object (tab.handlePageSize driver requested) := by
  unfold Tab.handlePageSize
  split
  · exact walked
  · exact walked
  next pager changed =>
  obtain ⟨prepared, fresh⟩ : Prepared object pager ∧ pager.pageOffsets = [0] := by
    unfold MongoPager.setPageSize validateResultPageSize at changed
    by_cases valid : 1 ≤ requested ∧ requested ≤ MAX_RESULT_PAGE_SIZE
    · rw [if_pos valid] at changed
      dsimp only at changed
      split at changed
      · cases changed
      · cases changed
        exact ⟨⟨walked.prepared.command, walked.prepared.skip, walked.prepared.limit, walked.prepared.near,
          walked.prepared.limited, valid⟩, rfl⟩
    · rw [if_neg valid] at changed
      cases changed
  obtain ⟨command, request, sent⟩ := firstPage_ok prepared fresh
  rw [sent]
  exact first_walked prepared fresh sent

theorem run_walked (walked : Walked driver object tab) (ops : List Op) : Walked driver object (tab.run driver ops) := by
  induction ops generalizing tab with
  | nil => exact walked
  | cons op ops ih =>
    cases op with
    | page requested => exact ih (handlePage_walked walked requested)
    | pageSize requested => exact ih (handlePageSize_walked walked requested)

theorem runParsed_walked {command : Value} {pageSize : Nat} (started : runParsed driver command pageSize = some tab) :
    ∃ object, command = .Object object ∧ Walked driver object tab := by
  unfold runParsed at started
  split at started
  · cases started
  next pager accepted =>
  obtain ⟨object, rfl, prepared, fresh⟩ := fromCommand_prepared accepted
  obtain ⟨command, request, sent⟩ := firstPage_ok prepared fresh
  rw [sent] at started
  cases started
  exact ⟨object, rfl, first_walked prepared fresh sent⟩

theorem remaining_open (prepared : Prepared object pager) {offset : Nat} (inside : offset < (wanted driver pager).length) :
    pager.remaining offset ≠ some 0 := by
  intro ended
  have rest := congrArg length (wanted_rest driver offset prepared)
  rw [ended, length_drop] at rest
  simp only [take_zero, length_nil] at rest
  omega

section
variable (walked : Walked driver object tab)
include walked

theorem offsets_get {i : Nat} (loaded : i < tab.pager.page + 1 + if tab.pager.hasMore then 1 else 0) :
    tab.pager.pageOffsets[i]? = some (offsetAt (pageAt driver tab.pager) i) := by
  rw [walked.offsets, getElem?_map, getElem?_range loaded]
  rfl

theorem handlePage_shown {requested : Nat} (adjacent : tab.pager.acceptsAdjacentPage requested = true)
    (loaded : requested < tab.pager.page + 1 + if tab.pager.hasMore then 1 else 0)
    (inside : offsetAt (pageAt driver tab.pager) requested < (wanted driver tab.pager).length)
    (near : tab.pager.baseSkip + offsetAt (pageAt driver tab.pager) requested < 2 ^ 63) :
    Walked driver object (tab.handlePage driver requested) ∧ (tab.handlePage driver requested).pager.page = requested ∧
    pageAt driver (tab.handlePage driver requested).pager = pageAt driver tab.pager ∧
    wanted driver (tab.handlePage driver requested).pager = wanted driver tab.pager ∧
    (tab.handlePage driver requested).pager.baseSkip = tab.pager.baseSkip := by
  have sent : ∃ command request, tab.pager.commandForPage requested = .ok (command, request) :=
    ⟨_, _, (commandForPage_ok walked.prepared).mpr
      ⟨_, offsets_get walked loaded, remaining_open walked.prepared inside, near, rfl, rfl⟩⟩
  obtain ⟨command, request, sent⟩ := sent
  have step : tab.handlePage driver requested = executeCommand driver tab.pager command request := by
    rw [Tab.handlePage, if_pos adjacent, sent]
  obtain ⟨walked', page, pages⟩ := executeCommand_walked walked.prepared walked.offsets sent
  rw [step]
  exact ⟨walked', page, pages, rfl, rfl⟩

theorem next_shown (more : tab.pager.hasMore = true)
    (near : tab.pager.baseSkip + offsetAt (pageAt driver tab.pager) (tab.pager.page + 1) < 2 ^ 63) :
    Walked driver object (tab.next driver) ∧ (tab.next driver).pager.page = tab.pager.page + 1 ∧
    pageAt driver (tab.next driver).pager = pageAt driver tab.pager ∧ wanted driver (tab.next driver).pager = wanted driver tab.pager ∧
    (tab.next driver).pager.baseSkip = tab.pager.baseSkip := by
  have inside := of_decide_eq_true (walked.more.symm.trans more)
  rw [Tab.next, walked.page]
  refine handlePage_shown walked ?_ ?_ inside near
  · simp [MongoPager.acceptsAdjacentPage, more]
  · rw [more, if_pos rfl]
    exact Nat.lt_succ_self _

theorem previous_shown {page : Nat} (behind : tab.pager.page = page + 1)
    (inside : offsetAt (pageAt driver tab.pager) page < (wanted driver tab.pager).length)
    (near : tab.pager.baseSkip + offsetAt (pageAt driver tab.pager) page < 2 ^ 63) :
    Walked driver object (tab.previous driver) ∧ (tab.previous driver).pager.page = page ∧
    pageAt driver (tab.previous driver).pager = pageAt driver tab.pager ∧
    wanted driver (tab.previous driver).pager = wanted driver tab.pager ∧ (tab.previous driver).pager.baseSkip = tab.pager.baseSkip := by
  have here : tab.shown.page - 1 = page := by
    rw [walked.page, behind]
    rfl
  rw [Tab.previous, here]
  refine handlePage_shown walked ?_ (by omega) inside near
  simp [MongoPager.acceptsAdjacentPage, behind]

end

/-- The rest of what is wanted, shown page after page; the induction is on what is behind the page. -/
theorem forward_shown (room : Nat) (walked : Walked driver object tab)
    (near : tab.pager.baseSkip + (wanted driver tab.pager).length ≤ 2 ^ 63)
    (bound : (wanted driver tab.pager).length ≤ offsetAt (pageAt driver tab.pager) (tab.pager.page + 1) + room) :
    ∃ n, ((Tab.next driver)^[n] tab).shown.hasMore = false ∧
      (range (n + 1)).flatMap (fun i => ((Tab.next driver)^[i] tab).shown.result.documents) =
        (wanted driver tab.pager).drop (offsetAt (pageAt driver tab.pager) tab.pager.page) := by
  induction room generalizing tab with
  | zero =>
    refine ⟨0, walked.hasMore.trans (walked.more.trans (decide_eq_false (Nat.not_lt_of_le bound))), ?_⟩
    rw [range_one, flatMap_singleton, Function.iterate_zero_apply, walked.documents, pageAt_cut, take_of_length_le]
    rw [length_drop]
    rw [offsetAt] at bound
    omega
  | succ room ih =>
    cases more : tab.pager.hasMore with
    | false =>
      have ended := of_decide_eq_false (walked.more.symm.trans more)
      exact ih walked near (by omega)
    | true =>
      have inside := of_decide_eq_true (walked.more.symm.trans more)
      obtain ⟨walked', page, pages, same, skip⟩ := next_shown walked more (by omega)
      have nonempty := (pageAt_length driver walked.prepared (offsetAt (pageAt driver tab.pager) (tab.pager.page + 1))).2.mp inside
      have bound' : (wanted driver (tab.next driver).pager).length ≤
          offsetAt (pageAt driver (tab.next driver).pager) ((tab.next driver).pager.page + 1) + room := by
        rw [pages, same, page, offsetAt]
        omega
      obtain ⟨n, ended, rest⟩ := ih walked' (by rw [skip, same]; exact near) bound'
      rw [pages, same, page] at rest
      refine ⟨n + 1, ended, ?_⟩
      rw [range_succ_eq_map, flatMap_cons, flatMap_map, Function.iterate_zero_apply, walked.documents]
      show _ ++ (range (n + 1)).flatMap (fun i => ((Tab.next driver)^[i] (tab.next driver)).shown.result.documents) = _
      have joined := take_append_drop (pageAt driver tab.pager (offsetAt (pageAt driver tab.pager) tab.pager.page)).length
        ((wanted driver tab.pager).drop (offsetAt (pageAt driver tab.pager) tab.pager.page))
      rw [← pageAt_cut, drop_drop] at joined
      rw [rest, offsetAt]
      exact joined

/-- What is promised of a tab for the user's own command. -/
structure Exact (driver : Driver) (command : Value) (tab : Tab) : Prop where
  command : tab.pager.baseCommand = command
  /-- The page is the one at its offset, and what was shown in front of it are the
      wanted documents in front of it. -/
  shown : ∃ offset, tab.pager.pageOffsets[tab.shown.page]? = some offset ∧ tab.shown.result.documents = pageAt driver tab.pager offset ∧
    (tab.shown.hasMore = true ↔ offset + tab.shown.result.documents.length < (wanted driver tab.pager).length) ∧
    (tab.pager.pageOffsets.take tab.shown.page).flatMap (pageAt driver tab.pager) = (wanted driver tab.pager).take offset ∧
    -- going forward shows the rest, as far as the protocol can ask for it
    (tab.pager.baseSkip + (wanted driver tab.pager).length ≤ 2 ^ 63 → ∃ n, ((Tab.next driver)^[n] tab).shown.hasMore = false ∧
      (range (n + 1)).flatMap (fun i => ((Tab.next driver)^[i] tab).shown.result.documents) = (wanted driver tab.pager).drop offset) ∧
    -- going back shows the same page
    (tab.shown.hasMore = true → tab.pager.baseSkip + offset + tab.shown.result.documents.length < 2 ^ 63 →
      ((tab.next driver).previous driver).shown.page = tab.shown.page ∧
      ((tab.next driver).previous driver).shown.result.documents = tab.shown.result.documents ∧
      ((tab.next driver).previous driver).shown.hasMore = true)
  /-- One document is asked for that is not shown, and none beyond the user's limit. -/
  requests : ∀ page sent request, tab.pager.commandForPage page = .ok (sent, request) →
    limitOf (sent.asObject.getD []) = some (some request.fetchLimit) ∧
    request.fetchLimit ≤ request.visibleLimit + 1 ∧
    (∀ limit, tab.pager.userLimit = some limit → request.relativeOffset + request.fetchLimit ≤ limit) ∧
    (finishPage driver.retained (driver.answer sent) request).1.documents.length ≤ request.visibleLimit

theorem Walked.requests (walked : Walked driver object tab) {page : Nat} {sent : Value} {request : PageRequest}
    (asked : tab.pager.commandForPage page = .ok (sent, request)) : limitOf (sent.asObject.getD []) = some (some request.fetchLimit) ∧
    request.fetchLimit ≤ request.visibleLimit + 1 ∧
    (∀ limit, tab.pager.userLimit = some limit → request.relativeOffset + request.fetchLimit ≤ limit) ∧
    (finishPage driver.retained (driver.answer sent) request).1.documents.length ≤ request.visibleLimit := by
  obtain ⟨offset, -, open', -, rfl, rfl⟩ := (commandForPage_ok walked.prepared).mp asked
  have positive := fetchLimit_pos walked.prepared page open'
  have small := (fetchLimit_le walked.prepared 0 offset).2
  have bound : MAX_RESULT_PAGE_SIZE + 1 < 2 ^ 63 := by decide
  refine ⟨?_, ?_, ?_, ?_⟩
  · exact limitOf_pageFields _ _ (Nat.lt_of_lt_of_le positive (Nat.le_add_right _ _)) (by omega)
  · unfold PageRequest.fetchLimit
    split <;> omega
  · intro limit known
    have left : tab.pager.remaining offset = some (limit - offset) := by rw [MongoPager.remaining, known, map_some]
    have inside := fetchLimit_remaining page left
    have some' : limit - offset ≠ 0 := fun zero => open' (left.trans (congrArg some zero))
    show offset + _ ≤ limit
    omega
  · rw [finishPage_documents]
    exact length_take_le _ _

/-- Whatever pages and page sizes the user asks for after an accepted `find`, the tab
    shows what is promised. -/
theorem mongo_pages_exact (driver : Driver) (command : Value) (pageSize : Nat) (start : Tab)
    (started : runParsed driver command pageSize = some start) (ops : List Op) : Exact driver command (start.run driver ops) := by
  obtain ⟨object, rfl, first⟩ := runParsed_walked started
  have walked := run_walked first ops
  generalize start.run driver ops = tab at walked
  refine ⟨walked.prepared.command, ⟨offsetAt (pageAt driver tab.pager) tab.pager.page, ?_, walked.documents, ?_, ?_, ?_, ?_⟩,
    fun page sent request asked => walked.requests asked⟩
  · rw [walked.page]
    exact offsets_get walked (by omega)
  · rw [walked.hasMore, walked.more, decide_eq_true_eq, walked.documents, offsetAt]
  · rw [walked.page, walked.offsets, ← map_take, take_range, Nat.min_eq_left (by omega)]
    exact pages_wanted driver tab.pager tab.pager.page
  · intro near
    exact forward_shown _ walked near (Nat.le_add_left _ _)
  · intro more near
    have more' := walked.hasMore.symm.trans more
    have inside := of_decide_eq_true (walked.more.symm.trans more')
    rw [walked.documents] at near
    obtain ⟨walked', page, pages, same, skip⟩ := next_shown walked more' (by rw [offsetAt]; omega)
    rw [offsetAt] at inside
    obtain ⟨back, page', pages', same', -⟩ := previous_shown walked' page (by rw [pages, same]; omega) (by rw [pages, skip]; omega)
    refine ⟨?_, ?_, ?_⟩
    · rw [back.page, page', walked.page]
    · rw [back.documents, page', pages', pages, walked.documents]
    · rw [back.hasMore, back.more, page', pages', pages, same', same, ← walked.more, more']

/-- A server with ten documents and a driver that keeps three of an answer. -/
def tenDocuments : Driver where
  results := fun _ => (range 10).map jsonCount
  keeps := fun _ => 3
  nonzero := fun _ => by decide
  elapsedMs := fun _ => 1
  budget := length
  retained := length

def cutPager : MongoPager where
  baseCommand := .Object [("find", .String "c"), (SKIP, jsonCount 2), (LIMIT, jsonCount 6)]
  baseSkip := 2
  userLimit := some 6
  pageSize := 4
  pageOffsets := [0]
  page := 0
  hasMore := false

def cutTab : Tab := executeCommand tenDocuments cutPager (pageCommand cutPager 0) (cutPager.request 0 0)

theorem mongo_pages_exact_cut : Exact tenDocuments cutPager.baseCommand (cutTab.run tenDocuments [.page 1]) :=
  mongo_pages_exact tenDocuments cutPager.baseCommand 4 cutTab rfl [.page 1]

/-- More documents than a `skip` of the protocol reaches. -/
def manyDocuments : Driver where
  results := fun _ => replicate (2 ^ 63 + 1) .Null
  keeps := fun _ => 2
  nonzero := fun _ => by decide
  elapsedMs := fun _ => 1
  budget := length
  retained := length

def farPager : MongoPager where
  baseCommand := .Object [("find", .String "c"), (SKIP, jsonCount (2 ^ 63 - 1))]
  baseSkip := 2 ^ 63 - 1
  userLimit := none
  pageSize := 1
  pageOffsets := [0]
  page := 0
  hasMore := false

/-- The second page of the far pager is refused, so the last document is never shown. -/
theorem mongo_pages_far : ¬ ∀ (driver : Driver) (command : Value) (pageSize : Nat) (start : Tab),
    runParsed driver command pageSize = some start → ∃ n, ((Tab.next driver)^[n] start).shown.hasMore = false ∧
      (range (n + 1)).flatMap (fun i => ((Tab.next driver)^[i] start).shown.result.documents) = wanted driver start.pager := by
  intro all
  have accepted : MongoPager.fromCommand farPager.baseCommand 1 = some farPager := rfl
  obtain ⟨object, -, prepared, fresh⟩ := fromCommand_prepared accepted
  obtain ⟨command, request, sent⟩ := firstPage_ok prepared fresh
  have offsets : farPager.pageOffsets = (range 1).map (offsetAt (pageAt manyDocuments farPager)) := fresh
  obtain ⟨walked, page, pages⟩ := executeCommand_walked prepared offsets sent
  have started : runParsed manyDocuments farPager.baseCommand 1 = some (executeCommand manyDocuments farPager command request) := by
    rw [runParsed, accepted]
    dsimp only
    rw [sent]
  have skip : (executeCommand manyDocuments farPager command request).pager.baseSkip = 2 ^ 63 - 1 := rfl
  have same : wanted manyDocuments (executeCommand manyDocuments farPager command request).pager = wanted manyDocuments farPager := rfl
  have two : wanted manyDocuments farPager = [.Null, .Null] := by
    refine (wanted_eq manyDocuments prepared).trans ?_
    show (replicate (2 ^ 63 + 1) Value.Null).drop (2 ^ 63 - 1) = _
    rw [drop_replicate]
    rfl
  have first : offsetAt (pageAt manyDocuments farPager) 1 = 1 := by
    rw [offsetAt, offsetAt, pageAt, two]
    rfl
  generalize executeCommand manyDocuments farPager command request = tab at *
  have more : tab.pager.hasMore = true := by
    rw [walked.more, page, pages, same, first, two]
    rfl
  have stays : tab.next manyDocuments = tab := by
    rw [Tab.next, Tab.handlePage]
    split
    · split
      · rfl
      next sent' =>
      obtain ⟨offset, known, -, near, -⟩ := (commandForPage_ok walked.prepared).mp sent'
      rw [walked.page, page, offsets_get walked (by rw [more, page]; decide), pages, Nat.zero_add, first] at known
      rw [skip, ← some_inj.mp known] at near
      exact absurd near (by decide)
    · rfl
  obtain ⟨n, ended, -⟩ := all manyDocuments farPager.baseCommand 1 tab started
  simp [Function.iterate_fixed stays, walked.hasMore, more] at ended

end Ramag.MongoPaging
