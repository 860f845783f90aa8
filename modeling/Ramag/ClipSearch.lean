import Ramag.ClipIndex

/-!
The search of the clipboard history, over the filters or by reading every clip.
Both give the matching clips by recency up to the limits (`indexedSearch_gather`,
`fallbackSearch_gather`), although the second reads them in batches.
-/
namespace Ramag.ClipSearch
open Strings Domain ByteTexts ClipFilter OrderedTables ClipStore ClipIndex List

def MAX_CLIPBOARD_SEARCH_BYTES : Nat := 4 * 1024
def PARALLEL_SEARCH_PREFIX : Nat := 2048
def PARALLEL_SEARCH_BATCH : Nat := 4096

structure ClipSearchResult where
  items : List ClipItem
  truncated : Bool

/-- What is searched for, how much of it, and what the cancel flag reads at each entry. -/
structure SearchRequest where
  queryLower : Text
  limit : Nat
  maxInlineBytes : Nat
  cancelled : Nat → Bool

inductive SearchProbe
  | Hit
  | Miss
  | Cancelled

section
variable {ρ : Type} (cipher : Cipher ρ) (request : SearchRequest)

/-- The hits and their bytes with one more, unless it is over the limits. -/
def appendSearchHit (out : List ClipItem) (totalInlineBytes : Nat) (item : ClipItem) : Option (List ClipItem × Nat) :=
  let nextTotal := min (totalInlineBytes + inlinePayloadBytes item) U64_MAX
  if decide (out.length ≥ request.limit) || decide (request.maxInlineBytes = 0) ||
      (!out.isEmpty && decide (nextTotal > request.maxInlineBytes)) then none
  else some (out ++ [item], nextTotal)

/-- The loop over both tables. No answer means that they do not fit together. -/
def indexedLoop (clips : Table Text ρ) (query : QueryFilter) (position : Nat) (out : List ClipItem)
    (totalInlineBytes : Nat) : List (Text × Text) → List (Text × Filter) → Result (Option ClipSearchResult)
  | [], filters =>
    if request.cancelled position then .ok (some ⟨out, false⟩)
    else if filters.isEmpty then .ok (some ⟨out, false⟩)
    else .ok none
  | (rk, uuid) :: times, filters =>
    if request.cancelled position then .ok (some ⟨out, false⟩)
    else
      match filters with
      | [] => .ok none
      | (filterRk, filter) :: filters =>
        if rk ≠ filterRk || filter.length ≠ SEARCH_FILTER_BYTES then .ok none
        else if !query.mightMatch filter then indexedLoop clips query (position + 1) out totalInlineBytes times filters
        else do
          let item ← loadIndexedClip cipher clips rk uuid
          if clipMatchesQuery cipher.unicode item request.queryLower then
            match appendSearchHit request out totalInlineBytes item with
            | none => .ok (some ⟨out, true⟩)
            | some (out, totalInlineBytes) => indexedLoop clips query (position + 1) out totalInlineBytes times filters
          else indexedLoop clips query (position + 1) out totalInlineBytes times filters

def indexedSearch (store : ClipTables ρ) (query : QueryFilter) : Result (Option ClipSearchResult) :=
  if store.byTime.entries.length ≠ store.searchFilters.entries.length then .ok none
  else indexedLoop cipher request store.clips query 0 [] 0 store.byTime.entries store.searchFilters.entries

/-- A scan that is over, or that goes on behind what it has read. -/
inductive Scan
  | finished (result : ClipSearchResult)
  | more (out : List ClipItem) (totalInlineBytes : Nat)

def scanPrefix (clips : Table Text ρ) (rounds position : Nat) (out : List ClipItem) (totalInlineBytes : Nat) :
    List (Text × Text) → Result Scan :=
  match rounds with
  | 0 => fun _ => .ok (.more out totalInlineBytes)
  | rounds + 1 => fun entries =>
    if request.cancelled position then .ok (.finished ⟨out, false⟩)
    else
      match entries with
      | [] => .ok (.finished ⟨out, false⟩)
      | (rk, uuid) :: entries => do
        let item ← loadIndexedClip cipher clips rk uuid
        if clipMatchesQuery cipher.unicode item request.queryLower then
          match appendSearchHit request out totalInlineBytes item with
          | none => .ok (.finished ⟨out, true⟩)
          | some (out, totalInlineBytes) => scanPrefix clips rounds (position + 1) out totalInlineBytes entries
        else scanPrefix clips rounds (position + 1) out totalInlineBytes entries

def probeSearchRecord (clips : Table Text ρ) (position : Nat) (entry : Text × Text) : Result SearchProbe :=
  if request.cancelled position then .ok .Cancelled
  else do
    let item ← loadIndexedClip cipher clips entry.1 entry.2
    .ok (if clipMatchesQuery cipher.unicode item request.queryLower then .Hit else .Miss)

/-- The probes of a batch, in its order. Whether they ran in parallel or not does not show. -/
def probeBatch (clips : Table Text ρ) (position : Nat) : List (Text × Text) → List (Result SearchProbe)
  | [] => []
  | entry :: batch => probeSearchRecord cipher request clips position entry :: probeBatch clips (position + 1) batch

def takeProbes (clips : Table Text ρ) (out : List ClipItem) (totalInlineBytes : Nat) :
    List ((Text × Text) × Result SearchProbe) → Result Scan
  | [] => .ok (.more out totalInlineBytes)
  | ((rk, uuid), probe) :: probes => do
    match ← probe with
    | .Miss => takeProbes clips out totalInlineBytes probes
    | .Cancelled => .ok (.finished ⟨out, false⟩)
    | .Hit =>
      let item ← loadIndexedClip cipher clips rk uuid
      match appendSearchHit request out totalInlineBytes item with
      | none => .ok (.finished ⟨out, true⟩)
      | some (out, totalInlineBytes) => takeProbes clips out totalInlineBytes probes

def scanBatches (clips : Table Text ρ) (position : Nat) (out : List ClipItem) (totalInlineBytes : Nat)
    (entries : List (Text × Text)) : Result ClipSearchResult :=
  if request.cancelled position then .ok ⟨out, false⟩
  else if 0 < entries.length then do
    let batch := entries.take PARALLEL_SEARCH_BATCH
    match ← takeProbes cipher request clips out totalInlineBytes (batch.zip (probeBatch cipher request clips position batch)) with
    | .finished result => .ok result
    | .more out totalInlineBytes => scanBatches clips (position + batch.length) out totalInlineBytes (entries.drop PARALLEL_SEARCH_BATCH)
  else .ok ⟨out, false⟩
termination_by entries.length
decreasing_by
  rw [List.length_drop]
  have : 0 < PARALLEL_SEARCH_BATCH := by decide
  omega

def fallbackSearch (store : ClipTables ρ) : Result ClipSearchResult := do
  match ← scanPrefix cipher request store.clips PARALLEL_SEARCH_PREFIX 0 [] 0 store.byTime.entries with
  | .finished result => .ok result
  | .more out totalInlineBytes =>
    scanBatches cipher request store.clips PARALLEL_SEARCH_PREFIX out totalInlineBytes
      (store.byTime.entries.drop PARALLEL_SEARCH_PREFIX)

/-- The flag is read once before the search starts, and the index is used when it is ready. -/
def searchCancellableBounded (store : ClipTables ρ) (query : Text) (limit maxInlineBytes : Nat) (early : Bool)
    (cancelled : Nat → Bool) : Result ClipSearchResult :=
  if byteLen query > MAX_CLIPBOARD_SEARCH_BYTES then
    .error (.InvalidConfig ("剪贴历史搜索词超过 " ++ natText MAX_CLIPBOARD_SEARCH_BYTES ++ " bytes 上限"))
  else
    let queryLower := toLowercase cipher.unicode (trim query)
    let request : SearchRequest := ⟨queryLower, limit, maxInlineBytes, cancelled⟩
    if queryLower.isEmpty || early then .ok ⟨[], false⟩
    else
      match QueryFilter.new cipher.searchTokenHash queryLower with
      | none => fallbackSearch cipher request store
      | some filter =>
        if store.searchReady then do
          match ← indexedSearch cipher request store filter with
          | some result => .ok result
          | none => fallbackSearch cipher request store
        else fallbackSearch cipher request store

/-! ### The hits that are taken -/

variable {cipher request}

/-- Takes hits while they fit. -/
def gather (request : SearchRequest) (out : List ClipItem) (totalInlineBytes : Nat) : List ClipItem → Scan
  | [] => .more out totalInlineBytes
  | item :: hits =>
    match appendSearchHit request out totalInlineBytes item with
    | none => .finished ⟨out, true⟩
    | some (out, totalInlineBytes) => gather request out totalInlineBytes hits

def Scan.result : Scan → ClipSearchResult
  | .finished result => result
  | .more out _ => ⟨out, false⟩

def Scan.andThen (next : List ClipItem → Nat → Scan) : Scan → Scan
  | .finished result => .finished result
  | .more out totalInlineBytes => next out totalInlineBytes

theorem gather_append (out : List ClipItem) (total : Nat) (hits later : List ClipItem) : gather request out total (hits ++ later) =
      (gather request out total hits).andThen fun out total => gather request out total later := by
  induction hits generalizing out total with
  | nil => rfl
  | cons item hits ih =>
    rw [cons_append, gather, gather]
    cases appendSearchHit request out total item with
    | none => rfl
    | some next => exact ih next.1 next.2

/-- The clips that the entries point to. -/
def Loads (cipher : Cipher ρ) (clips : Table Text ρ) : List (Text × Text) → List ClipItem → Prop :=
  List.Forall₂ fun entry item => loadIndexedClip cipher clips entry.1 entry.2 = .ok item

/-- The clips that match the query. -/
def hits (cipher : Cipher ρ) (request : SearchRequest) (items : List ClipItem) : List ClipItem :=
  items.filter fun item => clipMatchesQuery cipher.unicode item request.queryLower

theorem hits_cons (item : ClipItem) (items : List ClipItem) : hits cipher request (item :: items) =
    if clipMatchesQuery cipher.unicode item request.queryLower then item :: hits cipher request items
    else hits cipher request items := filter_cons

section
variable {clips : Table Text ρ} (never : ∀ position, request.cancelled position = false)

variable {entries : List (Text × Text)} {items : List ClipItem}

include never in
theorem scanPrefix_gather (loads : Loads cipher clips entries items) (rounds position : Nat) (out : List ClipItem) (total : Nat) :
    scanPrefix cipher request clips rounds position out total entries =
      .ok ((gather request out total (hits cipher request (items.take rounds))).andThen fun out total =>
        if entries.length < rounds then .finished ⟨out, false⟩ else .more out total) := by
  induction loads generalizing rounds position out total with
  | nil =>
    cases rounds with
    | zero => rfl
    | succ rounds =>
      rw [scanPrefix, never]
      rfl
  | @cons entry item entries items load _ ih =>
    cases rounds with
    | zero => rfl
    | succ rounds =>
      have shorter : (entry :: entries).length < rounds + 1 ↔ entries.length < rounds := by
        rw [length_cons]
        omega
      rw [scanPrefix, never, take_succ_cons, hits_cons]
      simp only [Bool.false_eq_true, if_false, shorter]
      rw [load]
      change (if clipMatchesQuery cipher.unicode item request.queryLower then _ else _) = _
      by_cases hit : clipMatchesQuery cipher.unicode item request.queryLower = true
      · simp only [hit, if_true, gather]
        cases appendSearchHit request out total item with
        | none => rfl
        | some next => exact ih rounds (position + 1) next.1 next.2
      · simp only [hit, if_false, Bool.false_eq_true]
        exact ih rounds (position + 1) out total

include never in
theorem probeSearchRecord_load {entry : Text × Text} {item : ClipItem}
    (load : loadIndexedClip cipher clips entry.1 entry.2 = .ok item) (position : Nat) :
    probeSearchRecord cipher request clips position entry =
      .ok (if clipMatchesQuery cipher.unicode item request.queryLower then .Hit else .Miss) := by
  rw [probeSearchRecord, never, load]
  rfl

include never in
theorem takeProbes_gather (loads : Loads cipher clips entries items) (position : Nat) (out : List ClipItem) (total : Nat) :
    takeProbes cipher request clips out total (entries.zip (probeBatch cipher request clips position entries)) =
      .ok (gather request out total (hits cipher request items)) := by
  induction loads generalizing position out total with
  | nil => rfl
  | @cons entry item entries items load _ ih =>
    rw [probeBatch, zip_cons_cons, takeProbes, probeSearchRecord_load never load, hits_cons, load]
    split_ifs with hit
    · rw [gather]
      simp only [bind, Except.bind]
      cases appendSearchHit request out total item with
      | none => rfl
      | some next => exact ih (position + 1) next.1 next.2
    · exact ih (position + 1) out total

theorem hits_append (front behind : List ClipItem) :
    hits cipher request (front ++ behind) = hits cipher request front ++ hits cipher request behind := filter_append ..

include never in
theorem scanBatches_gather (loads : Loads cipher clips entries items) (position : Nat) (out : List ClipItem) (total : Nat) :
    scanBatches cipher request clips position out total entries = .ok (gather request out total (hits cipher request items)).result := by
  induction length : entries.length using Nat.strong_induction_on generalizing entries items position out total with
  | _ n ih =>
    rw [scanBatches, never]
    simp only [Bool.false_eq_true, if_false]
    split_ifs with held
    · have front := forall₂_take PARALLEL_SEARCH_BATCH loads
      have behind := forall₂_drop PARALLEL_SEARCH_BATCH loads
      have whole := congrArg (hits cipher request) (take_append_drop PARALLEL_SEARCH_BATCH items)
      rw [takeProbes_gather never front, ← whole, hits_append, gather_append]
      cases gather request out total (hits cipher request (items.take PARALLEL_SEARCH_BATCH)) with
      | finished result => rfl
      | more out total =>
        refine ih (entries.drop PARALLEL_SEARCH_BATCH).length ?_ behind _ out total rfl
        have : 0 < PARALLEL_SEARCH_BATCH := by decide
        rw [length_drop]
        omega
    · have none' : entries = [] := length_eq_zero_iff.mp (by omega)
      subst none'
      cases loads
      rfl

include never in
theorem fallbackSearch_gather {store : ClipTables ρ} (loads : Loads cipher store.clips store.byTime.entries items) :
    fallbackSearch cipher request store = .ok (gather request [] 0 (hits cipher request items)).result := by
  have behind := forall₂_drop PARALLEL_SEARCH_PREFIX loads
  have whole := congrArg (hits cipher request) (take_append_drop PARALLEL_SEARCH_PREFIX items)
  rw [fallbackSearch, scanPrefix_gather never loads, ← whole, hits_append, gather_append]
  cases gather request [] 0 (hits cipher request (items.take PARALLEL_SEARCH_PREFIX)) with
  | finished result => rfl
  | more out total =>
    by_cases short : store.byTime.entries.length < PARALLEL_SEARCH_PREFIX
    · have none' : items.drop PARALLEL_SEARCH_PREFIX = [] := by
        rw [drop_eq_nil_iff, ← loads.length_eq]
        omega
      simp only [Scan.andThen, if_pos short, none']
      rfl
    · simp only [Scan.andThen, if_neg short]
      exact scanBatches_gather never behind _ out total

include never in
theorem indexedLoop_gather {query : QueryFilter} (settled : Settled cipher.unicode request.queryLower)
    (made : QueryFilter.new cipher.searchTokenHash request.queryLower = some query)
    {times : List (Text × Text)} {filters : List (Text × Filter)} (loads : Loads cipher clips times items)
    (keys : filters.map (·.1) = times.map (·.1)) (built : List.Forall₂ (fun entry item => entry.2 = cipher.filter item) filters items)
    (position : Nat) (out : List ClipItem) (total : Nat) : indexedLoop cipher request clips query position out total times filters =
      .ok (some (gather request out total (hits cipher request items)).result) := by
  induction loads generalizing filters position out total with
  | nil =>
    cases built
    rw [indexedLoop, never]
    rfl
  | @cons entry item times items load _ ih =>
    cases built with
    | @cons filterEntry _ filters _ own built =>
      obtain ⟨key, keys⟩ := List.cons.inj keys
      have length : filterEntry.2.length = SEARCH_FILTER_BYTES := by
        rw [own]
        exact (buildFilter_spec cipher.unicode cipher.searchTokenHash item).1
      have passes : clipMatchesQuery cipher.unicode item request.queryLower = true →
          query.mightMatch (cipher.filter item) = true := mightMatch_buildFilter settled made
      have test : (decide (entry.1 ≠ filterEntry.1) || decide (filterEntry.2.length ≠ SEARCH_FILTER_BYTES)) = false := by
        simp [length, show filterEntry.1 = entry.1 from key]
      rw [indexedLoop, never, hits_cons, test, load, own]
      by_cases hit : clipMatchesQuery cipher.unicode item request.queryLower = true
      · simp only [passes hit, Bool.not_true, Bool.false_eq_true, if_false, hit, if_true, gather, bind, Except.bind]
        cases appendSearchHit request out total item with
        | none => rfl
        | some next => exact ih keys built (position + 1) next.1 next.2
      have rest := ih keys built (position + 1) out total
      simp only [hit, if_false, Bool.false_eq_true, bind, Except.bind]
      split_ifs <;> exact rest

end

/-- The bytes of some clips, as they are added up. -/
def inlineBytes (items : List ClipItem) : Nat := min (items.map inlinePayloadBytes).sum U64_MAX

/-- The clips are within the limits. The first may be larger than the budget. -/
def Fits (request : SearchRequest) (items : List ClipItem) : Prop :=
  items.length ≤ request.limit ∧ (items = [] ∨ request.maxInlineBytes ≠ 0) ∧ (items.length ≤ 1 ∨ inlineBytes items ≤ request.maxInlineBytes)

theorem Fits.take {items : List ClipItem} {i j : Nat} (less : i ≤ j) (fits : Fits request (items.take j)) :
    Fits request (items.take i) := by
  have front : items.take i = (items.take j).take i := by rw [take_take, min_eq_left less]
  obtain ⟨limit, budget, bytes⟩ := fits
  have shorter : (items.take i).length ≤ (items.take j).length := by
    rw [front]
    exact length_take_le' _ _
  refine ⟨by omega, ?_, ?_⟩
  · rcases budget with none' | some'
    · left
      rw [front, none', take_nil]
    · exact .inr some'
  rcases bytes with single | small
  · omega
  have parts := congrArg (fun items => (items.map inlinePayloadBytes).sum) (take_append_drop i (items.take j))
  rw [← front] at parts
  simp only [map_append, sum_append] at parts
  rw [inlineBytes] at small ⊢
  omega

theorem appendSearchHit_eq (out : List ClipItem) (item : ClipItem) [Decidable (Fits request (out ++ [item]))] :
    appendSearchHit request out (inlineBytes out) item =
      if Fits request (out ++ [item]) then some (out ++ [item], inlineBytes (out ++ [item])) else none := by
  have bytes : min (inlineBytes out + inlinePayloadBytes item) U64_MAX = inlineBytes (out ++ [item]) := by
    simp only [inlineBytes, map_append, sum_append, map_cons, map_nil, sum_cons, sum_nil]
    omega
  rw [appendSearchHit, bytes]
  have same : (decide (out.length ≥ request.limit) || decide (request.maxInlineBytes = 0) ||
      (!out.isEmpty && decide (inlineBytes (out ++ [item]) > request.maxInlineBytes))) = true ↔
        ¬ Fits request (out ++ [item]) := by
    cases out with
    | nil | cons first out => simp [Fits]; omega

  by_cases fits : Fits request (out ++ [item])
  · rw [if_neg fun large => same.mp large fits, if_pos fits]
  · rw [if_pos (same.mpr fits), if_neg fits]

/-- The result is the longest prefix of the hits that fits, and says whether there are more. -/
def Longest (request : SearchRequest) (matching : List ClipItem) (result : ClipSearchResult) : Prop :=
  ∃ count, count ≤ matching.length ∧ result.items = matching.take count ∧ (result.truncated = true ↔ count < matching.length) ∧
    ∀ other ≤ matching.length, Fits request (matching.take other) ↔ other ≤ count

theorem gather_longest {taken : List ClipItem} (fits : Fits request taken) (later : List ClipItem) :
    Longest request (taken ++ later) (gather request taken (inlineBytes taken) later).result := by
  classical
  induction later generalizing taken with
  | nil =>
    rw [append_nil]
    refine ⟨taken.length, Nat.le_refl _, (take_length ..).symm, ?_, fun other small => ?_⟩
    · exact iff_of_false Bool.false_ne_true (Nat.lt_irrefl _)
    · refine iff_of_true (.take small ?_) small
      rwa [take_length]
  | cons item later ih =>
    rw [gather, appendSearchHit_eq]
    split_ifs with more
    · have rest := ih more
      rwa [append_assoc] at rest
    have front : (taken ++ item :: later).take taken.length = taken := take_left
    have next : (taken ++ item :: later).take (taken.length + 1) = taken ++ [item] := by
      rw [take_length_add_append, take_succ_cons, take_zero]
    refine ⟨taken.length, by simp, front.symm, by simp [Scan.result], fun other _ => ?_⟩
    constructor
    · intro fits
      by_contra beyond
      refine more ?_
      rw [← next]
      exact .take (by omega) fits
    · intro small
      refine .take small ?_
      rwa [front]

/-- The tables agree: each entry by time has its clip and the clip's filter. -/
structure Searchable (cipher : Cipher ρ) (store : ClipTables ρ) (items : List ClipItem) : Prop where
  loads : Loads cipher store.clips store.byTime.entries items
  keys : store.searchFilters.keys = store.byTime.keys
  filters : List.Forall₂ (fun entry item => entry.2 = cipher.filter item) store.searchFilters.entries items

theorem aligned {α β κ : Type} {f : α → κ} {g : β → κ} {rel : α → β → Prop} {xs : List α} {ys : List β}
    (same : xs.map f = ys.map g) (agree : ∀ x ∈ xs, ∀ y ∈ ys, f x = g y → rel x y) : List.Forall₂ rel xs ys := by
  induction xs generalizing ys with
  | nil =>
    rw [map_eq_nil_iff.mp same.symm]
    exact .nil
  | cons x xs ih =>
    cases ys with
    | nil => cases same
    | cons y ys =>
      obtain ⟨first, rest⟩ := List.cons.inj same
      refine .cons (agree x mem_cons_self y mem_cons_self first) (ih rest fun other mem clip mem' => ?_)
      exact agree other (mem_cons_of_mem x mem) clip (mem_cons_of_mem y mem')

theorem represents_searchable {store : ClipTables ρ} {history : History} (rep : Represents cipher store history) :
    ∃ items, Searchable cipher store items := by
  obtain ⟨items, listed⟩ := listed_exists rep
  have keys : store.searchFilters.keys = store.byTime.keys := filters_keys rep
  refine ⟨items, listed.imp fun entry item own => loadIndexedClip_held rep own.1 entry.1, keys, ?_⟩
  refine aligned (keys.trans listed.keys.symm) fun entry mem item own same => ?_
  obtain ⟨uuid, held⟩ := listed.held item own
  obtain ⟨other, clip, held', key, filter⟩ := (rep.filters entry.1 entry.2).mp (Table.get_eq_some.mpr mem)
  have alike := rep.key_inj held held' (same.symm.trans key.symm)
  rw [alike, held'] at held
  cases held
  exact filter.symm

theorem stores_searchable (cipher : Cipher ρ) (ready : Bool) (ops : List (Op ρ)) :
    ∀ store ∈ stores cipher (.empty ready) ops, ∃ items, Searchable cipher store items := by
  intro store mem
  obtain ⟨history, rep⟩ := stores_represents (represents_empty ready) ops store mem
  exact represents_searchable rep

theorem indexedSearch_gather {store : ClipTables ρ} {items : List ClipItem}
    (searchable : Searchable cipher store items) (never : ∀ position, request.cancelled position = false)
    (settled : Settled cipher.unicode request.queryLower) {filter : QueryFilter}
    (made : QueryFilter.new cipher.searchTokenHash request.queryLower = some filter) :
    indexedSearch cipher request store filter = .ok (some (gather request [] 0 (hits cipher request items)).result) := by
  have lengths : store.byTime.entries.length = store.searchFilters.entries.length := by
    have := congrArg List.length searchable.keys
    simpa [Table.keys] using this.symm
  rw [indexedSearch, if_neg (not_not.mpr lengths)]
  exact indexedLoop_gather never settled made searchable.loads searchable.keys searchable.filters 0 [] 0

/-- A search that is not cancelled gives the longest prefix that fits of the clips that match, by recency,
    with the index and without it; and the index filters out no clip that matches, under any hash. -/
theorem search_longest {store : ClipTables ρ} {items : List ClipItem} (searchable : Searchable cipher store items)
    (query : Text) (limit maxInlineBytes : Nat) :
    let request : SearchRequest := ⟨toLowercase cipher.unicode (trim query), limit, maxInlineBytes, fun _ => false⟩
    ∃ result, Longest request (hits cipher request items) result ∧ fallbackSearch cipher request store = .ok result ∧
      ∀ filter, QueryFilter.new cipher.searchTokenHash request.queryLower = some filter →
        indexedSearch cipher request store filter = .ok (some result) ∧
          ∀ item, clipMatchesQuery cipher.unicode item request.queryLower = true →
            filter.mightMatch (cipher.filter item) = true := by
  intro request
  have settled : Settled cipher.unicode request.queryLower := toLowercase_settled cipher.unicode (trim query)
  have none' : Fits request [] := ⟨Nat.zero_le _, .inl rfl, .inl (Nat.zero_le 1)⟩
  refine ⟨_, gather_longest none' (hits cipher request items), fallbackSearch_gather (fun _ => rfl) searchable.loads,
    fun filter made => ⟨?_, fun item found => mightMatch_buildFilter settled made found⟩⟩
  exact indexedSearch_gather searchable (fun _ => rfl) settled made

end

def pairSample : ClipItem := { firstSample with text := some ['x', 'x'] }

/-- The store with one clip. -/
def pairStore : ClipTables ClipItem := (Op.save pairSample).next plainCipher (.empty true)

theorem pairStore_searchable : Searchable plainCipher pairStore [pairSample] where
  loads := .cons rfl .nil
  keys := rfl
  filters := .cons rfl .nil

theorem search_longest_pair : ∃ result, Longest ⟨toLowercase asciiUnicode (trim ['X']), 5, 9, fun _ => false⟩
        (hits plainCipher ⟨toLowercase asciiUnicode (trim ['X']), 5, 9, fun _ => false⟩ [pairSample]) result ∧
      fallbackSearch plainCipher ⟨toLowercase asciiUnicode (trim ['X']), 5, 9, fun _ => false⟩ pairStore = .ok result := by
  obtain ⟨result, longest, found, -⟩ := search_longest pairStore_searchable ['X'] 5 9
  exact ⟨result, longest, found⟩

/-- The first clip that matches is given even when it is over the budget. -/
theorem search_over_budget : ¬ ∀ (store : ClipTables ClipItem) (items : List ClipItem), Searchable plainCipher store items →
    ∀ (query : Text) (limit maxInlineBytes : Nat) (result : ClipSearchResult),
      fallbackSearch plainCipher ⟨toLowercase asciiUnicode (trim query), limit, maxInlineBytes, fun _ => false⟩ store =
        .ok result → inlineBytes result.items ≤ maxInlineBytes := by
  intro law
  have found := @fallbackSearch_gather _ plainCipher
    ⟨toLowercase asciiUnicode (trim ['x']), 5, 1, fun _ => false⟩ (fun _ => rfl) _ _ pairStore_searchable.loads
  have small := law pairStore [pairSample] pairStore_searchable ['x'] 5 1 _ found
  exact absurd small (by decide)

end Ramag.ClipSearch
