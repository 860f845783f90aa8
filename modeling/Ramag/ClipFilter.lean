import Ramag.DataSyncGate
import Ramag.ByteTexts
import Mathlib.Data.List.Forall2

/-!
The search filter of a clip: a Bloom filter of the three-byte windows of its
texts in lower case, under a keyed hash. A clip that matches a query is never
filtered out (`mightMatch_buildFilter`).
-/
namespace Ramag.ClipFilter
open Strings ByteTexts List
open DataSyncGate (saturatingAdd)

/-- What the standard library knows of the characters: their lower case, and the two properties that decide
    the lower case of a sigma. -/
structure Unicode where
  toLower : Char → Text
  isCased : Char → Bool
  isCaseIgnorable : Char → Bool
  ascii : ∀ c, c.toNat < 128 → toLower c = [c.toLower]
  stable : ∀ c, ∀ d ∈ toLower c, toLower d = [d] ∧ d ≠ 'Σ'
  sigma : toLower 'σ' = ['σ'] ∧ toLower 'ς' = ['ς']

/-- The lower case of the ASCII letters and of a sigma, and no other. -/
def asciiUnicode : Unicode where
  toLower c := if c.toNat < 128 then [c.toLower] else if c = 'Σ' then ['σ'] else [c]
  isCased := Char.isAlpha
  isCaseIgnorable c := c = '.'
  ascii c small := if_pos small
  stable c d mem := by
    have lower : ∀ n : Fin 128, (Char.ofNat n.val).toLower.toNat < 128 ∧
        (Char.ofNat n.val).toLower.toLower = (Char.ofNat n.val).toLower ∧ (Char.ofNat n.val).toLower ≠ 'Σ' := by decide
    split_ifs at mem with small sigma
    · rw [List.mem_singleton.mp mem]
      obtain ⟨below, same, other⟩ := lower ⟨c.toNat, small⟩
      rw [Char.ofNat_toNat] at below same other
      exact ⟨by rw [if_pos below, same], other⟩
    · rw [List.mem_singleton.mp mem]
      decide
    · rw [List.mem_singleton.mp mem, if_neg small, if_neg sigma]
      exact ⟨rfl, sigma⟩
  sigma := by decide

def caseIgnorableThenCased (u : Unicode) (t : Text) : Bool :=
  match t.dropWhile u.isCaseIgnorable with
  | c :: _ => u.isCased c
  | [] => false

/-- A sigma at the end of a word has a lower case of its own. -/
def mapUppercaseSigma (u : Unicode) (before after : Text) : Char :=
  if caseIgnorableThenCased u before && !caseIgnorableThenCased u after then 'ς' else 'σ'

/-- The lower case of a text behind the given one, which is read backwards. -/
def lowercaseBehind (u : Unicode) (before : Text) : Text → Text
  | [] => []
  | c :: t => (if c = 'Σ' then [mapUppercaseSigma u before t] else u.toLower c) ++ lowercaseBehind u (c :: before) t

/-- `str::to_lowercase` -/
def toLowercase (u : Unicode) (t : Text) : Text := lowercaseBehind u [] t

/-- `u8::to_ascii_lowercase` -/
def byteToAsciiLowercase (b : UInt8) : UInt8 := if 65 ≤ b.toNat ∧ b.toNat ≤ 90 then b + 32 else b

def bytesEqIgnoreAsciiCase (s t : List UInt8) : Bool := s.map byteToAsciiLowercase == t.map byteToAsciiLowercase

def isAscii (t : Text) : Bool := t.all fun c => decide (c.toNat < 128)

def containsCaseInsensitive (u : Unicode) (text queryLower : Text) : Bool :=
  if queryLower = [] then true
  else if queryLower <:+: text then true
  else if isAscii queryLower then
    (windows (asBytes queryLower).length (asBytes text)).any (bytesEqIgnoreAsciiCase · (asBytes queryLower))
  else decide (queryLower <:+: toLowercase u text)

/-- The text of a UUID. -/
structure ClipId where
  text : Text
  held : text ≠ []
  plain : ∀ c ∈ text, c.isDigit ∨ (97 ≤ c.toNat ∧ c.toNat ≤ 102) ∨ c = '-'
  deriving DecidableEq

/-- A time in nanoseconds since 1970. Its milliseconds fit an `i64`. -/
structure DateTime where
  nanos : Int
  small : nanos < 2 ^ 63 * 1000000
  deriving DecidableEq

theorem epoch_small : (0 : Int) < 2 ^ 63 * 1000000 := by decide

structure ClipItem where
  id : ClipId
  text : Option Text
  rtf : Option (List UInt8)
  imagePath : Option Text
  thumbPath : Option Text
  files : List Text
  preview : Text
  contentHash : Text
  lastUsedAt : DateTime
  deriving DecidableEq

def inlinePayloadBytes (item : ClipItem) : Nat :=
  let text := (item.text.map byteLen).getD 0
  let rtf := (item.rtf.map List.length).getD 0
  let files := item.files.foldl (fun total path => saturatingAdd total (byteLen path)) 0
  saturatingAdd (saturatingAdd text rtf) files

def clipMatchesQuery (u : Unicode) (item : ClipItem) (queryLower : Text) : Bool :=
  containsCaseInsensitive u item.preview queryLower || item.text.any (containsCaseInsensitive u · queryLower)

def SEARCH_FILTER_BYTES : Nat := 256
def SEARCH_FILTER_BITS : Nat := SEARCH_FILTER_BYTES * 8
def SEARCH_GRAM_BYTES : Nat := 3
def MAX_FILTERABLE_TEXT_BYTES : Nat := 1024 * 1024

abbrev Filter := List UInt8

def hashPositions (hash : UInt64) : List Nat :=
  [0, 16, 32, 48].map fun shift => hash.toNat >>> shift &&& (SEARCH_FILTER_BITS - 1)

/-- The positions of the windows of some bytes, under `Cipher::search_token_hash`. -/
def gramPositions (tokenHash : List UInt8 → UInt64) (bytes : List UInt8) : List Nat :=
  (windows SEARCH_GRAM_BYTES bytes).flatMap fun gram => hashPositions (tokenHash gram)

structure QueryFilter where
  positions : List Nat

def QueryFilter.new (tokenHash : List UInt8 → UInt64) (queryLower : Text) : Option QueryFilter :=
  if byteLen queryLower < SEARCH_GRAM_BYTES then none
  else some ⟨(List.range SEARCH_FILTER_BITS).filter fun position =>
    decide (position ∈ gramPositions tokenHash (asBytes queryLower))⟩

/-- `1 << (position % 8)` -/
def positionBit (position : Nat) : UInt8 := 1 <<< (position % 8).toUInt8

def QueryFilter.mightMatch (query : QueryFilter) (filter : Filter) : Bool :=
  decide (filter.length = SEARCH_FILTER_BYTES) &&
    query.positions.all fun position => filter.getD (position / 8) 0 &&& positionBit position != 0

def setPosition (filter : Filter) (position : Nat) : Filter :=
  filter.modify (position / 8) (· ||| positionBit position)

def insertText (u : Unicode) (tokenHash : List UInt8 → UInt64) (filter : Filter) (text : Text) : Filter :=
  (gramPositions tokenHash (asBytes (toLowercase u text))).foldl setPosition filter

def buildFilter (u : Unicode) (tokenHash : List UInt8 → UInt64) (item : ClipItem) : Filter :=
  let textBytes := (item.text.map byteLen).getD 0
  if saturatingAdd (byteLen item.preview) textBytes > MAX_FILTERABLE_TEXT_BYTES then
    List.replicate SEARCH_FILTER_BYTES 255
  else
    let filter := insertText u tokenHash (List.replicate SEARCH_FILTER_BYTES 0) item.preview
    match item.text with
    | some text => insertText u tokenHash filter text
    | none => filter

/-- A word in the lower case that each of its characters has by itself. -/
def Spells (u : Unicode) : Text → Text → Prop := List.Forall₂ fun c d => c ≠ 'Σ' ∧ u.toLower c = [d]

/-- A text that is in lower case already. -/
def Settled (u : Unicode) (t : Text) : Prop := ∀ c ∈ t, c ≠ 'Σ' ∧ u.toLower c = [c]

theorem lowercaseBehind_settled (u : Unicode) (t : Text) (before : Text) : Settled u (lowercaseBehind u before t) := by
  induction t generalizing before with
  | nil => exact nofun
  | cons c t ih =>
    refine forall_mem_append.mpr ⟨?_, ih (c :: before)⟩
    split_ifs with sigma
    · rw [forall_mem_singleton, mapUppercaseSigma]
      split_ifs
      · exact ⟨by decide, u.sigma.2⟩
      · exact ⟨by decide, u.sigma.1⟩
    · intro d mem
      obtain ⟨stable, other⟩ := u.stable c d mem
      exact ⟨other, stable⟩

theorem toLowercase_settled (u : Unicode) (t : Text) : Settled u (toLowercase u t) := lowercaseBehind_settled u t []

variable {u : Unicode}

theorem settled_spells {t : Text} (settled : Settled u t) : Spells u t t :=
  forall₂_same.mpr settled

variable {word : Text}

theorem lowercaseBehind_word {lower : Text} (spells : Spells u word lower) (before after : Text) :
    ∃ back, lowercaseBehind u before (word ++ after) = lower ++ back := by
  induction spells generalizing before with
  | nil => exact ⟨_, rfl⟩
  | @cons c d word lower own _ ih =>
    obtain ⟨back, rest⟩ := ih (c :: before)
    refine ⟨back, ?_⟩
    rw [cons_append, lowercaseBehind, if_neg own.1, own.2, rest]
    rfl

theorem toLowercase_within {lower : Text} (spells : Spells u word lower) {text : Text}
    (inside : word <:+: text) : lower <:+: toLowercase u text := by
  obtain ⟨front, after, rfl⟩ := inside
  rw [toLowercase]
  generalize [] = before
  induction front generalizing before with
  | nil =>
    obtain ⟨back, rest⟩ := lowercaseBehind_word spells before after
    exact ⟨[], back, by simpa using rest.symm⟩
  | cons c front ih => exact (ih (c :: before)).trans (suffix_append _ _).isInfix

theorem lower_byte {c : Char} (small : c.toNat < 128) :
    byteToAsciiLowercase c.toNat.toUInt8 = c.toLower.toNat.toUInt8 ∧ c.toLower.toNat < 128 := by
  have all : ∀ n : Fin 128, byteToAsciiLowercase n.val.toUInt8 = (Char.ofNat n.val).toLower.toNat.toUInt8 ∧
      (Char.ofNat n.val).toLower.toNat < 128 := by decide
  simpa using all ⟨c.toNat, small⟩

theorem ascii_byte_inj {c d : Char} (small : c.toNat < 128) (small' : d.toNat < 128)
    (same : c.toNat.toUInt8 = d.toNat.toUInt8) : c = d := by
  have numbers : c.toNat % 256 = d.toNat % 256 := congrArg UInt8.toNat same
  have : c.toNat = d.toNat := by omega
  rw [← Char.ofNat_toNat c, this, Char.ofNat_toNat]

theorem ascii_spells {query : Text} (ascii : ∀ c ∈ word, c.toNat < 128) (ascii' : ∀ c ∈ query, c.toNat < 128) (settled : Settled u query)
    (same : bytesEqIgnoreAsciiCase (asBytes word) (asBytes query) = true) : Spells u word query := by
  rw [bytesEqIgnoreAsciiCase, asBytes_ascii ascii, asBytes_ascii ascii', beq_iff_eq, map_map, map_map] at same
  induction word generalizing query with
  | nil =>
    cases query with
    | nil => exact .nil
    | cons d query => cases same
  | cons c word ih =>
    cases query with
    | nil => cases same
    | cons d query =>
      rw [forall_mem_cons] at ascii ascii'
      obtain ⟨own, settled⟩ := forall_mem_cons.mp settled
      obtain ⟨first, rest⟩ := List.cons.inj same
      refine .cons ⟨?_, ?_⟩ (ih ascii.2 ascii'.2 settled rest)
      · rintro rfl
        exact absurd ascii.1 (by decide)
      have lower : c.toLower = d.toLower := by
        obtain ⟨left, small⟩ := lower_byte ascii.1
        obtain ⟨right, small'⟩ := lower_byte ascii'.1
        exact ascii_byte_inj small small' (by rw [← left, ← right]; exact first)
      rw [u.ascii c ascii.1, lower, ← u.ascii d ascii'.1, own.2]

theorem containsCaseInsensitive_lower {text query : Text} (settled : Settled u query)
    (found : containsCaseInsensitive u text query = true) : query <:+: toLowercase u text := by
  rw [containsCaseInsensitive] at found
  split_ifs at found with empty inside ascii
  · rw [empty]
    exact nil_infix
  · exact toLowercase_within (settled_spells settled) inside
  · have small : ∀ c ∈ query, c.toNat < 128 := by simpa [isAscii] using ascii
    have held : 0 < (asBytes query).length := by
      rw [asBytes_length]
      exact (length_pos_iff.mpr empty).trans_le (length_le_byteLen query)
    obtain ⟨window, mem, same⟩ := any_eq_true.mp found
    obtain ⟨inside, length⟩ := (mem_windows held).mp mem
    have low : ∀ b ∈ window, b.toNat < 128 := by
      intro b mem
      rw [bytesEqIgnoreAsciiCase, beq_iff_eq, asBytes_ascii small, map_map] at same
      have lowered : byteToAsciiLowercase b ∈ window.map byteToAsciiLowercase := mem_map_of_mem mem
      rw [same] at lowered
      obtain ⟨c, own, equal⟩ := mem_map.mp lowered
      obtain ⟨byte, below⟩ := lower_byte (small c own)
      rw [Function.comp_apply, byte] at equal
      have number : c.toLower.toNat % 256 = (byteToAsciiLowercase b).toNat := congrArg UInt8.toNat equal
      unfold byteToAsciiLowercase at number
      split_ifs at number <;> omega
    have some' : window ≠ [] := by
      rintro rfl
      exact absurd length (Nat.ne_of_lt held)
    obtain ⟨front, word, back, rfl, bytes, ascii⟩ := ascii_run some' low inside
    refine toLowercase_within (ascii_spells ascii small settled (by rw [bytes]; exact same)) ?_
    exact ⟨front, back, rfl⟩
  · simpa using found

/-! ### Positions in a filter -/

def Holds (filter : Filter) (position : Nat) : Prop := filter.getD (position / 8) 0 &&& positionBit position ≠ 0

theorem setPosition_length (filter : Filter) (position : Nat) : (setPosition filter position).length = filter.length :=
  length_modify _ _ _

theorem byte_or_and (byte other bit : UInt8) : (byte ||| other) &&& bit = (byte &&& bit) ||| (other &&& bit) := by
  rw [← UInt8.toBitVec_inj]
  exact BitVec.and_or_distrib_right

variable {filter : Filter} {position : Nat}

theorem setPosition_keeps (other : Nat) (holds : Holds filter position) : Holds (setPosition filter other) position := by
  unfold Holds setPosition at *
  rw [getD_eq_getElem?_getD] at holds ⊢
  rw [getElem?_modify]
  rcases byte : filter[position / 8]? with _ | byte
  · rw [byte] at holds
    exact holds
  rw [byte] at holds
  simp only [Option.map_eq_map, Option.map_some, Option.getD_some] at holds ⊢
  split_ifs with same
  · rw [byte_or_and]
    intro none'
    exact holds (UInt8.or_eq_zero_iff.mp none').1
  · exact holds

theorem positionBit_ne (position : Nat) : positionBit position ≠ 0 := by
  have all : ∀ n : Fin 8, (1 : UInt8) <<< n.val.toUInt8 ≠ 0 := by decide
  exact all ⟨position % 8, Nat.mod_lt _ (by decide)⟩

theorem setPosition_holds (inside : position / 8 < filter.length) : Holds (setPosition filter position) position := by
  unfold Holds setPosition
  rw [getD_eq_getElem?_getD, getElem?_modify, getElem?_eq_getElem inside]
  simp only [if_true, Option.map_eq_map, Option.map_some, Option.getD_some]
  rw [byte_or_and, UInt8.and_self]
  intro none'
  exact positionBit_ne position (UInt8.or_eq_zero_iff.mp none').2

theorem setPositions_length (positions : List Nat) (filter : Filter) : (positions.foldl setPosition filter).length = filter.length := by
  induction positions generalizing filter with
  | nil => rfl
  | cons position positions ih => rw [foldl_cons, ih, setPosition_length]

theorem setPositions_holds {positions : List Nat} (inside : position / 8 < filter.length)
    (held : position ∈ positions ∨ Holds filter position) : Holds (positions.foldl setPosition filter) position := by
  induction positions generalizing filter with
  | nil => simpa using held
  | cons other positions ih =>
    refine ih (by rwa [setPosition_length]) ?_
    rcases held with mem | holds
    · rcases mem_cons.mp mem with rfl | later
      · exact .inr (setPosition_holds inside)
      · exact .inl later
    · exact .inr (setPosition_keeps other holds)

theorem buildFilter_spec (u : Unicode) (tokenHash : List UInt8 → UInt64) (item : ClipItem) :
    (buildFilter u tokenHash item).length = SEARCH_FILTER_BYTES ∧
      ∀ text, (text = item.preview ∨ item.text = some text) → ∀ position, position < SEARCH_FILTER_BITS →
        position ∈ gramPositions tokenHash (asBytes (toLowercase u text)) → Holds (buildFilter u tokenHash item) position := by
  rw [buildFilter]
  split_ifs with large
  · refine ⟨length_replicate, fun text _ position bound _ => ?_⟩
    have inside : position / 8 < SEARCH_FILTER_BYTES := by
      simp only [SEARCH_FILTER_BITS] at bound
      omega
    rw [Holds, getD_eq_getElem?_getD, getElem?_replicate, if_pos inside]
    have all : ∀ n : Fin 8, (255 : UInt8) &&& (1 <<< n.val.toUInt8) ≠ 0 := by decide
    exact all ⟨position % 8, Nat.mod_lt _ (by decide)⟩
  · have bound {position : Nat} (small : position < SEARCH_FILTER_BITS) : position / 8 < SEARCH_FILTER_BYTES := by
      simp only [SEARCH_FILTER_BITS] at small
      omega
    have empty : (List.replicate SEARCH_FILTER_BYTES (0 : UInt8)).length = SEARCH_FILTER_BYTES := length_replicate
    cases stored : item.text with
    | none =>
      refine ⟨by rw [insertText, setPositions_length, empty], ?_⟩
      rintro text (rfl | same) position small mem
      · exact setPositions_holds (by rw [empty]; exact bound small) (.inl mem)
      · cases same
    | some body =>
      refine ⟨?_, ?_⟩
      · change (insertText u tokenHash (insertText u tokenHash _ _) body).length = _
        rw [insertText, setPositions_length, insertText, setPositions_length, empty]
      rintro text (rfl | same) position small mem
      · refine setPositions_holds ?_ (.inr (setPositions_holds ?_ (.inl mem)))
        · rw [insertText, setPositions_length, empty]
          exact bound small
        · rw [empty]
          exact bound small
      · cases same
        refine setPositions_holds ?_ (.inl mem)
        rw [insertText, setPositions_length, empty]
        exact bound small

variable {tokenHash : List UInt8 → UInt64}

theorem QueryFilter.new_positions {queryLower : Text} {query : QueryFilter}
    (made : QueryFilter.new tokenHash queryLower = some query) (mem : position ∈ query.positions) :
    position < SEARCH_FILTER_BITS ∧ position ∈ gramPositions tokenHash (asBytes queryLower) := by
  rw [QueryFilter.new] at made
  split_ifs at made
  rw [← Option.some.inj made] at mem
  simp only [mem_filter, mem_range, decide_eq_true_eq] at mem
  exact mem

/-- No false negatives: a clip that matches a query passes the query's filter, under any hash. -/
theorem mightMatch_buildFilter {item : ClipItem} {queryLower : Text}
    {query : QueryFilter} (settled : Settled u queryLower) (made : QueryFilter.new tokenHash queryLower = some query)
    (found : clipMatchesQuery u item queryLower = true) : query.mightMatch (buildFilter u tokenHash item) = true := by
  obtain ⟨length, holds⟩ := buildFilter_spec u tokenHash item
  rw [QueryFilter.mightMatch, Bool.and_eq_true, decide_eq_true_eq, all_eq_true]
  refine ⟨length, fun position mem => ?_⟩
  obtain ⟨small, own⟩ := QueryFilter.new_positions made mem
  obtain ⟨gram, window, hashed⟩ := mem_flatMap.mp own
  have ⟨text, stored, inside⟩ : ∃ text, (text = item.preview ∨ item.text = some text) ∧ queryLower <:+: toLowercase u text := by
    rw [clipMatchesQuery, Bool.or_eq_true] at found
    rcases found with preview | body
    · exact ⟨item.preview, .inl rfl, containsCaseInsensitive_lower settled preview⟩
    · obtain ⟨text, same, body⟩ := (Option.any_eq_true _ _).mp body
      exact ⟨text, .inr same, containsCaseInsensitive_lower settled body⟩
  have positions : position ∈ gramPositions tokenHash (asBytes (toLowercase u text)) :=
    mem_flatMap.mpr ⟨gram, windows_within (by decide) (asBytes_within inside) window, hashed⟩
  exact bne_iff_ne.mpr (holds text stored position small positions)

end Ramag.ClipFilter
