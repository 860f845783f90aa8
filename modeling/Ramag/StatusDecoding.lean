import Ramag.PorcelainStatus

/-!
The reader of the workspace status accepts exactly the records of headers and
entries (`readRecords_ok`). From this follows that what git prints is read back,
and that a result leaves nothing of the output out (`status_decoding`).
-/
namespace Ramag.StatusDecoding
open Strings Domain Fields ByteTexts Utf8Decoding PorcelainStatus List
open UnifiedDiff (MAX_GIT_RECORD_BYTES MAX_PARSED_GIT_ITEMS MAX_GIT_PATH_BYTES MAX_GIT_PATH_DEPTH
  ensureGitListRoom validateOutputPath validatePathArg ensureGitListRoom_ok validateOutputPath_ok validatePathArg_ok)
open StatusMerge (FileChangeKind FileStatus)
open MysqlLexer (isHexDigit)

/-- The letter of a change in a status code. -/
def kindCode : Option FileChangeKind → Char
  | none => '.'
  | some .Modified => 'M'
  | some .Added => 'A'
  | some .Deleted => 'D'
  | some .Renamed => 'R'
  | some .Copied => 'C'
  | some .TypeChanged => 'T'
  | some .Conflicted => 'U'
  | some .Untracked => '?'

variable {α : Type}

theorem orError_ok {value : Option α} {error : DomainError} {result : α} : orError value error = .ok result ↔ value = some result := by
  cases value <;> simp [orError]

theorem codeToKind_kindCode (kind : Option FileChangeKind) (index : Nat) : codeToKind (kindCode kind) index = .ok kind := by
  rcases kind with _ | kind
  · rfl
  · cases kind <;> rfl

variable {index : Nat}

theorem codeToKind_ok {c : Char} (dark : c ≠ ' ') {kind : Option FileChangeKind} : codeToKind c index = .ok kind ↔ c = kindCode kind := by
  constructor
  · intro known
    unfold codeToKind at known
    split at known
    case h_1 => exact absurd rfl dark
    case h_11 => cases known
    all_goals
      cases known
      rfl
  · rintro rfl
    exact codeToKind_kindCode kind index

theorem parseXy_codes (staged unstaged : Option FileChangeKind) (index : Nat) :
    parseXy [kindCode staged, kindCode unstaged] index = .ok (staged, unstaged) := by
  have ascii : ∀ kind, (kindCode kind).utf8Size = 1 ∧ (kindCode kind).toNat < 128 := by
    rintro (_ | kind)
    · decide
    · cases kind <;> decide
  have small : ¬ (byteLen [kindCode staged, kindCode unstaged] ≠ 2 ∨
      ¬ [kindCode staged, kindCode unstaged].all (·.toNat < 128)) := by
    simp [ascii staged, ascii unstaged]
  rw [parseXy, if_neg small]
  simp only [bind_ok_iff]
  exact ⟨_, rfl, _, rfl, _, codeToKind_kindCode _ _, _, codeToKind_kindCode _ _, rfl⟩

theorem parseXy_ok {xy : Text} (dark : ' ' ∉ xy) {staged unstaged : Option FileChangeKind} :
    parseXy xy index = .ok (staged, unstaged) ↔ xy = [kindCode staged, kindCode unstaged] := by
  constructor
  · intro known
    unfold parseXy at known
    split at known
    case isTrue => cases known
    case isFalse small =>
      simp only [bind_ok_iff, orError_ok] at known
      obtain ⟨x, atX, y, atY, staged', first, unstaged', second, same⟩ := known
      cases same
      have two : xy.length ≤ 2 := by
        have := length_le_byteLen xy
        omega
      match xy, two with
      | [a, b], _ =>
        cases atX
        cases atY
        simp only [mem_cons, not_mem_nil, or_false, not_or] at dark
        rw [codeToKind_ok (Ne.symm dark.1)] at first
        rw [codeToKind_ok (Ne.symm dark.2)] at second
        rw [first, second]
  · rintro rfl
    exact parseXy_codes staged unstaged index

/-! ### Records of entries -/

/-- A record of an entry that is tracked: the parts before the path end with a space. -/
def tagged (tag : Char) (staged unstaged : Option FileChangeKind) (fields : List Text) (path : Text) : Text :=
  ([tag] :: [kindCode staged, kindCode unstaged] :: fields).flatMap (· ++ [' ']) ++ path

theorem kindCode_dark (kind : Option FileChangeKind) : kindCode kind ≠ ' ' := by
  rcases kind with _ | kind
  · decide
  · cases kind <;> decide

/-- As many fields between the code and the path as git prints, none with a space. -/
def FieldsSound (count : Nat) (fields : List Text) : Prop := fields.length = count ∧ ∀ field ∈ fields, ' ' ∉ field

variable {count : Nat}

theorem tagged_iff {tag : Char} (dark : tag ≠ ' ') {index : Nat} {text path : Text} {staged unstaged : Option FileChangeKind} :
    (¬ ((splitN ' ' (count + 3) text).length ≠ count + 3 ∨ (splitN ' ' (count + 3) text).getD 0 [] ≠ [tag]) ∧
      (splitN ' ' (count + 3) text).getD (count + 2) [] = path ∧
      parseXy ((splitN ' ' (count + 3) text).getD 1 []) index = .ok (staged, unstaged)) ↔
    ∃ fields, text = tagged tag staged unstaged fields path ∧ FieldsSound count fields := by
  rw [not_or, not_not, not_not]
  constructor
  · rintro ⟨⟨full, first⟩, rfl, codes⟩
    obtain ⟨parts, rest, length, free, rfl⟩ := parts_of_splitN full
    have cut := splitN_parts free rest
    rw [length] at cut
    rw [cut] at first codes ⊢
    match parts, length with
    | a :: xy :: fields, length =>
      simp only [forall_mem_cons] at free
      cases first
      have spelled := (parseXy_ok free.2.1).mp codes
      refine ⟨fields, ?_, by simpa using length, free.2.2⟩
      have last : (([tag] :: xy :: fields) ++ [rest]).getD (count + 2) [] = rest := by
        rw [← length]
        simp
      rw [last, tagged, ← spelled]
  · rintro ⟨fields, rfl, rfl, free⟩
    have every : ∀ part ∈ [tag] :: [kindCode staged, kindCode unstaged] :: fields, ' ' ∉ part := by
      rw [forall_mem_cons, forall_mem_cons]
      refine ⟨by simpa using Ne.symm dark, ?_, free⟩
      simp [Ne.symm (kindCode_dark staged), Ne.symm (kindCode_dark unstaged)]
    have cut : splitN ' ' (fields.length + 3) (tagged tag staged unstaged fields path) =
        [tag] :: [kindCode staged, kindCode unstaged] :: (fields ++ [path]) := splitN_parts every path
    rw [cut]
    exact ⟨by simp, by simp, parseXy_codes staged unstaged index⟩

/-- A path that the reader takes. -/
def PathAccepted (path : Text) : Prop :=
  path ≠ [] ∧ byteLen path ≤ MAX_GIT_PATH_BYTES ∧ '\x00' ∉ path ∧ path.count '/' + 1 ≤ MAX_GIT_PATH_DEPTH

theorem validate_ok {path label : Text} {value : Unit} : validateOutputPath path label index = .ok value ↔ PathAccepted path :=
  validateOutputPath_ok.trans validatePathArg_ok

inductive Entry
  | ordinary (staged unstaged : Option FileChangeKind) (fields : List Text) (path : Text)
  | renamed (staged unstaged : Option FileChangeKind) (fields : List Text) (path oldPath : Text)
  | untracked (path : Text)
  | unmerged (staged unstaged : Option FileChangeKind) (fields : List Text) (path : Text)

namespace Entry

/-- The records of the entry, one or two. -/
def texts : Entry → List Text
  | ordinary staged unstaged fields path => [tagged '1' staged unstaged fields path]
  | renamed staged unstaged fields path oldPath => [tagged '2' staged unstaged fields path, oldPath]
  | untracked path => ["? " ++ path]
  | unmerged staged unstaged fields path => [tagged 'u' staged unstaged fields path]

def file : Entry → FileStatus
  | ordinary staged unstaged _ path => ⟨path, none, staged, unstaged⟩
  | renamed staged unstaged _ path oldPath => ⟨path, some oldPath, staged, unstaged⟩
  | untracked path => ⟨path, none, none, some .Untracked⟩
  | unmerged _ _ _ path => ⟨path, none, some .Conflicted, some .Conflicted⟩

def Sound : Entry → Prop
  | ordinary _ _ fields path => FieldsSound 6 fields ∧ PathAccepted path
  | renamed _ _ fields path oldPath => FieldsSound 7 fields ∧ PathAccepted path ∧ PathAccepted oldPath
  | untracked path => PathAccepted path
  | unmerged _ _ fields path => FieldsSound 8 fields ∧ PathAccepted path

end Entry

open Entry

variable {record : List UInt8}

theorem decodeStatusRecord_ok {text : Text} : decodeStatusRecord record index = .ok text ↔ record = asBytes text := by
  rw [decodeStatusRecord, orError_ok, decode_eq_some]

variable {file : FileStatus}

theorem unless_ok {c : Prop} [Decidable c] {error : DomainError} {x : Result FileStatus} :
    (if c then .error error else x) = .ok file ↔ ¬ c ∧ x = .ok file := by
  split <;> simp_all

theorem parseOrdinary_ok (index : Nat) : parseOrdinary record index = .ok file ↔ ∃ staged unstaged fields path,
      record = asBytes (tagged '1' staged unstaged fields path) ∧ FieldsSound 6 fields ∧ PathAccepted path ∧
        file = ⟨path, none, staged, unstaged⟩ := by
  simp only [parseOrdinary, bind_ok_iff, decodeStatusRecord_ok, unless_ok, validate_ok]
  constructor
  · rintro ⟨text, rfl, shape, -, -, accepted, ⟨staged, unstaged⟩, codes, same⟩
    obtain ⟨fields, spelled, sound⟩ := (tagged_iff (show '1' ≠ ' ' by decide)).mp ⟨shape, rfl, codes⟩
    exact ⟨staged, unstaged, fields, _, congrArg asBytes spelled, sound, accepted, (Except.ok.inj same).symm⟩
  rintro ⟨staged, unstaged, fields, path, rfl, sound, accepted, rfl⟩
  obtain ⟨shape, last, codes⟩ := (tagged_iff (show '1' ≠ ' ' by decide)).mpr ⟨fields, rfl, sound⟩
  refine ⟨_, rfl, shape, ?_⟩
  rw [last]
  exact ⟨by simpa using accepted.1, (), accepted, _, codes, rfl⟩

theorem parseRename_ok {record old : List UInt8} (index : Nat) :
    parseRename record old index = .ok file ↔ ∃ staged unstaged fields path oldPath,
      record = asBytes (tagged '2' staged unstaged fields path) ∧ old = asBytes oldPath ∧ FieldsSound 7 fields ∧
        PathAccepted path ∧ PathAccepted oldPath ∧ file = ⟨path, some oldPath, staged, unstaged⟩ := by
  simp only [parseRename, bind_ok_iff, decodeStatusRecord_ok, unless_ok, validate_ok, orError_ok, decode_eq_some]
  constructor
  · rintro ⟨text, rfl, shape, -, ⟨staged, unstaged⟩, codes, oldPath, oldBytes, -, accepted, -, oldAccepted, same⟩
    obtain ⟨fields, spelled, sound⟩ := (tagged_iff (show '2' ≠ ' ' by decide)).mp ⟨shape, rfl, codes⟩
    exact ⟨staged, unstaged, fields, _, oldPath, congrArg asBytes spelled, oldBytes, sound, accepted, oldAccepted,
      (Except.ok.inj same).symm⟩
  rintro ⟨staged, unstaged, fields, path, oldPath, rfl, rfl, sound, accepted, oldAccepted, rfl⟩
  obtain ⟨shape, last, codes⟩ := (tagged_iff (show '2' ≠ ' ' by decide)).mpr ⟨fields, rfl, sound⟩
  have held : asBytes oldPath ≠ [] := fun empty => oldAccepted.1 (asBytes_injective empty)
  refine ⟨_, rfl, shape, ?_⟩
  rw [last]
  exact ⟨by simpa using ⟨accepted.1, held⟩, _, codes, oldPath, rfl, (), accepted, (), oldAccepted, rfl⟩

theorem parseUntracked_ok (index : Nat) : parseUntracked record index = .ok file ↔ ∃ path,
      record = asBytes ("? " ++ path) ∧ PathAccepted path ∧ file = ⟨path, none, none, some .Untracked⟩ := by
  unfold parseUntracked
  simp only [bind_ok_iff, decodeStatusRecord_ok, orError_ok, stripPrefix_eq_some]
  constructor
  · rintro ⟨text, rfl, path, rfl, read⟩
    split at read
    case isTrue => cases read
    case isFalse =>
      simp only [bind_ok_iff, validate_ok] at read
      obtain ⟨-, accepted, same⟩ := read
      exact ⟨path, rfl, accepted, (Except.ok.inj same).symm⟩
  · rintro ⟨path, rfl, accepted, rfl⟩
    refine ⟨_, rfl, path, rfl, ?_⟩
    rw [if_neg (by simpa using accepted.1)]
    simp only [bind_ok_iff, validate_ok]
    exact ⟨(), accepted, trivial⟩

theorem parseUnmerged_ok (index : Nat) : parseUnmerged record index = .ok file ↔ ∃ staged unstaged fields path,
      record = asBytes (tagged 'u' staged unstaged fields path) ∧ FieldsSound 8 fields ∧ PathAccepted path ∧
        file = ⟨path, none, some .Conflicted, some .Conflicted⟩ := by
  simp only [parseUnmerged, bind_ok_iff, decodeStatusRecord_ok, unless_ok, validate_ok]
  constructor
  · rintro ⟨text, rfl, shape, -, -, accepted, ⟨staged, unstaged⟩, codes, same⟩
    obtain ⟨fields, spelled, sound⟩ := (tagged_iff (show 'u' ≠ ' ' by decide)).mp ⟨shape, rfl, codes⟩
    exact ⟨staged, unstaged, fields, _, congrArg asBytes spelled, sound, accepted, (Except.ok.inj same).symm⟩
  rintro ⟨staged, unstaged, fields, path, rfl, sound, accepted, rfl⟩
  obtain ⟨shape, last, codes⟩ := (tagged_iff (show 'u' ≠ ' ' by decide)).mpr ⟨fields, rfl, sound⟩
  refine ⟨_, rfl, shape, ?_⟩
  rw [last]
  exact ⟨by simpa using accepted.1, (), accepted, _, codes, rfl⟩

inductive Header
  /-- The commit, unless there is none. -/
  | oid (commit : Option Text)
  /-- The branch, unless the head is detached. -/
  | head (branch : Option Text)
  /-- The counts, as they are spelled. -/
  | ab (value : Text) (ahead behind : Nat)
  /-- A header that is not used. -/
  | other (text : Text)

/-- How the headers that are used begin. -/
def usedHeaders : List Text := ["# branch.oid ", "# branch.head ", "# branch.ab "]

namespace Header

def text : Header → Text
  | oid commit => "# branch.oid " ++ commit.getD "(initial)"
  | head branch => "# branch.head " ++ branch.getD "(detached)"
  | ab value _ _ => "# branch.ab " ++ value
  | other text => "# " ++ text

def Sound : Header → Prop
  | oid commit => ∀ value ∈ commit, value ≠ "(initial)" ∧ value ≠ [] ∧ ∀ c ∈ value, isHexDigit c = true
  | head branch => ∀ value ∈ branch, value ≠ "(detached)" ∧ value ≠ [] ∧ ∀ c ∈ value, isControl c = false
  | ab value ahead behind => ∃ a b, splitAsciiWhitespace value = ['+' :: a, '-' :: b] ∧ parseUsize a = .ok ahead ∧ parseUsize b = .ok behind
  | other text => ∀ start ∈ usedHeaders, ¬ start <+: "# " ++ text

/-- A header that is used is taken once. -/
def Admitted (state : PorcelainState) : Header → Prop
  | oid _ => state.parsed.sawHeadCommit = false
  | head _ => state.parsed.sawHeadBranch = false
  | ab _ _ _ => state.aheadBehind = none
  | other _ => True

def apply (state : PorcelainState) : Header → PorcelainState
  | oid (some value) => { state with parsed.sawHeadCommit := true, parsed.headCommit := some (value.take 7) }
  | oid none => { state with parsed.sawHeadCommit := true }
  | head (some value) => { state with parsed.sawHeadBranch := true, parsed.headBranch := some value }
  | head none => { state with parsed.sawHeadBranch := true }
  | ab _ ahead behind => { state with aheadBehind := some (ahead, behind) }
  | other _ => state

end Header

theorem parseBranchCount_ok {value : Option Text} {sign : Char} {index : Nat} :
    parseBranchCount value sign index = .ok count ↔ ∃ digits, value = some (sign :: digits) ∧ parseUsize digits = .ok count := by
  unfold parseBranchCount
  simp only [bind_ok_iff, orError_ok, Option.bind_eq_some_iff, stripPrefix_eq_some]
  constructor
  · rintro ⟨digits, ⟨whole, rfl, rfl⟩, read⟩
    exact ⟨digits, rfl, mapError_ok read⟩
  rintro ⟨digits, rfl, read⟩
  refine ⟨digits, ⟨_, rfl, rfl⟩, ?_⟩
  rw [read]
  rfl

theorem counts_ok {value : Text} {index ahead behind : Nat} : (parseBranchCount (splitAsciiWhitespace value)[0]? '+' index = .ok ahead ∧
      parseBranchCount (splitAsciiWhitespace value)[1]? '-' index = .ok behind ∧ (splitAsciiWhitespace value)[2]? = none) ↔
    ∃ a b, splitAsciiWhitespace value = ['+' :: a, '-' :: b] ∧ parseUsize a = .ok ahead ∧ parseUsize b = .ok behind := by
  rw [parseBranchCount_ok, parseBranchCount_ok]
  constructor
  · rintro ⟨⟨a, first, readA⟩, ⟨b, second, readB⟩, last⟩
    refine ⟨a, b, ?_, readA, readB⟩
    match whole : splitAsciiWhitespace value with
    | [] => simp [whole] at first
    | [_] => simp [whole] at second
    | [x, y] =>
      simp only [whole, getElem?_cons_zero, getElem?_cons_succ, Option.some_inj] at first second
      rw [first, second]
    | x :: y :: z :: rest => simp [whole] at last
  · rintro ⟨a, b, whole, readA, readB⟩
    rw [whole]
    exact ⟨⟨a, rfl, readA⟩, ⟨b, rfl, readB⟩, rfl⟩

theorem stripPrefix_eq_none {p t : Text} : stripPrefix p t = none ↔ ¬ p <+: t := by simp [stripPrefix]

variable {state : PorcelainState}

theorem parseBranchHeader_ok (index : Nat) {state' : PorcelainState} : parseBranchHeader record index state = .ok state' ↔
      ∃ header : Header, record = asBytes header.text ∧ header.Sound ∧ header.Admitted state ∧ state' = header.apply state := by
  unfold parseBranchHeader
  simp only [bind_ok_iff, decodeStatusRecord_ok]
  constructor
  · rintro ⟨text, rfl, read⟩
    split at read
    case h_1 value cut =>
      rw [stripPrefix_eq_some] at cut
      subst cut
      split_ifs at read with seen named bad
      · simp only [Bool.or_eq_true, List.isEmpty_iff, Bool.not_eq_true', not_or, Bool.not_eq_false] at bad
        refine ⟨.oid (some value), rfl, ?_, Bool.eq_false_of_not_eq_true seen, (Except.ok.inj read).symm⟩
        rintro other ⟨⟩
        exact ⟨named, bad.1, by simpa using bad.2⟩
      · rw [not_not] at named
        refine ⟨.oid none, by rw [named]; rfl, by rintro _ ⟨⟩, Bool.eq_false_of_not_eq_true seen, (Except.ok.inj read).symm⟩
    case h_2 unmet =>
    split at read
    case h_1 value cut =>
      rw [stripPrefix_eq_some] at cut
      subst cut
      split_ifs at read with seen named bad
      · simp only [Bool.or_eq_true, List.isEmpty_iff, not_or, Bool.not_eq_true] at bad
        refine ⟨.head (some value), rfl, ?_, Bool.eq_false_of_not_eq_true seen, (Except.ok.inj read).symm⟩
        rintro other ⟨⟩
        exact ⟨named, bad.1, by simpa using bad.2⟩
      · rw [not_not] at named
        refine ⟨.head none, by rw [named]; rfl, by rintro _ ⟨⟩, Bool.eq_false_of_not_eq_true seen, (Except.ok.inj read).symm⟩
    case h_2 unmet' =>
    split at read
    case h_1 value cut =>
      rw [stripPrefix_eq_some] at cut
      subst cut
      split at read
      case isTrue => cases read
      case isFalse seen =>
        simp only [bind_ok_iff] at read
        obtain ⟨ahead, first, behind, second, read⟩ := read
        split_ifs at read with more
        have counts := counts_ok.mp ⟨first, second, by simpa using more⟩
        have fresh : state.aheadBehind = none := by simpa using seen
        exact ⟨.ab value ahead behind, rfl, counts, fresh, (Except.ok.inj read).symm⟩
    case h_2 unmet'' =>
    split_ifs at read with other
    obtain ⟨rest, rfl⟩ := isPrefixOf_iff_prefix.mp other
    refine ⟨.other rest, rfl, ?_, trivial, (Except.ok.inj read).symm⟩
    simp only [Header.Sound, usedHeaders, forall_mem_cons]
    exact ⟨stripPrefix_eq_none.mp unmet, stripPrefix_eq_none.mp unmet', stripPrefix_eq_none.mp unmet'', forall_mem_nil _⟩
  · rintro ⟨header, rfl, sound, admitted, rfl⟩
    refine ⟨header.text, rfl, ?_⟩
    cases header with
    | oid commit =>
      have cut : stripPrefix "# branch.oid " (Header.oid commit).text = some (commit.getD "(initial)") := stripPrefix_append _ _
      have unseen : ¬ state.parsed.sawHeadCommit = true := by
        intro seen
        simp [show state.parsed.sawHeadCommit = false from admitted] at seen
      rw [cut]
      dsimp only
      rw [if_neg unseen]
      cases commit with
      | none => rfl
      | some value =>
        obtain ⟨named, held, hex⟩ := sound value rfl
        have good : ¬ (value.isEmpty || !value.all isHexDigit) = true := by simpa using ⟨held, hex⟩
        rw [Option.getD_some, if_pos named, if_neg good]
        rfl
    | head branch =>
      have cut : stripPrefix "# branch.head " (Header.head branch).text = some (branch.getD "(detached)") := stripPrefix_append _ _
      have unmet : stripPrefix "# branch.oid " (Header.head branch).text = none := rfl
      have unseen : ¬ state.parsed.sawHeadBranch = true := by
        intro seen
        simp [show state.parsed.sawHeadBranch = false from admitted] at seen
      rw [unmet, cut]
      dsimp only
      rw [if_neg unseen]
      cases branch with
      | none => rfl
      | some value =>
        obtain ⟨named, held, plain⟩ := sound value rfl
        have good : ¬ (value.isEmpty || value.any isControl) = true := by simpa using ⟨held, plain⟩
        rw [Option.getD_some, if_pos named, if_neg good]
        rfl
    | ab value ahead behind =>
      have cut : stripPrefix "# branch.ab " (Header.ab value ahead behind).text = some value := stripPrefix_append _ _
      have unmet : stripPrefix "# branch.oid " (Header.ab value ahead behind).text = none := rfl
      have unmet' : stripPrefix "# branch.head " (Header.ab value ahead behind).text = none := rfl
      obtain ⟨first, second, last⟩ := counts_ok.mpr sound
      have unseen : ¬ state.aheadBehind.isSome = true := by
        rw [show state.aheadBehind = none from admitted]
        exact Bool.false_ne_true
      rw [unmet, unmet', cut]
      dsimp only
      rw [if_neg unseen]
      simp only [bind_ok_iff]
      refine ⟨ahead, first, behind, second, ?_⟩
      rw [last]
      rfl
    | other text =>
      have first : stripPrefix "# branch.oid " ("# " ++ text) = none := stripPrefix_eq_none.mpr (sound _ mem_cons_self)
      have second : stripPrefix "# branch.head " ("# " ++ text) = none :=
        stripPrefix_eq_none.mpr (sound _ (mem_cons_of_mem _ mem_cons_self))
      have third : stripPrefix "# branch.ab " ("# " ++ text) = none :=
        stripPrefix_eq_none.mpr (sound _ (mem_cons_of_mem _ (mem_cons_of_mem _ mem_cons_self)))
      have begins : "# ".toList.isPrefixOf ("# " ++ text) = true := isPrefixOf_iff_prefix.mpr (prefix_append _ _)
      rw [show (Header.other text).text = "# " ++ text from rfl, first, second, third]
      exact if_pos begins

inductive Item
  | header (header : Header)
  | entry (entry : Entry)

namespace Item

def texts : Item → List Text
  | header h => [h.text]
  | entry e => e.texts

def Sound : Item → Prop
  | header h => h.Sound
  | entry e => e.Sound

/-- No record is larger than the reader takes. -/
def Small (item : Item) : Prop := ∀ text ∈ item.texts, byteLen text ≤ MAX_GIT_RECORD_BYTES

def Admitted (state : PorcelainState) : Item → Prop
  | header h => h.Admitted state
  | entry _ => state.parsed.files.length < MAX_PARSED_GIT_ITEMS

def apply (state : PorcelainState) : Item → PorcelainState
  | header h => h.apply state
  | entry e => state.push e.file

end Item

/-- The items can be read one after the other. -/
def Accepts : PorcelainState → List Item → PorcelainState → Prop
  | state, [], last => last = state
  | state, item :: items, last => item.Sound ∧ item.Small ∧ item.Admitted state ∧ Accepts (item.apply state) items last

theorem ensureGitRecordSize_ok {text : Text} {label : Text} {value : Unit} :
    ensureGitRecordSize (asBytes text) label index = .ok value ↔ byteLen text ≤ MAX_GIT_RECORD_BYTES := by
  rw [ensureGitRecordSize, asBytes_length]
  split_ifs with large
  · simpa using large
  · simpa using large

theorem bind_unit {ε : Type} {step : Except ε Unit} {next : Unit → Except ε α} (done : step = .ok ()) : (step >>= next) = next () := by
  rw [done]
  rfl

theorem bind_value {ε β : Type} {step : Except ε β} {next : β → Except ε α} {value : β} (done : step = .ok value) :
    (step >>= next) = next value := by
  rw [done]
  rfl

variable {item : Item}

theorem readRecords_item (sound : item.Sound) (small : item.Small)
    (admitted : item.Admitted state) (index : Nat) (rest : List (List UInt8)) :
    readRecords index state (item.texts.map asBytes ++ rest) = readRecords (index + 1) (item.apply state) rest := by
  have fits : ∀ text ∈ item.texts, ∀ label i, ensureGitRecordSize (asBytes text) label i = .ok () :=
    fun text mem label i => ensureGitRecordSize_ok.mpr (small text mem)
  cases item with
  | header h =>
    have parsed := (parseBranchHeader_ok (index + 1)).mpr ⟨h, rfl, sound, admitted, rfl⟩
    have first : (asBytes h.text).head? = some '#'.toUInt8 := by cases h <;> rfl
    simp only [Item.texts, map_cons, map_nil, cons_append, nil_append]
    conv_lhs => unfold readRecords
    rw [bind_unit (fits _ mem_cons_self _ _), bind_value (orError_ok.mpr first), if_pos rfl, bind_value parsed]
    rfl
  | entry e =>
    have room : ensureGitListRoom state.parsed.files.length filesLabel = .ok () := ensureGitListRoom_ok.mpr admitted
    cases e with
    | ordinary staged unstaged fields path =>
      have parsed := (parseOrdinary_ok (index + 1)).mpr ⟨staged, unstaged, fields, path, rfl, sound.1, sound.2, rfl⟩
      have first : (asBytes (tagged '1' staged unstaged fields path)).head? = some '1'.toUInt8 := rfl
      simp only [Item.texts, Entry.texts, map_cons, map_nil, cons_append, nil_append]
      conv_lhs => unfold readRecords
      rw [bind_unit (fits _ mem_cons_self _ _), bind_value (orError_ok.mpr first), if_neg (by decide), if_pos rfl,
        bind_unit room, bind_value parsed]
      rfl
    | renamed staged unstaged fields path oldPath =>
      have parsed := (parseRename_ok (index + 1)).mpr
        ⟨staged, unstaged, fields, path, oldPath, rfl, rfl, sound.1, sound.2.1, sound.2.2, rfl⟩
      have first : (asBytes (tagged '2' staged unstaged fields path)).head? = some '2'.toUInt8 := rfl
      simp only [Item.texts, Entry.texts, map_cons, map_nil, cons_append, nil_append]
      conv_lhs => unfold readRecords
      rw [bind_unit (fits _ mem_cons_self _ _), bind_value (orError_ok.mpr first), if_neg (by decide),
        if_neg (by decide), if_pos rfl]
      dsimp only
      rw [bind_unit (fits _ (mem_cons_of_mem _ mem_cons_self) _ _), bind_unit room, bind_value parsed]
      rfl
    | untracked path =>
      have parsed := (parseUntracked_ok (index + 1)).mpr ⟨path, rfl, sound, rfl⟩
      have first : (asBytes ("? " ++ path)).head? = some '?'.toUInt8 := rfl
      simp only [Item.texts, Entry.texts, map_cons, map_nil, cons_append, nil_append]
      conv_lhs => unfold readRecords
      rw [bind_unit (fits _ mem_cons_self _ _), bind_value (orError_ok.mpr first), if_neg (by decide),
        if_neg (by decide), if_neg (by decide), if_pos rfl, bind_unit room, bind_value parsed]
      rfl
    | unmerged staged unstaged fields path =>
      have parsed := (parseUnmerged_ok (index + 1)).mpr ⟨staged, unstaged, fields, path, rfl, sound.1, sound.2, rfl⟩
      have first : (asBytes (tagged 'u' staged unstaged fields path)).head? = some 'u'.toUInt8 := rfl
      simp only [Item.texts, Entry.texts, map_cons, map_nil, cons_append, nil_append]
      conv_lhs => unfold readRecords
      rw [bind_unit (fits _ mem_cons_self _ _), bind_value (orError_ok.mpr first), if_neg (by decide),
        if_neg (by decide), if_neg (by decide), if_neg (by decide), if_pos rfl, bind_unit room, bind_value parsed]
      rfl

variable {last : PorcelainState}

theorem item_of_readRecords {rest : List (List UInt8)} (read : readRecords index state (record :: rest) = .ok last) :
    ∃ item : Item, ∃ rest', record :: rest = item.texts.map asBytes ++ rest' ∧ item.Sound ∧ item.Small ∧
      item.Admitted state ∧ readRecords (index + 1) (item.apply state) rest' = .ok last := by
  unfold readRecords at read
  dsimp only at read
  simp only [bind_ok_iff] at read
  obtain ⟨_, size, first, -, read⟩ := read
  have small : ∀ text, record = asBytes text → byteLen text ≤ MAX_GIT_RECORD_BYTES := by
    rintro text rfl
    exact ensureGitRecordSize_ok.mp size
  split_ifs at read
  · obtain ⟨state', parsed, read⟩ := bind_ok read
    obtain ⟨header, spelled, sound, admitted, rfl⟩ := (parseBranchHeader_ok _).mp parsed
    exact ⟨.header header, rest, by rw [spelled]; rfl, sound, forall_mem_singleton.mpr (small _ spelled), admitted, read⟩
  · simp only [bind_ok_iff] at read
    obtain ⟨_, room, file, parsed, read⟩ := read
    obtain ⟨staged, unstaged, fields, path, spelled, free, accepted, rfl⟩ := (parseOrdinary_ok _).mp parsed
    exact ⟨.entry (.ordinary staged unstaged fields path), rest, by rw [spelled]; rfl, ⟨free, accepted⟩,
      forall_mem_singleton.mpr (small _ spelled), ensureGitListRoom_ok.mp room, read⟩
  · cases rest with
    | nil => cases read
    | cons old rest =>
      simp only [bind_ok_iff] at read
      obtain ⟨_, oldSize, _, room, file, parsed, read⟩ := read
      obtain ⟨staged, unstaged, fields, path, oldPath, spelled, rfl, free, accepted, oldAccepted, rfl⟩ := (parseRename_ok _).mp parsed
      refine ⟨.entry (.renamed staged unstaged fields path oldPath), rest, by rw [spelled]; rfl,
        ⟨free, accepted, oldAccepted⟩, ?_, ensureGitListRoom_ok.mp room, read⟩
      exact forall_mem_cons.mpr ⟨small _ spelled, forall_mem_singleton.mpr (ensureGitRecordSize_ok.mp oldSize)⟩
  · simp only [bind_ok_iff] at read
    obtain ⟨_, room, file, parsed, read⟩ := read
    obtain ⟨path, spelled, accepted, rfl⟩ := (parseUntracked_ok _).mp parsed
    exact ⟨.entry (.untracked path), rest, by rw [spelled]; rfl, accepted,
      forall_mem_singleton.mpr (small _ spelled), ensureGitListRoom_ok.mp room, read⟩
  · simp only [bind_ok_iff] at read
    obtain ⟨_, room, file, parsed, read⟩ := read
    obtain ⟨staged, unstaged, fields, path, spelled, free, accepted, rfl⟩ := (parseUnmerged_ok _).mp parsed
    exact ⟨.entry (.unmerged staged unstaged fields path), rest, by rw [spelled]; rfl, ⟨free, accepted⟩,
      forall_mem_singleton.mpr (small _ spelled), ensureGitListRoom_ok.mp room, read⟩

/-- The records of the items. -/
def itemRecords (items : List Item) : List (List UInt8) := items.flatMap fun item => item.texts.map asBytes

theorem Item.texts_ne_nil (item : Item) : item.texts ≠ [] := by
  rcases item with header | entry
  · exact cons_ne_nil _ _
  · cases entry <;> exact cons_ne_nil _ _

variable {pieces : List (List UInt8)}

theorem readRecords_ok : readRecords index state pieces = .ok last ↔ ∃ items, pieces = itemRecords items ∧ Accepts state items last := by
  constructor
  · induction size : pieces.length using Nat.strong_induction_on generalizing index state pieces with
    | _ count ih =>
      intro read
      cases pieces with
      | nil => exact ⟨[], rfl, (Except.ok.inj read).symm⟩
      | cons record rest =>
        obtain ⟨item, rest', whole, sound, small, admitted, read⟩ := item_of_readRecords read
        have shorter : rest'.length < count := by
          have lengths := congrArg List.length whole
          have := length_pos_of_ne_nil item.texts_ne_nil
          rw [length_append, length_map] at lengths
          omega
        obtain ⟨items, rfl, accepts⟩ := ih _ shorter rfl read
        exact ⟨item :: items, whole, sound, small, admitted, accepts⟩
  · rintro ⟨items, rfl, accepts⟩
    induction items generalizing index state with
    | nil => rw [show last = state from accepts]; rfl
    | cons item items ih =>
      obtain ⟨sound, small, admitted, rest⟩ := accepts
      rw [itemRecords, flatMap_cons, readRecords_item sound small admitted]
      exact ih rest

namespace Item

def entry? : Item → Option Entry
  | entry e => some e
  | header _ => none

def oid? : Item → Option (Option Text)
  | header (.oid commit) => some commit
  | _ => none

def head? : Item → Option (Option Text)
  | header (.head branch) => some branch
  | _ => none

def ab? : Item → Option (Nat × Nat)
  | header (.ab _ ahead behind) => some (ahead, behind)
  | _ => none

end Item

/-- The entries are within the limit and no header that is used stands twice. -/
structure Readable (items : List Item) : Prop where
  sound : ∀ item ∈ items, item.Sound
  small : ∀ item ∈ items, item.Small
  room : (items.filterMap Item.entry?).length ≤ MAX_PARSED_GIT_ITEMS
  oids : (items.filterMap Item.oid?).length ≤ 1
  heads : (items.filterMap Item.head?).length ≤ 1
  counts : (items.filterMap Item.ab?).length ≤ 1

/-- The status that the items tell. -/
def parsedItems (byPath : SortByPath) (items : List Item) : ParsedStatus where
  files := byPath.sort ((items.filterMap Item.entry?).map Entry.file)
  headBranch := (items.filterMap Item.head?).head?.join
  headCommit := (items.filterMap Item.oid?).head?.join.map (·.take 7)
  ahead := (items.filterMap Item.ab?).head?.map (·.1)
  behind := (items.filterMap Item.ab?).head?.map (·.2)
  sawHeadBranch := (items.filterMap Item.head?).head?.isSome
  sawHeadCommit := (items.filterMap Item.oid?).head?.isSome

/-- What may still follow after a state. -/
@[mk_iff]
structure Follow (state : PorcelainState) (items : List Item) : Prop where
  sound : ∀ item ∈ items, item.Sound
  small : ∀ item ∈ items, item.Small
  room : state.parsed.files.length + (items.filterMap Item.entry?).length ≤ MAX_PARSED_GIT_ITEMS
  oids : state.parsed.sawHeadCommit.toNat + (items.filterMap Item.oid?).length ≤ 1
  heads : state.parsed.sawHeadBranch.toNat + (items.filterMap Item.head?).length ≤ 1
  counts : state.aheadBehind.isSome.toNat + (items.filterMap Item.ab?).length ≤ 1

theorem once {seen : Bool} : seen.toNat + (count + 1) ≤ 1 ↔ seen = false ∧ true.toNat + count ≤ 1 := by
  cases seen
  · simp only [Bool.toNat_false, Bool.toNat_true, true_and]
    omega
  · simp

theorem follow_cons {items : List Item} : Follow state (item :: items) ↔
      item.Sound ∧ item.Small ∧ item.Admitted state ∧ Follow (item.apply state) items := by
  rw [follow_iff, follow_iff, forall_mem_cons, forall_mem_cons]
  rcases item with ((_ | commit) | (_ | branch) | ⟨value, ahead, behind⟩ | text) | entry
  case entry =>
    have room : state.parsed.files.length + ((items.filterMap Item.entry?).length + 1) ≤ MAX_PARSED_GIT_ITEMS ↔
        state.parsed.files.length < MAX_PARSED_GIT_ITEMS ∧
          state.parsed.files.length + 1 + (items.filterMap Item.entry?).length ≤ MAX_PARSED_GIT_ITEMS := by
      omega
    simp only [Item.apply, PorcelainState.push, Item.Admitted, filterMap_cons, Item.entry?, Item.oid?, Item.head?,
      Item.ab?, length_cons, length_append, length_nil, Nat.zero_add, room]
    tauto
  all_goals
    simp only [Item.apply, Header.apply, Item.Admitted, Header.Admitted, filterMap_cons, Item.entry?, Item.oid?,
      Item.head?, Item.ab?, length_cons, once, Option.isSome_some, Option.isSome_eq_false_iff,
      Option.isNone_iff_eq_none, true_and]
    tauto

theorem accepts_iff (within : state.parsed.files.length ≤ MAX_PARSED_GIT_ITEMS)
    {items : List Item} : Accepts state items last ↔ Follow state items ∧ last = items.foldl Item.apply state := by
  induction items generalizing state with
  | nil =>
    have none : Follow state [] := ⟨nofun, nofun, within, Bool.toNat_le _, Bool.toNat_le _, Bool.toNat_le _⟩
    exact ⟨fun same => ⟨none, same⟩, And.right⟩
  | cons item items ih =>
    have within' : item.Admitted state → (item.apply state).parsed.files.length ≤ MAX_PARSED_GIT_ITEMS := by
      intro admitted
      rcases item with ((_ | commit) | (_ | branch) | ⟨value, ahead, behind⟩ | text) | entry
      case entry =>
        rw [Item.apply, PorcelainState.push, length_append]
        exact admitted
      all_goals exact within
    rw [Accepts, follow_cons, foldl_cons]
    constructor
    · rintro ⟨sound, small, admitted, rest⟩
      obtain ⟨follow, same⟩ := (ih (within' admitted)).mp rest
      exact ⟨⟨sound, small, admitted, follow⟩, same⟩
    · rintro ⟨⟨sound, small, admitted, follow⟩, same⟩
      exact ⟨sound, small, admitted, (ih (within' admitted)).mpr ⟨follow, same⟩⟩

theorem foldl_apply (items : List Item) (state : PorcelainState) : items.foldl Item.apply state =
      { parsed := { state.parsed with
          files := state.parsed.files ++ (items.filterMap Item.entry?).map Entry.file
          headBranch := (items.filterMap Item.head?).foldl (fun branch value => value.or branch) state.parsed.headBranch
          headCommit := (items.filterMap Item.oid?).foldl (fun commit value => (value.map (·.take 7)).or commit)
            state.parsed.headCommit
          sawHeadBranch := state.parsed.sawHeadBranch || !(items.filterMap Item.head?).isEmpty
          sawHeadCommit := state.parsed.sawHeadCommit || !(items.filterMap Item.oid?).isEmpty }
        aheadBehind := (items.filterMap Item.ab?).foldl (fun _ counts => some counts) state.aheadBehind } := by
  induction items generalizing state with
  | nil => simp
  | cons item items ih =>
    rw [foldl_cons, ih]
    rcases item with ((_ | commit) | (_ | branch) | ⟨value, ahead, behind⟩ | text) | entry
    all_goals
      simp [Item.apply, Header.apply, PorcelainState.push, filterMap_cons, Item.entry?, Item.oid?, Item.head?, Item.ab?]

theorem one_or_none {xs : List α} (few : xs.length ≤ 1) : xs = xs.head?.toList := by
  match xs, few with
  | [], _ => rfl
  | [_], _ => rfl

/-- The reader gives a result exactly when the pieces are the records of readable items. -/
theorem parse_ok (byPath : SortByPath) {bytes : List UInt8} {result : ParsedStatus} : parsePorcelainBytes byPath bytes = .ok result ↔
      ∃ items, records bytes = itemRecords items ∧ Readable items ∧ result = parsedItems byPath items := by
  have readable : ∀ items, Follow {} items ↔ Readable items := by
    intro items
    rw [follow_iff]
    simp only [length_nil, Bool.toNat_false, Option.isSome_none, Nat.zero_add]
    exact ⟨fun f => ⟨f.1, f.2.1, f.2.2.1, f.2.2.2.1, f.2.2.2.2.1, f.2.2.2.2.2⟩,
      fun r => ⟨r.sound, r.small, r.room, r.oids, r.heads, r.counts⟩⟩
  have outcome : ∀ items, Readable items → ∀ state, state = items.foldl Item.apply {} →
      parsedItems byPath items = { state.parsed with
        ahead := state.aheadBehind.map (·.1)
        behind := state.aheadBehind.map (·.2)
        files := byPath.sort state.parsed.files } := by
    rintro items readable state rfl
    rw [foldl_apply, one_or_none readable.oids, one_or_none readable.heads, one_or_none readable.counts, parsedItems]
    rcases (items.filterMap Item.oid?).head? with _ | _ | commit <;>
      rcases (items.filterMap Item.head?).head? with _ | _ | branch <;>
      rcases (items.filterMap Item.ab?).head? with _ | counts <;> simp
  unfold parsePorcelainBytes
  rw [bind_ok_iff]
  constructor
  · rintro ⟨state, read, same⟩
    obtain ⟨items, pieces, accepts⟩ := readRecords_ok.mp read
    obtain ⟨follow, last⟩ := (accepts_iff (Nat.zero_le _)).mp accepts
    have ready := (readable items).mp follow
    exact ⟨items, pieces, ready, (Except.ok.inj same).symm.trans (outcome items ready state last).symm⟩
  · rintro ⟨items, pieces, ready, rfl⟩
    refine ⟨items.foldl Item.apply {}, readRecords_ok.mpr ⟨items, pieces, ?_⟩, ?_⟩
    · exact (accepts_iff (Nat.zero_le _)).mpr ⟨(readable items).mpr ready, rfl⟩
    · rw [outcome items ready _ rfl]

/-- A status as git prints it: the branch headers that there are, and the entries. -/
structure Snapshot where
  /-- The commit, where `none` stands for no commit yet. -/
  oid : Option (Option Text)
  /-- The branch, where `none` stands for a detached head. -/
  head : Option (Option Text)
  upstream : Option Text
  ab : Option (Nat × Nat)
  stash : Option Nat
  entries : List Entry

namespace Snapshot

def countsText (ahead behind : Nat) : Text := '+' :: natText ahead ++ [' ', '-'] ++ natText behind

def headers (s : Snapshot) : List Header :=
  (s.oid.map .oid).toList ++ (s.head.map .head).toList ++ (s.upstream.map fun name => .other ("branch.upstream " ++ name)).toList ++
    (s.ab.map fun counts => .ab (countsText counts.1 counts.2) counts.1 counts.2).toList ++
    (s.stash.map fun count => .other ("stash " ++ natText count)).toList

def items (s : Snapshot) : List Item := s.headers.map .header ++ s.entries.map .entry

/-- Every record ends with a zero byte. -/
def render (s : Snapshot) : List UInt8 := (itemRecords s.items).flatMap (· ++ [0])

/-- What the reader is made for: names and paths that it takes, and sizes within its limits. -/
structure Fits (s : Snapshot) : Prop where
  commit : ∀ value, s.oid = some (some value) → value ≠ [] ∧ ∀ c ∈ value, isHexDigit c = true
  branch : ∀ value, s.head = some (some value) → value ≠ "(detached)" ∧ value ≠ [] ∧ ∀ c ∈ value, isControl c = false
  counts : ∀ ahead behind, s.ab = some (ahead, behind) → ahead < USIZE_VALUES ∧ behind < USIZE_VALUES
  entries : ∀ entry ∈ s.entries, entry.Sound
  room : s.entries.length ≤ MAX_PARSED_GIT_ITEMS
  unbroken : ∀ item ∈ s.items, ∀ text ∈ item.texts, '\x00' ∉ text
  small : ∀ item ∈ s.items, item.Small

def parsed (s : Snapshot) (byPath : SortByPath) : ParsedStatus where
  files := byPath.sort (s.entries.map Entry.file)
  headBranch := s.head.join
  headCommit := s.oid.join.map (·.take 7)
  ahead := s.ab.map (·.1)
  behind := s.ab.map (·.2)
  sawHeadBranch := s.head.isSome
  sawHeadCommit := s.oid.isSome

end Snapshot

theorem countsText_sound {ahead behind : Nat} (fits : ahead < USIZE_VALUES) (fits' : behind < USIZE_VALUES) :
    (Header.ab (Snapshot.countsText ahead behind) ahead behind).Sound := by
  have dark : ∀ sign, isAsciiWhitespace sign = false → ∀ n, ∀ c ∈ sign :: natText n, isAsciiWhitespace c = false := by
    intro sign plain n c mem
    rcases mem_cons.mp mem with rfl | digit
    · exact plain
    have range := digit_range (natText_isDigit digit)
    by_contra white
    simp only [isAsciiWhitespace, Bool.not_eq_false, Bool.or_eq_true, beq_iff_eq] at white
    rcases white with (((rfl | rfl) | rfl) | rfl) | rfl <;> exact absurd range (by decide)
  refine ⟨natText ahead, natText behind, ?_, parseUsize_natText fits, parseUsize_natText fits'⟩
  have whole : Snapshot.countsText ahead behind = ('+' :: natText ahead) ++ ' ' :: ('-' :: natText behind) := by simp [Snapshot.countsText]
  rw [whole, splitAsciiWhitespace_cons (dark '+' (by decide) ahead) (cons_ne_nil _ _) (by decide),
    splitAsciiWhitespace_word (dark '-' (by decide) behind) (cons_ne_nil _ _)]

/-- No record of a sound item is empty. -/
theorem Item.Sound.held (sound : item.Sound) : ∀ text ∈ item.texts, text ≠ [] := by
  rcases item with header | entry
  · refine forall_mem_singleton.mpr ?_
    cases header <;> exact cons_ne_nil _ _
  cases entry with
  | ordinary staged unstaged fields path | untracked path | unmerged staged unstaged fields path => exact forall_mem_singleton.mpr (cons_ne_nil _ _)
  | renamed staged unstaged fields path oldPath => exact forall_mem_cons.mpr ⟨cons_ne_nil _ _, forall_mem_singleton.mpr sound.2.2.1⟩

theorem records_ended (free : ∀ piece ∈ pieces, 0 ∉ piece ∧ piece ≠ []) : records (pieces.flatMap (· ++ [0])) = pieces := by
  induction pieces with
  | nil => rfl
  | cons piece pieces ih =>
    rw [forall_mem_cons] at free
    have cut : ((piece :: pieces).flatMap (· ++ [0])).splitOn 0 = piece :: (pieces.flatMap (· ++ [0])).splitOn 0 := by
      rw [flatMap_cons, append_assoc, singleton_append]
      refine splitOnP_append_cons_of_forall_mem (fun b mem => ?_) 0 rfl _
      rw [beq_eq_false_iff_ne]
      rintro rfl
      exact free.1.1 mem
    rw [records, cut, filter_cons_of_pos (by simpa using free.1.2)]
    exact congrArg (piece :: ·) (ih free.2)

theorem filterMap_header {β : Type} (value : Option α) (header : α → Header) (f : Item → Option β) :
    ((value.map header).toList.map Item.header).filterMap f = (value.bind fun x => f (.header (header x))).toList := by
  cases value with
  | none => rfl
  | some x =>
    cases f (.header (header x)) <;> rfl

namespace Snapshot

variable {s : Snapshot}

theorem items_filterMap {β : Type} (f : Item → Option β) : s.items.filterMap f =
    (s.oid.bind fun x => f (.header (.oid x))).toList ++ (s.head.bind fun x => f (.header (.head x))).toList ++
      (s.upstream.bind fun name => f (.header (.other ("branch.upstream " ++ name)))).toList ++
      (s.ab.bind fun x => f (.header (.ab (countsText x.1 x.2) x.1 x.2))).toList ++
      (s.stash.bind fun count => f (.header (.other ("stash " ++ natText count)))).toList ++
      s.entries.filterMap fun entry => f (.entry entry) := by
  simp only [items, headers, map_append, filterMap_append, filterMap_header]
  rw [filterMap_map]
  rfl

theorem items_entries : s.items.filterMap Item.entry? = s.entries := by
  rw [items_filterMap]
  simp [Item.entry?]

theorem items_oid : s.items.filterMap Item.oid? = s.oid.toList := by
  rw [items_filterMap]
  simp [Item.oid?]

theorem items_head : s.items.filterMap Item.head? = s.head.toList := by
  rw [items_filterMap]
  simp [Item.head?]

theorem items_ab : s.items.filterMap Item.ab? = s.ab.toList := by
  rw [items_filterMap]
  simp [Item.ab?]

theorem headers_sound (fits : s.Fits) : ∀ header ∈ s.headers, header.Sound := by
  intro header mem
  simp only [headers, mem_append, Option.mem_toList, Option.map_eq_some_iff] at mem
  have unused : ∀ text : Text, (∀ start ∈ usedHeaders, stripPrefix start ("# " ++ text) = none) → (Header.other text).Sound :=
    fun text unmet start used => stripPrefix_eq_none.mp (unmet start used)
  rcases mem with (((⟨commit, held, rfl⟩ | ⟨branch, held, rfl⟩) | ⟨name, held, rfl⟩) | ⟨⟨ahead, behind⟩, held, rfl⟩) |
    ⟨count, held, rfl⟩
  · rintro value ⟨⟩
    obtain ⟨nonempty, hex⟩ := fits.commit value held
    refine ⟨?_, nonempty, hex⟩
    rintro rfl
    exact absurd (hex '(' (by decide)) (by decide)
  · rintro value ⟨⟩
    exact fits.branch value held
  · refine unused _ ?_
    simp only [usedHeaders, forall_mem_cons]
    exact ⟨rfl, rfl, rfl, forall_mem_nil _⟩
  · exact countsText_sound (fits.counts ahead behind held).1 (fits.counts ahead behind held).2
  · refine unused _ ?_
    simp only [usedHeaders, forall_mem_cons]
    exact ⟨rfl, rfl, rfl, forall_mem_nil _⟩

theorem readable (fits : s.Fits) : Readable s.items where
  sound := by
    intro item mem
    rcases mem_append.mp mem with there | there
    · obtain ⟨header, inside, rfl⟩ := mem_map.mp there
      exact headers_sound fits header inside
    · obtain ⟨entry, inside, rfl⟩ := mem_map.mp there
      exact fits.entries entry inside
  small := fits.small
  room := by rw [items_entries]; exact fits.room
  oids := by rw [items_oid]; exact Option.length_toList_le
  heads := by rw [items_head]; exact Option.length_toList_le
  counts := by rw [items_ab]; exact Option.length_toList_le

theorem parsedItems_items (byPath : SortByPath) : parsedItems byPath s.items = s.parsed byPath := by
  rw [parsedItems, items_entries, items_oid, items_head, items_ab, parsed]
  simp

theorem records_render (fits : s.Fits) : records s.render = itemRecords s.items := by
  refine records_ended fun piece mem => ?_
  obtain ⟨item, there, mem⟩ := mem_flatMap.mp mem
  obtain ⟨text, inside, rfl⟩ := mem_map.mp mem
  constructor
  · rw [zero_mem_asBytes]
    exact fits.unbroken item there text inside
  · intro empty
    exact ((readable fits).sound item there).held text inside (asBytes_injective empty)

end Snapshot

/-- What git prints is read back, with the entries in the order of their paths;
    and what is read was printed so, record by record, with nothing left out. -/
theorem status_decoding (byPath : SortByPath) : (∀ s : Snapshot, s.Fits → parsePorcelainBytes byPath s.render = .ok (s.parsed byPath) ∧
      (s.parsed byPath).files.Perm (s.entries.map Entry.file) ∧ (s.parsed byPath).files.Pairwise (·.path ≤ ·.path)) ∧
    ∀ bytes result, parsePorcelainBytes byPath bytes = .ok result ↔
      ∃ items, records bytes = itemRecords items ∧ Readable items ∧ result = parsedItems byPath items := by
  constructor
  · intro s fits
    refine ⟨(parse_ok byPath).mpr ⟨s.items, s.records_render fits, s.readable fits, ?_⟩, byPath.perm _, byPath.sorted _⟩
    exact (s.parsedItems_items byPath).symm
  · intro bytes result
    exact parse_ok byPath

/-- The sort by paths that keeps the order of entries with one path. -/
def stableByPath : SortByPath where
  sort files := files.mergeSort fun left right => decide (left.path ≤ right.path)
  perm files := List.mergeSort_perm files _
  sorted files := by
    have sorted := @List.pairwise_mergeSort _ (fun left right : FileStatus => decide (left.path ≤ right.path))
      (fun a b c first second => by simp only [decide_eq_true_eq] at *; exact first.trans second)
      (fun a b => by simpa using le_total a.path b.path) files
    exact sorted.imp fun order => of_decide_eq_true order

/-- A file with a space in its name. -/
def spacedPath : Text := ['a', ' ', 'b']

theorem spacedPath_accepted : PathAccepted spacedPath := by
  unfold PathAccepted spacedPath
  decide

def spacedSnapshot : Snapshot := ⟨none, some none, none, some (1, 2), none, [.untracked spacedPath]⟩

/-- A detached head, two counts and one file. -/
theorem status_decoding_untracked : parsePorcelainBytes stableByPath spacedSnapshot.render =
    .ok { files := [⟨spacedPath, none, none, some .Untracked⟩], ahead := some 1, behind := some 2, sawHeadBranch := true } := by
  have fits : spacedSnapshot.Fits := by
    constructor
    case commit => exact nofun
    case branch => exact nofun
    case counts =>
      rintro ahead behind ⟨⟩
      decide
    case entries => exact forall_mem_singleton.mpr spacedPath_accepted
    case room => decide
    case unbroken => decide
    case small =>
      unfold Item.Small
      decide
  rw [((status_decoding stableByPath).1 spacedSnapshot fits).1]
  simp [Snapshot.parsed, spacedSnapshot, stableByPath, Entry.file]

/-- A record that no zero byte ends is read too. -/
theorem parse_unended : ¬ ∀ bytes result, parsePorcelainBytes stableByPath bytes = .ok result → ∃ s : Snapshot, bytes = s.render := by
  intro law
  have readable : Readable [.entry (.untracked spacedPath)] := by
    constructor
    case sound => exact forall_mem_singleton.mpr spacedPath_accepted
    case small =>
      unfold Item.Small
      decide
    all_goals decide
  have pieces : records (asBytes ("? " ++ spacedPath)) = itemRecords [.entry (.untracked spacedPath)] := by decide
  obtain ⟨s, whole⟩ := law _ _ ((parse_ok stableByPath).mpr ⟨_, pieces, readable, rfl⟩)
  rw [Snapshot.render] at whole
  cases held : itemRecords s.items with
  | nil =>
    rw [held] at whole
    exact absurd whole (by decide)
  | cons piece pieces =>
    have zero : 0 ∈ asBytes ("? " ++ spacedPath) := by
      rw [whole, held]
      simp
    exact absurd zero (by decide)

end Ramag.StatusDecoding
