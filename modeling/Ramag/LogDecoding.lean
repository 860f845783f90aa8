import Ramag.GitLog
import Ramag.MysqlLexer

/-!
What the reader of `git log` makes of the output for some commits. Fields and
records are told apart by characters that git does not escape, so the commits
here hold none of them where they would cut (`log_decoding`).
-/
namespace Ramag.LogDecoding
open Strings Domain Fields GitLog List
open UnifiedDiff (MAX_PARSED_GIT_ITEMS ensureGitListRoom_ok ensureGitSize)
open MysqlLexer (isHexDigit)

variable {Time : Type}

/-- The records that hold more than line feeds give these commits. -/
inductive Reads (parse : Text → Except Text (Commit Time)) : List Text → List (Commit Time) → Prop
  | nil : Reads parse [] []
  | skip {record : Text} {rest : List Text} {new : List (Commit Time)} : record.dropWhile (· == '\n') = [] →
      Reads parse rest new → Reads parse (record :: rest) new
  | take {record : Text} {rest : List Text} {commit : Commit Time} {new : List (Commit Time)} :
      record.dropWhile (· == '\n') ≠ [] → byteLen (record.dropWhile (· == '\n')) ≤ MAX_GIT_MESSAGE_BYTES →
      parse (record.dropWhile (· == '\n')) = .ok commit → Reads parse rest new → Reads parse (record :: rest) (commit :: new)

theorem ensureGitMessageSize_ok {text label : Text} {index : Nat} {value : Unit} :
    ensureGitMessageSize text label index = .ok value ↔ byteLen text ≤ MAX_GIT_MESSAGE_BYTES := by
  unfold ensureGitMessageSize ensureGitSize
  split_ifs with large
  · simp [large]
  · simpa using large

variable {parse : Text → Except Text (Commit Time)} {records : List Text}

theorem collectRecords_ok {index : Nat} {commits all : List (Commit Time)} : collectRecords parse index commits records = .ok all ↔
      ∃ new, Reads parse records new ∧ all = commits ++ new ∧ (new = [] ∨ commits.length + new.length ≤ MAX_PARSED_GIT_ITEMS) := by
  induction records generalizing index commits all with
  | nil =>
    rw [collectRecords]
    constructor
    · rintro ⟨⟩
      exact ⟨[], .nil, by simp, .inl rfl⟩
    · rintro ⟨new, ⟨⟩, rfl, -⟩
      simp
  | cons record rest ih =>
    rw [collectRecords]
    by_cases blank : record.dropWhile (· == '\n') = []
    · simp only [blank, isEmpty_nil, if_true]
      rw [ih]
      constructor
      · rintro ⟨new, reads, same, room⟩
        exact ⟨new, .skip blank reads, same, room⟩
      rintro ⟨new, reads, same, room⟩
      cases reads with
      | skip _ reads => exact ⟨new, reads, same, room⟩
      | take held _ _ _ => exact absurd blank held
    · have full : ¬ (record.dropWhile (· == '\n')).isEmpty = true := by simpa using blank
      rw [if_neg full]
      simp only [bind_ok_iff, ensureGitListRoom_ok, ensureGitMessageSize_ok]
      constructor
      · rintro ⟨_, room, _, small, commit, parsed, read⟩
        obtain ⟨new, reads, rfl, more⟩ := ih.mp read
        refine ⟨commit :: new, .take blank small (mapError_ok parsed) reads, by simp, .inr ?_⟩
        simp only [length_append, length_cons, length_nil] at more ⊢
        rcases more with rfl | more
        · simp only [length_nil]
          omega
        · omega
      · rintro ⟨new, reads, rfl, room⟩
        cases reads with
        | skip held _ => exact absurd held blank
        | @take _ _ commit new _ small parsed reads =>
          have fits : commits.length + (new.length + 1) ≤ MAX_PARSED_GIT_ITEMS := room.resolve_left (cons_ne_nil _ _)
          refine ⟨(), by omega, (), small, commit, by rw [parsed]; rfl, ih.mpr ⟨new, reads, by simp, .inr ?_⟩⟩
          simp only [length_append, length_cons, length_nil]
          omega

/-! ### Fields -/

/-- A number of seconds in digits. -/
def secondsText (seconds : Int) : Text := if seconds < 0 then '-' :: natText seconds.natAbs else natText seconds.natAbs

theorem parseI64_secondsText {seconds : Int} (low : -(2 ^ 63) ≤ seconds) (high : seconds < 2 ^ 63) :
    parseI64 (secondsText seconds) = .ok seconds := by
  have digits : ∀ n, ∀ c ∈ natText n, c.isDigit = true := fun n c mem => natText_isDigit mem
  have value : ∀ n, Nat.ofDigitChars 10 (natText n) 0 = n := fun n => Nat.ofDigitChars_ten_toDigits
  unfold secondsText
  split_ifs with below
  · have read : readUnsigned (2 ^ 63 + 1) 0 (natText seconds.natAbs) = .ok seconds.natAbs := by
      have fits : Nat.ofDigitChars 10 (natText seconds.natAbs) 0 < 2 ^ 63 + 1 := by
        rw [value]
        omega
      rw [readUnsigned_digits (digits _) fits, value]
    have held := natText_ne_nil seconds.natAbs
    have whole : parseI64 ('-' :: natText seconds.natAbs) =
        ((readUnsigned (2 ^ 63 + 1) 0 (natText seconds.natAbs)).mapError negativeText).map fun n => -(n : Int) := by
      cases spelled : natText seconds.natAbs with
      | nil => exact absurd spelled held
      | cons c rest => rfl
    rw [whole, read]
    show Except.ok (-(seconds.natAbs : Int)) = _
    congr 1
    omega
  · have read : readUnsigned (2 ^ 63) 0 (natText seconds.natAbs) = .ok seconds.natAbs := by
      have fits : Nat.ofDigitChars 10 (natText seconds.natAbs) 0 < 2 ^ 63 := by
        rw [value]
        omega
      rw [readUnsigned_digits (digits _) fits, value]
    have whole : parseI64 (natText seconds.natAbs) =
        ((readUnsigned (2 ^ 63) 0 (natText seconds.natAbs)).mapError ParseIntError.text).map Int.ofNat := by
      cases spelled : natText seconds.natAbs with
      | nil => exact absurd spelled (natText_ne_nil _)
      | cons c rest =>
        have digit : c.isDigit = true := digits _ c (by rw [spelled]; exact mem_cons_self)
        unfold parseI64
        split <;> simp_all
    rw [whole, read]
    show Except.ok (Int.ofNat seconds.natAbs) = _
    congr 1
    rw [Int.ofNat_eq_natCast]
    omega

/-- A hash, in hexadecimal digits. -/
def IsHash (hash : Text) : Prop := hash ≠ [] ∧ ∀ c ∈ hash, isHexDigit c = true

theorem hexDigit_plain {c : Char} (hex : isHexDigit c = true) : isWhitespace c = false ∧ c ≠ '\x1e' ∧ c ≠ '\x1f' ∧ c ≠ '\n' := by
  have range : 48 ≤ c.toNat ∧ c.toNat ≤ 102 := by
    simp only [isHexDigit, Bool.or_eq_true, Bool.and_eq_true, decide_eq_true_eq] at hex
    rcases hex with (digit | upper) | lower
    · have := digit_range digit
      omega
    · omega
    · omega
  refine ⟨?_, ?_, ?_, ?_⟩
  · simp only [isWhitespace, Bool.or_eq_false_iff, Bool.and_eq_false_iff, decide_eq_false_iff_not, beq_eq_false_iff_ne]
    omega
  all_goals
    rintro rfl
    exact absurd range (by decide)

theorem trim_dark {t : Text} (dark : ∀ c ∈ t, isWhitespace c = false) : trim t = t := by
  have front : t.dropWhile isWhitespace = t := by
    cases t with
    | nil => rfl
    | cons c t => rw [dropWhile_cons_of_neg (by simp [dark c mem_cons_self])]
  have back : t.rdropWhile isWhitespace = t := by
    rw [rdropWhile_eq_self_iff]
    intro held
    simp [dark _ (getLast_mem held)]
  rw [trim, trimStart, front, trimEnd, back]

/-- The words that one space parts. -/
def spaced (words : List Text) : Text := (words.intersperse [' ']).flatten

/-- The words that a comma and a space part. -/
def listed (words : List Text) : Text := (words.intersperse [',', ' ']).flatten

theorem splitWhitespace_spaced {words : List Text} (dark : ∀ word ∈ words, word ≠ [] ∧ ∀ c ∈ word, isWhitespace c = false) :
    splitWhitespace (spaced words) = words := by
  induction words with
  | nil => rfl
  | cons word words ih =>
    rw [forall_mem_cons] at dark
    cases words with
    | nil => simpa [spaced] using splitWhitespace_word dark.1.2 dark.1.1
    | cons next words =>
      have split : spaced (word :: next :: words) = word ++ ' ' :: spaced (next :: words) := by simp [spaced]
      rw [split, splitWhitespace_cons dark.1.2 dark.1.1 (by decide), ih dark.2]

/-- A ref as the decoration of a commit names it. -/
def IsRef (ref : Text) : Prop := ref ≠ [] ∧ ',' ∉ ref ∧ trim ref = ref

theorem trim_gap (t : Text) : trim (' ' :: t) = trim t := by rw [trim, trim, trimStart, trimStart, dropWhile_cons_of_pos (by decide)]

theorem splitOn_gap (t : Text) : ((' ' :: t).splitOn ',').map trim = (t.splitOn ',').map trim := by
  have front : (' ' :: t).splitOn ',' = (t.splitOn ',').modifyHead (List.cons ' ') := splitOnP_cons_eq_if_modifyHead ' ' t
  rw [front]
  cases t.splitOn ',' with
  | nil => rfl
  | cons part parts => simp [trim_gap]

/-- The refs are read back, whatever the first one follows. -/
theorem refs_listed {refs : List Text} (every : ∀ ref ∈ refs, IsRef ref) :
    (((listed refs).splitOn ',').map trim).filter (· ≠ []) = refs := by
  induction refs with
  | nil => decide
  | cons ref refs ih =>
    rw [forall_mem_cons] at every
    have free : ∀ c ∈ ref, (c == ',') = false := by
      intro c mem
      rw [beq_eq_false_iff_ne]
      rintro rfl
      exact every.1.2.1 mem
    cases refs with
    | nil =>
      have whole : (listed [ref]).splitOn ',' = [ref] := by
        have same : listed [ref] = ref := by simp [listed]
        rw [same]
        exact splitOnP_eq_singleton free
      simp [whole, every.1.2.2, every.1.1]
    | cons next refs =>
      have cut : (listed (ref :: next :: refs)).splitOn ',' = ref :: (' ' :: listed (next :: refs)).splitOn ',' := by
        exact splitOnP_append_cons_of_forall_mem free ',' rfl _
      rw [cut, map_cons, splitOn_gap, every.1.2.2, filter_cons_of_pos (by simpa using every.1.1), ih every.2]

/-- A commit as git holds it, with the times its seconds stand for. -/
structure GitCommit (Time : Type) where
  hash : Text
  authorName : Text
  authorEmail : Text
  authorSeconds : Int
  authorTime : Time
  committerName : Text
  committerEmail : Text
  committerSeconds : Int
  committerTime : Time
  parents : List Text
  refs : List Text
  subject : Text
  body : Text

namespace GitCommit

/-- The fields in front of the subject that the list prints. -/
def listFields (commit : GitCommit Time) : List Text :=
  [commit.hash, commit.authorName, secondsText commit.authorSeconds, spaced commit.parents, listed commit.refs]

/-- The fields in front of the body that the detail prints. -/
def detailFields (commit : GitCommit Time) : List Text :=
  [commit.hash, commit.authorName, commit.authorEmail, secondsText commit.authorSeconds, commit.committerName,
    commit.committerEmail, secondsText commit.committerSeconds, spaced commit.parents, listed commit.refs, commit.subject]

def listRecord (commit : GitCommit Time) : Text := commit.listFields.flatMap (· ++ ['\x1f']) ++ commit.subject

def detailRecord (commit : GitCommit Time) : Text := commit.detailFields.flatMap (· ++ ['\x1f']) ++ commit.body

theorem listRecord_hash (commit : GitCommit Time) : commit.listRecord =
    commit.hash ++ ('\x1f' :: (commit.listFields.tail.flatMap (· ++ ['\x1f']) ++ commit.subject)) := by
  simp [listRecord, listFields]

theorem detailRecord_hash (commit : GitCommit Time) : commit.detailRecord =
    commit.hash ++ ('\x1f' :: (commit.detailFields.tail.flatMap (· ++ ['\x1f']) ++ commit.body)) := by
  simp [detailRecord, detailFields]

/-- What the list shows of a commit: no committer, no address, no body. -/
def brief (commit : GitCommit Time) : Commit Time :=
  ⟨commit.hash, commit.parents, ⟨commit.authorName, [], commit.authorTime⟩, ⟨[], [], commit.authorTime⟩, commit.subject, [],
    keepRefs commit.refs⟩

/-- What the detail shows of a commit: all of it but the line feeds that end the body. -/
def full (commit : GitCommit Time) : Commit Time :=
  ⟨commit.hash, commit.parents, ⟨commit.authorName, commit.authorEmail, commit.authorTime⟩,
    ⟨commit.committerName, commit.committerEmail, commit.committerTime⟩, commit.subject, commit.body.rdropWhile (· == '\n'),
    keepRefs commit.refs⟩

end GitCommit

/-- The times of a commit are within the range of an `i64` and of the calendar. -/
structure InRange (fromTimestamp : Int → Option Time) (seconds : Int) (time : Time) : Prop where
  low : -(2 ^ 63) ≤ seconds
  high : seconds < 2 ^ 63
  known : fromTimestamp seconds = some time

/-- What git promises of the fields that the list and the detail both print. -/
structure Sound (fromTimestamp : Int → Option Time) (commit : GitCommit Time) : Prop where
  hash : IsHash commit.hash
  parents : ∀ parent ∈ commit.parents, IsHash parent
  fewParents : commit.parents.length ≤ MAX_COMMIT_PARENTS
  refs : ∀ ref ∈ commit.refs, IsRef ref
  authorTime : InRange fromTimestamp commit.authorSeconds commit.authorTime

variable {fromTimestamp : Int → Option Time} {commit : GitCommit Time}

theorem pushParents_ok {parents rest : List CommitId} (room : parents.length + rest.length ≤ MAX_COMMIT_PARENTS) :
    pushParents parents rest = .ok (parents ++ rest) := by
  induction rest generalizing parents with
  | nil => rw [pushParents, append_nil]
  | cons parent rest ih =>
    rw [length_cons] at room
    rw [pushParents, if_neg (by omega), ih (by simp only [length_append, length_singleton]; omega)]
    simp

theorem parseParents_spaced (sound : Sound fromTimestamp commit) : parseParents (spaced commit.parents) = .ok commit.parents := by
  have words : splitWhitespace (spaced commit.parents) = commit.parents := splitWhitespace_spaced fun parent mem =>
      ⟨(sound.parents parent mem).1, fun c inside => (hexDigit_plain ((sound.parents parent mem).2 c inside)).1⟩
  rw [parseParents, words]
  exact pushParents_ok (by simpa using sound.fewParents)

theorem parseRefs_listed (sound : Sound fromTimestamp commit) : parseRefs (listed commit.refs) = keepRefs commit.refs :=
  congrArg keepRefs (refs_listed sound.refs)

theorem trim_hash (sound : Sound fromTimestamp commit) : trim commit.hash = commit.hash :=
  trim_dark fun c mem => (hexDigit_plain (sound.hash.2 c mem)).1

theorem timeOf_known {seconds : Int} {time : Time} (known : fromTimestamp seconds = some time) (label : Text) :
    timeOf fromTimestamp seconds label = .ok time := by
  rw [timeOf, known]
  rfl

theorem parseLogListRecord_listRecord (sound : Sound fromTimestamp commit) (free : ∀ field ∈ commit.listFields, '\x1f' ∉ field) :
    parseLogListRecord fromTimestamp commit.listRecord = .ok commit.brief := by
  have fields : splitN '\x1f' 6 commit.listRecord = commit.listFields ++ [commit.subject] := splitN_parts free commit.subject
  have seconds := parseI64_secondsText sound.authorTime.low sound.authorTime.high
  have held : ¬ commit.hash.isEmpty = true := by simpa using sound.hash.1
  have time := timeOf_known sound.authorTime.known "作者时间"
  unfold parseLogListRecord
  rw [fields]
  simp only [GitCommit.listFields, cons_append, nil_append, fieldAt, getElem?_cons_zero, getElem?_cons_succ,
    Option.elim_some, bind, Except.bind, trim_hash sound, if_neg held, seconds, Except.mapError, parseParents_spaced sound,
    parseRefs_listed sound, time]
  rfl

theorem parseRecord_detailRecord (sound : Sound fromTimestamp commit)
    (committed : InRange fromTimestamp commit.committerSeconds commit.committerTime)
    (free : ∀ field ∈ commit.detailFields, '\x1f' ∉ field) : parseRecord fromTimestamp commit.detailRecord = .ok commit.full := by
  have fields : splitN '\x1f' 11 commit.detailRecord = commit.detailFields ++ [commit.body] := splitN_parts free commit.body
  have authorSeconds := parseI64_secondsText sound.authorTime.low sound.authorTime.high
  have committerSeconds := parseI64_secondsText committed.low committed.high
  have held : ¬ commit.hash.isEmpty = true := by simpa using sound.hash.1
  have authorTime := timeOf_known sound.authorTime.known "作者时间"
  have committerTime := timeOf_known committed.known "提交时间"
  unfold parseRecord
  rw [fields]
  simp only [GitCommit.detailFields, cons_append, nil_append, fieldAt, getElem?_cons_zero, getElem?_cons_succ,
    Option.elim_some, bind, Except.bind, trim_hash sound, if_neg held, authorSeconds, committerSeconds, Except.mapError,
    parseParents_spaced sound, parseRefs_listed sound, authorTime, committerTime]
  rfl

/-- Records as `--pretty=format:` parts them, with a line feed in front of each but the first. -/
def parted : List Text → List Text
  | [] => []
  | record :: rest => record :: rest.map ('\n' :: ·)

/-- The output of `git log` in the list format. -/
def listOutput (commits : List (GitCommit Time)) : Text :=
  (parted (commits.map GitCommit.listRecord)).flatMap (· ++ ['\x1e'])

/-- The output of `git show` in the detail format, which ends with a line feed. -/
def detailOutput (commit : GitCommit Time) : Text := commit.detailRecord ++ "\x1e\n"

theorem splitOn_ended {pieces : List Text} (free : ∀ piece ∈ pieces, '\x1e' ∉ piece) (rest : Text) :
    (pieces.flatMap (· ++ ['\x1e']) ++ rest).splitOn '\x1e' = pieces ++ rest.splitOn '\x1e' := by
  induction pieces with
  | nil => rfl
  | cons piece pieces ih =>
    rw [forall_mem_cons] at free
    have other : ∀ c ∈ piece, (c == '\x1e') = false := by
      intro c mem
      rw [beq_eq_false_iff_ne]
      rintro rfl
      exact free.1 mem
    have whole : (piece :: pieces).flatMap (· ++ ['\x1e']) ++ rest = piece ++ '\x1e' :: (pieces.flatMap (· ++ ['\x1e']) ++ rest) := by simp
    rw [whole, cons_append, ← ih free.2]
    exact splitOnP_append_cons_of_forall_mem other '\x1e' rfl _

/-- What the list promises of a commit: the record delimiter is in no field, and the record is not too long. -/
structure Listable (fromTimestamp : Int → Option Time) (commit : GitCommit Time) : Prop where
  sound : Sound fromTimestamp commit
  fields : ∀ field ∈ commit.listFields, '\x1f' ∉ field
  record : '\x1e' ∉ commit.listRecord
  small : byteLen commit.listRecord ≤ MAX_GIT_MESSAGE_BYTES

/-- What the detail promises of a commit. -/
structure Showable (fromTimestamp : Int → Option Time) (commit : GitCommit Time) : Prop where
  sound : Sound fromTimestamp commit
  committerTime : InRange fromTimestamp commit.committerSeconds commit.committerTime
  fields : ∀ field ∈ commit.detailFields, '\x1f' ∉ field
  record : '\x1e' ∉ commit.detailRecord
  small : byteLen commit.detailRecord ≤ MAX_GIT_MESSAGE_BYTES

theorem dropWhile_hash {hash : Text} (isHash : IsHash hash) (rest : Text) :
    (hash ++ rest).dropWhile (· == '\n') = hash ++ rest ∧ ('\n' :: (hash ++ rest)).dropWhile (· == '\n') = hash ++ rest := by
  obtain ⟨held, hex⟩ := isHash
  cases hash with
  | nil => exact absurd rfl held
  | cons c hash =>
    have dark : c ≠ '\n' := (hexDigit_plain (hex c mem_cons_self)).2.2.2
    simp [dark]

theorem reads_parted {α : Type} {record : α → Text} {shown : α → Commit Time} {items : List α}
    (every : ∀ item ∈ items, (∃ hash rest, IsHash hash ∧ record item = hash ++ rest) ∧
      byteLen (record item) ≤ MAX_GIT_MESSAGE_BYTES ∧ parse (record item) = .ok (shown item)) :
    Reads parse (parted (items.map record)) (items.map shown) := by
  have take : ∀ item ∈ items, ∀ {raw : Text} {rest : List Text} {new : List (Commit Time)},
      raw = record item ∨ raw = '\n' :: record item → Reads parse rest new → Reads parse (raw :: rest) (shown item :: new) := by
    intro item mem raw rest new raws reads
    obtain ⟨⟨hash, last, isHash, spelled⟩, small, parsed⟩ := every item mem
    have dropped : raw.dropWhile (· == '\n') = record item := by
      rw [spelled] at raws ⊢
      rcases raws with rfl | rfl
      · exact (dropWhile_hash isHash last).1
      · exact (dropWhile_hash isHash last).2
    refine .take ?_ (by rwa [dropped]) (by rwa [dropped]) reads
    rw [dropped, spelled]
    simp [isHash.1]
  have later : ∀ later : List α, (∀ item ∈ later, item ∈ items) →
      Reads parse (later.map fun item => '\n' :: record item) (later.map shown) := by
    intro later inside
    induction later with
    | nil => exact .nil
    | cons item later ih =>
      rw [forall_mem_cons] at inside
      exact take item inside.1 (.inr rfl) (ih inside.2)
  cases items with
  | nil => exact .nil
  | cons item rest =>
    have rest := later rest fun other mem => mem_cons_of_mem item mem
    simp only [map_cons, parted, map_map]
    exact take item mem_cons_self (.inl rfl) rest

theorem Reads.blank {new : List (Commit Time)} {last : Text}
    (reads : Reads parse records new) (blank : last.dropWhile (· == '\n') = []) : Reads parse (records ++ [last]) new := by
  induction reads with
  | nil => exact .skip blank .nil
  | skip held _ ih => exact .skip held ih
  | take held small parsed _ ih => exact .take held small parsed ih

theorem Reads.of_blank {new : List (Commit Time)} (reads : Reads parse (records ++ [[]]) new) : Reads parse records new := by
  induction records generalizing new with
  | nil =>
    cases reads with
    | skip _ reads => exact reads
    | take held _ _ _ => exact absurd rfl held
  | cons record records ih =>
    cases reads with
    | skip blank reads => exact .skip blank (ih reads)
    | take held small parsed reads => exact .take held small parsed (ih reads)

theorem mem_parted {c : Char} {raw : Text} (mem : raw ∈ parted records) (inside : c ∈ raw) : c = '\n' ∨ ∃ record ∈ records, c ∈ record := by
  cases records with
  | nil => cases mem
  | cons record rest =>
    rcases mem_cons.mp mem with rfl | mem
    · exact .inr ⟨raw, mem_cons_self, inside⟩
    obtain ⟨other, known, rfl⟩ := mem_map.mp mem
    rcases mem_cons.mp inside with rfl | inside
    · exact .inl rfl
    · exact .inr ⟨other, mem_cons_of_mem record known, inside⟩

theorem parseLogListOutput_listOutput {commits : List (GitCommit Time)} (every : ∀ commit ∈ commits, Listable fromTimestamp commit)
    (few : commits.length ≤ MAX_PARSED_GIT_ITEMS) :
    parseLogListOutput fromTimestamp (listOutput commits) = .ok (commits.map GitCommit.brief) := by
  have free : ∀ piece ∈ parted (commits.map GitCommit.listRecord), '\x1e' ∉ piece := by
    intro piece mem inside
    rcases mem_parted mem inside with same | ⟨record, known, inside⟩
    · exact absurd same (by decide)
    · obtain ⟨commit, listed, rfl⟩ := mem_map.mp known
      exact (every commit listed).record inside
  have pieces : (listOutput commits).splitOn '\x1e' = parted (commits.map GitCommit.listRecord) ++ [[]] := by
    rw [listOutput, ← append_nil (List.flatMap _ _), splitOn_ended free]
    rfl
  have reads : Reads (parseLogListRecord fromTimestamp) (parted (commits.map GitCommit.listRecord)) (commits.map GitCommit.brief) :=
    reads_parted fun commit mem => by
      have listable := every commit mem
      exact ⟨⟨commit.hash, _, listable.sound.hash, commit.listRecord_hash⟩, listable.small,
        parseLogListRecord_listRecord listable.sound listable.fields⟩
  rw [parseLogListOutput, pieces]
  exact collectRecords_ok.mpr ⟨_, reads.blank rfl, by simp, .inr (by simpa using few)⟩

theorem parseLogOutput_detailOutput (showable : Showable fromTimestamp commit) :
    parseLogOutput fromTimestamp (detailOutput commit) = .ok [commit.full] := by
  have pieces : (detailOutput commit).splitOn '\x1e' = [commit.detailRecord, ['\n']] := by
    have free : ∀ piece ∈ [commit.detailRecord], '\x1e' ∉ piece := forall_mem_singleton.mpr showable.record
    have split := splitOn_ended free ['\n']
    have last : ['\n'].splitOn '\x1e' = [['\n']] := by decide
    simpa [detailOutput, last] using split
  have parsed := parseRecord_detailRecord showable.sound showable.committerTime showable.fields
  have reads : Reads (parseRecord fromTimestamp) (parted ([commit].map GitCommit.detailRecord)) ([commit].map GitCommit.full) :=
    reads_parted fun other mem => by
      rw [mem_singleton.mp mem]
      exact ⟨⟨commit.hash, _, showable.sound.hash, commit.detailRecord_hash⟩, showable.small, parsed⟩
  rw [parseLogOutput, pieces]
  exact collectRecords_ok.mpr ⟨_, reads.blank rfl, rfl, .inr (by simp [MAX_PARSED_GIT_ITEMS])⟩

end Ramag.LogDecoding
