import Ramag.LogDecoding

/-!
The pages of `LogPager` next to the one-shot reader of the same bytes. However
the pipe cuts the bytes and however long the pages are, the pages hold the
commits of the one-shot reader in its order, up to where the limits reach.
-/
namespace Ramag.LogPages
open Strings Domain Fields GitLog Utf8Decoding LogDecoding List
open UnifiedDiff (MAX_PARSED_GIT_ITEMS ensureGitListRoom ensureGitListRoom_ok)
open ByteTexts (asBytes)

/-- Records on the pipe, each with the byte that ends it. -/
def framed (pieces : List (List UInt8)) : List UInt8 := pieces.flatMap (· ++ [0x1e])

/-- No read gives nothing before the end of the output. -/
def Chunked (chunks : Chunks) (bytes : List UInt8) : Prop :=
  ∃ parts : List (List UInt8), (∀ part ∈ parts, part ≠ []) ∧ parts.flatten = bytes ∧ chunks = parts.map .ok

/-- A record the reader takes: the delimiter is not in it and it is not too long. -/
def IsPiece (piece : List UInt8) : Prop := 0x1e ∉ piece ∧ piece.length ≤ MAX_GIT_MESSAGE_BYTES

theorem first_delimiter {α : Type} {mark : α} {left right left' right' : List α} (free : mark ∉ left) (free' : mark ∉ left')
    (same : left ++ mark :: right = left' ++ mark :: right') : left = left' ∧ right = right' := by
  induction left generalizing left' with
  | nil =>
    cases left' with
    | nil => exact ⟨rfl, (List.cons.inj same).2⟩
    | cons other left' => exact absurd (List.cons.inj same).1 (ne_of_not_mem_cons free')
  | cons head left ih =>
    cases left' with
    | nil => exact absurd (List.cons.inj same).1.symm (ne_of_not_mem_cons free)
    | cons other left' =>
      obtain ⟨rfl, later⟩ := List.cons.inj same
      obtain ⟨rfl, rfl⟩ := ih (not_mem_of_not_mem_cons free) (not_mem_of_not_mem_cons free') later
      exact ⟨rfl, rfl⟩

theorem readLogRecord_piece {chunks : Chunks} {record piece rest : List UInt8} (chunked : Chunked chunks (piece ++ 0x1e :: rest))
    (free : 0x1e ∉ piece) (small : record.length + piece.length ≤ MAX_GIT_MESSAGE_BYTES) :
    ∃ left, Chunked left rest ∧ readLogRecord record chunks = .ok (some (record ++ piece), left) := by
  obtain ⟨parts, held, flat, rfl⟩ := chunked
  induction parts generalizing record piece with
  | nil => simp at flat
  | cons part parts ih =>
    rw [forall_mem_cons] at held
    have full : ¬ part.isEmpty = true := by simpa using held.1
    rw [map_cons, readLogRecord, if_neg full]
    cases found : part.findIdx? (· == 0x1e) with
    | none =>
      have whole : (0x1e : UInt8) ∉ part := fun mem => by
        have := findIdx?_eq_none_iff.mp found _ mem
        simp at this
      -- The whole read is the front of the record.
      obtain ⟨more, rfl, later⟩ : ∃ more, piece = part ++ more ∧ parts.flatten = more ++ 0x1e :: rest := by
        rcases append_eq_append_iff.mp flat with ⟨more, rfl, later⟩ | ⟨back, rfl, last⟩
        · exact ⟨more, rfl, later⟩
        cases back with
        | nil => exact ⟨[], by simp, by simpa using last.symm⟩
        | cons b back =>
          obtain ⟨rfl, -⟩ := List.cons.inj last
          exact absurd (mem_append_right _ mem_cons_self) whole
      rw [length_append] at small
      have fits : ¬ record.length + part.length > MAX_GIT_MESSAGE_BYTES + 1 := by omega
      have room : (record ++ part).length + more.length ≤ MAX_GIT_MESSAGE_BYTES := by
        rw [length_append]
        omega
      obtain ⟨left, chunked, read⟩ := ih (fun mem => free (mem_append_right _ mem)) room held.2 later
      refine ⟨left, chunked, ?_⟩
      rw [append_assoc] at read
      exact (if_neg fits).trans read
    | some index =>
      obtain ⟨inside, mark, before⟩ := findIdx?_eq_some_iff_getElem.mp found
      have spelled : part = part.take index ++ 0x1e :: part.drop (index + 1) := by
        have mark : part[index] = 0x1e := by simpa using mark
        rw [← mark, ← drop_eq_getElem_cons inside, take_append_drop]
      have front : (0x1e : UInt8) ∉ part.take index := by
        intro mem
        obtain ⟨place, bound, same⟩ := mem_take_iff_getElem.mp mem
        have := before place (by omega)
        simp [same] at this
      obtain ⟨same, flat⟩ : part.take index = piece ∧ part.drop (index + 1) ++ parts.flatten = rest := by
        refine first_delimiter front free ?_
        rw [← flat]
        conv_rhs => rw [spelled]
        simp
      have length : piece.length = index := by rw [← same, length_take, Nat.min_eq_left inside.le]
      have fits : ¬ record.length + (index + 1) > MAX_GIT_MESSAGE_BYTES + 1 := by omega
      refine ⟨if (part.drop (index + 1)).isEmpty then parts.map .ok else .ok (part.drop (index + 1)) :: parts.map .ok, ?_, ?_⟩
      · split_ifs with last
        · rw [isEmpty_iff.mp last, nil_append] at flat
          exact ⟨parts, held.2, flat, rfl⟩
        · exact ⟨part.drop (index + 1) :: parts, forall_mem_cons.mpr ⟨by simpa using last, held.2⟩, flat, rfl⟩
      · rw [← same]
        exact if_neg fits

/-! ### One page -/

section
variable {Time : Type} {fromTimestamp : Int → Option Time} {limit pageBytes : Nat} {pager : LogPager} {commits : List (Commit Time)}

theorem readPageFrom_full (full : ¬ commits.length < limit) (bound : pager.offset + commits.length < 2 ^ 64) :
    readPageFrom fromTimestamp limit pager commits pageBytes =
      .ok ((commits, false), { pager with offset := pager.offset + commits.length }) := by
  rw [readPageFrom, if_neg full, if_pos bound]

variable {left : Chunks}

theorem readPageFrom_end (below : commits.length < limit) (read : readLogRecord [] pager.stdout = .ok (none, left))
    (exit : pager.exit = .ok ()) : readPageFrom fromTimestamp limit pager commits pageBytes =
      .ok ((commits, true), { pager with stdout := left, finished := true }) := by
  rw [readPageFrom, if_pos below]
  split
  case h_1 failed => cases read.symm.trans failed
  case h_2 found =>
    cases read.symm.trans found
    rw [exit]
  case h_3 found => cases read.symm.trans found

theorem readPageFrom_skip {record : List UInt8} (below : commits.length < limit)
    (read : readLogRecord [] pager.stdout = .ok (some record, left)) (fits : pageBytes + record.length ≤ MAX_STDOUT_BYTES)
    (blank : (decodeLossy record).dropWhile (· == '\n') = []) : readPageFrom fromTimestamp limit pager commits pageBytes =
      readPageFrom fromTimestamp limit { pager with stdout := left } commits (pageBytes + record.length) := by
  conv_lhs => rw [readPageFrom]
  rw [if_pos below]
  split
  case h_1 failed => cases read.symm.trans failed
  case h_2 found => cases read.symm.trans found
  case h_3 found =>
    cases read.symm.trans found
    simp [Nat.not_lt.mpr fits, blank]

theorem readPageFrom_take {record : List UInt8} {commit : Commit Time} (below : commits.length < limit)
    (read : readLogRecord [] pager.stdout = .ok (some record, left)) (fits : pageBytes + record.length ≤ MAX_STDOUT_BYTES)
    (held : (decodeLossy record).dropWhile (· == '\n') ≠ []) (room : commits.length < MAX_PARSED_GIT_ITEMS)
    (small : byteLen ((decodeLossy record).dropWhile (· == '\n')) ≤ MAX_GIT_MESSAGE_BYTES)
    (parsed : parseLogListRecord fromTimestamp ((decodeLossy record).dropWhile (· == '\n')) = .ok commit) :
    readPageFrom fromTimestamp limit pager commits pageBytes =
      readPageFrom fromTimestamp limit { pager with stdout := left } (commits ++ [commit]) (pageBytes + record.length) := by
  have roomy : ensureGitListRoom commits.length "Git 日志列表" = .ok () := ensureGitListRoom_ok.mpr room
  have sized : ∀ index, ensureGitMessageSize ((decodeLossy record).dropWhile (· == '\n')) "Git 日志记录" index = .ok () :=
    fun index => ensureGitMessageSize_ok.mpr small
  conv_lhs => rw [readPageFrom]
  rw [if_pos below]
  split
  case h_1 failed => cases read.symm.trans failed
  case h_2 found => cases read.symm.trans found
  case h_3 found =>
    cases read.symm.trans found
    simp only [gt_iff_lt, Nat.not_lt.mpr fits, if_false, List.isEmpty_iff, held, roomy, sized, parsed]

/-- What is left on the pipe of a pager, as records. -/
structure Feeds (pager : LogPager) (pieces : List (List UInt8)) : Prop where
  chunked : Chunked pager.stdout (framed pieces)
  pieces : ∀ piece ∈ pieces, IsPiece piece
  exit : pager.exit = .ok ()

variable {pieces : List (List UInt8)}

theorem Feeds.next {piece : List UInt8} (feeds : Feeds pager (piece :: pieces)) :
    ∃ left, readLogRecord [] pager.stdout = .ok (some piece, left) ∧ Feeds { pager with stdout := left } pieces := by
  obtain ⟨chunked, every, exit⟩ := feeds
  rw [forall_mem_cons] at every
  have spelled : framed (piece :: pieces) = piece ++ 0x1e :: framed pieces := by simp [framed]
  rw [spelled] at chunked
  have small : ([] : List UInt8).length + piece.length ≤ MAX_GIT_MESSAGE_BYTES := by simpa using every.1.2
  obtain ⟨left, chunked, read⟩ := readLogRecord_piece chunked every.1.1 small
  exact ⟨left, read, chunked, every.2, exit⟩

theorem Feeds.ended (feeds : Feeds pager []) : readLogRecord [] pager.stdout = .ok (none, []) := by
  obtain ⟨parts, held, flat, spelled⟩ := feeds.chunked
  cases parts with
  | nil =>
    rw [spelled]
    rfl
  | cons part parts =>
    have empty : part = [] := (append_eq_nil_iff.mp flat).1
    exact absurd empty (held part mem_cons_self)

/-- How many bytes the records take. -/
def bytesOf (pieces : List (List UInt8)) : Nat := (pieces.map List.length).sum

theorem readPageFrom_reads {new : List (Commit Time)}
    (reads : Reads (parseLogListRecord fromTimestamp) (pieces.map decodeLossy) new) (feeds : Feeds pager pieces)
    (most : commits.length ≤ limit) (room : commits.length + new.length ≤ MAX_PARSED_GIT_ITEMS)
    (fits : pageBytes + bytesOf pieces ≤ MAX_STDOUT_BYTES) (bound : pager.offset + commits.length + new.length < 2 ^ 64) :
    if commits.length + new.length < limit then
      ∃ pager', readPageFrom fromTimestamp limit pager commits pageBytes = .ok ((commits ++ new, true), pager') else
      ∃ pager' rest, readPageFrom fromTimestamp limit pager commits pageBytes =
          .ok ((commits ++ new.take (limit - commits.length), false), pager') ∧
        Reads (parseLogListRecord fromTimestamp) (rest.map decodeLossy) (new.drop (limit - commits.length)) ∧ Feeds pager' rest ∧
        bytesOf rest ≤ bytesOf pieces ∧ pager'.offset = pager.offset + limit := by
  induction pieces generalizing pager commits pageBytes new with
  | nil =>
    cases reads
    by_cases below : commits.length < limit
    · rw [if_pos (by simpa using below), append_nil]
      exact ⟨_, readPageFrom_end below feeds.ended feeds.exit⟩
    have same : commits.length = limit := by omega
    rw [if_neg (by simpa using below)]
    refine ⟨{ pager with offset := pager.offset + commits.length }, [], ?_, ?_, ⟨feeds.chunked, feeds.pieces, feeds.exit⟩, le_rfl,
      congrArg (pager.offset + ·) same⟩
    · simpa using readPageFrom_full below (by simpa using bound)
    · simpa using Reads.nil
  | cons piece pieces ih =>
    by_cases below : commits.length < limit
    · obtain ⟨left, read, feeds⟩ := feeds.next
      have spelled : bytesOf (piece :: pieces) = piece.length + bytesOf pieces := by simp [bytesOf]
      cases reads with
      | skip blank reads =>
        have next := ih reads feeds most room (by omega : pageBytes + piece.length + bytesOf pieces ≤ MAX_STDOUT_BYTES) bound
        rw [← readPageFrom_skip below read (by omega) blank] at next
        split_ifs at next ⊢
        · exact next
        · obtain ⟨pager', rest, page, reads, feeds, less, offset⟩ := next
          exact ⟨pager', rest, page, reads, feeds, by omega, offset⟩
      | @take _ _ commit new held small parsed reads =>
        rw [length_cons] at room bound ⊢
        have longer : (commits ++ [commit]).length = commits.length + 1 := by simp
        have most : (commits ++ [commit]).length ≤ limit := by omega
        have roomy : (commits ++ [commit]).length + new.length ≤ MAX_PARSED_GIT_ITEMS := by omega
        have bounded : pager.offset + (commits ++ [commit]).length + new.length < 2 ^ 64 := by omega
        have next := ih reads feeds most roomy (by omega : pageBytes + piece.length + bytesOf pieces ≤ MAX_STDOUT_BYTES) bounded
        rw [← readPageFrom_take below read (by omega) held (by omega) small parsed, longer] at next
        have total : commits.length + 1 + new.length = commits.length + (new.length + 1) := by omega
        have count : limit - commits.length = (limit - (commits.length + 1)) + 1 := by omega
        rw [total] at next
        rw [count, take_succ_cons, drop_succ_cons]
        simp only [append_assoc, singleton_append] at next
        split_ifs at next ⊢
        · exact next
        · obtain ⟨pager', rest, page, reads, feeds, less, offset⟩ := next
          exact ⟨pager', rest, page, reads, feeds, by omega, offset⟩
    · have same : commits.length = limit := by omega
      rw [if_neg (by omega)]
      refine ⟨{ pager with offset := pager.offset + commits.length }, piece :: pieces, ?_, ?_,
        ⟨feeds.chunked, feeds.pieces, feeds.exit⟩, le_rfl, congrArg (pager.offset + ·) same⟩
      · simpa [same] using readPageFrom_full below (by omega)
      · simpa [same] using reads

theorem readPages_reads {limits : List Nat} {new : List (Commit Time)}
    (reads : Reads (parseLogListRecord fromTimestamp) (pieces.map decodeLossy) new) (feeds : Feeds pager pieces)
    (room : new.length ≤ MAX_PARSED_GIT_ITEMS) (fits : bytesOf pieces ≤ MAX_STDOUT_BYTES)
    (bound : pager.offset + new.length ≤ MAX_PARSED_GIT_ITEMS) :
    ∃ pages, readPages fromTimestamp pager limits = .ok (pages, decide (new.length < limits.sum)) ∧
      pages.flatten = new.take limits.sum := by
  induction limits generalizing pager pieces new with
  | nil => exact ⟨[], rfl, rfl⟩
  | cons limit limits ih =>
    have small : MAX_PARSED_GIT_ITEMS < 2 ^ 64 := by decide
    have most : ([] : List (Commit Time)).length ≤ limit := Nat.zero_le limit
    have page := readPageFrom_reads reads feeds most (by simpa using room)
      (by omega : 0 + bytesOf pieces ≤ MAX_STDOUT_BYTES) (by simpa using by omega)
    simp only [length_nil, Nat.zero_add, nil_append, Nat.sub_zero] at page
    rw [sum_cons]
    split_ifs at page with last
    · obtain ⟨pager', page⟩ := page
      have beyond : new.length < limit + limits.sum := by omega
      refine ⟨[new], ?_, ?_⟩
      · rw [readPages, LogPager.readPage, page, decide_eq_true beyond]
        rfl
      · rw [flatten_singleton, take_of_length_le beyond.le]
    · obtain ⟨pager', rest, page, reads, feeds, less, offset⟩ := page
      have left : (new.drop limit).length = new.length - limit := length_drop
      obtain ⟨pages, read, flat⟩ := ih reads feeds (by omega) (by omega) (by omega)
      have ends : decide (new.length < limit + limits.sum) = decide ((new.drop limit).length < limits.sum) := by
        congr 1
        exact propext (by omega)
      refine ⟨new.take limit :: pages, ?_, ?_⟩
      · rw [readPages, LogPager.readPage, page, ends]
        simp only [bind, Except.bind, read]
        rfl
      · rw [flatten_cons, flat, take_add]

end

theorem decodeLossy_framed (pieces : List (List UInt8)) :
    decodeLossy (framed pieces) = (pieces.map decodeLossy).flatMap (· ++ ['\x1e']) := by
  induction pieces with
  | nil =>
    rw [framed, flatMap_nil, decodeLossy]
    rfl
  | cons piece pieces ih =>
    have spelled : framed (piece :: pieces) = piece ++ ('\x1e').toNat.toUInt8 :: framed pieces := by simp [framed]
    rw [spelled, decodeLossy_ascii (by decide), ih]
    simp

theorem parseLogListOutput_framed {Time : Type} {fromTimestamp : Int → Option Time} {pieces : List (List UInt8)}
    {commits : List (Commit Time)} (every : ∀ piece ∈ pieces, IsPiece piece)
    (read : parseLogListOutput fromTimestamp (decodeLossy (framed pieces)) = .ok commits) :
    Reads (parseLogListRecord fromTimestamp) (pieces.map decodeLossy) commits ∧ commits.length ≤ MAX_PARSED_GIT_ITEMS := by
  have free : ∀ record ∈ pieces.map decodeLossy, '\x1e' ∉ record := by
    intro record mem inside
    obtain ⟨piece, known, rfl⟩ := mem_map.mp mem
    exact (every piece known).1 (mem_of_mem_decodeLossy (by decide) inside)
  have split := splitOn_ended free []
  rw [append_nil, ← decodeLossy_framed] at split
  rw [parseLogListOutput, split] at read
  obtain ⟨new, reads, rfl, few⟩ := collectRecords_ok.mp read
  refine ⟨reads.of_blank, ?_⟩
  rcases few with rfl | few
  · exact Nat.zero_le _
  · simpa using few

/-- Commits within what git promises come back in their order, and the pages of an output join to the commits of
    the one-shot reader, up to their limits, however the pipe cuts it. -/
theorem log_decoding {Time : Type} (fromTimestamp : Int → Option Time) :
    (∀ commits : List (GitCommit Time), (∀ commit ∈ commits, Listable fromTimestamp commit) → commits.length ≤ MAX_PARSED_GIT_ITEMS →
      parseLogListOutput fromTimestamp (listOutput commits) = .ok (commits.map GitCommit.brief)) ∧
    (∀ commit : GitCommit Time, Showable fromTimestamp commit → parseLogOutput fromTimestamp (detailOutput commit) = .ok [commit.full]) ∧
    ∀ (pieces : List (List UInt8)) (commits : List (Commit Time)), (∀ piece ∈ pieces, IsPiece piece) →
      bytesOf pieces ≤ MAX_STDOUT_BYTES → parseLogListOutput fromTimestamp (decodeLossy (framed pieces)) = .ok commits →
      ∀ (chunks : Chunks) (limits : List Nat), Chunked chunks (framed pieces) →
        ∃ pages, readPages fromTimestamp { stdout := chunks, exit := .ok () } limits =
            .ok (pages, decide (commits.length < limits.sum)) ∧ pages.flatten = commits.take limits.sum := by
  refine ⟨fun commits every few => parseLogListOutput_listOutput every few, fun commit showable => parseLogOutput_detailOutput showable, ?_⟩
  intro pieces commits every fits read chunks limits chunked
  obtain ⟨reads, few⟩ := parseLogListOutput_framed every read
  exact readPages_reads reads ⟨chunked, every, rfl⟩ few fits (by simpa using few)

/-- A commit whose body ends with a line feed. -/
def firstCommit : GitCommit Int where
  hash := "0a"
  authorName := "Ann"
  authorEmail := "ann@x"
  authorSeconds := 5
  authorTime := 5
  committerName := "Bob"
  committerEmail := "bob@x"
  committerSeconds := -7
  committerTime := -7
  parents := ["1b", "2c"]
  refs := ["HEAD -> main", "tag: v1"]
  subject := "first"
  body := "body\n"

theorem firstCommit_sound : Sound some firstCommit where
  hash := ⟨by decide, all_eq_true.mp (by decide)⟩
  parents := by
    simp only [firstCommit, forall_mem_cons, IsHash]
    exact ⟨⟨by decide, all_eq_true.mp (by decide)⟩, ⟨by decide, all_eq_true.mp (by decide)⟩, forall_mem_nil _⟩
  fewParents := by decide +kernel
  refs := by
    simp only [firstCommit, forall_mem_cons, IsRef]
    exact ⟨⟨by decide, by decide +kernel, by decide +kernel⟩, ⟨by decide, by decide +kernel, by decide +kernel⟩, forall_mem_nil _⟩
  authorTime := ⟨by decide +kernel, by decide +kernel, rfl⟩

theorem firstCommit_listable : Listable some firstCommit where
  sound := firstCommit_sound
  fields := by decide +kernel
  record := by decide +kernel
  small := by decide +kernel

theorem firstCommit_showable : Showable some firstCommit where
  sound := firstCommit_sound
  committerTime := ⟨by decide +kernel, by decide +kernel, rfl⟩
  fields := by decide +kernel
  record := by decide +kernel
  small := by decide +kernel

/-- The reader of the detail drops the line feeds that end a body. -/
theorem body_trimmed : ¬ ∀ commit : GitCommit Int, Showable some commit →
    parseLogOutput some (detailOutput commit) = .ok [{ commit.full with body := commit.body }] := by
  intro kept
  have same := (kept firstCommit firstCommit_showable).symm.trans (parseLogOutput_detailOutput firstCommit_showable)
  have bodies : firstCommit.body = firstCommit.full.body := congrArg Commit.body (List.cons.inj (Except.ok.inj same)).1
  exact absurd bodies (by decide +kernel)

/-- The record of the commit in two reads, with the byte that ends it. -/
def firstChunks : Chunks := [.ok ((asBytes firstCommit.listRecord).take 3), .ok ((asBytes firstCommit.listRecord).drop 3 ++ [30])]

/-- The commit twice in a list, its detail, and its list in two reads and three pages. -/
theorem log_decoding_first : parseLogListOutput some (listOutput [firstCommit, firstCommit]) = .ok [firstCommit.brief, firstCommit.brief] ∧
    parseLogOutput some (detailOutput firstCommit) = .ok [firstCommit.full] ∧
    ∃ pages, readPages some { stdout := firstChunks, exit := .ok () } [0, 1, 3] = .ok (pages, true) ∧
      pages.flatten = [firstCommit.brief] := by
  obtain ⟨list, detail, pages⟩ := log_decoding (some : Int → Option Int)
  have every : ∀ commit ∈ [firstCommit, firstCommit], Listable some commit := by
    intro commit mem
    rcases mem_pair.mp mem with rfl | rfl
    · exact firstCommit_listable
    · exact firstCommit_listable
  refine ⟨list [firstCommit, firstCommit] every (by decide +kernel), detail firstCommit firstCommit_showable, ?_⟩
  have pieces : ∀ piece ∈ [asBytes firstCommit.listRecord], IsPiece piece :=
    forall_mem_singleton.mpr ⟨by decide +kernel, by decide +kernel⟩
  have once : parseLogListOutput some (decodeLossy (framed [asBytes firstCommit.listRecord])) = .ok [firstCommit.brief] := by
    have spelled : decodeLossy (framed [asBytes firstCommit.listRecord]) = listOutput [firstCommit] := by
      rw [decodeLossy_framed, map_singleton, decodeLossy_asBytes]
      rfl
    rw [spelled]
    exact list [firstCommit] (forall_mem_singleton.mpr firstCommit_listable) (by decide +kernel)
  exact pages _ [firstCommit.brief] pieces (by decide +kernel) once _ [0, 1, 3] ⟨[_, _], by decide +kernel, by decide +kernel, rfl⟩

end Ramag.LogPages
