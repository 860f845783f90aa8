import Ramag.UnifiedDiff

/-!
What `git diff` writes for one text file, and when the reader gives it back. A
diff between two lists of lines is a preamble of headers and then hunks, with
the unchanged lines between them left out; a line of a hunk is marked by its
first character. The reader recognises headers inside a hunk too, so the exact
condition names the marked lines that look like one.
-/
namespace Ramag.DiffExact
open Strings Domain Fields UnifiedDiff List List

/-- A line of a hunk. -/
inductive BodyLine
  | Context (text : Text)
  | Delete (text : Text)
  | Add (text : Text)
  | NoNewline
  deriving DecidableEq

namespace BodyLine

def olds : BodyLine → List Text
  | .Context text | .Delete text => [text]
  | .Add _ | .NoNewline => []

def news : BodyLine → List Text
  | .Context text | .Add text => [text]
  | .Delete _ | .NoNewline => []

def render : BodyLine → Text
  | .Context text => ' ' :: text
  | .Delete text => '-' :: text
  | .Add text => '+' :: text
  | .NoNewline => "\\ No newline at end of file"

/-- The entry of a line, with the numbers of the next old and the next new line. -/
def entries (old new : Nat) : BodyLine → List DiffLine
  | .Context text => [⟨.Context, some old, some new, text⟩]
  | .Delete text => [⟨.Delete, some old, none, text⟩]
  | .Add text => [⟨.Add, none, some new, text⟩]
  | .NoNewline => []

/-- With its marker the line begins like the name of a file in the preamble. -/
def headerLike : BodyLine → Bool
  | .Delete text => "-- ".toList.isPrefixOf text
  | .Add text => "++ ".toList.isPrefixOf text
  | .Context _ | .NoNewline => false

end BodyLine

def oldsOf (body : List BodyLine) : List Text := body.flatMap BodyLine.olds
def newsOf (body : List BodyLine) : List Text := body.flatMap BodyLine.news

/-- The entries of a body: the numbers grow by one with every old and every new line. -/
def number (old new : Nat) : List BodyLine → List DiffLine
  | [] => []
  | line :: body => line.entries old new ++ number (old + line.olds.length) (new + line.news.length) body

/-- How many entries a body has. -/
def shown (body : List BodyLine) : Nat := (body.filter (· ≠ .NoNewline)).length

/-- A hunk and the unchanged lines before it. -/
structure Piece where
  skipped : List Text
  heading : Text
  body : List BodyLine

/-- The first line of a range, by the convention of `git`: a range without lines is named by the line before it. -/
def firstLine (before count : Nat) : Nat := if count = 0 then before else before + 1

/-- The hunk of a piece that stands after the given numbers of old and new lines. -/
def Piece.hunk (piece : Piece) (old new : Nat) : Hunk :=
  let os := firstLine (old + piece.skipped.length) (oldsOf piece.body).length
  let ns := firstLine (new + piece.skipped.length) (newsOf piece.body).length
  ⟨os, (oldsOf piece.body).length, ns, (newsOf piece.body).length,
    if trim piece.heading = [] then none else some (trim piece.heading), number os ns piece.body⟩

def renderRange (start count : Nat) : Text := natText start ++ if count = 1 then [] else ',' :: natText count

def renderHeader (hunk : Hunk) (heading : Text) : Text :=
  "@@ " ++ ('-' :: renderRange hunk.oldStart hunk.oldLines ++ ' ' ::
    '+' :: renderRange hunk.newStart hunk.newLines) ++ " @@" ++ if heading = [] then [] else ' ' :: heading

def Piece.lines (piece : Piece) (old new : Nat) : List Text :=
  renderHeader (piece.hunk old new) piece.heading :: piece.body.map BodyLine.render

def hunksFrom (old new : Nat) : List Piece → List Hunk
  | [] => []
  | piece :: pieces => piece.hunk old new ::
      hunksFrom (old + piece.skipped.length + (oldsOf piece.body).length)
        (new + piece.skipped.length + (newsOf piece.body).length) pieces

def linesFrom (old new : Nat) : List Piece → List Text
  | [] => []
  | piece :: pieces => piece.lines old new ++ linesFrom (old + piece.skipped.length + (oldsOf piece.body).length)
        (new + piece.skipped.length + (newsOf piece.body).length) pieces

/-- How the lines before the first hunk of a text file begin. -/
def EXTENDED_HEADERS : List Text :=
  ["diff --git ", "index ", "old mode ", "new mode ", "new file mode ",
    "deleted file mode ", "similarity index ", "dissimilarity index ", "rename from ",
    "rename to ", "copy from ", "copy to ", "--- ", "+++ "]

/-- A diff of one text file: its hunks, the unchanged lines between and after
    them, and the headers. No line holds a line feed. -/
structure GitDiff (old new : List Text) where
  preamble : List Text
  pieces : List Piece
  tail : List Text
  headed : ∀ line ∈ preamble, ∃ header ∈ EXTENDED_HEADERS, header <+: line
  olds : pieces.flatMap (fun piece => piece.skipped ++ oldsOf piece.body) ++ tail = old
  news : pieces.flatMap (fun piece => piece.skipped ++ newsOf piece.body) ++ tail = new
  preamble_whole : ∀ line ∈ preamble, '\n' ∉ line
  headings_whole : ∀ piece ∈ pieces, '\n' ∉ piece.heading
  olds_whole : ∀ line ∈ old, '\n' ∉ line
  news_whole : ∀ line ∈ new, '\n' ∉ line

namespace GitDiff
variable {old new : List Text}

def lines (diff : GitDiff old new) : List Text := diff.preamble ++ linesFrom 0 0 diff.pieces

def text (diff : GitDiff old new) : Text := diff.lines.flatMap (· ++ ['\n'])

def hunks (diff : GitDiff old new) : List Hunk := hunksFrom 0 0 diff.pieces

end GitDiff

/-- How many entities the reader counts for some pieces. -/
def itemsOf (pieces : List Piece) : Nat := (pieces.map fun piece => 1 + shown piece.body).sum

def Numbered (hunk : Hunk) : Prop :=
  hunk.oldStart + hunk.oldLines < U32_VALUES ∧ hunk.newStart + hunk.newLines < U32_VALUES

def ValidPath (path : Text) : Prop :=
  path ≠ [] ∧ byteLen path ≤ MAX_GIT_PATH_BYTES ∧ '\x00' ∉ path ∧ path.count '/' + 1 ≤ MAX_GIT_PATH_DEPTH

/-- The header of a renamed file names a path that the reader takes. -/
def Named (line : Text) : Prop :=
  "rename from " <+: line → ValidPath (trimStartMatches "rename from " line)

/-- The diff keeps to the bounds of the reader, and no line of a hunk looks like a header. -/
structure Readable {old new : List Text} (diff : GitDiff old new) : Prop where
  records : ∀ line ∈ diff.lines, byteLen line ≤ MAX_GIT_RECORD_BYTES
  items : itemsOf diff.pieces ≤ MAX_PARSED_GIT_ITEMS
  numbers : ∀ hunk ∈ diff.hunks, Numbered hunk
  named : ∀ line ∈ diff.preamble, Named line
  plain : ∀ piece ∈ diff.pieces, ∀ line ∈ piece.body, line.headerLike = false

variable {count : Nat} {c : Char}

theorem mem_renderRange {start : Nat} (mem : c ∈ renderRange start count) : c.isDigit = true ∨ c = ',' := by
  unfold renderRange at mem
  rw [mem_append] at mem
  rcases mem with digit | rest
  · exact .inl (natText_isDigit digit)
  split_ifs at rest
  · cases rest
  · rcases mem_cons.mp rest with comma | digit
    · exact .inr comma
    · exact .inl (natText_isDigit digit)

theorem renderRange_ne {start : Nat} {d : Char} (mem : c ∈ renderRange start count)
    (digit : d.isDigit = false) (comma : d ≠ ',') : c ≠ d := by
  rintro rfl
  rcases mem_renderRange mem with held | same
  · simp [digit] at held
  · exact comma same

theorem renderRange_dark {start : Nat} (mem : c ∈ renderRange start count) : isWhitespace c = false := by
  have code : (48 ≤ c.toNat ∧ c.toNat ≤ 57) ∨ c.toNat = 44 := by
    rcases mem_renderRange mem with digit | rfl
    · exact .inl (digit_range digit)
    · exact .inr rfl
  simp only [isWhitespace, Bool.or_eq_false_iff, Bool.and_eq_false_iff, decide_eq_false_iff_not, beq_eq_false_iff_ne]
  omega

theorem natText_comma (n : Nat) : ',' ∉ natText n := fun mem => by
  have digit := natText_isDigit mem
  exact absurd digit (by decide)

theorem parseRange_render {start lineIndex : Nat} {range : Nat × Nat} : parseRange (renderRange start count) lineIndex = .ok range ↔
      start < U32_VALUES ∧ count < U32_VALUES ∧ range = (start, count) := by
  have parts : (splitOnce ',' (renderRange start count)).getD (renderRange start count, ['1']) =
      (natText start, natText count) := by
    unfold renderRange
    by_cases one : count = 1
    · subst one
      rw [if_pos rfl, append_nil, splitOnce_free (natText_comma start)]
      rfl
    · rw [if_neg one, splitOnce_part (natText_comma start)]
      rfl
  unfold parseRange
  rw [parts]
  simp only [parseU32_natText, bind_ok_iff]
  by_cases first : start < U32_VALUES
  · by_cases second : count < U32_VALUES
    · simp [first, second, Except.mapError, eq_comm]
    · simp [second, Except.mapError]
  · simp [first, Except.mapError]

/-- The ranges of a header, as they stand between the marks. -/
def rangesOf (hunk : Hunk) : Text :=
  '-' :: renderRange hunk.oldStart hunk.oldLines ++ ' ' :: '+' :: renderRange hunk.newStart hunk.newLines

theorem mark_free (hunk : Hunk) : '@' ∉ rangesOf hunk := by
  intro mem
  simp only [rangesOf, cons_append, mem_cons, mem_append] at mem
  rcases mem with minus | old | blank | plus | new
  · exact absurd minus (by decide)
  · exact renderRange_ne old (by decide) (by decide) rfl
  · exact absurd blank (by decide)
  · exact absurd plus (by decide)
  · exact renderRange_ne new (by decide) (by decide) rfl

theorem splitOnceText_ranges (hunk : Hunk) (rest : Text) :
    splitOnceText " @@" (rangesOf hunk ++ " @@" ++ rest) = some (rangesOf hunk, rest) := by
  apply splitOnceText_after
  rintro c left tail ⟨more, whole⟩
  -- the second character of the mark is not a character of the ranges
  have second : (left ++ " @@" ++ rest).head? = some '@' := by
    simp only [cons_append] at whole
    have inner := (cons.inj whole).2
    rw [← inner]
    rfl
  cases left with
  | nil => simp at second
  | cons d left =>
    have same : d = '@' := by simpa using second
    have inside : d ∈ rangesOf hunk := tail.subset (by simp)
    exact mark_free hunk (same ▸ inside)

theorem splitWhitespace_ranges (hunk : Hunk) : splitWhitespace (rangesOf hunk) = ['-' :: renderRange hunk.oldStart hunk.oldLines,
      '+' :: renderRange hunk.newStart hunk.newLines] := by
  have dark : ∀ (mark : Char) (start count : Nat), isWhitespace mark = false →
      ∀ c ∈ mark :: renderRange start count, isWhitespace c = false := by
    rintro mark start count held c (_ | ⟨_, mem⟩)
    · exact held
    · exact renderRange_dark mem
  unfold rangesOf
  rw [splitWhitespace_cons (dark '-' _ _ (by decide)) (cons_ne_nil _ _) (by decide),
    splitWhitespace_word (dark '+' _ _ (by decide)) (cons_ne_nil _ _)]

theorem trim_blank (t : Text) : trim (' ' :: t) = trim t := by
  have white : isWhitespace ' ' = true := by decide
  simp [trim, trimStart, white]

/-- The state after a header. -/
def opened (state : DiffState) (hunks : List Hunk) (hunk : Hunk) : DiffState :=
  { state with
    hunks, parsedItems := state.parsedItems + 1, oldNo := hunk.oldStart, newNo := hunk.newStart,
    current := some { hunk with lines := [] } }

variable {state result : DiffState} {lineIndex : Nat}

variable {piece : Piece} {new : Nat}

theorem openHunk_render {old : Nat} : openHunk lineIndex state (renderHeader (piece.hunk old new) piece.heading) = .ok result ↔
      state.parsedItems < MAX_PARSED_GIT_ITEMS ∧ ((piece.hunk old new).oldStart < U32_VALUES ∧ (piece.hunk old new).oldLines < U32_VALUES) ∧
        ((piece.hunk old new).newStart < U32_VALUES ∧ (piece.hunk old new).newLines < U32_VALUES) ∧
        ∃ hunks, state.closed = .ok hunks ∧ result = opened state hunks (piece.hunk old new) := by
  have spelled : headingOf (if piece.heading = [] then [] else ' ' :: piece.heading) = (piece.hunk old new).heading := by
    have trimmed : trim (if piece.heading = [] then [] else ' ' :: piece.heading) = trim piece.heading := by
      split_ifs with bare
      · rw [bare]
      · exact trim_blank piece.heading
    show headingOf _ = if trim piece.heading = [] then none else some (trim piece.heading)
    unfold headingOf
    rw [trimmed]
    cases trim piece.heading <;> simp
  generalize piece.hunk old new = hunk at spelled ⊢
  have cut : (stripPrefix "@@ " (renderHeader hunk piece.heading)).bind (splitOnceText " @@") =
      some (rangesOf hunk, if piece.heading = [] then [] else ' ' :: piece.heading) := by
    have whole : renderHeader hunk piece.heading =
        "@@ " ++ (rangesOf hunk ++ " @@" ++ if piece.heading = [] then [] else ' ' :: piece.heading) := by
      simp [renderHeader, rangesOf]
    rw [whole, stripPrefix_append, Option.bind_some, splitOnceText_ranges]
  have olds : stripPrefix ['-'] ('-' :: renderRange hunk.oldStart hunk.oldLines) = some (renderRange _ _) := stripPrefix_append ['-'] _
  have news : stripPrefix ['+'] ('+' :: renderRange hunk.newStart hunk.newLines) = some (renderRange _ _) := stripPrefix_append ['+'] _
  unfold openHunk
  rw [cut]
  simp only [splitWhitespace_ranges, olds, news, spelled, bind_ok_iff, ensureGitListRoom_ok, parseRange_render]
  constructor
  · rintro ⟨_, room, hunks, closed, _, ⟨os, ol, rfl⟩, _, ⟨ns, nl, rfl⟩, done⟩
    refine ⟨room, ⟨os, ol⟩, ⟨ns, nl⟩, hunks, closed, ?_⟩
    exact (Except.ok.inj done).symm
  · rintro ⟨room, ⟨os, ol⟩, ⟨ns, nl⟩, hunks, closed, rfl⟩
    refine ⟨(), room, hunks, closed, _, ⟨os, ol, rfl⟩, _, ⟨ns, nl, rfl⟩, rfl⟩

variable {hunk : Hunk}

theorem parseLine_header {heading : Text} : parseLine lineIndex state (renderHeader hunk heading) = .ok result ↔
      byteLen (renderHeader hunk heading) ≤ MAX_GIT_RECORD_BYTES ∧ openHunk lineIndex state (renderHeader hunk heading) = .ok result := by
  have marked : ∃ rest, renderHeader hunk heading = '@' :: '@' :: rest := ⟨_, rfl⟩
  obtain ⟨rest, marked⟩ := marked
  unfold parseLine
  rw [bind_ok_iff, marked]
  simp [ensureGitRecordSize_ok]

/-! ### The body of a hunk -/

theorem parseLine_marked (mark : c ∉ ['B', 'n', 'd', 'r', '@', 'i']) (reading : state.current = some hunk) (text : Text) :
    parseLine lineIndex state (c :: text) = .ok result ↔ byteLen (c :: text) ≤ MAX_GIT_RECORD_BYTES ∧
      (if "--- ".toList.isPrefixOf (c :: text) || "+++ ".toList.isPrefixOf (c :: text) then .ok state
        else bodyLine lineIndex state hunk (c :: text)) = .ok result := by
  have apart : ∀ d ∈ ['B', 'n', 'd', 'r', '@', 'i'], ∀ rest : Text, (d :: rest).isPrefixOf (c :: text) = false := by
    intro d mem rest
    have other : d ≠ c := fun same => mark (same ▸ mem)
    simp [isPrefixOf, other]
  have first (d : Char) (rest p : Text) (spelled : p = d :: rest) (mem : d ∈ ['B', 'n', 'd', 'r', '@', 'i']) :
      p.isPrefixOf (c :: text) = false := spelled ▸ apart d mem rest
  unfold parseLine
  rw [bind_ok_iff]
  simp only [ensureGitRecordSize_ok, reading,
    first 'B' _ "Binary files" rfl (by simp), first 'n' _ "new file" rfl (by simp),
    first 'd' _ "deleted file" rfl (by simp), first 'r' _ "rename from " rfl (by simp),
    first '@' _ "@@" rfl (by simp), first 'd' _ "diff --git" rfl (by simp),
    first 'i' _ "index " rfl (by simp), Bool.or_false, Bool.false_eq_true, if_false]
  constructor
  · rintro ⟨_, short, done⟩
    exact ⟨short, done⟩
  · rintro ⟨short, done⟩
    exact ⟨(), short, done⟩

theorem parseLine_body (reading : state.current = some hunk) (line : BodyLine) :
    parseLine lineIndex state line.render = .ok result ↔ byteLen line.render ≤ MAX_GIT_RECORD_BYTES ∧
      if line.headerLike then result = state else bodyLine lineIndex state hunk line.render = .ok result := by
  cases line with
  | Context text => exact parseLine_marked (by decide) reading text
  | NoNewline =>
    have spelled : BodyLine.NoNewline.render = '\\' :: " No newline at end of file" := rfl
    have unlike (text : Text) : ("--- ".toList.isPrefixOf ('\\' :: text) || "+++ ".toList.isPrefixOf ('\\' :: text)) =
        false := rfl
    rw [spelled, parseLine_marked (by decide) reading _, unlike]
    simp only [BodyLine.headerLike, Bool.false_eq_true, if_false]
  | Delete text =>
    have like : ("--- ".toList.isPrefixOf ('-' :: text) || "+++ ".toList.isPrefixOf ('-' :: text)) =
        "-- ".toList.isPrefixOf text := Bool.or_false _
    rw [BodyLine.headerLike]
    refine (parseLine_marked (by decide) reading text).trans ?_
    rw [like]
    cases "-- ".toList.isPrefixOf text with
    | true =>
      rw [if_pos rfl, if_pos rfl, Except.ok.injEq, eq_comm]
      rfl
    | false => rfl
  | Add text =>
    have like : ("--- ".toList.isPrefixOf ('+' :: text) || "+++ ".toList.isPrefixOf ('+' :: text)) =
        "++ ".toList.isPrefixOf text := Bool.false_or _
    rw [BodyLine.headerLike]
    refine (parseLine_marked (by decide) reading text).trans ?_
    rw [like]
    cases "++ ".toList.isPrefixOf text with
    | true =>
      rw [if_pos rfl, if_pos rfl, Except.ok.injEq, eq_comm]
      rfl
    | false => rfl

theorem number_append (old new : Nat) (first rest : List BodyLine) : number old new (first ++ rest) =
      number old new first ++ number (old + (oldsOf first).length) (new + (newsOf first).length) rest := by
  induction first generalizing old new with
  | nil => rfl
  | cons line first ih => simp [number, oldsOf, newsOf, ih, Nat.add_assoc]

theorem shown_append (first rest : List BodyLine) : shown (first ++ rest) = shown first + shown rest := by simp [shown]

/-- The state after the entries of a body. -/
def advanced (state : DiffState) (body : List BodyLine) : DiffState :=
  { state with
    current := state.current.map fun hunk => { hunk with lines := hunk.lines ++ number state.oldNo state.newNo body },
    oldNo := state.oldNo + (oldsOf body).length, newNo := state.newNo + (newsOf body).length,
    parsedItems := state.parsedItems + shown body }

/-- The entries of a body fit into what the reader still takes. -/
def Room (state : DiffState) (body : List BodyLine) : Prop :=
  state.parsedItems + shown body ≤ MAX_PARSED_GIT_ITEMS ∧ state.oldNo + (oldsOf body).length < U32_VALUES ∧
    state.newNo + (newsOf body).length < U32_VALUES

theorem advanced_nil (state : DiffState) : advanced state [] = state := by
  cases state with
  | mk hunks current => cases current <;> simp [advanced, number, oldsOf, newsOf, shown]

theorem advanced_append (state : DiffState) (first rest : List BodyLine) :
    advanced (advanced state first) rest = advanced state (first ++ rest) := by
  unfold advanced
  simp [number_append, oldsOf, newsOf, shown_append, Function.comp_def, Nat.add_assoc]

theorem room_append (state : DiffState) (first rest : List BodyLine) :
    Room state (first ++ rest) ↔ Room state first ∧ Room (advanced state first) rest := by
  simp only [Room, advanced, oldsOf, newsOf, shown_append, flatMap_append, length_append]
  omega

theorem bodyLine_render (reading : state.current = some hunk) (fits : Room state []) (line : BodyLine) :
    bodyLine lineIndex state hunk line.render = .ok result ↔ Room state [line] ∧ result = advanced state [line] := by
  obtain ⟨items, old, new⟩ := fits
  cases line with
  | Context text =>
    have room : Room state [.Context text] ↔
        state.parsedItems < MAX_PARSED_GIT_ITEMS ∧ state.oldNo + 1 < U32_VALUES ∧ state.newNo + 1 < U32_VALUES := .rfl
    show (pushDiffLine _ _ _ >>= _) = _ ↔ _
    simp only [bind_ok_iff, pushDiffLine_ok, nextLineNumber_ok, room, advanced, reading]
    constructor
    · rintro ⟨_, ⟨left, rfl⟩, _, ⟨olds, rfl⟩, _, ⟨news, rfl⟩, done⟩
      exact ⟨⟨left, olds, news⟩, (Except.ok.inj done).symm⟩
    · rintro ⟨⟨left, olds, news⟩, rfl⟩
      exact ⟨_, ⟨left, rfl⟩, _, ⟨olds, rfl⟩, _, ⟨news, rfl⟩, rfl⟩
  | Delete text =>
    have room : Room state [.Delete text] ↔
        state.parsedItems < MAX_PARSED_GIT_ITEMS ∧ state.oldNo + 1 < U32_VALUES ∧ state.newNo < U32_VALUES := .rfl
    show (pushDiffLine _ _ _ >>= _) = _ ↔ _
    simp only [bind_ok_iff, pushDiffLine_ok, nextLineNumber_ok, room, advanced, reading]
    constructor
    · rintro ⟨_, ⟨left, rfl⟩, _, ⟨olds, rfl⟩, done⟩
      exact ⟨⟨left, olds, new⟩, (Except.ok.inj done).symm⟩
    · rintro ⟨⟨left, olds, _⟩, rfl⟩
      exact ⟨_, ⟨left, rfl⟩, _, ⟨olds, rfl⟩, rfl⟩
  | Add text =>
    have room : Room state [.Add text] ↔
        state.parsedItems < MAX_PARSED_GIT_ITEMS ∧ state.oldNo < U32_VALUES ∧ state.newNo + 1 < U32_VALUES := .rfl
    show (pushDiffLine _ _ _ >>= _) = _ ↔ _
    simp only [bind_ok_iff, pushDiffLine_ok, nextLineNumber_ok, room, advanced, reading]
    constructor
    · rintro ⟨_, ⟨left, rfl⟩, _, ⟨news, rfl⟩, done⟩
      exact ⟨⟨left, old, news⟩, (Except.ok.inj done).symm⟩
    · rintro ⟨⟨left, _, news⟩, rfl⟩
      exact ⟨_, ⟨left, rfl⟩, _, ⟨news, rfl⟩, rfl⟩
  | NoNewline =>
    have room : Room state [.NoNewline] := ⟨items, old, new⟩
    have same : advanced state [.NoNewline] = state := advanced_nil state
    have taken : bodyLine lineIndex state hunk BodyLine.NoNewline.render = .ok state := by
      show (if BodyLine.NoNewline.render = BodyLine.NoNewline.render then Except.ok state
        else .error (diffParseError lineIndex "hunk 内出现未知行类型")) = _
      exact if_pos rfl
    rw [same, taken, Except.ok.injEq, eq_comm]
    simp [room]

variable (body : List BodyLine)

/-- The lines of a body that the reader takes for lines of a body. -/
def plain : List BodyLine := body.filter fun line => line.headerLike = false

theorem parseLines_append (first rest : List Text) (lineIndex : Nat) (state : DiffState) : parseLines lineIndex state (first ++ rest) =
      parseLines lineIndex state first >>= fun state => parseLines (lineIndex + first.length) state rest := by
  induction first generalizing lineIndex state with
  | nil => rfl
  | cons line first ih => simp [parseLines, ih, Nat.add_assoc, Nat.add_comm 1]

theorem parseLines_body (reading : state.current.isSome = true) (fits : Room state []) :
    parseLines lineIndex state (body.map BodyLine.render) = .ok result ↔
      (∀ line ∈ body, byteLen line.render ≤ MAX_GIT_RECORD_BYTES) ∧ Room state (plain body) ∧ result = advanced state (plain body) := by
  induction body generalizing lineIndex state with
  | nil =>
    show Except.ok state = .ok result ↔ _ ∧ Room state [] ∧ result = advanced state []
    rw [advanced_nil, Except.ok.injEq, eq_comm]
    simp [fits]
  | cons line body ih =>
    obtain ⟨hunk, current⟩ := Option.isSome_iff_exists.mp reading
    simp only [map_cons, parseLines, bind_ok_iff, parseLine_body current, forall_mem_cons]
    by_cases like : line.headerLike = true
    · have kept : plain (line :: body) = plain body := filter_cons_of_neg (by simp [like])
      rw [kept]
      simp only [if_pos like]
      constructor
      · rintro ⟨_, ⟨short, rfl⟩, done⟩
        obtain ⟨others, rest⟩ := (ih reading fits).mp done
        exact ⟨⟨short, others⟩, rest⟩
      · rintro ⟨⟨short, others⟩, rest⟩
        exact ⟨state, ⟨short, rfl⟩, (ih reading fits).mpr ⟨others, rest⟩⟩
    · have kept : plain (line :: body) = [line] ++ plain body := filter_cons_of_pos (by simp [like])
      have still : (advanced state [line]).current.isSome = true := by simp [advanced, current]
      rw [kept, room_append, ← advanced_append]
      simp only [if_neg like, bodyLine_render current fits]
      constructor
      · rintro ⟨_, ⟨short, room, rfl⟩, done⟩
        have next := (room_append state [line] []).mp room
        obtain ⟨others, rest, final⟩ := (ih still next.2).mp done
        exact ⟨⟨short, others⟩, ⟨room, rest⟩, final⟩
      · rintro ⟨⟨short, others⟩, ⟨room, rest⟩, final⟩
        have next := (room_append state [line] []).mp room
        exact ⟨_, ⟨short, room, rfl⟩, (ih still next.2).mpr ⟨others, rest, final⟩⟩

theorem headerLike_counted {line : BodyLine} (like : line.headerLike = true) : line.olds.length + line.news.length = 1 := by
  cases line with
  | Delete text => rfl
  | Add text => rfl
  | Context text => cases like
  | NoNewline => cases like

theorem plain_counts : (oldsOf (plain body)).length + (newsOf (plain body)).length + (body.filter BodyLine.headerLike).length =
      (oldsOf body).length + (newsOf body).length := by
  induction body with
  | nil => rfl
  | cons line body ih =>
    simp only [plain, oldsOf, newsOf] at ih
    by_cases like : line.headerLike = true
    · have one := headerLike_counted like
      simp only [plain, oldsOf, newsOf, filter_cons, like, Bool.true_eq_false, decide_false, Bool.false_eq_true,
        if_false, if_true, flatMap_cons, length_append, length_cons]
      omega
    · simp only [plain, oldsOf, newsOf, filter_cons, like, decide_true, Bool.false_eq_true, if_false, if_true, flatMap_cons, length_append]
      omega

theorem plain_whole {body : List BodyLine} (unlike : ∀ line ∈ body, line.headerLike = false) : plain body = body :=
  filter_eq_self.mpr fun line mem => by simp [unlike line mem]

theorem counted_iff : ((oldsOf (plain body)).length = (oldsOf body).length ∧ (newsOf (plain body)).length = (newsOf body).length) ↔
      ∀ line ∈ body, line.headerLike = false := by
  constructor
  · rintro ⟨olds, news⟩ line mem
    have counts := plain_counts body
    have none : body.filter BodyLine.headerLike = [] := length_eq_zero_iff.mp (by omega)
    simpa using filter_eq_nil_iff.mp none line mem
  · intro unlike
    rw [plain_whole unlike]
    exact ⟨rfl, rfl⟩

theorem parseLines_piece {lineIndex old : Nat} : parseLines lineIndex state (piece.lines old new) = .ok result ↔
      (∀ line ∈ piece.lines old new, byteLen line ≤ MAX_GIT_RECORD_BYTES) ∧
        ((piece.hunk old new).oldStart < U32_VALUES ∧ (piece.hunk old new).oldLines < U32_VALUES) ∧
        ((piece.hunk old new).newStart < U32_VALUES ∧ (piece.hunk old new).newLines < U32_VALUES) ∧
        ∃ hunks, state.closed = .ok hunks ∧ Room (opened state hunks (piece.hunk old new)) (plain piece.body) ∧
          result = advanced (opened state hunks (piece.hunk old new)) (plain piece.body) := by
  simp only [Piece.lines, parseLines, bind_ok_iff, parseLine_header, openHunk_render, forall_mem_cons, forall_mem_map]
  constructor
  · rintro ⟨_, ⟨short, room, olds, news, hunks, closed, rfl⟩, done⟩
    have empty : Room (opened state hunks (piece.hunk old new)) [] := ⟨room, olds.1, news.1⟩
    obtain ⟨others, fits, final⟩ := (parseLines_body piece.body rfl empty).mp done
    exact ⟨⟨short, others⟩, olds, news, hunks, closed, fits, final⟩
  rintro ⟨⟨short, others⟩, olds, news, hunks, closed, fits, final⟩
  have room : state.parsedItems + 1 ≤ MAX_PARSED_GIT_ITEMS := le_trans (Nat.le_add_right _ _) fits.1
  have empty : Room (opened state hunks (piece.hunk old new)) [] := ⟨room, olds.1, news.1⟩
  exact ⟨_, ⟨short, room, olds, news, hunks, closed, rfl⟩, (parseLines_body piece.body rfl empty).mpr ⟨others, fits, final⟩⟩

/-- The counts of a hunk agree exactly when none of its lines was taken for a header. -/
theorem closed_piece {old : Nat} {state : DiffState} {hunks closed : List Hunk} :
    (advanced (opened state hunks (piece.hunk old new)) (plain piece.body)).closed = .ok closed ↔
      (∀ line ∈ piece.body, line.headerLike = false) ∧ closed = hunks ++ [piece.hunk old new] := by
  refine (@pushValidatedHunk_ok { piece.hunk old new with lines := _ } _ _ _ _).trans ?_
  rw [← and_assoc]
  show ((oldsOf (plain piece.body)).length = (oldsOf piece.body).length ∧
    (newsOf (plain piece.body)).length = (newsOf piece.body).length) ∧ _ ↔ _
  rw [counted_iff]
  constructor
  · rintro ⟨unlike, rfl⟩
    rw [plain_whole unlike]
    exact ⟨unlike, rfl⟩
  · rintro ⟨unlike, rfl⟩
    rw [plain_whole unlike]
    exact ⟨unlike, rfl⟩

theorem parseLines_pieces (pieces : List Piece) {lineIndex old : Nat} {state : DiffState} {closed : List Hunk}
    (items : state.parsedItems ≤ MAX_PARSED_GIT_ITEMS) :
    (∃ result, parseLines lineIndex state (linesFrom old new pieces) = .ok result ∧ result.closed = .ok closed) ↔
      (∀ line ∈ linesFrom old new pieces, byteLen line ≤ MAX_GIT_RECORD_BYTES) ∧ state.parsedItems + itemsOf pieces ≤ MAX_PARSED_GIT_ITEMS ∧
        (∀ hunk ∈ hunksFrom old new pieces, Numbered hunk) ∧ (∀ piece ∈ pieces, ∀ line ∈ piece.body, line.headerLike = false) ∧
        ∃ hunks, state.closed = .ok hunks ∧ closed = hunks ++ hunksFrom old new pieces := by
  induction pieces generalizing lineIndex old new state with
  | nil =>
    constructor
    · rintro ⟨_, ⟨⟩, before⟩
      exact ⟨nofun, items, nofun, nofun, closed, before, (append_nil closed).symm⟩
    · rintro ⟨_, _, _, _, hunks, before, rfl⟩
      exact ⟨state, rfl, by rw [before]; exact congrArg _ (append_nil hunks).symm⟩
  | cons piece pieces ih =>
    simp only [linesFrom, hunksFrom, parseLines_append, bind_ok_iff, parseLines_piece, forall_mem_append, forall_mem_cons]
    have total : itemsOf (piece :: pieces) = 1 + shown piece.body + itemsOf pieces := sum_cons
    constructor
    · rintro ⟨result, ⟨_, ⟨short, olds, news, hunks, before, room, rfl⟩, done⟩, final⟩
      obtain ⟨others, more, numbers, unlike, later, between, whole⟩ := (ih room.1).mp ⟨result, done, final⟩
      obtain ⟨own, rfl⟩ := closed_piece.mp between
      rw [plain_whole own] at room more
      refine ⟨⟨short, others⟩, ?_, ⟨room.2, numbers⟩, ⟨own, unlike⟩, hunks, before, ?_⟩
      · have reached : state.parsedItems + 1 + shown piece.body + itemsOf pieces ≤ MAX_PARSED_GIT_ITEMS := more
        omega
      · rw [whole, append_assoc, singleton_append]
    · rintro ⟨⟨short, others⟩, more, ⟨own_numbers, numbers⟩, ⟨own, unlike⟩, hunks, before, whole⟩
      have room : Room (opened state hunks (piece.hunk old new)) (plain piece.body) := by
        rw [plain_whole own]
        refine ⟨?_, own_numbers⟩
        show state.parsedItems + 1 + shown piece.body ≤ MAX_PARSED_GIT_ITEMS
        omega
      have left : state.parsedItems + 1 + shown (plain piece.body) + itemsOf pieces ≤ MAX_PARSED_GIT_ITEMS := by
        rw [plain_whole own]
        omega
      have between : (advanced (opened state hunks (piece.hunk old new)) (plain piece.body)).closed =
          .ok (hunks ++ [piece.hunk old new]) := closed_piece.mpr ⟨own, rfl⟩
      rw [append_cons] at whole
      obtain ⟨result, done, final⟩ := (ih room.1).mpr ⟨others, left, numbers, unlike, _, between, whole⟩
      refine ⟨result, ⟨_, ⟨short, ?_, ?_, hunks, before, room, rfl⟩, done⟩, final⟩
      · exact ⟨lt_of_le_of_lt (Nat.le_add_right _ _) own_numbers.1, lt_of_le_of_lt (Nat.le_add_left _ _) own_numbers.1⟩
      · exact ⟨lt_of_le_of_lt (Nat.le_add_right _ _) own_numbers.2, lt_of_le_of_lt (Nat.le_add_left _ _) own_numbers.2⟩

/-- No hunk has been read. -/
structure Opening (state : DiffState) : Prop where
  current : state.current = none
  hunks : state.hunks = []
  items : state.parsedItems = 0

theorem headed_unopened {line : Text} (headed : ∃ header ∈ EXTENDED_HEADERS, header <+: line) : "@@".toList.isPrefixOf line = false := by
  obtain ⟨header, mem, rest, rfl⟩ := headed
  simp only [EXTENDED_HEADERS, mem_cons, not_mem_nil, or_false] at mem
  rcases mem with rfl | rfl | rfl | rfl | rfl | rfl | rfl | rfl | rfl | rfl | rfl | rfl | rfl | rfl <;> rfl

theorem parseLine_renamed {line : Text} (renamed : "rename from " <+: line) :
    parseLine lineIndex state line = .ok result ↔ byteLen line ≤ MAX_GIT_RECORD_BYTES ∧ ValidPath (trimStartMatches "rename from " line) ∧
      result = { state with changeKind := .Renamed, oldPath := some (trimStartMatches "rename from " line) } := by
  obtain ⟨rest, whole⟩ := renamed
  have first : "Binary files".toList.isPrefixOf line = false := whole ▸ rfl
  have second : "new file".toList.isPrefixOf line = false := whole ▸ rfl
  have third : "deleted file".toList.isPrefixOf line = false := whole ▸ rfl
  have fourth : "rename from ".toList.isPrefixOf line = true := isPrefixOf_iff_prefix.mpr ⟨rest, whole⟩
  unfold parseLine
  simp only [bind_ok_iff, ensureGitRecordSize_ok, first, second, third, fourth, Bool.false_eq_true, if_false, if_true,
    validateOutputPath_ok, validatePathArg_ok, Except.ok.injEq]
  constructor
  · rintro ⟨_, short, _, valid, rfl⟩
    exact ⟨short, valid, rfl⟩
  · rintro ⟨short, valid, rfl⟩
    exact ⟨(), short, (), valid, rfl⟩

theorem parseLine_headed {lineIndex : Nat} {state : DiffState} {line : Text} (opening : Opening state)
    (headed : ∃ header ∈ EXTENDED_HEADERS, header <+: line) : (∀ result, parseLine lineIndex state line = .ok result →
      Opening result ∧ byteLen line ≤ MAX_GIT_RECORD_BYTES ∧ Named line) ∧
    (byteLen line ≤ MAX_GIT_RECORD_BYTES → Named line → ∃ result, parseLine lineIndex state line = .ok result) := by
  by_cases renamed : "rename from " <+: line
  · constructor
    · intro result done
      obtain ⟨short, valid, rfl⟩ := (parseLine_renamed renamed).mp done
      exact ⟨⟨opening.current, opening.hunks, opening.items⟩, short, fun _ => valid⟩
    · intro short named
      exact ⟨_, (parseLine_renamed renamed).mpr ⟨short, named renamed, rfl⟩⟩
  · have other : "rename from ".toList.isPrefixOf line = false := Bool.eq_false_iff.mpr fun held => renamed ( isPrefixOf_iff_prefix.mp held)
    have taken : ∃ next, Opening next ∧ ∀ result, parseLine lineIndex state line = .ok result ↔
        byteLen line ≤ MAX_GIT_RECORD_BYTES ∧ result = next := by
      have unopened := headed_unopened headed
      unfold parseLine
      simp only [bind_ok_iff, ensureGitRecordSize_ok, other, unopened, opening.current, Bool.false_eq_true, if_false,
        exists_and_left, exists_const]
      have reads (next result : DiffState) :
          (byteLen line ≤ MAX_GIT_RECORD_BYTES ∧ (.ok next : Result DiffState) = .ok result) ↔
            byteLen line ≤ MAX_GIT_RECORD_BYTES ∧ result = next := by rw [Except.ok.injEq, eq_comm]
      -- every rule that is left keeps the state or notes the kind of the change
      split_ifs
      all_goals
        refine ⟨_, ?_, reads _⟩
        exact ⟨by simp [opening.current], opening.hunks, opening.items⟩
    obtain ⟨next, still, reads⟩ := taken
    constructor
    · intro result done
      obtain ⟨short, rfl⟩ := (reads result).mp done
      exact ⟨still, short, fun held => absurd held renamed⟩
    · intro short _
      exact ⟨next, (reads next).mpr ⟨short, rfl⟩⟩

theorem parseLines_preamble (preamble : List Text) {lineIndex : Nat} {state : DiffState} (opening : Opening state)
    (headed : ∀ line ∈ preamble, ∃ header ∈ EXTENDED_HEADERS, header <+: line) :
    (∀ result, parseLines lineIndex state preamble = .ok result →
      Opening result ∧ (∀ line ∈ preamble, byteLen line ≤ MAX_GIT_RECORD_BYTES) ∧ ∀ line ∈ preamble, Named line) ∧
    ((∀ line ∈ preamble, byteLen line ≤ MAX_GIT_RECORD_BYTES) → (∀ line ∈ preamble, Named line) →
      ∃ result, parseLines lineIndex state preamble = .ok result) := by
  induction preamble generalizing lineIndex state with
  | nil =>
    constructor
    · rintro _ ⟨⟩
      exact ⟨opening, nofun, nofun⟩
    · intro _ _
      exact ⟨state, rfl⟩
  | cons line preamble ih =>
    obtain ⟨first, rest⟩ := forall_mem_cons.mp headed
    obtain ⟨sound, total⟩ := @parseLine_headed lineIndex state line opening first
    constructor
    · intro result done
      obtain ⟨next, taken, done⟩ := bind_ok done
      obtain ⟨still, short, named⟩ := sound next taken
      obtain ⟨final, shorts, names⟩ := (ih still rest).1 result done
      exact ⟨final, forall_mem_cons.mpr ⟨short, shorts⟩, forall_mem_cons.mpr ⟨named, names⟩⟩
    · intro shorts names
      obtain ⟨short, shorts⟩ := forall_mem_cons.mp shorts
      obtain ⟨named, names⟩ := forall_mem_cons.mp names
      obtain ⟨next, taken⟩ := total short named
      obtain ⟨result, done⟩ := (ih (sound next taken).1 rest).2 shorts names
      exact ⟨result, bind_ok_iff.mpr ⟨next, taken, done⟩⟩

theorem renderHeader_whole {heading : Text} (whole : '\n' ∉ heading) : '\n' ∉ renderHeader hunk heading := by
  have range (start count : Nat) : '\n' ∉ renderRange start count := fun inside => renderRange_ne inside (by decide) (by decide) rfl
  have tail : '\n' ∉ (if heading = [] then [] else ' ' :: heading) := by
    split_ifs
    · exact not_mem_nil
    · simp [whole]
  simp [renderHeader, range, tail]

theorem render_whole {line : BodyLine} (olds : ∀ text ∈ line.olds, '\n' ∉ text) (news : ∀ text ∈ line.news, '\n' ∉ text) :
    '\n' ∉ line.render := by
  cases line with
  | Context text =>
    show '\n' ∉ ' ' :: text
    simpa using olds text mem_cons_self
  | Delete text =>
    show '\n' ∉ '-' :: text
    simpa using olds text mem_cons_self
  | Add text =>
    show '\n' ∉ '+' :: text
    simpa using news text mem_cons_self
  | NoNewline => decide

theorem linesFrom_whole {pieces : List Piece} (headings : ∀ piece ∈ pieces, '\n' ∉ piece.heading)
    (olds : ∀ piece ∈ pieces, ∀ line ∈ oldsOf piece.body, '\n' ∉ line)
    (news : ∀ piece ∈ pieces, ∀ line ∈ newsOf piece.body, '\n' ∉ line) (old new : Nat) :
    ∀ line ∈ linesFrom old new pieces, '\n' ∉ line := by
  induction pieces generalizing old new with
  | nil => nofun
  | cons piece pieces ih =>
    rw [forall_mem_cons] at headings olds news
    simp only [linesFrom, Piece.lines, forall_mem_append, forall_mem_cons, forall_mem_map]
    refine ⟨⟨renderHeader_whole headings.1, ?_⟩, ih headings.2 olds.2 news.2 _ _⟩
    intro line mem
    refine render_whole (fun text inside => olds.1 text ?_) (fun text inside => news.1 text ?_)
    · exact mem_flatMap.mpr ⟨line, mem, inside⟩
    · exact mem_flatMap.mpr ⟨line, mem, inside⟩

theorem GitDiff.lines_whole {old new : List Text} (diff : GitDiff old new) : ∀ line ∈ diff.lines, '\n' ∉ line := by
  unfold GitDiff.lines
  rw [forall_mem_append]
  refine ⟨diff.preamble_whole, linesFrom_whole diff.headings_whole ?_ ?_ 0 0⟩
  · intro piece mem line inside
    refine diff.olds_whole line ?_
    rw [← diff.olds]
    exact mem_append_left _ (mem_flatMap.mpr ⟨piece, mem, mem_append_right _ inside⟩)
  intro piece mem line inside
  refine diff.news_whole line ?_
  rw [← diff.news]
  exact mem_append_left _ (mem_flatMap.mpr ⟨piece, mem, mem_append_right _ inside⟩)

/-- The reader gives back the hunks of a diff, with every line in order and
    numbered from the start of its hunk, exactly when the diff keeps to the bounds
    of the reader and no line of a hunk looks like a header. -/
theorem parseUnifiedDiff_exact {old new : List Text} (diff : GitDiff old new) (path : Text) :
    (∃ file, parseUnifiedDiff diff.text path = .ok file ∧ file.hunks = diff.hunks) ↔ Readable diff := by
  have lines : splitTerminator '\n' diff.text = diff.lines := splitTerminator_parts diff.lines_whole
  have start : Opening {} := ⟨rfl, rfl, rfl⟩
  obtain ⟨sound, total⟩ := @parseLines_preamble diff.preamble 0 {} start diff.headed
  have bound (state : DiffState) (opening : Opening state) : state.parsedItems ≤ MAX_PARSED_GIT_ITEMS := by
    rw [opening.items]
    exact Nat.zero_le _
  unfold parseUnifiedDiff
  rw [lines]
  simp only [GitDiff.lines, parseLines_append, bind_ok_iff]
  constructor
  · rintro ⟨file, ⟨result, ⟨state, headers, done⟩, hunks, closed, ⟨⟩⟩, same⟩
    obtain ⟨opening, shorts, names⟩ := sound state headers
    obtain ⟨records, items, numbers, unlike, _⟩ := (parseLines_pieces diff.pieces (bound state opening)).mp ⟨result, done, closed⟩
    refine ⟨forall_mem_append.mpr ⟨shorts, records⟩, ?_, numbers, names, unlike⟩
    rwa [opening.items, Nat.zero_add] at items
  · rintro ⟨records, items, numbers, names, unlike⟩
    obtain ⟨shorts, others⟩ := forall_mem_append.mp records
    obtain ⟨state, headers⟩ := total shorts names
    have opening := (sound state headers).1
    have before : state.closed = .ok [] := by simp [DiffState.closed, opening.current, opening.hunks]
    obtain ⟨result, done, closed⟩ := (parseLines_pieces diff.pieces (bound state opening)).mpr
      ⟨others, by rwa [opening.items, Nat.zero_add], numbers, unlike, [], before, (nil_append _).symm⟩
    exact ⟨_, ⟨result, ⟨state, headers, done⟩, _, closed, rfl⟩, rfl⟩

/-- A diff that takes out the one line `-- x`. -/
def commentTakenOut : GitDiff ["-- x"] [] where
  preamble := ["diff --git a/q.sql b/q.sql", "--- a/q.sql", "+++ b/q.sql"]
  pieces := [⟨[], [], [.Delete "-- x"]⟩]
  tail := []
  headed := by decide
  olds := rfl
  news := rfl
  preamble_whole := by decide
  headings_whole := by decide
  olds_whole := by decide
  news_whole := nofun

theorem parseUnifiedDiff_exact_comment : ¬ ∃ file, parseUnifiedDiff commentTakenOut.text "q.sql" = .ok file ∧
    file.hunks = commentTakenOut.hunks := by
  have refused : (parseUnifiedDiff commentTakenOut.text "q.sql").isOk = false := by decide +kernel
  rintro ⟨file, done, _⟩
  rw [done] at refused
  cases refused

end Ramag.DiffExact
