import Ramag.ImportChunks
import Ramag.InsertSplit
import Ramag.SplitMisread

/-!
The INSERT statements of a chunk, sent as the importer and the data sync send
them: the chunk is split back into its statements exactly when every text in it
is safe.
-/
namespace Ramag.InsertChunks
open Strings Domain Sql SqlLiteral SplitRules SplitMisread InsertSplit List

variable {driver : DriverKind}

theorem paired_doubled (quote : Char) (t : Text) : Paired quote (replaceChar quote [quote, quote] t) := by
  induction t with
  | nil => exact .nil
  | cons c t ih =>
    rw [replaceChar_cons]
    by_cases closing : c = quote
    · simpa [closing] using Paired.pair ih
    · simpa [closing] using Paired.plain closing ih

private theorem paired_plain {quote : Char} {t : Text} (plain : ∀ c ∈ t, c ≠ quote) : Paired quote t := by
  induction t with
  | nil => exact .nil
  | cons c t ih => exact .plain (plain c (by simp)) (ih fun d mem => plain d (by simp [mem]))

private theorem paired_flatMap {f : Char → Text} (units : ∀ c t, Paired '\'' t → Paired '\'' (f c ++ t)) (t : Text) :
    Paired '\'' (t.flatMap f) := by
  induction t with
  | nil => exact .nil
  | cons c t ih => exact units c _ ih

theorem paired_escapeSqlString (text : Text) (isMysql : Bool) : Paired '\'' (escapeSqlString text isMysql) := by
  refine paired_flatMap (fun c t paired => ?_) text
  split_ifs with back quote
  · exact .plain (by decide) (.plain (by decide) paired)
  · exact .pair paired
  · exact .plain quote paired

theorem paired_escapedBody (text : Text) : Paired '\'' (escapedBody text) := by
  rw [escapedBody_eq]
  refine paired_flatMap (fun c t paired => ?_) text
  split_ifs with back quote feed ret
  · exact .plain (by decide) (.plain (by decide) paired)
  · exact .pair paired
  · exact .plain (by decide) (.plain (by decide) paired)
  · exact .plain (by decide) (.plain (by decide) paired)
  · exact .plain quote paired

theorem textSafe_of_quotedBody {quote : Char} (ordinary : quote ≠ '\\') :
    ∀ {t : Text}, quotedBody quote (replaceChar quote [quote, quote] t) = true → textSafe quote t = true
  | [], _ => rfl
  | [c], inside => by
    by_cases closing : c = quote
    · simpa [textSafe, closing] using ordinary
    · have plain : c ≠ '\\' ∧ c ≠ quote := by simpa [replaceChar_cons, closing, quotedBody] using inside
      simp [textSafe, plain.1]
  | c :: d :: t, inside => by
    rw [replaceChar_cons] at inside
    by_cases escape : c = '\\'
    · subst escape
      rw [if_neg ordinary.symm, replaceChar_cons] at inside
      by_cases closing : d = quote
      · simp [closing, quotedBody] at inside
      · simp only [closing, if_false, singleton_append] at inside
        rw [quotedBody_escape closing] at inside
        simp [textSafe_escape, closing, textSafe_of_quotedBody ordinary inside]
    · rw [textSafe_cons escape]
      refine textSafe_of_quotedBody ordinary ?_
      by_cases closing : c = quote
      · simpa [closing, quotedBody_pair ordinary] using inside
      · simpa [closing, quotedBody_cons escape closing] using inside

/-! ### Going back over a statement -/

private theorem framed_single {good : Prop} {body : Text} (paired : Paired '\'' body)
    (implies : quotedBody '\'' body = true → good) : Framed (splitOptions driver) (singleQuoted body) good :=
  (framed_quoted rfl paired).imp implies

theorem framed_name (name : Text) (sql : driver = .Mysql ∨ driver = .Postgres) :
    Framed (splitOptions driver) (quoteIdentifier driver name) (nameSafe driver name = true) := by
  rcases sql with rfl | rfl
  · exact (framed_quoted rfl (paired_doubled '`' name)).imp (textSafe_of_quotedBody (by decide))
  · exact (framed_quoted rfl (paired_doubled '"' name)).imp (textSafe_of_quotedBody (by decide))

private theorem framed_trivial {t : Text} {good : Prop} (code : t.all isCode = true) (fine : good) : Framed (splitOptions driver) t good :=
  (framed_code code).imp fun _ => fine

private theorem digit_code {c : Char} (digit : c.isDigit = true) : isCode c = true := by
  have ne {d : Char} (other : d.isDigit = false) : c ≠ d := by
    rintro rfl
    simp [digit] at other
  simp (disch := decide) [isCode, isQuote, ne]

private theorem natText_code (n : Nat) : (natText n).all isCode = true :=
  all_eq_true.mpr fun c mem => digit_code (natText_digits c mem)

private theorem signText_code (negative : Bool) : (signText negative).all isCode = true := by
  cases negative <;> decide

private theorem floatText_code (value : FloatText) : (floatText value).all isCode = true := by
  cases value with
  | nan => decide
  | inf negative => cases negative <;> decide
  | finite negative whole fraction =>
    cases fraction with
    | nil => rw [floatText, all_append, signText_code, natText_code, Bool.and_self]
    | cons d fraction =>
      have digits : ((d :: fraction).flatMap fun d => natText d).all isCode = true := by
        rw [all_flatMap]
        exact all_eq_true.mpr fun digit _ => natText_code digit
      have point : isCode '.' = true := by decide
      simp [floatText, signText_code, natText_code, point]

private theorem wordByte_code {c : Char} (byte : isWordByte c = true) : isCode c = true := by
  have ne {d : Char} (other : isWordByte d = false) : c ≠ d := by
    rintro rfl
    simp [byte] at other
  simp (disch := decide) [isCode, isQuote, ne]

theorem framed_plain (value : Value) (sql : driver = .Mysql ∨ driver = .Postgres) :
    Framed (splitOptions driver) (toSqlLiteralFor driver value) (valueSafe driver .plain value = true) := by
  cases value with
  | Null => exact framed_trivial (t := "NULL") (by decide) rfl
  | Bool value =>
    cases value with
    | false => exact framed_trivial (t := "FALSE") (by decide) rfl
    | true => exact framed_trivial (t := "TRUE") (by decide) rfl
  | Int value => exact framed_trivial (by rw [toSqlLiteralFor, intText, all_append, signText_code, natText_code, Bool.and_self]) rfl
  | Float value => exact framed_trivial (floatText_code value) rfl
  | Text value =>
    refine framed_single (paired_escapeSqlString ..) fun inside => ?_
    rcases sql with rfl | rfl
    · rfl
    · simp only [reduceCtorEq, decide_false, escapeSqlString_plain] at inside
      simp [valueSafe, textSafe_of_quotedBody (by decide) inside]
  | Json value => exact framed_single (paired_escapeSqlString ..) fun _ => rfl
  | DateTime value => exact framed_single (paired_plain fun c mem => (dateTimeText_inside c mem).2) fun _ => rfl
  | Bytes value =>
    rcases sql with rfl | rfl
    · have digits : (encodeHex value).all isCode = true := all_eq_true.mpr fun c mem => wordByte_code (encodeHex_inside c mem).1
      refine framed_trivial (t := '0' :: 'x' :: encodeHex value) ?_ rfl
      rw [all_cons, all_cons, digits]
      decide
    · refine framed_single ?_ fun _ => rfl
      exact .plain (by decide) (.plain (by decide) (paired_plain fun c mem => (encodeHex_inside c mem).2.2))

theorem framed_literal (encoder : Encoder) (value : Value) (sql : driver = .Mysql ∨ driver = .Postgres) :
    Framed (splitOptions driver) (encoder.literal driver value) (valueSafe driver encoder value = true) := by
  have lines {good : Prop} (text : Text) (fine : good) : Framed (splitOptions driver) (escapedTextLiteral text driver) good := by
    have body : Framed (splitOptions driver) (singleQuoted (escapedBody text)) good := framed_single (paired_escapedBody text) fun _ => fine
    rcases sql with rfl | rfl
    · exact body
    · exact ((framed_code (t := ['E']) (by decide)).append body).imp And.right
  cases encoder with
  | plain => exact framed_plain value sql
  | transfer =>
    cases value with
    | Text text =>
      by_cases broken : hasLineBreak text = true
      · simpa [Encoder.literal, transferLiteral, broken, valueSafe] using lines text trivial
      · simpa [Encoder.literal, transferLiteral, broken, valueSafe] using framed_plain (.Text text) sql
    | Json json =>
      by_cases broken : hasLineBreak json.text = true
      · simpa [Encoder.literal, transferLiteral, broken, valueSafe] using lines json.text trivial
      · simpa [Encoder.literal, transferLiteral, broken, valueSafe] using framed_plain (.Json json) sql
    | Null => exact framed_plain .Null sql
    | Bool value => exact framed_plain (.Bool value) sql
    | Int value => exact framed_plain (.Int value) sql
    | Float value => exact framed_plain (.Float value) sql
    | Bytes value => exact framed_plain (.Bytes value) sql
    | DateTime value => exact framed_plain (.DateTime value) sql

private theorem framed_join {ι : Type} {item : ι → Text} {items : List ι} {good : ι → Prop}
    (each : ∀ i ∈ items, Framed (splitOptions driver) (item i) (good i)) :
    Framed (splitOptions driver) (joinWith ", " (items.map item)) (∀ i ∈ items, good i) := by
  induction items with
  | nil => exact framed_nil.imp fun _ => by simp
  | cons i items ih =>
    have first := each i (by simp)
    cases items with
    | nil => exact first.imp fun good j mem => by rwa [mem_singleton.mp mem]
    | cons j items =>
      have later := ih fun k mem => each k (by simp [mem])
      have comma : Framed (splitOptions driver) ", " True := framed_code (by decide)
      rw [map_cons, joinWith]
      · refine ((first.append comma).append later).imp ?_
        rintro ⟨⟨good, -⟩, rest⟩
        exact forall_mem_cons.mpr ⟨good, rest⟩
      · simp

private theorem framed_columns {columns : List Text} (sql : driver = .Mysql ∨ driver = .Postgres) :
    Framed (splitOptions driver) (quotedColumns driver columns) (∀ name ∈ columns, nameSafe driver name = true) :=
  framed_join fun name _ => framed_name name sql

private theorem framed_row {encoder : Encoder} {row : Row} (sql : driver = .Mysql ∨ driver = .Postgres) :
    Framed (splitOptions driver) (rowTuple (encoder.literal driver) row) (∀ value ∈ row, valueSafe driver encoder value = true) := by
  have opening : Framed (splitOptions driver) ['('] True := framed_code (by decide)
  have closing : Framed (splitOptions driver) [')'] True := framed_code (by decide)
  have values := framed_join fun value (_ : value ∈ row) => framed_literal encoder value sql
  exact (opening.append (values.append closing)).imp fun good => good.2.1

private theorem framed_target {insert : Insert} (sql : driver = .Mysql ∨ driver = .Postgres) :
    Framed (splitOptions driver) (insertTarget driver insert)
      (∀ name ∈ insert.qualifier.toList ++ [insert.table], nameSafe driver name = true) := by
  have table := framed_name insert.table sql
  cases named : insert.qualifier with
  | none => simpa [insertTarget, named] using table
  | some qualifier =>
    have dot : Framed (splitOptions driver) ['.'] True := framed_code (by decide)
    have whole := (framed_name qualifier sql).append (dot.append table)
    simpa [insertTarget, named, qualified] using whole

private theorem framed_conflict {clause : ConflictClause} (sql : driver = .Mysql ∨ driver = .Postgres) :
    Framed (splitOptions driver) (conflictText driver clause) (∀ name ∈ conflictNames clause, nameSafe driver name = true) := by
  cases clause with
  | none => exact framed_nil.imp fun _ => by simp [conflictNames]
  | doNothing identity =>
    have opening : Framed (splitOptions driver) " ON CONFLICT (" True := framed_code (by decide)
    have closing : Framed (splitOptions driver) ") DO NOTHING" True := framed_code (by decide)
    exact ((opening.append (framed_columns sql)).append closing).imp fun good => good.1.2
  | onDuplicateKey identity =>
    have opening : Framed (splitOptions driver) " ON DUPLICATE KEY UPDATE " True := framed_code (by decide)
    have equals : Framed (splitOptions driver) " = " True := framed_code (by decide)
    have name := framed_name identity sql
    exact (((opening.append name).append equals).append name).imp fun good => by simpa [conflictNames] using good.2

/-- Behind a statement the splitter stands only when the statement is safe. -/
theorem framed_insert (encoder : Encoder) (insert : Insert) (sql : driver = .Mysql ∨ driver = .Postgres) :
    Framed (splitOptions driver) (insertText driver (encoder.literal driver) insert) (Safe driver encoder insert) := by
  have fixed {t : Text} (code : t.all isCode = true) : Framed (splitOptions driver) t True := framed_code code
  have overriding : Framed (splitOptions driver)
      (if insert.overriding then " OVERRIDING SYSTEM VALUE" else []) True := by
    cases insert.overriding with
    | false => exact framed_nil
    | true => exact fixed (t := " OVERRIDING SYSTEM VALUE") (by decide)
  have tuples := framed_join fun row (_ : row ∈ insert.rows) => @framed_row driver encoder row sql
  have initial := (fixed (t := "INSERT INTO ") (by decide)).append (@framed_target driver insert sql)
  have listed := (initial.append (fixed (t := " (") (by decide))).append
    (@framed_columns driver insert.columns sql)
  have front := ((listed.append (fixed (t := [')']) (by decide))).append overriding).append
    (fixed (t := " VALUES ") (by decide))
  have whole := (front.append tuples).append (@framed_conflict driver insert.conflict sql)
  refine whole.imp ?_
  rintro ⟨⟨⟨⟨⟨⟨⟨⟨-, target⟩, -⟩, columns⟩, -⟩, -⟩, -⟩, rows⟩, conflict⟩
  constructor
  · intro name mem
    simp only [Insert.names, mem_append, mem_cons, not_mem_nil, or_false] at mem target
    rcases mem with (qualifier | rfl | column) | clause
    · exact target name (.inl qualifier)
    · exact target _ (.inr rfl)
    · exact columns name column
    · exact conflict name clause
  · intro value mem
    obtain ⟨row, inside, value_inside⟩ := mem_flatten.mp mem
    exact rows row inside value value_inside

private theorem safe_of_piece {encoder : Encoder} {insert : Insert} (sql : driver = .Mysql ∨ driver = .Postgres)
    {front rest : Text} {done more : List Text} (white : ∀ c ∈ front, isWhitespace c = true)
    (split : splitFrom (splitOptions driver) none 0 { out := done, segment := front }
      (insertText driver (encoder.literal driver) insert ++ ';' :: rest) =
        some (done ++ insertText driver (encoder.literal driver) insert :: more)) : Safe driver encoder insert := by
  have framed := framed_insert encoder insert sql
  obtain ⟨s, text⟩ : ∃ s, insertText driver (encoder.literal driver) insert = 'I' :: s := by exact ⟨_, rfl⟩
  rw [text] at split framed
  obtain ⟨piece, tail, whole, stop, ends⟩ := splitFrom_first split
  cases piece with
  | nil =>
    rcases stop with rfl | ⟨_, rfl, -⟩
    · cases whole
    · cases whole
  | cons c piece =>
    obtain ⟨rfl, (body : s ++ ';' :: rest = piece ++ tail)⟩ := cons_eq_cons.mp whole
    rw [trim_front white (by decide)] at ends
    obtain ⟨w, trimmed, blank⟩ := trimEnd_parts ('I' :: piece)
    have cut : trimEnd ('I' :: piece) = 'I' :: s := by
      rcases ends with empty | ⟨later, pieces⟩
      · rw [empty] at trimmed
        have letter := blank 'I' (by rw [nil_append] at trimmed; rw [← trimmed]; exact mem_cons_self)
        cases letter
      · exact (cons_eq_cons.mp (append_cancel_left pieces)).1.symm
    rw [cut, cons_append, cons_inj_right] at trimmed
    -- the piece is the statement and white space, and a semicolon follows the statement
    cases w with
    | cons d w =>
      rw [trimmed, append_assoc, append_cancel_left_eq, cons_append] at body
      obtain ⟨rfl, -⟩ := cons_eq_cons.mp body
      have space := blank ';' (by simp)
      cases space
    | nil =>
      rw [append_nil] at trimmed
      subst trimmed
      obtain rfl := append_cancel_left body
      rcases stop with none | ⟨more, tail, stands⟩
      · cases none
      · have outside : Outside (splitOptions driver) ([] ++ 'I' :: piece) (';' :: rest) :=
          ⟨'I' :: piece, [], by simp, by simp, stands⟩
        exact (framed.back (by simp) (by decide) outside).2

/-- The statements with a semicolon behind them. -/
def ended (closed : Bool) (inserts : List Insert) : List Insert := if closed then inserts else inserts.dropLast

private theorem safe_of_split {encoder : Encoder} {inserts : List Insert} (sql : driver = .Mysql ∨ driver = .Postgres)
    {gap front : Text} {done : List Text} {closed : Bool} (white : ∀ c ∈ gap, isWhitespace c = true)
    (leading : ∀ c ∈ front, isWhitespace c = true) (split : splitFrom (splitOptions driver) none 0 { out := done, segment := front }
      (chunk gap closed (inserts.map (insertText driver (encoder.literal driver)))) =
        some (done ++ inserts.map (insertText driver (encoder.literal driver)))) :
    ∀ insert ∈ ended closed inserts, Safe driver encoder insert := by
  induction inserts generalizing done front with
  | nil => cases closed <;> simp [ended]
  | cons insert inserts ih =>
    by_cases last : closed = true ∨ inserts ≠ []
    · have text := @chunk_cons gap _ _ (insertText driver (encoder.literal driver) insert)
        (last.imp_right fun more => by simpa using more : closed = true ∨ inserts.map (insertText driver (encoder.literal driver)) ≠ [])
      rw [map_cons, text] at split
      have safe := safe_of_piece sql leading split
      rw [splitFrom_whole leading white (insertText_whole sql safe) (by simp)] at split
      have parts : ended closed (insert :: inserts) = insert :: ended closed inserts := by
        cases closed with
        | true => rfl
        | false => exact dropLast_cons_of_ne_nil (by simpa using last)
      rw [parts]
      exact forall_mem_cons.mpr ⟨safe, ih white (split.trans (by simp))⟩
    · obtain ⟨rfl, rfl⟩ : closed = false ∧ inserts = [] := by simpa using last
      simp [ended]

/-- The chunks as they are sent, with a semicolon behind every statement, are
    split back exactly when every text of every statement is safe. Without the
    last semicolon only the last statement may be unsafe. -/
theorem inserts_split_iff {encoder : Encoder} {inserts : List Insert} (sql : driver = .Mysql ∨ driver = .Postgres)
    {gap : Text} (white : ∀ c ∈ gap, isWhitespace c = true) :
    (SplitsBack driver encoder gap true inserts ↔ ∀ insert ∈ inserts, Safe driver encoder insert) ∧
      (SplitsBack driver encoder gap false inserts → ∀ insert ∈ inserts.dropLast, Safe driver encoder insert) ∧
      ((∀ insert ∈ inserts, Safe driver encoder insert) → SplitsBack driver encoder gap false inserts) := by
  have only (closed : Bool) (back : SplitsBack driver encoder gap closed inserts) :
      ∀ insert ∈ ended closed inserts, Safe driver encoder insert := by
    rw [SplitsBack, splitStatements, splitStatementsWithLimit] at back
    cases split : splitFrom (splitOptions driver) none 0 {}
        (chunk gap closed (inserts.map (insertText driver (encoder.literal driver)))) with
    | none =>
      obtain rfl : inserts = [] := by simpa [split] using back
      cases closed <;> simp [ended]
    | some out =>
      rw [split, Option.getD_some] at back
      rw [back] at split
      exact safe_of_split sql white (by simp) (split.trans (by rfl))
  exact ⟨⟨only true, safe_splitsBack sql white true⟩, only false, safe_splitsBack sql white false⟩

/-- `INSERT INTO "t" ("c") VALUES ('...')` -/
def textInsert (text : Text) : Insert where
  qualifier := none
  table := "t"
  columns := ["c"]
  overriding := false
  rows := [[.Text text]]
  nonempty := by simp
  conflict := .none

set_option maxRecDepth 4000 in
theorem inserts_split_iff_backslash : ¬ SplitsBack .Postgres .transfer ['\n'] true [textInsert ['\\'], textInsert ['a']] := by decide

theorem inserts_split_iff_plain : SplitsBack .Postgres .transfer ['\n'] true [textInsert "it's", textInsert ['\\', 'a']] :=
  (inserts_split_iff (.inr rfl) (forall_mem_singleton.mpr rfl)).1.mpr (by decide)

/-! ### The import of exported rows -/

open SqlImport ImportChunks Batching

def insertStatement (driver : DriverKind) (insert : Insert) : Text := insertText driver (transferLiteral driver) insert

/-- A statement as the exporter writes it into the data of a table. -/
def insertLine (driver : DriverKind) (insert : Insert) : Text := insertStatement driver insert ++ [';', '\n']

/-- The statements in front of every chunk. -/
def checksOff (driver : DriverKind) : List Text := if driver = .Mysql then ["SET FOREIGN_KEY_CHECKS=0"] else []

theorem chunk_lines (statements : List Text) : chunk ['\n'] true statements = (statements.map (· ++ [';', '\n'])).flatten := by
  induction statements with
  | nil => rfl
  | cons statement rest ih =>
    rw [chunk_cons statement (.inl rfl), ih]
    simp

theorem checksOff_whole {s : Text} (mem : s ∈ checksOff driver) : Whole (splitOptions driver) s := by
  rw [checksOff] at mem
  split_ifs at mem with mysql
  · obtain rfl := mem_singleton.mp mem
    exact ⟨fun rest _ => passes_phrase (by decide) rest, by decide, by decide⟩
  · cases mem

theorem insertStatement_whole (sql : driver = .Mysql ∨ driver = .Postgres) {insert : Insert} (safe : Safe driver .transfer insert) :
    Whole (splitOptions driver) (insertStatement driver insert) := by
  have whole := insertText_whole sql safe
  exact whole

theorem request_splits (sql : driver = .Mysql ∨ driver = .Postgres) (state : Importer) {batch : List Insert}
    (safe : ∀ insert ∈ batch, Safe driver .transfer insert) (short : batch.length ≤ CHUNK_FLUSH_STMTS) :
    splitStatementsBounded (request driver state (batch.map (insertLine driver))).sql (splitOptions driver) MAX_SQL_STATEMENTS =
      .ok (checksOff driver ++ batch.map (insertStatement driver)) := by
  have text : (request driver state (batch.map (insertLine driver))).sql =
      chunk ['\n'] true (checksOff driver ++ batch.map (insertStatement driver)) := by
    rw [chunk_lines, map_append, flatten_append, map_map, request, chunkQuery, checksOff]
    split_ifs <;> rfl
  have room : (checksOff driver).length + batch.length ≤ MAX_SQL_STATEMENTS := by
    rw [CHUNK_FLUSH_STMTS] at short
    rw [checksOff, MAX_SQL_STATEMENTS]
    split_ifs <;> simp <;> omega
  have whole : ∀ s ∈ checksOff driver ++ batch.map (insertStatement driver), Whole (splitOptions driver) s :=
    forall_mem_append.mpr ⟨fun _ => checksOff_whole, forall_mem_map.mpr fun insert own => insertStatement_whole sql (safe insert own)⟩
  rw [text, splitStatementsBounded, splitStatementsWithLimit, splitFrom_chunk ?_ true whole ?_ ?_]
  · rfl
  · exact forall_mem_singleton.mpr rfl
  · exact forall_mem_nil _
  · simpa using room

theorem insertLine_dark (insert : Insert) : isBlank (insertLine driver insert) = false := by
  rw [isBlank, isEmpty_eq_false_iff]
  exact fun blank => absurd (trim_eq_nil_iff.mp blank 'I' mem_cons_self) (by decide)

/-- A segment of exported rows is replayed: what the connection is given is split
    into the INSERT statements of the export, in their order and each one once, and
    into all of them when every request is answered and no statement is too large. -/
theorem segment_replayed (sql : driver = .Mysql ∨ driver = .Postgres) {state : Importer} (live : Live [] state) (svc : Service)
    (policy : ConflictPolicy) {inserts : List Insert} (safe : ∀ insert ∈ inserts, Safe driver .transfer insert) :
    ∃ (queries : List Query) (sent : List (List Insert)),
      (importStatements svc driver policy (inserts.map (insertLine driver)) state).state.calls = state.calls ++ queries ∧
      (queries.map fun query => splitStatementsBounded query.sql (splitOptions driver) MAX_SQL_STATEMENTS) =
        (sent.map fun batch => .ok (checksOff driver ++ batch.map (insertStatement driver))) ∧
      sent.flatten <+: inserts ∧
      ((∀ calls query, (svc.execute calls query).isOk = true) →
        (∀ insert ∈ inserts, byteLen (insertLine driver insert) ≤ sqlChunkPayloadLimit driver) → sent.flatten = inserts) := by
  have dark : (inserts.map (insertLine driver)).filter (fun statement => !isBlank statement) = inserts.map (insertLine driver) :=
    filter_eq_self.mpr <| forall_mem_map.mpr fun insert _ => by rw [insertLine_dark, Bool.not_false]
  have whole := @chunks_flatten driver (inserts.map (insertLine driver))
  rw [dark] at whole
  obtain ⟨own, parts, inside⟩ := parts_of_flatten whole
  have calls := (@importStatements_sends svc driver policy _ (inserts.map (insertLine driver)) _ live).follows.calls
  rw [executed, parts, map_map] at calls
  obtain ⟨rest, split⟩ := @untilStop_isPrefix _ (chunkStops svc policy state.segment.kind) state.calls
    (own.map (request driver state ∘ map (insertLine driver)))
  obtain ⟨sent, unsent, rfl, asked, -⟩ := map_eq_append_iff.mp split.symm
  rw [← asked] at calls
  have front : sent.flatten <+: inserts := (prefix_append sent unsent).flatten.trans inside
  refine ⟨_, sent, calls, ?_, front, fun answered fits => front.eq_of_length ?_⟩
  · rw [map_map]
    exact map_congr_left fun batch mem => request_splits sql state (fun insert own =>
      safe insert (front.subset (mem_flatten.mpr ⟨batch, mem, own⟩))) <| by
        have limits := chunks_withinLimits (batch.map (insertLine driver)) (parts ▸ mem_map_of_mem (mem_append_left unsent mem))
        simpa using limits.count
  · have free : stopped (chunkStops svc policy state.segment.kind) state.calls
        ((sent ++ unsent).map (request driver state ∘ map (insertLine driver))) = false := by
      by_contra stop
      obtain ⟨before, query, -, stop⟩ := stopped_untilStop (by simpa only [Bool.not_eq_false] using stop)
      simp [chunkStops, answered] at stop
    have small : oversized driver (inserts.map (insertLine driver)) = false :=
      any_eq_false.mpr <| forall_mem_map.mpr fun insert mem => by simp [fits insert mem]
    have all := chunks_complete small
    rw [untilStop_all free, map_append] at asked
    obtain rfl : unsent = [] := by simpa using asked
    rw [dark, parts, ← map_flatten, append_nil] at all
    simpa only [length_map] using congrArg length all

theorem segment_replayed_quote : ∃ (queries : List Query) (sent : List (List Insert)),
    (importStatements acceptsAll .Postgres .Fail ([textInsert "it's"].map (insertLine .Postgres)) {}).state.calls = [] ++ queries ∧
      sent.flatten = [textInsert "it's"] := by
  obtain ⟨queries, sent, calls, -, -, all⟩ := segment_replayed (.inr rfl) (⟨rfl, rfl, rfl, rfl, nofun⟩ : Live [] {}) acceptsAll .Fail
    (by decide : ∀ insert ∈ [textInsert "it's"], Safe .Postgres .transfer insert)
  exact ⟨queries, sent, calls, all (fun _ _ => rfl) (by decide)⟩

end Ramag.InsertChunks
