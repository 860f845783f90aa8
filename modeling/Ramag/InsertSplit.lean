import Ramag.SplitRules
import Ramag.SqlLiteral

/-!
The literal encoders against the statement splitter: which INSERT statements
come back from a chunk as they went in, and which texts and names can break one
apart.
-/
namespace Ramag.InsertSplit
open Strings Domain Sql SqlLiteral SplitRules List

/-- The two encoders of the tuples. -/
inductive Encoder
  | transfer
  | plain
  deriving DecidableEq

def Encoder.literal (driver : DriverKind) : Encoder → Value → Text
  | .transfer => transferLiteral driver
  | .plain => toSqlLiteralFor driver

def splitOptions : DriverKind → SplitOptions
  | .Mysql => .mysql
  | .Postgres => .postgres
  | _ => .sqlite

def nameQuote : DriverKind → Char
  | .Mysql => '`'
  | _ => '"'

/-- No odd run of backslashes stands directly before a quote character or the
    end. -/
def textSafe (quote : Char) : Text → Bool
  | [] => true
  | [c] => c ≠ '\\'
  | c :: d :: t => if c = '\\' then d ≠ quote && textSafe quote t else textSafe quote (d :: t)

def nameSafe (driver : DriverKind) (name : Text) : Bool := textSafe (nameQuote driver) name

/-- Only a text of PostgreSQL keeps its backslashes, and with a line break the
    transfer encoder escapes them too. -/
def valueSafe (driver : DriverKind) (encoder : Encoder) : Value → Bool
  | .Text text => driver = .Mysql || (encoder = .transfer && hasLineBreak text) || textSafe '\'' text
  | _ => true

variable {quote : Char}

theorem textSafe_cons {c : Char} (plain : c ≠ '\\') (t : Text) : textSafe quote (c :: t) = textSafe quote t := by
  cases t <;> simp [textSafe, plain]

theorem textSafe_escape (quote d : Char) (t : Text) : textSafe quote ('\\' :: d :: t) = (d ≠ quote && textSafe quote t) := by
  simp [textSafe]

theorem textSafe_json {text : Text} (escapes : jsonEscapes text = true) : textSafe '\'' text = true := by
  induction text using jsonEscapes.induct with
  | case1 => rfl
  | case2 c => simpa [textSafe, jsonEscapes] using escapes
  | case3 d t ih =>
    simp only [jsonEscapes, if_true, Bool.and_eq_true, decide_eq_true_eq] at escapes
    have other : d ≠ '\'' := by
      rintro rfl
      exact absurd escapes.1 (by decide)
    simp [textSafe_escape, other, ih escapes.2]
  | case4 c d t plain ih =>
    simp only [jsonEscapes, plain, if_false] at escapes
    rw [textSafe_cons plain, ih escapes]

@[simp] theorem replaceChar_nil (old : Char) (new : Text) : replaceChar old new [] = [] := rfl

theorem replaceChar_cons (old : Char) (new : Text) (c : Char) (t : Text) :
    replaceChar old new (c :: t) = (if c = old then new else [c]) ++ replaceChar old new t := rfl

theorem quotedBody_doubled (ordinary : quote ≠ '\\') :
    ∀ {t : Text}, textSafe quote t = true → quotedBody quote (replaceChar quote [quote, quote] t) = true
  | [], _ => rfl
  | [c], safe => by
    have plain : c ≠ '\\' := by simpa [textSafe] using safe
    by_cases closing : c = quote
    · simp [replaceChar_cons, closing, quotedBody_pair ordinary, quotedBody]
    · simp [replaceChar_cons, closing, quotedBody, plain]
  | c :: d :: t, safe => by
    by_cases escape : c = '\\'
    · subst escape
      rw [textSafe_escape, Bool.and_eq_true, decide_eq_true_eq] at safe
      have inner := quotedBody_doubled ordinary safe.2
      rw [replaceChar_cons, replaceChar_cons, if_neg ordinary.symm, if_neg safe.1]
      simpa [quotedBody_escape safe.1] using inner
    · rw [textSafe_cons escape] at safe
      have inner := quotedBody_doubled ordinary safe
      rw [replaceChar_cons]
      by_cases closing : c = quote
      · simpa [closing, quotedBody_pair ordinary] using inner
      · simpa [closing, quotedBody_cons escape closing] using inner

private theorem quotedBody_flatMap {f : Char → Text}
    (units : ∀ c t, quotedBody '\'' (f c ++ t) = quotedBody '\'' t) (t : Text) : quotedBody '\'' (t.flatMap f) = true := by
  induction t with
  | nil => rfl
  | cons c t ih => rw [flatMap_cons, units, ih]

variable (text : Text)

theorem escapedBody_eq : escapedBody text = text.flatMap fun c =>
      if c = '\\' then ['\\', '\\'] else if c = '\'' then ['\'', '\''] else if c = '\n' then ['\\', 'n']
      else if c = '\r' then ['\\', 'r'] else [c] := by
  induction text with
  | nil => rfl
  | cons c t ih =>
    rw [flatMap_cons, ← ih]
    by_cases back : c = '\\'
    · simp [escapedBody, replaceChar, back]
    by_cases quote : c = '\''
    · simp [escapedBody, replaceChar, quote]
    · by_cases feed : c = '\n'
      · simp [escapedBody, replaceChar, feed]
      · by_cases ret : c = '\r' <;> simp [escapedBody, replaceChar, back, quote, feed]

theorem quotedBody_escapedBody : quotedBody '\'' (escapedBody text) = true := by
  rw [escapedBody_eq]
  refine quotedBody_flatMap (fun c t => ?_) text
  split_ifs with back quote feed ret
  · exact quotedBody_escape (by decide) t
  · exact quotedBody_pair (by decide) t
  · exact quotedBody_escape (by decide) t
  · exact quotedBody_escape (by decide) t
  · exact quotedBody_cons back quote t

theorem quotedBody_mysql : quotedBody '\'' (escapeSqlString text true) = true := by
  refine quotedBody_flatMap (fun c t => ?_) text
  by_cases back : c = '\\'
  · simpa [back] using @quotedBody_escape '\'' '\\' (by decide) t
  · by_cases quote : c = '\''
    · simpa [quote] using @quotedBody_pair '\'' (by decide) t
    · simpa [back, quote] using quotedBody_cons back quote t

theorem escapeSqlString_plain : escapeSqlString text false = replaceChar '\'' ['\'', '\''] text := by simp [escapeSqlString, replaceChar]

private theorem quotedBody_plain {t : Text} (plain : ∀ c ∈ t, c ≠ '\\' ∧ c ≠ quote) : quotedBody quote t = true := by
  induction t with
  | nil => rfl
  | cons c t ih =>
    obtain ⟨back, other⟩ := plain c (by simp)
    rw [quotedBody_cons back other, ih fun d mem => plain d (by simp [mem])]

section
variable {driver : DriverKind}

/-- The text is passed in front of everything that no word can run into. -/
def EndsWell (driver : DriverKind) (t : Text) : Prop :=
  ∀ rest, wordEdge rest.head? = true → Passes (splitOptions driver) t rest

private theorem notWord_quote {quote : Char} (isquote : isQuote quote = true) : startsWord (splitOptions driver) quote = false := by
  have letter : quote.isAlpha = false := by
    simp only [isQuote, Bool.or_eq_true, beq_iff_eq] at isquote
    rcases isquote with (rfl | rfl) | rfl <;> decide
  simp [startsWord, letter]

private theorem passes_single (driver : DriverKind) {body : Text} (inside : quotedBody '\'' body = true) (rest : Text) :
    Passes (splitOptions driver) (singleQuoted body) rest :=
  passes_quoted rfl (by decide) (notWord_quote rfl) inside rest

theorem passes_name {name : Text} (safe : nameSafe driver name = true) (sql : driver = .Mysql ∨ driver = .Postgres)
    (rest : Text) : Passes (splitOptions driver) (quoteIdentifier driver name) rest := by
  rcases sql with rfl | rfl
  · exact passes_quoted rfl (by decide) (notWord_quote rfl) (quotedBody_doubled (by decide) safe) rest
  · exact passes_quoted rfl (by decide) (notWord_quote rfl) (quotedBody_doubled (by decide) safe) rest

variable {c : Char}

private theorem digit_plain (digit : c.isDigit = true) : isPlain c = true ∧ startsWord (splitOptions driver) c = false := by
  have range := digit_range digit
  have letter : c.isAlpha = false := by
    by_contra letter
    have := alpha_range (by simpa using letter)
    omega
  exact ⟨isPlain_of_wordByte (by simp [isWordByte, Char.isAlphanum, digit]), by simp [startsWord, letter]⟩

theorem natText_digits {n : Nat} : ∀ c ∈ natText n, c.isDigit = true :=
  fun _ mem => Nat.isDigit_of_mem_toDigits (by decide) (by decide) mem

variable {t : Text}

private theorem passes_digits (driver : DriverKind) (digits : ∀ c ∈ t, c.isDigit = true) (rest : Text) :
    Passes (splitOptions driver) t rest :=
  passes_plains (fun c mem => digit_plain (digits c mem)) rest

private theorem passes_signed {rest : Text} (negative : Bool) (positive : (t ++ rest).head? ≠ some '-')
    (passes : Passes (splitOptions driver) t rest) : Passes (splitOptions driver) (signText negative ++ t) rest := by
  cases negative with
  | false => exact passes
  | true => exact (passes_minus positive).append (t := ['-']) passes

private theorem natText_head (n : Nat) (rest : Text) : (natText n ++ rest).head? ≠ some '-' := by
  cases digits : natText n with
  | nil => exact absurd digits Nat.toDigits_ne_nil
  | cons c t =>
    have digit := natText_digits c (by rw [digits]; simp)
    rw [cons_append, head?_cons, Ne, Option.some.injEq]
    rintro rfl
    cases digit

theorem intText_endsWell (value : Int) : EndsWell driver (intText value) := fun rest _ =>
  passes_signed _ (natText_head _ rest) (passes_digits _ natText_digits rest)

private theorem word_endsWell (letter : c.isAlpha = true) (inside : t.all isWordByte = true)
    (other : eqIgnoreAsciiCase (c :: t) "CREATE" = false) : EndsWell driver (c :: t) := fun _ ends =>
  passes_word letter (all_eq_true.mp inside) other ends

theorem floatText_endsWell (value : FloatText) : EndsWell driver (floatText value) := by
  intro rest ends
  have digits (fraction : List (Fin 10)) : ∀ c ∈ fraction.flatMap fun d => natText d, c.isDigit = true := by
    intro c mem
    obtain ⟨d, _, inside⟩ := mem_flatMap.mp mem
    exact natText_digits c inside
  cases value with
  | nan => exact word_endsWell (by decide) (by decide) (by decide) rest ends
  | inf negative => exact passes_signed negative (by simp) (word_endsWell (by decide) (by decide) (by decide) rest ends)
  | finite negative whole fraction =>
    cases fraction with
    | nil => exact passes_signed negative (natText_head _ rest) (passes_digits _ natText_digits rest)
    | cons d fraction =>
      have point : Passes (splitOptions driver) ('.' :: (d :: fraction).flatMap fun d => natText d) rest :=
        (passes_plain (by decide) (by simp [startsWord]) _).append (t := ['.'])
          (passes_digits _ (digits (d :: fraction)) rest)
      have number := (passes_digits driver (@natText_digits whole) _).append point
      have head := natText_head whole (('.' :: (d :: fraction).flatMap fun d => natText d) ++ rest)
      rw [← append_assoc] at head
      simp only [floatText, append_assoc]
      exact passes_signed negative head number

private theorem hexDigit_inside (n : Nat) : isWordByte (hexDigit n) = true ∧ hexDigit n ≠ '\\' ∧ hexDigit n ≠ '\'' := by
  by_cases small : n < 16
  · have all : ∀ n < 16, isWordByte (hexDigit n) = true ∧ hexDigit n ≠ '\\' ∧ hexDigit n ≠ '\'' := by decide
    exact all n small
  have out : hexDigit n = '0' := by
    have long : "0123456789abcdef".toList.length ≤ n := by simpa using small
    simp only [hexDigit, getD_eq_getElem?_getD, getElem?_eq_none long, Option.getD_none]
  rw [out]
  decide

theorem encodeHex_inside {bytes : List UInt8} : ∀ c ∈ encodeHex bytes, isWordByte c = true ∧ c ≠ '\\' ∧ c ≠ '\'' := by
  intro c mem
  obtain ⟨byte, _, inside⟩ := mem_flatMap.mp mem
  simp only [mem_cons, not_mem_nil, or_false] at inside
  rcases inside with rfl | rfl <;> exact hexDigit_inside _

theorem dateTimeText_inside {value : DateTime} : ∀ c ∈ dateTimeText value, c ≠ '\\' ∧ c ≠ '\'' := by
  have digit {c : Char} (digit : c.isDigit = true) : c ≠ '\\' ∧ c ≠ '\'' := by constructor <;> rintro rfl <;> cases digit
  have part (width n : Nat) : ∀ c ∈ padded width n, c ≠ '\\' ∧ c ≠ '\'' := by
    intro c mem
    rcases mem_append.mp mem with zero | number
    · rw [eq_of_mem_replicate zero]
      decide
    · exact digit (natText_digits c number)
  have sign : ∀ c ∈ (if value.year < 0 then ['-'] else if 9999 < value.year then ['+'] else []), c ≠ '\\' ∧ c ≠ '\'' := by
    split_ifs <;> simp
  simp only [dateTimeText, forall_mem_append, forall_mem_cons]
  and_intros
  all_goals first | exact sign | exact part _ _ | decide

theorem plain_endsWell (value : Value) (safe : valueSafe driver .plain value = true)
    (sql : driver = .Mysql ∨ driver = .Postgres) : EndsWell driver (toSqlLiteralFor driver value) := by
  intro rest ends
  have text {t : Text} (safe : driver = .Mysql ∨ textSafe '\'' t = true) :
      Passes (splitOptions driver) (singleQuoted (escapeSqlString t (driver = .Mysql))) rest := by
    by_cases mysql : driver = .Mysql
    · simpa [mysql] using passes_single driver (quotedBody_mysql t) rest
    · have body := quotedBody_doubled (by decide) (safe.resolve_left mysql)
      rw [← escapeSqlString_plain] at body
      simpa [mysql] using passes_single driver body rest
  cases value with
  | Null => exact word_endsWell (by decide) (by decide) (by decide) rest ends
  | Bool value =>
    cases value with
    | false | true => exact word_endsWell (by decide) (by decide) (by decide) rest ends

  | Int value => exact intText_endsWell value rest ends
  | Float value => exact floatText_endsWell value rest ends
  | Text value => exact text (by simpa [valueSafe] using safe)
  | Json value => exact text (.inr (textSafe_json value.escapes))
  | DateTime value => exact passes_single _ (quotedBody_plain dateTimeText_inside) rest
  | Bytes value =>
    rcases sql with rfl | rfl
    · refine (passes_plain (c := '0') (by decide) (by simp [startsWord]) _).append
        (t := ['0']) (word_endsWell (c := 'x') (by decide) ?_ (by simp [eqIgnoreAsciiCase, toAsciiLowercase]) rest ends)
      exact all_eq_true.mpr fun c mem => (encodeHex_inside c mem).1
    · refine passes_single _ ?_ rest
      rw [quotedBody_escape (by decide)]
      exact quotedBody_plain fun c mem => (encodeHex_inside c mem).2

variable {encoder : Encoder}

theorem literal_endsWell {value : Value} (safe : valueSafe driver encoder value = true)
    (sql : driver = .Mysql ∨ driver = .Postgres) : EndsWell driver (encoder.literal driver value) := by
  have lines (text : Text) : EndsWell driver (escapedTextLiteral text driver) := by
    intro rest _
    have body := passes_single driver (quotedBody_escapedBody text) rest
    rcases sql with rfl | rfl
    · exact body
    · exact (passes_plain (c := 'E') (by decide) rfl _).append (t := ['E']) body
  cases encoder with
  | plain => exact plain_endsWell value safe sql
  | transfer =>
    cases value with
    | Text text =>
      by_cases broken : hasLineBreak text = true
      · simpa [Encoder.literal, transferLiteral, broken] using lines text
      · simpa [Encoder.literal, transferLiteral, broken] using
          plain_endsWell (.Text text) (by simpa [valueSafe, broken] using safe) sql
    | Json json =>
      by_cases broken : hasLineBreak json.text = true
      · simpa [Encoder.literal, transferLiteral, broken] using lines json.text
      · simpa [Encoder.literal, transferLiteral, broken] using plain_endsWell (.Json json) rfl sql
    | Null => exact plain_endsWell .Null rfl sql
    | Bool value => exact plain_endsWell (.Bool value) rfl sql
    | Int value => exact plain_endsWell (.Int value) rfl sql
    | Float value => exact plain_endsWell (.Float value) rfl sql
    | Bytes value => exact plain_endsWell (.Bytes value) rfl sql
    | DateTime value => exact plain_endsWell (.DateTime value) rfl sql

/-! ### Passed statements -/

private theorem endsWell_join {parts : List Text} (each : ∀ p ∈ parts, EndsWell driver p) : EndsWell driver (joinWith ", " parts) := by
  intro rest ends
  induction parts with
  | nil => exact passes_nil rest
  | cons p parts ih =>
    have first := each p (by simp)
    have later := ih fun q mem => each q (by simp [mem])
    cases parts with
    | nil => exact first rest ends
    | cons q parts =>
      have comma : Passes (splitOptions driver) ", " (joinWith ", " (q :: parts) ++ rest) :=
        passes_phrase (by decide) _
      rw [joinWith]
      · rw [append_assoc]
        exact (first _ (by rfl)).append (comma.append later)
      · simp

def conflictNames : ConflictClause → List Text
  | .none => []
  | .doNothing identity => identity
  | .onDuplicateKey identity => [identity]

/-- Every name of the statement and every value of its tuples. -/
def Insert.names (insert : Insert) : List Text :=
  insert.qualifier.toList ++ insert.table :: insert.columns ++ conflictNames insert.conflict

def Insert.values (insert : Insert) : List Value := insert.rows.flatten

/-- Nothing in the statement can break it apart. -/
def Safe (driver : DriverKind) (encoder : Encoder) (insert : Insert) : Prop :=
  (∀ name ∈ Insert.names insert, nameSafe driver name = true) ∧ ∀ value ∈ Insert.values insert, valueSafe driver encoder value = true

instance (driver : DriverKind) (encoder : Encoder) (insert : Insert) : Decidable (Safe driver encoder insert) :=
  inferInstanceAs (Decidable (_ ∧ _))

private theorem columns_endsWell {columns : List Text} (sql : driver = .Mysql ∨ driver = .Postgres)
    (safe : ∀ name ∈ columns, nameSafe driver name = true) : EndsWell driver (quotedColumns driver columns) := by
  refine endsWell_join fun part mem => ?_
  obtain ⟨name, inside, rfl⟩ := mem_map.mp mem
  exact fun rest _ => passes_name (safe name inside) sql rest

private theorem tuple_endsWell {row : Row} (sql : driver = .Mysql ∨ driver = .Postgres)
    (safe : ∀ value ∈ row, valueSafe driver encoder value = true) : EndsWell driver (rowTuple (encoder.literal driver) row) := by
  intro rest _
  have inner : EndsWell driver (joinWith ", " (row.map (encoder.literal driver))) := by
    refine endsWell_join fun part mem => ?_
    obtain ⟨value, inside, rfl⟩ := mem_map.mp mem
    exact literal_endsWell (safe value inside) sql
  have opening (u : Text) : Passes (splitOptions driver) ['('] u := passes_phrase (by decide) u
  have closing : Passes (splitOptions driver) [')'] rest := passes_phrase (by decide) rest
  exact (opening _).append ((inner _ rfl).append closing)

variable {insert : Insert}

section
variable (sql : driver = .Mysql ∨ driver = .Postgres) (safe : ∀ name ∈ Insert.names insert, nameSafe driver name = true)
include sql safe

private theorem target_passes (rest : Text) :
    Passes (splitOptions driver) (insertTarget driver insert) rest := by
  have table (rest : Text) : Passes (splitOptions driver) (quoteIdentifier driver insert.table) rest :=
    passes_name (safe _ (by simp [Insert.names])) sql rest
  cases named : insert.qualifier with
  | none => simpa [insertTarget, named] using table rest
  | some qualifier =>
    have front (rest : Text) : Passes (splitOptions driver) (quoteIdentifier driver qualifier) rest :=
      passes_name (safe _ (by simp [Insert.names, named])) sql rest
    have dot (rest : Text) : Passes (splitOptions driver) ['.'] rest := passes_phrase (by decide) rest
    have whole := (front _).append ((dot _).append (table rest))
    simpa [insertTarget, named, qualified] using whole

private theorem conflict_endsWell : EndsWell driver (conflictText driver insert.conflict) := by
  intro rest ends
  have fixed {t : Text} (closed : phrase t = true) (rest : Text) : Passes (splitOptions driver) t rest := passes_phrase closed rest
  cases clause : insert.conflict with
  | none => exact passes_nil rest
  | doNothing identity =>
    have columns : EndsWell driver (quotedColumns driver identity) :=
      columns_endsWell sql fun name mem => safe name (by simp [Insert.names, conflictNames, clause, mem])
    have nothing : Passes (splitOptions driver) "NOTHING".toList rest :=
      word_endsWell (by decide) (by decide) (by decide) rest ends
    have closing : Passes (splitOptions driver) (") DO ".toList ++ "NOTHING".toList) rest :=
      (fixed (by decide) _).append nothing
    have listed := (columns (") DO ".toList ++ "NOTHING".toList ++ rest) rfl).append closing
    have opening := fixed (t := " ON CONFLICT (".toList) (by decide)
      (quotedColumns driver identity ++ (") DO ".toList ++ "NOTHING".toList) ++ rest)
    have text : conflictText driver (.doNothing identity) =
        " ON CONFLICT (".toList ++ (quotedColumns driver identity ++ (") DO ".toList ++ "NOTHING".toList)) := by
      have closing_text : ") DO NOTHING".toList = ") DO ".toList ++ "NOTHING".toList := by decide
      rw [conflictText_doNothing, append_assoc, closing_text]
    rw [text]
    exact opening.append listed
  | onDuplicateKey identity =>
    have name (rest : Text) : Passes (splitOptions driver) (quoteIdentifier driver identity) rest :=
      passes_name (safe identity (by simp [Insert.names, conflictNames, clause])) sql rest
    have whole := (fixed (t := " ON DUPLICATE KEY UPDATE ".toList) (by decide) _).append
      ((name _).append ((fixed (t := " = ".toList) (by decide) _).append (name rest)))
    rw [conflictText_onDuplicateKey]
    simpa using whole

end

theorem insertText_endsWell (sql : driver = .Mysql ∨ driver = .Postgres)
    (safe : Safe driver encoder insert) : EndsWell driver (insertText driver (encoder.literal driver) insert) := by
  intro rest ends
  have fixed {t : Text} (closed : phrase t = true) (rest : Text) : Passes (splitOptions driver) t rest := passes_phrase closed rest
  have columns : EndsWell driver (quotedColumns driver insert.columns) :=
    columns_endsWell sql fun name mem => safe.1 name (by simp [Insert.names, mem])
  have tuples : EndsWell driver (joinWith ", ".toList (insert.rows.map (rowTuple (encoder.literal driver)))) := by
    refine endsWell_join fun part mem => ?_
    obtain ⟨row, inside, rfl⟩ := mem_map.mp mem
    exact tuple_endsWell sql fun value valueInside => safe.2 value (mem_flatten.mpr ⟨row, inside, valueInside⟩)
  have conflict := conflict_endsWell sql safe.1
  have after_tuples : wordEdge (conflictText driver insert.conflict ++ rest).head? = true := by
    cases insert.conflict with
    | none => exact ends
    | doNothing => rfl
    | onDuplicateKey => rfl
  have tail := (tuples _ after_tuples).append (conflict rest ends)
  have values (rest : Text) : Passes (splitOptions driver)
      (')' :: ((if insert.overriding then " OVERRIDING SYSTEM VALUE".toList else []) ++ " VALUES ".toList)) rest := by
    cases insert.overriding with
    | false | true => exact fixed (by decide) rest

  have list := (columns (')' :: _) rfl).append ((values _).append tail)
  have named := (target_passes sql safe.1 _).append ((fixed (t := " (".toList) (by decide) _).append list)
  have text : insertText driver (encoder.literal driver) insert =
      "INSERT INTO ".toList ++ (insertTarget driver insert ++ (" (".toList ++ (quotedColumns driver insert.columns ++
        ((')' :: ((if insert.overriding then " OVERRIDING SYSTEM VALUE".toList else []) ++ " VALUES ".toList)) ++
          (joinWith ", ".toList (insert.rows.map (rowTuple (encoder.literal driver))) ++
            conflictText driver insert.conflict))))) := by
    simp only [insertText, insertPrefix_eq, append_assoc, cons_append, nil_append]
  rw [text]
  exact (fixed (by decide) _).append named

private theorem getLast?_join {sep : Text} {parts : List Text} (nonempty : parts ≠ [])
    (each : ∀ p ∈ parts, p.getLast? = some c) : (joinWith sep parts).getLast? = some c := by
  induction parts with
  | nil => exact absurd rfl nonempty
  | cons p parts ih =>
    cases parts with
    | nil => exact each p (by simp)
    | cons q parts =>
      have later := ih (by simp) fun r mem => each r (by simp [mem])
      rw [joinWith, getLast?_append, later]
      · rfl
      · simp

private theorem insertText_last (sql : driver = .Mysql ∨ driver = .Postgres) :
    (insertText driver (encoder.literal driver) insert).getLast?.any (fun c => !isWhitespace c) = true := by
  have tuples : (joinWith ", " (insert.rows.map (rowTuple (encoder.literal driver)))).getLast? = some ')' := by
    refine getLast?_join (by simpa using insert.nonempty) fun part mem => ?_
    obtain ⟨row, _, rfl⟩ := mem_map.mp mem
    rw [rowTuple, getLast?_append]
    rfl
  rw [insertText, getLast?_append]
  cases insert.conflict with
  | none =>
    rw [getLast?_append, tuples]
    rfl
  | doNothing identity =>
    have last : ") DO NOTHING".toList.getLast? = some 'G' := by decide
    rw [conflictText_doNothing, getLast?_append, last]
    rfl
  | onDuplicateKey identity =>
    rw [conflictText_onDuplicateKey, getLast?_append]
    rcases sql with rfl | rfl
    · simp only [quoteIdentifier, quoted, getLast?_append, getLast?_singleton]
      rfl
    · simp only [quoteIdentifier, quoted, getLast?_append, getLast?_singleton]
      rfl

theorem insertText_whole (sql : driver = .Mysql ∨ driver = .Postgres) (safe : Safe driver encoder insert) :
    Whole (splitOptions driver) (insertText driver (encoder.literal driver) insert) where
  passes rest ends := by
    refine insertText_endsWell sql safe rest ?_
    cases rest with
    | nil => rfl
    | cons c rest =>
      obtain rfl : c = ';' := by simpa using ends
      rfl
  first := by rfl
  last := insertText_last sql

end

/-- The chunk that the statements are sent in is split back into them. -/
def SplitsBack (driver : DriverKind) (encoder : Encoder) (gap : Text) (closed : Bool) (inserts : List Insert) : Prop :=
  let statements := inserts.map (insertText driver (encoder.literal driver))
  splitStatements (chunk gap closed statements) (splitOptions driver) = statements

instance (driver : DriverKind) (encoder : Encoder) (gap : Text) (closed : Bool) (inserts : List Insert) :
    Decidable (SplitsBack driver encoder gap closed inserts) :=
  inferInstanceAs (Decidable (splitStatements _ _ = _))

theorem safe_splitsBack {driver : DriverKind} {encoder : Encoder} {inserts : List Insert}
    (sql : driver = .Mysql ∨ driver = .Postgres) {gap : Text} (white : ∀ c ∈ gap, isWhitespace c = true) (closed : Bool)
    (safe : ∀ insert ∈ inserts, Safe driver encoder insert) : SplitsBack driver encoder gap closed inserts := by
  refine splitStatements_chunk white closed fun s mem => ?_
  obtain ⟨insert, inside, rfl⟩ := mem_map.mp mem
  exact insertText_whole sql (safe insert inside)

end Ramag.InsertSplit
