import Ramag.PostgresLexer
import Ramag.ReadOnlyGuard

/-!
The read-only guard under PostgreSQL's lexical rules: which lexemes the
dialect-neutral scanners read as the server does, and what the guard then
stops.
-/
namespace Ramag.PostgresGuard
open Strings Domain Sql Lexing PostgresLexer ReadOnlyGuard

/-- The shapes on which the dialect-neutral scanners and PostgreSQL agree: no
    backslash that decides about a quote, no comment inside a comment, no
    `/*!`, no back quote, only ASCII dollar tags, no carriage return that ends
    a line. -/
def ReadsAlike (x : Lexeme) : Prop :=
  match x.kind with
  | .word => NoDollarQuote x
  | .symbol => NoDollarQuote x ∧ x.here.head? ≠ some '`'
  | .lineComment => x.rest.head? ≠ some '\r'
  | .blockComment => flat (x.here.drop 2) = true ∧ (x.here.drop 2).head? ≠ some '!'
  | .literal => quoteSafe '\'' x.here.tail = true
  | .quotedIdentifier => quoteSafe '"' x.here.tail = true
  | .dollarLiteral => (dollarTag x.here).all (·.all fun c => c = '$' || isWordByte c) = true
  | _ => True

instance : DecidablePred ReadsAlike
  | ⟨.word, _, _⟩ => inferInstanceAs (Decidable (NoDollarQuote _))
  | ⟨.symbol, _, _⟩ | ⟨.blockComment, _, _⟩ => inferInstanceAs (Decidable (_ ∧ _))
  | ⟨.lineComment, _, _⟩ => inferInstanceAs (Decidable (_ ≠ _))
  | ⟨.literal, _, _⟩ | ⟨.quotedIdentifier, _, _⟩ | ⟨.dollarLiteral, _, _⟩ => inferInstanceAs (Decidable (_ = true))
  | ⟨.number, _, _⟩ | ⟨.space, _, _⟩ | ⟨.hashComment, _, _⟩ | ⟨.escapeLiteral, _, _⟩ | ⟨.versionOpen, _, _⟩
  | ⟨.versionNumber, _, _⟩ | ⟨.versionClose, _, _⟩ => isTrue trivial

/-- The lexeme in front of `c :: t`, by the character that opens it. -/
inductive Reads (c : Char) (t : Text) : Kind → Nat → Prop
  | space : isSpace c = true → Reads c t .space (t.takeWhile isSpace).length
  | lineComment : c = '-' → t.head? = some '-' → Reads c t .lineComment (commentSkip t)
  | blockComment : c = '/' → t.head? = some '*' → Reads c t .blockComment (1 + nestedSkip 0 t.tail)
  | escapeLiteral : c = '\'' → Reads c t .escapeLiteral (escapedSkip c t)
  | literal : c = '\'' → Reads c t .literal (doubledSkip c t)
  | quotedIdentifier : c = '"' → Reads c t .quotedIdentifier (doubledSkip c t)
  | word : isIdentStart c = true → Reads c t .word (t.takeWhile isIdentCont).length
  | number : c.isDigit = true → Reads c t .number (t.takeWhile isTagCont).length
  | dollarLiteral (tag : Text) : dollarTag (c :: t) = some tag → Reads c t .dollarLiteral (dollarLength tag (c :: t) - 1)
  | symbol : isTagCont c = false → c ≠ '\'' → c ≠ '"' → ¬ (c = '-' ∧ t.head? = some '-') →
      ¬ (c = '/' ∧ t.head? = some '*') → Reads c t .symbol 0

theorem next_reads (s : State) (c : Char) (t : Text) : Reads c t (next s (c :: t)).1 (next s (c :: t)).2.1 := by
  rw [next]
  split_ifs with space line block single escape double ident digit
  · exact .space space
  · simp only [Bool.and_eq_true, decide_eq_true_eq] at line
    exact .lineComment line.1 line.2
  · simp only [Bool.and_eq_true, decide_eq_true_eq] at block
    exact .blockComment block.1 block.2
  · exact .escapeLiteral single
  · exact .literal single
  · exact .quotedIdentifier double
  · exact .word ident
  · exact .number digit
  · cases found : dollarTag (c :: t) with
    | some tag => exact .dollarLiteral tag found
    | none =>
      refine .symbol (by simp [isTagCont, ident, digit]) single double ?_ ?_
      · simpa using line
      · simpa using block

theorem lexeme_reads (s : State) {t : Text} (nonempty : t ≠ []) :
    ∃ c u kind n, t = c :: u ∧ lexemeAt next s t = ⟨kind, c :: u, n + 1⟩ ∧ Reads c u kind n := by
  obtain ⟨c, u, rfl⟩ := List.exists_cons_of_ne_nil nonempty
  exact ⟨c, u, _, _, rfl, rfl, next_reads s c u⟩

private theorem lineSkip_eq_commentSkip (t : Text) (ends : (t.drop (commentSkip t)).head? ≠ some '\r') : lineSkip t = commentSkip t := by
  induction t with
  | nil => rfl
  | cons c t ih =>
    by_cases feed : c = '\n'
    · simp [feed, lineSkip, commentSkip]
    by_cases ret : c = '\r'
    · subst ret
      cases t with
      | nil => simp [commentSkip] at ends
      | cons d t => by_cases feed : d = '\n' <;> simp_all [lineSkip, commentSkip]
    have step : commentSkip (c :: t) = commentSkip t + 1 := by simp [commentSkip, feed, ret, Nat.add_comm]
    rw [step, List.drop_succ_cons] at ends
    rw [step, ← ih ends]
    simp [lineSkip, feed]

private theorem dollarLength_pos {t tag : Text} (opened : dollarTag t = some tag) : 0 < dollarLength tag t := by
  unfold dollarTag at opened
  split at opened
  · simp only [Option.ite_none_right_eq_some, Option.some.injEq] at opened
    rw [dollarLength]
    split <;> simp [← opened.2]
  · cases opened

private theorem scanDollarQuoted_eq {c : Char} {t tag : Text} {n : Nat} (opened : dollarTag (c :: t) = some tag)
    (ascii : tag.all (fun d => d = '$' || isWordByte d) = true) (more : (c :: t).drop (dollarLength tag (c :: t)) ≠ [])
    (size : dollarLength tag (c :: t) - 1 = n) : c = '$' ∧ scanDollarQuoted (c :: t) = some (n + 1) := by
  have dollar : c = '$' := by
    by_contra other
    rw [dollarTag] at opened
    · cases opened
    · intro u same
      exact other (List.cons.inj same).1
  subst dollar
  simp only [dollarTag, Option.ite_none_right_eq_some, Bool.and_eq_true, decide_eq_true_eq, Option.some.injEq] at opened
  obtain ⟨⟨_, closing⟩, shape⟩ := opened
  have rest : t.drop (t.takeWhile isTagCont).length = t.dropWhile isTagCont := drop_run isTagCont t
  have name : t.takeWhile isWordByte = t.takeWhile isTagCont := by
    have inside : ∀ d ∈ t.takeWhile isTagCont, isWordByte d = true := by
      intro d mem
      have shown := List.all_eq_true.mp ascii d (by simp [← shape, mem])
      simp only [Bool.or_eq_true, decide_eq_true_eq] at shown
      rcases shown with rfl | word
      · exact absurd (List.mem_takeWhile_imp mem) (by decide)
      · exact word
    rw [rest] at closing
    conv_lhs => rw [← List.takeWhile_append_dropWhile (p := isTagCont) (l := t)]
    rw [List.takeWhile_append_of_pos inside]
    cases after : t.dropWhile isTagCont with
    | nil => simp
    | cons d u =>
      obtain rfl : d = '$' := by simpa [after] using closing
      simp [isWordByte]
  obtain ⟨body, split⟩ : ∃ body, t.drop (t.takeWhile isTagCont).length = '$' :: body := by
    cases after : t.drop (t.takeWhile isTagCont).length with
    | nil => simp [after] at closing
    | cons d u => exact ⟨u, by simpa [after] using closing⟩
  have bodyDrop : ('$' :: t).drop tag.length = body := by
    have tail := congrArg List.tail split
    rw [← shape]
    simpa using tail
  refine ⟨rfl, ?_⟩
  cases found : findText tag body with
  | none =>
    have whole : dollarLength tag ('$' :: t) = ('$' :: t).length := by simp [dollarLength, bodyDrop, found]
    rw [whole, List.drop_length] at more
    exact absurd rfl more
  | some offset =>
    have positive : 0 < tag.length := by simp [← shape]
    simp only [dollarLength, bodyDrop, found] at size
    simp only [scanDollarQuoted, name, split, shape, found, Option.map_some, Option.some.injEq]
    omega

/-! ### The guard follows the lexer -/

theorem masked_of_alike {s : State} {t : Text} (nonempty : t ≠ []) (alike : ReadsAlike (lexemeAt next s t))
    (more : (lexemeAt next s t).rest ≠ []) : Masked (lexemeAt next s t) := by
  obtain ⟨c, u, kind, n, rfl, same, reads⟩ := lexeme_reads s nonempty
  rw [same] at alike more ⊢
  have fits : n + 1 < (c :: u).length := by
    rw [Lexeme.rest, Ne, List.drop_eq_nil_iff] at more
    simpa using more
  cases reads with
  | space space => exact spaceRun_masked u space
  | lineComment dash second =>
    subst dash
    have skip : lineSkip ('-' :: u) = commentSkip u + 1 := by
      rw [← lineSkip_eq_commentSkip u alike]
      simp [lineSkip]
    simp [Masked, blanked, maskJump, isQuote, second, skip]
  | blockComment slash second =>
    subst slash
    obtain ⟨u, rfl⟩ := List.head?_eq_some_iff.mp second
    obtain ⟨closed, noBang⟩ := alike
    have skip : blockSkip u = nestedSkip 0 u := by rw [blockSkip_eq_flatSkip, flatSkip_eq_nestedSkip u closed]
    simp only [List.drop_succ_cons, List.drop_zero] at noBang
    simp [Masked, blanked, maskJump, isQuote, noBang, skip]
    omega
  | escapeLiteral quote =>
    subst quote
    simp [Masked, blanked, maskJump, isQuote, maskedSkip_eq_escapedSkip, Nat.add_comm]
  | literal quote | quotedIdentifier quote =>
    subst quote
    simp [Masked, blanked, maskJump, isQuote, maskedSkip_eq_escapedSkip, Nat.add_comm,
      escapedSkip_eq_doubledSkip (by decide) u alike]
  | word start => exact identRun_masked u (by simp [isIdentCont, isTagCont, start]) alike
  | number digit =>
    have inside := mem_run (p := isTagCont) (c := c) (by simp [isTagCont, digit]) (t := u)
    refine run_masked rfl ?_ fits.le (noDollarQuote_of_not_mem ?_) <;> simp only [Lexeme.raw, take_run]
    · exact fun d mem => .inl (plain_jump (tagCont_range (inside d mem)))
    · exact fun dollar => absurd (inside _ dollar) (by decide)
  | dollarLiteral tag opened =>
    have positive : dollarLength tag (c :: u) - 1 + 1 = dollarLength tag (c :: u) := by
      have := dollarLength_pos opened
      omega
    obtain ⟨dollar, closed⟩ := scanDollarQuoted_eq opened (by simpa [ReadsAlike, opened] using alike) (by rwa [← positive]) rfl
    subst dollar
    simp [Masked, blanked, maskJump, isQuote, closed]
  | symbol ordinary single double noLine noBlock =>
    obtain ⟨noDollar, noBack⟩ := alike
    have back : c ≠ '`' := by simpa using noBack
    intro i small
    obtain rfl : i = 0 := by simpa using small
    by_cases dollar : c = '$'
    · exact maskJump_dollar (by simp [dollar]) (noDollar 0 (by simp) (by simp [dollar]))
    · have line : (decide (c = '-') && decide (u.head? = some '-')) = false := by simpa using noLine
      have block : (decide (c = '/') && decide (u.head? = some '*')) = false := by simpa using noBlock
      simp [maskJump, isQuote, single, double, back, dollar, line, block]

theorem followed : Followed next ReadsAlike where
  masked := masked_of_alike
  apart := by
    intro s t c nonempty _ visible head inside
    obtain ⟨d, u, kind, n, rfl, same, reads⟩ := lexeme_reads s nonempty
    rw [same] at visible head ⊢
    have tag := tagCont_of_wordByte inside
    cases reads with
    | space space => exact spaceRun_edge u space
    | word start =>
      have stop := run_stops (p := isIdentCont) (t := u) (by simpa [Lexeme.rest] using head)
      simp [isIdentCont, tag] at stop
    | number digit =>
      have stop := run_stops (p := isTagCont) (t := u) (by simpa [Lexeme.rest] using head)
      simp [tag] at stop
    | symbol ordinary => simp [Lexeme.raw, wordEdge, wordByte_false ordinary]
    | _ => cases visible
  word := by
    intro s t nonempty word
    obtain ⟨d, u, kind, n, rfl, same, reads⟩ := lexeme_reads s nonempty
    rw [same] at word ⊢
    cases reads with
    | word start => exact identRun_word u (by simp [isIdentCont, isTagCont, start])
    | _ => cases word
  space := by
    intro s t nonempty space
    obtain ⟨d, u, kind, n, rfl, same, reads⟩ := lexeme_reads s nonempty
    rw [same] at space ⊢
    cases reads with
    | space first => exact fun e mem => space_range (spaceRun_spaces u first e mem)
    | _ => cases space
  opensSpace := by
    intro s c t white
    simp [lexemeAt, next, isSpace_of_white white]
  opensWord := by
    intro s c t letter
    have dash : c ≠ '-' := ne_of_alpha letter (by decide)
    have slash : c ≠ '/' := ne_of_alpha letter (by decide)
    have single : c ≠ '\'' := ne_of_alpha letter (by decide)
    have double : c ≠ '"' := ne_of_alpha letter (by decide)
    simp [lexemeAt, next, alpha_not_space letter, dash, slash, single, double, isIdentStart, letter]

/-- The guard under PostgreSQL's rules: a statement of a query is stopped when,
    after lexemes that are read alike, it begins with a keyword that is not
    known to be safe or has a write keyword. -/
theorem postgres_guard (query : Query) (stmt : Text) (mem : stmt ∈ splitStatements query.sql .postgres)
    (pre post : List Lexeme) (x : Lexeme) (lexed : lexemes stmt = pre ++ x :: post) (alike : ∀ y ∈ pre, ReadsAlike y)
    (danger : BeginsUnsafe pre x ∨ Writes (lexemes stmt) x) :
    isWriteStatement stmt = true ∧ ∃ error, executeImpl true .postgres query = .error error := by
  have write := guard_sound followed lexed alike (lexed ▸ danger)
  exact ⟨write, executeImpl_rejects mem write⟩

private def dropText : Text := "/* x */ DROP TABLE t"

theorem postgres_guard_drop : isWriteStatement dropText = true ∧ ∃ error, executeImpl true .postgres { sql := dropText } = .error error :=
  postgres_guard { sql := dropText } dropText (by decide) ((lexemes dropText).take 2) ((lexemes dropText).drop 3)
    ⟨.word, dropText.drop 8, 4⟩ (by decide) (by decide)
    (.inl ⟨by decide, by decide, by decide, by decide⟩)

/-- `SHOW CREATE` is let through by design. -/
theorem postgres_show_create_not_write : ¬ ∀ stmt ∈ splitStatements "SHOW CREATE TABLE t" .postgres, ∀ x ∈ lexemes stmt,
      x.kind = .word → toAsciiUppercase x.raw ∈ WRITE_INNER → isWriteStatement stmt = true := by
  decide

/-- A backslash in front of the closing quote is an escape for the guard. -/
example : isWriteStatement "SELECT '\\' INTO t --'" = false := by decide

end Ramag.PostgresGuard
