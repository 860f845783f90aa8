import Ramag.MysqlLexer
import Ramag.ReadOnlyGuard

/-!
The read-only guard under MySQL's lexical rules: which lexemes the
dialect-neutral scanners read as the server does, and what the guard then
stops.
-/
namespace Ramag.MysqlGuard
open Strings Domain Sql Lexing MysqlLexer ReadOnlyGuard

/-- The shapes on which the dialect-neutral scanners and MySQL agree: no dollar
    quote, no `--` that subtracts, no number with a word run into it, nothing
    in a `#` comment that opens a literal or a comment, no backslash that
    decides about a back quote. -/
def ReadsAlike (x : Lexeme) : Prop :=
  match x.kind with
  | .word => NoDollarQuote x
  | .number | .versionNumber => wordEdge x.rest.head? = true
  | .symbol => x.here.take 2 ≠ ['-', '-']
  | .hashComment => NoDollarQuote x ∧ x.raw.all (fun c => !isQuote c) = true ∧ findText ['-', '-'] x.raw = none ∧
      findText ['/', '*'] x.raw = none
  | .quotedIdentifier => quoteSafe '`' x.here.tail = true
  | .versionClose => x.rest.head? ≠ some '*'
  | _ => True

instance : DecidablePred ReadsAlike
  | ⟨.word, _, _⟩ => inferInstanceAs (Decidable (NoDollarQuote _))
  | ⟨.hashComment, _, _⟩ => inferInstanceAs (Decidable (_ ∧ _))
  | ⟨.symbol, _, _⟩ | ⟨.versionClose, _, _⟩ => inferInstanceAs (Decidable (_ ≠ _))
  | ⟨.number, _, _⟩ | ⟨.versionNumber, _, _⟩ | ⟨.quotedIdentifier, _, _⟩ => inferInstanceAs (Decidable (_ = true))
  | ⟨.space, _, _⟩ | ⟨.lineComment, _, _⟩ | ⟨.blockComment, _, _⟩ | ⟨.literal, _, _⟩ | ⟨.escapeLiteral, _, _⟩
  | ⟨.dollarLiteral, _, _⟩ | ⟨.versionOpen, _, _⟩ => isTrue trivial

/-- The lexeme in front of `c :: t`, by the character that opens it. -/
inductive Reads (c : Char) (t : Text) : Kind → Nat → Prop
  | space : isSpace c = true → Reads c t .space (t.takeWhile isSpace).length
  | hashComment : c = '#' → Reads c t .hashComment (t.takeWhile (· ≠ '\n')).length
  | lineComment : opensLine (c :: t) = true → Reads c t .lineComment (t.takeWhile (· ≠ '\n')).length
  | versionOpen : c = '/' → t.head? = some '*' → t.tail.head? = some '!' → Reads c t .versionOpen 2
  | blockComment : c = '/' → t.head? = some '*' → t.tail.head? ≠ some '!' → Reads c t .blockComment (1 + flatSkip t.tail)
  | versionClose : c = '*' → t.head? = some '/' → Reads c t .versionClose 1
  | literal : c = '\'' ∨ c = '"' → Reads c t .literal (escapedSkip c t)
  | quotedIdentifier : c = '`' → Reads c t .quotedIdentifier (doubledSkip c t)
  | word : isIdentCont c = true → Reads c t .word (t.takeWhile isIdentCont).length
  | versionNumber : 0 < versionLength (c :: t) → Reads c t .versionNumber (versionLength (c :: t) - 1)
  | number : numberLength (c :: t) ≠ 0 → Reads c t .number (numberLength (c :: t) - 1)
  | fraction : c = '.' → Reads c t .number (fractionLength t)
  | null : c = '\\' → t.head? = some 'N' → Reads c t .number 1
  | symbol : isIdentCont c = false → c ≠ '\'' → c ≠ '"' → c ≠ '`' → ¬ (c = '/' ∧ t.head? = some '*') → Reads c t .symbol 0

private theorem ident_of_digit {c : Char} (digit : c.isDigit = true) : isIdentCont c = true := by simp [isIdentCont, isTagCont, digit]

private def ReadAs (c : Char) (t : Text) (found : Kind × Nat × State) : Prop := Reads c t found.1 found.2.1

private theorem readAs_ite {p : Prop} [Decidable p] {c : Char} {t : Text} {a b : Kind × Nat × State} (yes : p → ReadAs c t a)
    (no : ¬ p → ReadAs c t b) : ReadAs c t (if p then a else b) := iteInduction (motive := ReadAs c t) yes no

theorem next_reads (s : State) (c : Char) (t : Text) : Reads c t (next s (c :: t)).1 (next s (c :: t)).2.1 := by
  refine readAs_ite (fun space => .space space) fun _ => ?_
  refine readAs_ite (fun hash => .hashComment hash) fun _ => ?_
  refine readAs_ite (fun line => .lineComment line) fun _ => ?_
  refine readAs_ite (fun block => ?_) fun block => ?_
  · simp only [Bool.and_eq_true, decide_eq_true_eq] at block
    exact readAs_ite (fun bang => .versionOpen block.1 block.2 bang) fun bang => .blockComment block.1 block.2 bang
  refine readAs_ite (fun close => ?_) fun _ => ?_
  · simp only [Bool.and_eq_true, decide_eq_true_eq] at close
    exact .versionClose close.1.2 close.2
  refine readAs_ite (fun quote => .literal (by simpa using quote)) fun quote => ?_
  refine readAs_ite (fun back => .quotedIdentifier back) fun back => ?_
  refine readAs_ite (fun digit => ?_) fun _ => ?_
  · have word : ReadAs c t (Kind.word, (t.takeWhile isIdentCont).length, s.turn .ident) := .word (ident_of_digit digit)
    refine readAs_ite (fun _ => word) fun _ => ?_
    refine readAs_ite (fun version => ?_) fun _ => ?_
    · simp only [Bool.and_eq_true, decide_eq_true_eq] at version
      exact .versionNumber version.2
    · exact readAs_ite (fun _ => word) fun length => .number length
  refine readAs_ite (fun ident => .word ident) fun ident => ?_
  have symbol (mode : Mode) : ReadAs c t (Kind.symbol, 0, s.turn mode) := by
    simp only [Bool.or_eq_true, decide_eq_true_eq, not_or] at quote
    exact .symbol (by simpa using ident) quote.1 quote.2 back (by simpa using block)
  refine readAs_ite (fun _ => symbol .dot) fun _ => ?_
  refine readAs_ite (fun fraction => ?_) fun _ => ?_
  · simp only [Bool.and_eq_true, decide_eq_true_eq] at fraction
    exact .fraction fraction.1
  refine readAs_ite (fun null => ?_) fun _ => symbol .plain
  simp only [Bool.and_eq_true, decide_eq_true_eq] at null
  exact .null null.1 null.2

theorem lexeme_reads (s : State) {t : Text} (nonempty : t ≠ []) :
    ∃ c u kind n, t = c :: u ∧ lexemeAt next s t = ⟨kind, c :: u, n + 1⟩ ∧ Reads c u kind n := by
  obtain ⟨c, u, rfl⟩ := List.exists_cons_of_ne_nil nonempty
  exact ⟨c, u, _, _, rfl, rfl, next_reads s c u⟩

private theorem digit_jump {c : Char} (digit : c.isDigit = true) (t : Text) : maskJump (c :: t) = (1, false) := by
  have range := digit_range digit
  exact plain_jump (by omega) t

variable (t : Text)

private theorem digits_calm : Calm t (digitsLength t) := calm_run (fun _ => digit_jump) t

private theorem sign_calm {t : Text} (sign : t.head?.any isSign = true) (digits : digitsLength (t.drop 1) ≠ 0) : Calm t 1 := by
  cases t with
  | nil => simp at sign
  | cons d t =>
    refine calm_one ?_
    have shape : d = '+' ∨ d = '-' := by simpa [isSign] using sign
    rcases shape with rfl | rfl
    · rfl
    have other : t.head? ≠ some '-' := by
      intro dash
      cases t with
      | nil => simp at dash
      | cons e t =>
        obtain rfl : e = '-' := by simpa using dash
        simp [digitsLength, Char.isDigit] at digits
    simp [maskJump, isQuote, other]

private theorem exponent_calm : Calm t (exponentLength t) := by
  cases t with
  | nil => exact calm_zero []
  | cons c t =>
    by_cases letter : (c == 'e' || c == 'E') = true
    · have first : Calm (c :: t) 1 := by
        simp only [Bool.or_eq_true, beq_iff_eq] at letter
        rcases letter with rfl | rfl <;> exact calm_one (plain_jump (by decide) t)
      simp only [exponentLength, letter, if_true]
      by_cases sign : t.head?.any isSign = true
      · by_cases none : digitsLength (t.drop 1) = 0
        · simp only [sign, none, if_true]
          exact calm_zero _
        · simp only [sign, none, if_true, if_false]
          rw [Nat.add_assoc]
          exact first.append ((sign_calm sign none).append (digits_calm (t.drop 1)))
      · by_cases none : digitsLength t = 0
        · simpa [sign, none] using calm_zero _
        · simpa [sign, none] using first.append (digits_calm t)
    · simpa [exponentLength, letter] using calm_zero _

private theorem radixed_calm {p : Char → Bool} {c : Char} (digits : ∀ d, p d = true → ∀ u, maskJump (d :: u) = (1, false))
    (letter : ∀ u, maskJump (c :: u) = (1, false)) (u : Text) : Calm ('0' :: c :: u) (radixLength.radix p u) := by
  have first : Calm ('0' :: c :: u) 2 := (calm_one rfl).append (m := 1) (calm_one (letter u))
  rw [radixLength.radix]
  split_ifs with ends
  · exact first.append (calm_run digits u)
  · exact calm_zero _

private theorem radix_calm : Calm t (radixLength t) := by
  unfold radixLength
  split
  · refine radixed_calm (fun d hex => plain_jump ?_) (plain_jump (by decide)) _
    simp only [isHexDigit, Bool.or_eq_true, Bool.and_eq_true, decide_eq_true_eq] at hex
    rcases hex with (digit | upper) | lower
    · have := digit_range digit
      omega
    · omega
    · omega
  · refine radixed_calm (fun d bit => ?_) (plain_jump (by decide)) _
    simp only [Bool.or_eq_true, beq_iff_eq] at bit
    rcases bit with rfl | rfl <;> exact plain_jump (by decide)
  · exact calm_zero _

private theorem fraction_calm : Calm t (fractionLength t) :=
  (digits_calm t).append (exponent_calm _)

private theorem number_calm : Calm t (numberLength t) := by
  simp only [numberLength]
  split_ifs with radix dot ident none
  · exact radix_calm t
  · obtain ⟨u, rest⟩ : ∃ u, t.drop (digitsLength t) = '.' :: u := by
      cases rest : t.drop (digitsLength t) with
      | nil => simp [rest] at dot
      | cons d u => exact ⟨u, by simpa [rest] using dot⟩
    have point : Calm (t.drop (digitsLength t)) (1 + fractionLength u) := by
      rw [rest]
      exact (calm_one rfl).append (fraction_calm u)
    rw [rest, List.tail_cons, Nat.add_assoc]
    exact (digits_calm t).append point
  · exact digits_calm t
  · exact calm_zero t
  · exact (digits_calm t).append (exponent_calm _)

private theorem version_calm : Calm t (versionLength t) := by
  have fewer : ((t.take 6).takeWhile Char.isDigit).length ≤ digitsLength t := by
    rw [← List.take_takeWhile, List.length_take]
    exact Nat.min_le_right 6 _
  simp only [versionLength]
  split_ifs
  · exact (digits_calm t).mono fewer
  · exact calm_zero t

private theorem findText_none {needle t : Text} (none : findText needle t = none) (i : Nat) (inside : i < t.length) :
    needle.isPrefixOf (t.drop i) = false := by
  induction t generalizing i with
  | nil => simp at inside
  | cons c t ih =>
    by_cases here : needle.isPrefixOf (c :: t) = true
    · simp [findText, here] at none
    simp only [findText, here, Bool.false_eq_true, if_false, Option.map_eq_none_iff] at none
    cases i with
    | zero => exact Bool.eq_false_iff.mpr here
    | succ i => exact ih none i (by simpa using inside)

private theorem no_pair {c a b : Char} {u : Text} (feed : b ≠ '\n')
    (none : findText [a, b] (c :: u.takeWhile (· ≠ '\n')) = none) {i : Nat} (small : i ≤ (u.takeWhile (· ≠ '\n')).length)
    (first : (c :: u)[i]? = some a) : (u.drop i).head? ≠ some b := by
  intro second
  have whole : c :: u = (c :: u.takeWhile (· ≠ '\n')) ++ u.dropWhile (· ≠ '\n') := by simp
  rcases Nat.lt_or_eq_of_le small with inner | last
  · have absent := findText_none none i (by rw [List.length_cons]; omega)
    have at_first : (c :: u.takeWhile (· ≠ '\n'))[i]? = some a := by
      rwa [whole, List.getElem?_append_left (by rw [List.length_cons]; omega)] at first
    have at_second : (c :: u.takeWhile (· ≠ '\n'))[i + 1]? = some b := by
      have moved : (c :: u)[i + 1]? = some b := by simpa using second
      rwa [whole, List.getElem?_append_left (by rw [List.length_cons]; omega)] at moved
    obtain ⟨_, get_first⟩ := List.getElem?_eq_some_iff.mp at_first
    obtain ⟨bound, get_second⟩ := List.getElem?_eq_some_iff.mp at_second
    rw [List.drop_eq_getElem_cons (by omega), List.drop_eq_getElem_cons bound, get_first, get_second] at absent
    simp at absent
  · have stop := run_stops (last ▸ second)
    simp [feed] at stop

private theorem hash_masked {u : Text} (alike : ReadsAlike ⟨.hashComment, '#' :: u, (u.takeWhile (· ≠ '\n')).length + 1⟩)
    (fits : (u.takeWhile (· ≠ '\n')).length + 1 ≤ ('#' :: u).length) :
    Masked ⟨.hashComment, '#' :: u, (u.takeWhile (· ≠ '\n')).length + 1⟩ := by
  obtain ⟨noDollar, noQuote, noLine, noBlock⟩ := alike
  simp only [Lexeme.raw, take_run] at noQuote noLine noBlock
  intro i small
  replace small : i < (u.takeWhile (· ≠ '\n')).length + 1 := small
  have step : ('#' :: u).drop i = ('#' :: u)[i] :: u.drop i := by
    rw [List.drop_eq_getElem_cons (by omega)]
    rfl
  have quote : isQuote ('#' :: u)[i] = false := by
    have mem : ('#' :: u)[i] ∈ '#' :: u.takeWhile (· ≠ '\n') := by
      rw [← take_run, List.mem_take_iff_getElem]
      exact ⟨i, by omega, rfl⟩
    simpa using List.all_eq_true.mp noQuote _ mem
  have get {d : Char} (same : ('#' :: u)[i] = d) : ('#' :: u)[i]? = some d := by rw [← same, List.getElem?_eq_getElem]
  have inner : i ≤ (u.takeWhile (· ≠ '\n')).length := Nat.le_of_lt_succ small
  by_cases dollar : ('#' :: u)[i] = '$'
  · have head : (('#' :: u).drop i).head? = some '$' := by rw [step, dollar]; rfl
    exact maskJump_dollar head (noDollar i small head)
  have line : (('#' :: u)[i] = '-' && (u.drop i).head? = some '-') = false := by
    by_cases dash : ('#' :: u)[i] = '-'
    · simpa [dash] using no_pair (by decide) noLine inner (get dash)
    · simp [dash]
  have block : (('#' :: u)[i] = '/' && (u.drop i).head? = some '*') = false := by
    by_cases slash : ('#' :: u)[i] = '/'
    · simpa [slash] using no_pair (by decide) noBlock inner (get slash)
    · simp [slash]
  simp only [step]
  rw [maskJump, quote, line, block]
  simp [dollar]

/-! ### The guard follows the lexer -/

theorem opensLine_cons {c : Char} {u : Text} (opened : opensLine (c :: u) = true) : c = '-' ∧ u.head? = some '-' := by
  unfold opensLine at opened
  split at opened
  · rename_i same
    obtain ⟨rfl, rfl⟩ := List.cons.inj same
    simp
  · cases opened

theorem masked_of_alike {s : State} {t : Text} (nonempty : t ≠ []) (alike : ReadsAlike (lexemeAt next s t))
    (more : (lexemeAt next s t).rest ≠ []) : Masked (lexemeAt next s t) := by
  obtain ⟨c, u, kind, n, rfl, same, reads⟩ := lexeme_reads s nonempty
  rw [same] at alike more ⊢
  have fits : n + 1 < (c :: u).length := by
    rw [Lexeme.rest, Ne, List.drop_eq_nil_iff] at more
    simpa using more
  have visible {m : Nat} (calm : Calm (c :: u) (m + 1)) (shown : blanked kind = false) :
      Masked ⟨kind, c :: u, m + 1⟩ := by
    rw [Masked, if_neg (by simp [shown])]
    exact calm
  cases reads with
  | space space => exact spaceRun_masked u space
  | hashComment hash =>
    subst hash
    exact hash_masked alike fits.le
  | lineComment opened =>
    obtain ⟨rfl, second⟩ := opensLine_cons opened
    simp [Masked, blanked, maskJump, isQuote, second, lineSkip]
  | versionOpen slash second third =>
    subst slash
    simp [Masked, blanked, maskJump, isQuote, second, third]
  | blockComment slash second third =>
    subst slash
    obtain ⟨u, rfl⟩ := List.head?_eq_some_iff.mp second
    rw [List.tail_cons] at third
    simp [Masked, blanked, maskJump, isQuote, third, blockSkip_eq_flatSkip]
    omega
  | versionClose star second =>
    subst star
    obtain ⟨u, rfl⟩ := List.head?_eq_some_iff.mp second
    have other : u.head? ≠ some '*' := by simpa [ReadsAlike, Lexeme.rest] using alike
    have slash : maskJump ('/' :: u) = (1, false) := by simp [maskJump, isQuote, other]
    exact visible ((calm_one rfl).append (m := 1) (calm_one slash)) rfl
  | literal quote =>
    rcases quote with rfl | rfl <;>
      simp [Masked, blanked, maskJump, isQuote, maskedSkip_eq_escapedSkip, Nat.add_comm]
  | quotedIdentifier quote =>
    subst quote
    simp [Masked, blanked, maskJump, isQuote, maskedSkip_eq_escapedSkip, Nat.add_comm,
      escapedSkip_eq_doubledSkip (by decide) u alike]
  | word start => exact identRun_masked u start alike
  | versionNumber positive =>
    have size : versionLength (c :: u) - 1 + 1 = versionLength (c :: u) := by omega
    exact visible (size.symm ▸ version_calm (c :: u)) rfl
  | number positive =>
    have size : numberLength (c :: u) - 1 + 1 = numberLength (c :: u) := by omega
    exact visible (size.symm ▸ number_calm (c :: u)) rfl
  | fraction dot =>
    subst dot
    have calm : Calm ('.' :: u) (1 + fractionLength u) := (calm_one rfl).append (fraction_calm u)
    rw [Nat.add_comm] at calm
    exact visible calm rfl
  | null back second =>
    subst back
    obtain ⟨u, rfl⟩ := List.head?_eq_some_iff.mp second
    exact visible ((calm_one rfl).append (m := 1) (calm_one (plain_jump (by decide) u))) rfl
  | symbol ordinary single double back noBlock =>
    have dollar : c ≠ '$' := by
      rintro rfl
      simp [isIdentCont] at ordinary
    have line : (c = '-' && u.head? = some '-') = false := by
      cases u with
      | nil => simp
      | cons d u => simpa [ReadsAlike] using alike
    have block : (c = '/' && u.head? = some '*') = false := by simpa using noBlock
    refine visible (calm_one ?_) rfl
    rw [maskJump, line, block]
    simp [isQuote, single, double, back, dollar]

theorem followed : Followed next ReadsAlike where
  masked := masked_of_alike
  apart := by
    intro s t c nonempty alike visible head inside
    obtain ⟨d, u, kind, n, rfl, same, reads⟩ := lexeme_reads s nonempty
    rw [same] at alike visible head ⊢
    have number_ends (alike : wordEdge (Lexeme.mk kind (d :: u) (n + 1)).rest.head? = true) : False := by
      rw [head] at alike
      simp [wordEdge, inside] at alike
    cases reads with
    | space space => exact spaceRun_edge u space
    | hashComment hash =>
      have stop := run_stops (p := (· ≠ '\n')) (t := u) (by simpa [Lexeme.rest] using head)
      obtain rfl : c = '\n' := by simpa using stop
      cases inside
    | versionClose star second =>
      obtain ⟨u, rfl⟩ := List.head?_eq_some_iff.mp second
      simp [star, Lexeme.raw, wordEdge, isWordByte]
    | word start =>
      have stop := run_stops (p := isIdentCont) (t := u) (by simpa [Lexeme.rest] using head)
      simp [isIdentCont, tagCont_of_wordByte inside] at stop
    | versionNumber | number | fraction | null => exact (number_ends alike).elim

    | symbol ordinary =>
      simp only [isIdentCont, Bool.or_eq_false_iff] at ordinary
      simp [Lexeme.raw, wordEdge, wordByte_false ordinary.1]
    | _ => cases visible
  word := by
    intro s t nonempty word
    obtain ⟨d, u, kind, n, rfl, same, reads⟩ := lexeme_reads s nonempty
    rw [same] at word ⊢
    cases reads with
    | word start => exact identRun_word u start
    | _ => cases word
  space := by
    intro s t nonempty space
    obtain ⟨d, u, kind, n, rfl, same, reads⟩ := lexeme_reads s nonempty
    rw [same] at space ⊢
    cases reads with
    | space first => exact fun e mem => space_range (spaceRun_spaces u first e mem)
    | _ => cases space
  opensSpace := by
    intro s c t white
    simp [lexemeAt, next, isSpace_of_white white]
  opensWord := by
    intro s c t letter
    have range := alpha_range letter
    have ne {d : Char} (other : d.isAlpha = false) : c ≠ d := ne_of_alpha letter other
    have line : opensLine (c :: t) = false := by
      by_contra opened
      exact ne (by decide) (opensLine_cons (by simpa using opened)).1
    have digit : c.isDigit = false := by
      by_contra digit
      have := digit_range (by simpa using digit)
      omega
    simp (disch := decide) [lexemeAt, next, alpha_not_space letter, line, digit, ne,
      isIdentCont, isTagCont, isIdentStart, letter]

/-- The guard under MySQL's rules: a statement of a query is stopped when, after
    lexemes that are read alike, it begins with a keyword that is not known to
    be safe or has a write keyword. -/
theorem mysql_guard (query : Query) (stmt : Text) (mem : stmt ∈ splitStatements query.sql .mysql)
    (pre post : List Lexeme) (x : Lexeme) (lexed : lexemes stmt = pre ++ x :: post) (alike : ∀ y ∈ pre, ReadsAlike y)
    (danger : BeginsUnsafe pre x ∨ Writes (lexemes stmt) x) :
    isWriteStatement stmt = true ∧ ∃ error, executeImpl true .mysql query = .error error := by
  have write := guard_sound followed lexed alike (lexed ▸ danger)
  exact ⟨write, executeImpl_rejects mem write⟩

private def bodyText : Text := "SELECT 1 /*!50001 -- x\n DROP */"

theorem mysql_guard_body : isWriteStatement bodyText = true ∧ ∃ error, executeImpl true .mysql { sql := bodyText } = .error error :=
  mysql_guard { sql := bodyText } bodyText (by decide) ((lexemes bodyText).take 9) ((lexemes bodyText).drop 10)
    ⟨.word, bodyText.drop 24, 4⟩ (by decide) (by decide)
    (.inr ⟨by decide, by decide, fun create => absurd create.1 (by decide)⟩)

/-- `SHOW CREATE` is let through by design. -/
theorem mysql_show_create_not_write : ¬ ∀ stmt ∈ splitStatements "SHOW CREATE TABLE t" .mysql, ∀ x ∈ lexemes stmt,
      x.kind = .word → toAsciiUppercase x.raw ∈ WRITE_INNER → isWriteStatement stmt = true := by
  decide

/-- A quote in a `#` comment is a literal for the guard. -/
example : isWriteStatement "SELECT 1 # it's\n INTO OUTFILE 'x'" = false := by decide

end Ramag.MysqlGuard
