import Ramag.StatementCuts

/-!
The detection of dangerous statements under the servers' lexical rules. A
statement is `Dangerous` by the server's own reading; `Clear` says on which texts
the splitter and the tokenizer read as the server does, and there every
dangerous statement is reported.
-/
namespace Ramag.DangerousStatements
open Strings Domain Sql Lexing SqlUtils SqlServers KeywordDepths List
open StatementCuts

def serverEvents (isName : Lexeme → Bool) (x : Lexeme) : List Event :=
  match x.kind with
  | .word => if isName x then [] else [.word (toAsciiUppercase x.raw)]
  | .symbol => paren x.here.head?
  | _ => []

def events (isName : Lexeme → Bool) (xs : List Lexeme) : List Event := xs.flatMap (serverEvents isName)

def WHERE : Text := "WHERE"

/-- A `WHERE` follows at the own depth before its level is closed. -/
def ownWhere (own : Nat) : Nat → List Event → Bool
  | _, [] => false
  | depth, .word keyword :: es => (depth = own && keyword = WHERE) || ownWhere own depth es
  | depth, .opens :: es => ownWhere own (depth + 1) es
  | depth, .closes :: es => if depth = own && 0 < own then false else ownWhere own (depth - 1) es

def CHANGING : List Text := ["DELETE", "UPDATE"]

/-- There is a `DELETE` or an `UPDATE` without a `WHERE` of its own. -/
def unguarded : Nat → List Event → Bool
  | _, [] => false
  | depth, .word keyword :: es => (keyword ∈ CHANGING && !ownWhere depth depth es) || unguarded depth es
  | depth, .opens :: es => unguarded (depth + 1) es
  | depth, .closes :: es => unguarded (depth - 1) es

def isBlank (x : Lexeme) : Bool :=
  match x.kind with
  | .space | .lineComment | .hashComment | .blockComment | .versionOpen | .versionNumber | .versionClose => true
  | _ => false

def isOpening (x : Lexeme) : Bool := x.kind = .symbol && x.here.head? = some '('

/-- The keyword behind the lexemes that are passed over, and what follows it. -/
def leading (passed : Lexeme → Bool) (xs : List Lexeme) : Option (Text × List Lexeme) :=
  match xs.dropWhile passed with
  | [] => none
  | x :: rest => if x.kind = .word then some (toAsciiUppercase x.raw, rest) else none

/-- The keywords with which an explained statement begins. -/
def STATEMENTS : List Text :=
  EXPLAINED ++ ["REPLACE".toList, "CREATE".toList, "DECLARE".toList, "EXECUTE".toList, "REFRESH".toList]

def ANALYZE : Text := "ANALYZE"
def ANALYSE : Text := "ANALYSE"

/-- One of the options in front of the explained statement is spelled so. -/
def hasOption (spelling : List Text) (es : List Event) : Bool :=
  ((depths 0 es).takeWhile fun token => !(token.2 = 0 && token.1 ∈ STATEMENTS)).any fun token => token.1 ∈ spelling

/-- PostgreSQL knows both spellings of the option. -/
def analysing : Server → List Text
  | .postgres => [ANALYZE, ANALYSE]
  | _ => [ANALYZE]

/-- By the server's reading the statement removes objects or all rows of a table. -/
inductive Dangerous (server : Server) (isName : Lexeme → Bool) (xs : List Lexeme) : Prop
  | removes {keyword : Text} {rest : List Lexeme} : leading isBlank xs = some (keyword, rest) →
      keyword ∈ ["DROP".toList, "TRUNCATE".toList] → Dangerous server isName xs
  | bare {keyword : Text} {rest : List Lexeme} : leading isBlank xs = some (keyword, rest) → keyword ∈ CHANGING →
      ownWhere 0 0 (events isName rest) = false → Dangerous server isName xs
  | common {rest : List Lexeme} : leading (fun x => isBlank x || isOpening x) xs = some ("WITH".toList, rest) →
      unguarded 0 (events isName xs) = true → Dangerous server isName xs
  | explained {rest : List Lexeme} : leading isBlank xs = some ("EXPLAIN".toList, rest) →
      hasOption (analysing server) (events isName rest) = true → unguarded 0 (events isName rest) = true →
      Dangerous server isName xs

/-- Behind the level of a statement, a `WHERE` stands at its depth before a word
    does outside of that level. -/
def strayWhere (own : Nat) : Nat → List Event → Bool
  | _, [] => false
  | depth, .word keyword :: es =>
    if depth < own && isPlain keyword then false else (depth = own && keyword = WHERE) || strayWhere own depth es
  | depth, .opens :: es => strayWhere own (depth + 1) es
  | depth, .closes :: es => strayWhere own (depth - 1) es

/-- As `strayWhere`, from inside the level. -/
def foreignWhere (own : Nat) : Nat → List Event → Bool
  | _, [] => false
  | depth, .word _ :: es => foreignWhere own depth es
  | depth, .opens :: es => foreignWhere own (depth + 1) es
  | depth, .closes :: es => if depth = own && 0 < own then strayWhere own (depth - 1) es else foreignWhere own (depth - 1) es

/-- No unguarded `DELETE` or `UPDATE` has such a `WHERE` behind it. -/
def apart : Nat → List Event → Bool
  | _, [] => true
  | depth, .word keyword :: es => (keyword ∉ CHANGING || ownWhere depth depth es || !foreignWhere depth depth es) && apart depth es
  | depth, .opens :: es => apart (depth + 1) es
  | depth, .closes :: es => apart (depth - 1) es

/-- The keywords that must not be read where there are none. -/
def NOTED : List Text := WHERE :: EXPLAINED

/-- An `EXPLAIN` is not made to analyse by the spelling `ANALYSE` alone. -/
def spelledOut (isName : Lexeme → Bool) (xs : List Lexeme) : Bool :=
  match leading isBlank xs with
  | none => true
  | some (keyword, rest) => keyword ≠ "EXPLAIN" || !hasOption [ANALYSE] (events isName rest) || hasOption [ANALYZE] (events isName rest)

/-- The text is cut into the server's statements, and their lexemes are read as
    the server reads them. -/
structure Clear (server : Server) (grammar : Grammar) (sql : Text) : Prop where
  cuts : CutsAlike (splitOptions server.driver) grammar 0 {} (server.lexemes sql)
  few : (statements server grammar sql).length ≤ MAX_SQL_STATEMENTS
  reads : ∀ s ∈ statements server grammar sql, ∀ x ∈ server.lexemes s, ReadsAlike server.driver (grammar.isName s) NOTED x
  parted : ∀ s ∈ statements server grammar sql, apart 0 (events (grammar.isName s) (server.lexemes s)) = true
  spelled : ∀ s ∈ statements server grammar sql, spelledOut (grammar.isName s) (server.lexemes s) = true

/-- The tokenizer's events are the server's, apart from words that are no noted
    keywords and names of other characters. -/
inductive Matches : List Event → List Event → Prop
  | nil : Matches [] []
  | same (e : Event) {es fs : List Event} : Matches es fs → Matches (e :: es) (e :: fs)
  | extra {keyword : Text} {es fs : List Event} : keyword ∉ NOTED → Matches es fs → Matches es (.word keyword :: fs)
  | lost {keyword : Text} {es fs : List Event} : isPlain keyword = false → Matches es fs → Matches (.word keyword :: es) fs

theorem Matches.append {es fs es' fs' : List Event} (first : Matches es fs) (second : Matches es' fs') :
    Matches (es ++ es') (fs ++ fs') := by
  induction first with
  | nil => exact second
  | same e _ ih => exact .same e ih
  | extra unnoted _ ih => exact .extra unnoted ih
  | lost other _ ih => exact .lost other ih

theorem Matches.refl : ∀ es, Matches es es
  | [] => .nil
  | e :: es => .same e (Matches.refl es)

theorem matches_extras {ws : List Text} (unnoted : ∀ w ∈ ws, toAsciiUppercase w ∉ NOTED) :
    Matches [] (ws.map fun word => .word (toAsciiUppercase word)) := by
  induction ws with
  | nil => exact .nil
  | cons w ws ih => exact .extra (unnoted w (by simp)) (ih fun v mem => unnoted v (by simp [mem]))

theorem words_plain {t : Text} (plain : isPlain t = true) : words t = [t] := by
  cases t with
  | nil => simp [isPlain] at plain
  | cons c t =>
    simp only [isPlain, head?_cons, Option.any_some, all_cons, Bool.and_eq_true, all_eq_true] at plain
    have whole : t.takeWhile isWordByte = t := takeWhile_eq_self_iff.mpr plain.2.2
    have behind (n : Nat) (u : Text) (far : u.length ≤ n) : wordsFrom isWordStart n u = [] := by
      induction u generalizing n with
      | nil => cases n <;> rfl
      | cons d u ih =>
        obtain ⟨m, rfl⟩ : ∃ m, n = m + 1 := ⟨n - 1, by simp at far; omega⟩
        exact ih m (by simpa using far)
    rw [words, wordsFrom, if_pos plain.1, whole, behind _ _ le_rfl]

@[simp] theorem isPlain_upper (t : Text) : isPlain (toAsciiUppercase t) = isPlain t := by
  have start (c : Char) : isWordStart c.toUpper = isWordStart c := by
    have underscore := ReadOnlyGuard.toUpper_eq_iff (c := c) (d := '_') (by decide)
    by_cases same : c = '_'
    · subst same
      decide
    · have other : (c.toUpper == '_') = false := beq_eq_false_iff_ne.mpr fun upper => same (underscore.mp upper)
      have self : (c == '_') = false := beq_eq_false_iff_ne.mpr same
      simp [isWordStart, self, other]
  simp [isPlain, toAsciiUppercase, Option.any_map, Function.comp_def, start]

section
variable {driver : DriverKind} {isName : Lexeme → Bool}

theorem matches_of_alike {x : Lexeme} (alike : ReadsAlike driver isName NOTED x) : Matches (serverEvents isName x) (emitted x) := by
  obtain ⟨kind, here, length⟩ := x
  cases kind with
  | word =>
    obtain ⟨_, words⟩ := alike
    by_cases plain : isPlain (Lexeme.raw ⟨.word, here, length⟩) = true
    · simp only [serverEvents, emitted, wordEvents, words_plain plain, map_cons, map_nil]
      split_ifs with name
      · refine .extra ?_ .nil
        have unnoted := words.resolve_left fun both => by simp [name] at both
        exact unnoted _ (by simp [words_plain plain])
      · exact .refl _
    · have unnoted := words.resolve_left fun both => plain both.1
      have extras := matches_extras unnoted
      simp only [serverEvents, emitted, wordEvents]
      split_ifs
      · exact extras
      · exact .lost (by simpa using plain) extras
  | number => exact matches_extras alike.2.2
  | quotedIdentifier =>
    simp only [ReadsAlike] at alike
    simp only [serverEvents, emitted]
    split_ifs at alike ⊢
    · exact matches_extras alike.2.2
    · exact .nil
  | symbol => exact .refl _
  | space | lineComment | hashComment | blockComment | literal | escapeLiteral | dollarLiteral | versionOpen
  | versionNumber | versionClose => exact .nil

theorem matches_lexemes {xs : List Lexeme} (alike : ∀ x ∈ xs, ReadsAlike driver isName NOTED x) :
    Matches (events isName xs) (xs.flatMap emitted) := by
  induction xs with
  | nil => exact .nil
  | cons x xs ih => exact (matches_of_alike (alike x (by simp))).append (ih fun y mem => alike y (by simp [mem]))

end

/-! ### The detection on the tokens -/

private theorem where_noted : WHERE ∈ NOTED := by simp [NOTED]

variable {keyword : Text}

variable {own depth : Nat}

private theorem following_cons {tokens : List Token} (other : keyword ≠ WHERE)
    (found : hasFollowingKeywordAtDepth own WHERE ((keyword, depth) :: tokens) = true) :
    own ≤ depth ∧ hasFollowingKeywordAtDepth own WHERE tokens = true := by
  rw [hasFollowingKeywordAtDepth] at found
  by_cases outside : depth < own
  · simp [outside] at found
  · simp only [outside, other, decide_false, Bool.and_false, Bool.false_eq_true, if_false] at found
    exact ⟨by omega, found⟩

variable {es fs : List Event}

private theorem stray_of_following (agree : Matches es fs)
    (found : hasFollowingKeywordAtDepth own WHERE (depths depth fs) = true) : strayWhere own depth es = true := by
  induction agree generalizing depth with
  | nil => simp [depths, hasFollowingKeywordAtDepth] at found
  | same e _ ih =>
    cases e with
    | opens | closes => exact ih found

    | word keyword =>
      by_cases clause : keyword = WHERE
      · subst clause
        rw [depths, hasFollowingKeywordAtDepth] at found
        by_cases outside : depth < own
        · simp [outside] at found
        by_cases here : depth = own
        · simp [strayWhere, here]
        · simp only [outside, here, decide_false, Bool.false_and, Bool.false_eq_true, if_false] at found
          simp [strayWhere, outside, ih found]
      · obtain ⟨inside, found⟩ := following_cons clause found
        simp [strayWhere, show ¬ depth < own by omega, ih found]
  | extra unnoted _ ih =>
    have other := ne_of_mem_of_not_mem where_noted unnoted
    exact ih (following_cons other.symm found).2
  | lost other _ ih => simp [strayWhere, other, ih found]

private theorem own_or_foreign (agree : Matches es fs) (inside : own ≤ depth)
    (found : hasFollowingKeywordAtDepth own WHERE (depths depth fs) = true) :
    ownWhere own depth es = true ∨ foreignWhere own depth es = true := by
  induction agree generalizing depth with
  | nil => simp [depths, hasFollowingKeywordAtDepth] at found
  | same e agree ih =>
    cases e with
    | opens => exact ih (by omega) found
    | closes =>
      by_cases ends : depth = own ∧ 0 < own
      · have last : (decide (depth = own) && decide (0 < own)) = true := by simp [ends]
        right
        rw [foreignWhere, if_pos last]
        exact stray_of_following agree found
      · have more : (decide (depth = own) && decide (0 < own)) = false := by simpa using ends
        rw [ownWhere, foreignWhere, if_neg (by simp [more]), if_neg (by simp [more])]
        exact ih (by omega) found
    | word keyword =>
      by_cases clause : keyword = WHERE
      · subst clause
        rw [depths, hasFollowingKeywordAtDepth, if_neg (by omega)] at found
        by_cases here : depth = own
        · exact .inl (by simp [ownWhere, here])
        · simp only [here, decide_false, Bool.false_and, Bool.false_eq_true, if_false] at found
          simpa [ownWhere, foreignWhere, here] using ih inside found
      · have more := ih inside (following_cons clause found).2
        simpa [ownWhere, foreignWhere, clause] using more
  | extra unnoted _ ih =>
    have other := ne_of_mem_of_not_mem where_noted unnoted
    exact ih inside (following_cons other.symm found).2
  | lost other _ ih =>
    rcases ih inside found with here | foreign
    · exact .inl (by simp [ownWhere, here])
    · exact .inr foreign

private theorem modifying_risk (modifies : keyword ∈ CHANGING) : (keywordRisk keyword false).isSome := by
  simp only [CHANGING, mem_cons, not_mem_nil, or_false] at modifies
  rcases modifies with rfl | rfl <;> decide

private theorem tokens_risk (agree : Matches es fs) (dangerous : unguarded depth es = true) (parted : apart depth es = true) :
    (detectDangerousTokens (depths depth fs)).isSome := by
  have later {keyword : Text} {tokens : List Token} (found : (detectDangerousTokens tokens).isSome) (depth : Nat) :
      (detectDangerousTokens ((keyword, depth) :: tokens)).isSome := by
    rw [detectDangerousTokens]
    split
    · rfl
    · exact found
  induction agree generalizing depth with
  | nil => simp [unguarded] at dangerous
  | @same e es fs agree ih =>
    cases e with
    | opens | closes => exact ih dangerous parted

    | word keyword =>
      rw [unguarded, Bool.or_eq_true] at dangerous
      rw [apart, Bool.and_eq_true] at parted
      rcases dangerous with here | behind
      · simp only [Bool.and_eq_true, decide_eq_true_eq, Bool.not_eq_true'] at here
        have foreign : foreignWhere depth depth es = false := by simpa [here.1, here.2] using parted.1
        have unfollowed : hasFollowingKeywordAtDepth depth "WHERE" (depths depth fs) = false := by
          by_contra found
          rcases own_or_foreign agree le_rfl ((Bool.not_eq_false _).mp found) with own | other
          · simp [here.2] at own
          · simp [foreign] at other
        rw [depths, detectDangerousTokens, unfollowed]
        obtain ⟨risk, found⟩ := Option.isSome_iff_exists.mp (modifying_risk here.1)
        rw [found]
        rfl
      · exact later (ih behind parted.2) depth
  | extra _ _ ih => exact later (ih dangerous parted) depth
  | lost other _ ih =>
    rw [apart, Bool.and_eq_true] at parted
    refine ih ?_ parted.2
    rw [unguarded, Bool.or_eq_true] at dangerous
    refine dangerous.resolve_left fun here => ?_
    simp only [CHANGING, Bool.and_eq_true, decide_eq_true_eq, mem_cons, not_mem_nil, or_false] at here
    rcases here.1 with rfl | rfl <;> exact absurd other (by decide)

private theorem own_of_top (agree : Matches es fs)
    (found : (depths depth fs).any (fun token => token.2 = 0 && token.1 = WHERE) = true) : ownWhere 0 depth es = true := by
  induction agree generalizing depth with
  | nil => simp [depths] at found
  | same e _ ih =>
    cases e with
    | opens => exact ih found
    | closes => simpa [ownWhere] using ih found
    | word keyword =>
      rw [depths, any_cons, Bool.or_eq_true] at found
      rw [ownWhere, Bool.or_eq_true]
      exact found.imp id ih
  | extra unnoted _ ih =>
    have other := ne_of_mem_of_not_mem where_noted unnoted
    rw [depths, any_cons, Bool.or_eq_true] at found
    exact ih (found.resolve_left (by simp [other.symm]))
  | lost _ _ ih => simp [ownWhere, ih found]

/-- The options among tokens, up to the keyword of a statement. -/
def optionIn (statements spelling : List Text) (tokens : List Token) : Bool :=
  (tokens.takeWhile fun token => !(token.2 = 0 && token.1 ∈ statements)).any fun token => token.1 ∈ spelling

private theorem optionIn_cons {statements spelling : List Text} {tokens : List Token} :
    optionIn statements spelling ((keyword, depth) :: tokens) = true ↔
      ¬ (depth = 0 ∧ keyword ∈ statements) ∧ (keyword ∈ spelling ∨ optionIn statements spelling tokens = true) := by
  by_cases ends : depth = 0 ∧ keyword ∈ statements
  · rw [optionIn, takeWhile_cons_of_neg (by simp [ends])]
    simp [ends]
  have goes : (!(decide (depth = 0) && decide (keyword ∈ statements))) = true := by
    by_cases zero : depth = 0
    · have other : keyword ∉ statements := fun mem => ends ⟨zero, mem⟩
      simp [other]
    · simp [zero]
  rw [optionIn, takeWhile_cons_of_pos (p := fun token : Token => !(token.2 = 0 && token.1 ∈ statements)) goes, any_cons, Bool.or_eq_true, decide_eq_true_eq]
  simp [ends, optionIn]

private theorem option_found (agree : Matches es fs) (option : optionIn STATEMENTS [ANALYZE] (depths depth es) = true) :
    optionIn EXPLAINED [ANALYZE] (depths depth fs) = true := by
  induction agree generalizing depth with
  | nil => exact option
  | same e _ ih =>
    cases e with
    | opens | closes => exact ih option

    | word keyword =>
      rw [depths, optionIn_cons] at option ⊢
      refine ⟨fun both => option.1 ⟨both.1, ?_⟩, option.2.imp id ih⟩
      simp only [STATEMENTS, mem_append]
      exact .inl both.2
  | extra unnoted _ ih =>
    rw [depths, optionIn_cons]
    refine ⟨fun both => unnoted ?_, .inr (ih option)⟩
    simp only [NOTED, mem_cons]
    exact .inr both.2
  | lost other _ ih =>
    rw [depths, optionIn_cons] at option
    refine ih (option.2.resolve_left fun mem => ?_)
    rw [mem_singleton] at mem
    subst mem
    exact absurd other (by decide)

private theorem executes_of_option (agree : Matches es fs) (option : hasOption [ANALYZE] es = true) :
    explainAnalyzeExecutes (depths 0 fs) = true := by
  have found : optionIn EXPLAINED [ANALYZE] (depths 0 fs) = true := option_found agree option
  have spelling : (fun token : Token => decide (token.1 ∈ [ANALYZE])) = fun token => decide (token.1 = "ANALYZE".toList) := by
    funext token
    exact decide_eq_decide.mpr mem_singleton
  rwa [optionIn, spelling] at found

variable {xs rest : List Lexeme}

private theorem leading_parts {passed : Lexeme → Bool} (led : leading passed xs = some (keyword, rest)) :
    ∃ pre x, xs = pre ++ x :: rest ∧ (∀ y ∈ pre, passed y = true) ∧ x.kind = .word ∧ toAsciiUppercase x.raw = keyword := by
  have whole := takeWhile_append_dropWhile (p := passed) (l := xs)
  rw [leading] at led
  cases behind : xs.dropWhile passed with
  | nil => simp [behind] at led
  | cons x others =>
    simp only [behind, Option.ite_none_right_eq_some, Option.some.injEq, Prod.mk.injEq] at led
    obtain ⟨word, spelled, rfl⟩ := led
    exact ⟨xs.takeWhile passed, x, by rw [← behind, whole], fun y mem => mem_takeWhile_imp mem, word, spelled⟩

private theorem emitted_passed {pre : List Lexeme} (passed : ∀ y ∈ pre, (isBlank y || isOpening y) = true) :
    ∃ k, pre.flatMap emitted = List.replicate k .opens := by
  induction pre with
  | nil => exact ⟨0, rfl⟩
  | cons y pre ih =>
    obtain ⟨k, others⟩ := ih fun z mem => passed z (by simp [mem])
    have here := passed y (by simp)
    rw [Bool.or_eq_true] at here
    rcases here with blank | opening
    · have silent : emitted y = [] := by
        rw [isBlank] at blank
        split at blank <;> simp_all [emitted]
      exact ⟨k, by rw [flatMap_cons, silent, others, nil_append]⟩
    · simp only [isOpening, Bool.and_eq_true, decide_eq_true_eq] at opening
      have opens : emitted y = [.opens] := by simp [emitted, opening, paren]
      exact ⟨k + 1, by rw [flatMap_cons, opens, others, replicate_succ]; rfl⟩

private theorem emitted_blank {pre : List Lexeme} (passed : ∀ y ∈ pre, isBlank y = true) : pre.flatMap emitted = [] := by
  rw [flatMap_eq_nil_iff]
  intro y mem
  have blank := passed y mem
  rw [isBlank] at blank
  split at blank <;> simp_all [emitted]

private theorem emitted_plain {x : Lexeme} (word : x.kind = .word)
    (spelled : toAsciiUppercase x.raw = keyword) (plain : isPlain keyword = true) : emitted x = [.word keyword] := by
  have one : words x.raw = [x.raw] := words_plain (by rw [← isPlain_upper, spelled, plain])
  simp [emitted, word, wordEvents, one, spelled]

private theorem depths_opens (depth k : Nat) (es : List Event) : depths depth (List.replicate k .opens ++ es) = depths (depth + k) es := by
  induction k generalizing depth with
  | zero => rfl
  | succ k ih =>
    rw [replicate_succ, cons_append, depths, ih]
    congr 1
    omega

private theorem tokens_leading (led : leading isBlank xs = some (keyword, rest)) (plain : isPlain keyword = true) :
    depths 0 (xs.flatMap emitted) = (keyword, 0) :: depths 0 (rest.flatMap emitted) := by
  obtain ⟨pre, x, rfl, passed, word, spelled⟩ := leading_parts led
  rw [flatMap_append, emitted_blank passed, nil_append, flatMap_cons, emitted_plain word spelled plain]
  rfl

private theorem tokens_common (led : leading (fun x => isBlank x || isOpening x) xs = some (keyword, rest))
    (plain : isPlain keyword = true) : ∃ k tokens, depths 0 (xs.flatMap emitted) = (keyword, k) :: tokens := by
  obtain ⟨pre, x, rfl, passed, word, spelled⟩ := leading_parts led
  obtain ⟨k, opens⟩ := emitted_passed passed
  refine ⟨k, depths k (rest.flatMap emitted), ?_⟩
  rw [flatMap_append, opens, depths_opens, flatMap_cons, emitted_plain word spelled plain, Nat.zero_add]
  rfl

private theorem whitespace_flat {c : Char} (white : isWhitespace c = true) : isFlat c = true := by
  have ne {d : Char} (other : isWhitespace d = false) : c ≠ d := by
    rintro rfl
    simp [white] at other
  have notAlpha : c.isAlpha = false := by
    by_contra letter
    have range := alpha_range (by simpa using letter)
    simp only [isWhitespace, Bool.or_eq_true, Bool.and_eq_true, decide_eq_true_eq, beq_iff_eq] at white
    omega
  simp (disch := decide) [isFlat, isQuote, isWordStart, notAlpha, ne]

theorem tokens_strip (driver : DriverKind) (n depth : Nat) (t : Text) :
    tokensFrom driver 0 depth (stripFrom driver n t) = tokensFrom driver n depth t := by
  induction t generalizing n with
  | nil => cases n <;> rfl
  | cons c t ih =>
    cases n with
    | succ n => exact ih n
    | zero =>
      have jump {m : Nat} (size : tokenJump driver (c :: t) = 1 + m) (notWord : isWordStart c = false)
          (opens : c ≠ '(') (closes : c ≠ ')') : tokensFrom driver 0 depth (c :: t) = tokensFrom driver m depth t := by
        rw [tokens_jump depth notWord opens closes (by omega), size, tokensFrom_skip m, Nat.add_comm]
        rfl
      rw [stripFrom]
      split_ifs with white line hash block
      · have flat := whitespace_flat white
        have step : tokenJump driver (c :: t) = 1 := tokenJump_flat flat t
        simp only [isFlat, Bool.and_eq_true, Bool.not_eq_true', decide_eq_true_eq] at flat
        rw [ih, jump (m := 0) step flat.1.1.1.1.1.1.2 flat.1.2 flat.2]
      · simp only [Bool.and_eq_true, decide_eq_true_eq] at line
        obtain ⟨rfl, other⟩ := line
        rw [ih, jump _ (by decide) (by decide) (by decide)]
        simp [tokenJump, isQuote, other, lineSkip, Nat.add_comm]
      · simp only [Bool.and_eq_true, decide_eq_true_eq] at hash
        obtain ⟨rfl, mysql⟩ := hash
        rw [ih, jump _ (by decide) (by decide) (by decide)]
        simp [tokenJump, isQuote, mysql, lineSkip, Nat.add_comm]
      · simp only [Bool.and_eq_true, decide_eq_true_eq, Bool.not_eq_true'] at block
        obtain ⟨⟨rfl, star⟩, ordinary⟩ := block
        rw [ih, jump _ (by decide) (by decide) (by decide)]
        simp [tokenJump, isQuote, star, ordinary]
        omega
      · rfl

private theorem hasOption_or {spelling others : List Text} {es : List Event} (option : hasOption (spelling ++ others) es = true) :
    hasOption spelling es = true ∨ hasOption others es = true := by
  simp only [hasOption, any_eq_true, decide_eq_true_eq, mem_append] at option ⊢
  obtain ⟨token, inside, spelled⟩ := option
  exact spelled.imp (fun mem => ⟨token, inside, mem⟩) fun mem => ⟨token, inside, mem⟩

section
variable {driver : DriverKind} {body first : Text} {depth : Nat} {tokens : List Token}

private theorem risk_of_keyword (shape : keywordDepths body driver = (first, depth) :: tokens)
    (ordinary : first ≠ "WITH" ∧ first ≠ "EXPLAIN")
    (risk : (keywordRisk first (hasTopLevelKeyword body WHERE driver)).isSome) : (statementRisk body driver).isSome := by
  rw [statementRisk, shape]
  simp only [ordinary.1, ordinary.2, decide_false, Bool.false_and, Bool.or_false, Bool.false_eq_true, if_false, Option.or_none]
  exact risk

private theorem risk_of_tokens (shape : keywordDepths body driver = ("WITH".toList, depth) :: tokens)
    (risk : (detectDangerousTokens (("WITH", depth) :: tokens)).isSome) : (statementRisk body driver).isSome := by
  rw [statementRisk, shape]
  simp only [decide_true, Bool.true_or, if_true]
  exact Option.isSome_or.trans (by rw [risk, Bool.true_or])

private theorem risk_of_analysis (shape : keywordDepths body driver = ("EXPLAIN".toList, depth) :: tokens)
    (executes : explainAnalyzeExecutes tokens = true) : (statementRisk body driver).isSome := by
  rw [statementRisk, shape]
  simp only [executes, decide_true, Bool.and_true, if_true]
  exact Option.isSome_or.trans (Bool.or_true _)

end

theorem risk_of_dangerous {server : Server} {isName : Lexeme → Bool} {s : Text}
    (reads : ∀ x ∈ server.lexemes s, ReadsAlike server.driver isName NOTED x)
    (parted : apart 0 (events isName (server.lexemes s)) = true) (spelled : spelledOut isName (server.lexemes s) = true)
    (dangerous : Dangerous server isName (server.lexemes s)) :
    (statementRisk (stripLeadingComments s server.driver) server.driver).isSome := by
  have tokens : keywordDepths (stripLeadingComments s server.driver) server.driver =
      depths 0 ((server.lexemes s).flatMap emitted) := by
    rw [← tokens_lexemes reads]
    exact tokens_strip server.driver 0 0 s
  have agree := matches_lexemes reads
  have behind {keyword : Text} {rest : List Lexeme} (led : leading isBlank (server.lexemes s) = some (keyword, rest)) :
      Matches (events isName rest) (rest.flatMap emitted) := by
    obtain ⟨pre, x, whole, _⟩ := leading_parts led
    exact matches_lexemes fun y mem => reads y (by simp [whole, mem])
  cases dangerous with
  | removes led removes =>
    simp only [mem_cons, not_mem_nil, or_false] at removes
    rcases removes with rfl | rfl <;>
      exact risk_of_keyword (tokens.trans (tokens_leading led (by decide))) (by decide) rfl
  | @bare keyword rest led changes own =>
    have known : isPlain keyword = true ∧ keyword ≠ WHERE ∧ keyword ≠ "WITH".toList ∧ keyword ≠ "EXPLAIN".toList := by
      simp only [CHANGING, mem_cons, not_mem_nil, or_false] at changes
      rcases changes with rfl | rfl <;> decide
    have shape := tokens.trans (tokens_leading led known.1)
    have unguarded : hasTopLevelKeyword (stripLeadingComments s server.driver) WHERE server.driver = false := by
      by_contra guarded
      rw [hasTopLevelKeyword, shape, any_cons] at guarded
      have found := own_of_top (behind led) (by simpa [known.2.1] using guarded)
      simp [own] at found
    refine risk_of_keyword shape known.2.2 ?_
    rw [unguarded]
    exact modifying_risk changes
  | common led open_ =>
    obtain ⟨k, others, shape⟩ := tokens_common led (by decide)
    refine risk_of_tokens (tokens.trans shape) ?_
    rw [← shape]
    exact tokens_risk agree open_ parted
  | @explained rest led option _ =>
    have shape := tokens.trans (tokens_leading led (by decide))
    have either : hasOption [ANALYZE] (events isName rest) = true ∨ hasOption [ANALYSE] (events isName rest) = true := by
      cases server with
      | postgres => exact hasOption_or option
      | mysql _ | sqlite => exact .inl option
    have analyze : hasOption [ANALYZE] (events isName rest) = true := by
      rcases either with same | other
      · exact same
      · rw [spelledOut, led] at spelled
        simpa [other] using spelled
    exact risk_of_analysis shape (executes_of_option (behind led) analyze)

/-- On a text that is read alike, every dangerous statement is reported under
    its title. -/
theorem dangerous_reported {server : Server} {grammar : Grammar} {sql : Text} (clear : Clear server grammar sql) {s : Text}
    (stands : s ∈ statements server grammar sql) (dangerous : Dangerous server (grammar.isName s) (server.lexemes s)) :
    ∃ risk, risk ++ "：".toList ++ makeShortTitle (stripLeadingComments s server.driver) ∈ detectDangerousStatements sql server.driver := by
  have cut := splitSqlStatements_eq clear.cuts clear.few
  have found := risk_of_dangerous (clear.reads s stands) (clear.parted s stands) (clear.spelled s stands) dangerous
  obtain ⟨risk, same⟩ := Option.isSome_iff_exists.mp found
  refine ⟨risk, mem_filterMap.mpr ⟨s, cut ▸ stands, ?_⟩⟩
  simp [same]

/-- The grammar of texts without names spelled like keywords and without
    stored programs. -/
def plainGrammar : Grammar := ⟨fun _ _ => false, fun _ => false⟩

private def commented : Text := "SELECT 1; # it goes
/*!50001 DELETE */ FROM t;".toList

private def emptied : Text := "# it goes
/*!50001 DELETE */ FROM t".toList

theorem dangerous_reported_mysql : ∃ risk, risk ++ "：".toList ++ makeShortTitle (stripLeadingComments emptied .Mysql) ∈
      detectDangerousStatements commented .Mysql := by
  have clear : Clear (.mysql 80036) plainGrammar commented :=
    ⟨by decide +kernel, by decide +kernel, by decide +kernel, by decide +kernel, by decide +kernel⟩
  have led : leading isBlank ((Server.mysql 80036).lexemes emptied) =
      some ("DELETE".toList, ((Server.mysql 80036).lexemes emptied).drop 6) := by
    decide +kernel
  exact dangerous_reported clear (by decide +kernel) (.bare led (by decide) (by decide +kernel))

/-- PostgreSQL ends the first literal behind the backslash, the tokenizer only
    behind the next quote: it takes a literal for a `WHERE`. -/
theorem dangerous_reported_backslash : ¬ ∀ (server : Server) (grammar : Grammar) (sql s : Text), s ∈ statements server grammar sql →
      Dangerous server (grammar.isName s) (server.lexemes s) → detectDangerousStatements sql server.driver ≠ [] := by
  intro all
  have led : leading isBlank (Server.postgres.lexemes "UPDATE t SET a = '\\', b = ' WHERE '".toList) =
      some ("UPDATE".toList, (Server.postgres.lexemes "UPDATE t SET a = '\\', b = ' WHERE '".toList).drop 1) := by
    decide +kernel
  exact all .postgres plainGrammar "UPDATE t SET a = '\\', b = ' WHERE '".toList _ (by decide +kernel)
    (.bare led (by decide) (by decide +kernel)) (by decide +kernel)

end Ramag.DangerousStatements
