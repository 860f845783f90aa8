import Ramag.KeywordDepths
import Ramag.SplitRules

/-!
The statement splitter under the servers' lexers. `CutsAlike` walks through the
lexemes of a text together with the splitter's trigger tracking, and
`splitFrom_lexemes` says that such a text is cut at the server's own semicolons.
-/
namespace Ramag.StatementCuts
open Strings Domain Sql Lexing SqlUtils SqlServers SplitRules KeywordDepths List

/-- What a server's grammar adds to its lexical rules: the words of a statement
    that are names although they are spelled like keywords, and the semicolons
    of a text that stand in the body of a stored program. -/
structure Grammar where
  isName : Text → Lexeme → Bool
  inBody : Lexeme → Bool

def isSemicolon (x : Lexeme) : Bool := x.kind = .symbol && x.here.head? = some ';'

/-- The lexeme ends a statement. -/
def Grammar.ends (grammar : Grammar) (x : Lexeme) : Bool := isSemicolon x && !grammar.inBody x

/-- The texts between the lexemes that end statements. -/
def segments (ends : Lexeme → Bool) : Text → List Lexeme → List Text
  | segment, [] => [segment]
  | segment, x :: xs => if ends x then segment :: segments ends [] xs else segments ends (segment ++ x.raw) xs

/-- The texts that are more than white space, without the white space around them. -/
def trimmed (ts : List Text) : List Text := (ts.map trim).filter fun t => !t.isEmpty

def statements (server : Server) (grammar : Grammar) (sql : Text) : List Text :=
  trimmed (segments grammar.ends [] (server.lexemes sql))

def TRACKED : List Text := ["CREATE", "TRIGGER", "BEGIN", "END"]

/-- A word that the splitter reads and the server too. -/
def isTracked (opts : SplitOptions) (t : Text) : Bool := t.head?.any (startsWord opts) && t.all isWordByte

section
variable (opts : SplitOptions)

/-- In front of the rest, the splitter moves over the text word by word and else
    one character at a time. -/
def Steps (rest : Text) : Text → Prop
  | [] => True
  | c :: t => (c ≠ ';' ∧ (startsWord opts c = true ∨ splitJump opts (c :: (t ++ rest)) = 1)) ∧ Steps rest t

instance decidableSteps (rest : Text) : ∀ t, Decidable (Steps opts rest t)
  | [] => isTrue trivial
  | _ :: t => have := decidableSteps rest t; inferInstanceAs (Decidable (_ ∧ _))

/-- The words that the splitter reads in the text do not matter to it. -/
def Untracked (t : Text) : Prop :=
  ∀ word ∈ wordsFrom (startsWord opts) 0 t, ∀ keyword ∈ TRACKED, eqIgnoreAsciiCase word keyword = false

instance (t : Text) : Decidable (Untracked opts t) := inferInstanceAs (Decidable (∀ _ ∈ _, ∀ _ ∈ _, _))

/-- The splitter takes the lexeme for code, in which it finds nothing. -/
def CutAsCode (x : Lexeme) : Prop :=
  Steps opts x.rest x.raw ∧ (wordsFrom (startsWord opts) 0 x.raw = [] ∨ Ends x.raw x.rest) ∧ Untracked opts x.raw

instance : DecidablePred (CutAsCode opts) := fun _ => inferInstanceAs (Decidable (_ ∧ _ ∧ _))

def WordCutAlike (x : Lexeme) : Prop := Steps opts x.rest x.raw ∧ (isTracked opts x.raw = true ∨ Untracked opts x.raw)

instance : DecidablePred (WordCutAlike opts) := fun _ => inferInstanceAs (Decidable (_ ∧ (_ ∨ _)))

/-- The lexemes that the splitter passes over as the server does. -/
def CutAlike (x : Lexeme) : Prop :=
  match x.kind with
  | .lineComment => x.length = lineSkip x.here
  | .blockComment => x.length = 2 + blockSkip (x.here.drop 2)
  | .literal | .escapeLiteral => x.length = escapedLength x.here
  | .quotedIdentifier => if x.here.head? = some '[' then CutAsCode opts x else x.length = escapedLength x.here
  | .dollarLiteral => opts.dollarQuoted = true ∧ scanDollarQuoted x.here = some x.length
  | .word => WordCutAlike opts x
  | .hashComment | .number | .symbol | .versionOpen | .versionClose => CutAsCode opts x
  | .space | .versionNumber => True

instance : DecidablePred (CutAlike opts)
  | ⟨.lineComment, _, _⟩ | ⟨.blockComment, _, _⟩ | ⟨.literal, _, _⟩ | ⟨.escapeLiteral, _, _⟩ => inferInstanceAs (Decidable (_ = _))
  | ⟨.quotedIdentifier, _, _⟩ => inferInstanceAs (Decidable (ite _ _ _))
  | ⟨.dollarLiteral, _, _⟩ => inferInstanceAs (Decidable (_ ∧ _))
  | ⟨.word, _, _⟩ => inferInstanceAs (Decidable (WordCutAlike _ _))
  | ⟨.hashComment, _, _⟩ | ⟨.number, _, _⟩ | ⟨.symbol, _, _⟩ | ⟨.versionOpen, _, _⟩ | ⟨.versionClose, _, _⟩ =>
    inferInstanceAs (Decidable (CutAsCode _ _))
  | ⟨.space, _, _⟩ | ⟨.versionNumber, _, _⟩ => isTrue trivial

/-- What the lexeme does to the splitter's trigger tracking. -/
def track (state : SplitState) (x : Lexeme) : SplitState :=
  if x.kind = .word ∧ isTracked opts x.raw = true then state.word x.raw x.rest else state

/-- A semicolon ends a statement for the server exactly where the splitter is in
    no trigger body. -/
def EndsAlike (grammar : Grammar) (state : SplitState) (x : Lexeme) : Prop :=
  grammar.ends x = !(opts.mysqlCompoundBlocks && state.trigger && 0 < state.blockDepth)

instance (grammar : Grammar) (state : SplitState) (x : Lexeme) : Decidable (EndsAlike opts grammar state x) :=
  inferInstanceAs (Decidable (_ = _))

/-- The splitter cuts the lexemes as the server does. The count is the
    characters of an executed comment that the splitter is still to pass over:
    to it the whole comment is one, and no statement may end in it. -/
def CutsAlike (grammar : Grammar) : Nat → SplitState → List Lexeme → Prop
  | _, _, [] => True
  | skip + 1, state, x :: xs => (x.length ≤ skip + 1 ∧ grammar.ends x = false) ∧ CutsAlike grammar (skip + 1 - x.length) state xs
  | 0, state, x :: xs =>
    if isSemicolon x then
      EndsAlike opts grammar state x ∧ CutsAlike grammar 0 (if grammar.ends x then {} else state) xs
    else if x.kind = .versionOpen then CutsAlike grammar (blockSkip x.rest) state xs
    else CutAlike opts x ∧ CutsAlike grammar 0 (track opts state x) xs

instance decidableCutsAlike (grammar : Grammar) : ∀ skip state xs, Decidable (CutsAlike opts grammar skip state xs)
  | _, _, [] => isTrue trivial
  | skip + 1, state, x :: xs =>
    have := decidableCutsAlike grammar (skip + 1 - x.length) state xs
    inferInstanceAs (Decidable (_ ∧ _))
  | 0, state, x :: xs =>
    have := decidableCutsAlike grammar 0 (if grammar.ends x then {} else state) xs
    have := decidableCutsAlike grammar (blockSkip x.rest) state xs
    have := decidableCutsAlike grammar 0 (track opts state x) xs
    inferInstanceAs (Decidable (ite _ _ _))

end

/-- The trigger tracking of a state, together with what has been cut. -/
def onto (state : SplitState) (out : List Text) (segment : Text) : SplitState := { state with out, segment }

@[simp] theorem pushText_onto (state : SplitState) (out : List Text) (segment t : Text) :
    pushText (onto state out segment) t = onto state out (segment ++ t) := rfl

theorem word_onto (state : SplitState) (out : List Text) (segment word rest : Text) :
    (onto state out segment).word word rest = onto (state.word word rest) out segment := by
  obtain ⟨_, _, createSeen, trigger, blockDepth⟩ := state
  simp only [SplitState.word, onto]
  generalize eqIgnoreAsciiCase word "CREATE" = create
  generalize eqIgnoreAsciiCase word "TRIGGER" = names
  generalize eqIgnoreAsciiCase word "BEGIN" = opens
  cases trigger <;> cases create <;> cases createSeen <;> cases names <;> cases opens <;> simp <;> split_ifs <;> rfl

theorem word_untracked {word : Text} (untracked : ∀ keyword ∈ TRACKED, eqIgnoreAsciiCase word keyword = false)
    (state : SplitState) (rest : Text) : state.word word rest = state := by
  have create := untracked "CREATE" (by simp [TRACKED])
  have trigger := untracked "TRIGGER" (by simp [TRACKED])
  have opens := untracked "BEGIN" (by simp [TRACKED])
  have closes := untracked "END" (by simp [TRACKED])
  simp only [SplitState.word, create, trigger, opens, closes, Bool.and_false, Bool.false_and, Bool.false_eq_true, if_false, ite_self]

section
variable {opts : SplitOptions} {limit : Option Nat}

variable {n : Nat}

theorem splitFrom_move {m : Nat} (state : SplitState) (t : Text) (fewer : m ≤ n) :
    splitFrom opts limit n state t = splitFrom opts limit (n - m) (pushText state (t.take m)) (t.drop m) := by
  rw [splitFrom_skip limit n, splitFrom_skip limit (n - m), ← pushText_append, drop_drop]
  congr 2
  · rw [← take_add]
    congr 1
    omega
  · omega

variable {c : Char}

theorem startsWord_byte (start : startsWord opts c = true) : isWordByte c = true := by
  simp only [startsWord, Bool.and_eq_true] at start
  simp [isWordByte, Char.isAlphanum, start.2]

theorem splitJump_word (start : startsWord opts c = true) (t : Text) : splitJump opts (c :: t) = 1 + (t.takeWhile isWordByte).length := by
  have plain := isPlain_of_wordByte (startsWord_byte start)
  simp only [SplitRules.isPlain, Bool.and_eq_true, Bool.not_eq_true', decide_eq_true_eq] at plain
  obtain ⟨⟨⟨⟨quote, dollar⟩, dash⟩, slash⟩, _⟩ := plain
  simp only [startsWord, Bool.and_eq_true] at start
  simp [splitJump, quote, dollar, dash, slash, start]

theorem splitFrom_word (start : startsWord opts c = true) (state : SplitState) (t : Text) : splitFrom opts limit 0 state (c :: t) =
      splitFrom opts limit (t.takeWhile isWordByte).length
        ((state.word (c :: t.takeWhile isWordByte) (t.drop (t.takeWhile isWordByte).length)).push c) t := by
  have other : c ≠ ';' := by
    rintro rfl
    exact absurd (startsWord_byte start) (by decide)
  rw [splitFrom, if_neg other]
  simp only [start, if_true]
  rw [splitJump_word start, Nat.add_comm, take_run, Nat.add_sub_cancel, drop_succ_cons]

variable {t : Text}

theorem splitFrom_steps {rest : Text} (state : SplitState) (steps : Steps opts rest t)
    (ends : wordsFrom (startsWord opts) n t = [] ∨ Ends t rest)
    (untracked : ∀ word ∈ wordsFrom (startsWord opts) n t, ∀ keyword ∈ TRACKED, eqIgnoreAsciiCase word keyword = false)
    (inside : n ≤ t.length) : splitFrom opts limit n state (t ++ rest) = splitFrom opts limit 0 (pushText state t) rest := by
  induction t generalizing n state with
  | nil =>
    obtain rfl : n = 0 := by simpa using inside
    simp
  | cons c t ih =>
    have go {m : Nat} (state : SplitState) (ends : wordsFrom (startsWord opts) m t = [] ∨ Ends (c :: t) rest)
        (untracked : ∀ word ∈ wordsFrom (startsWord opts) m t, ∀ keyword ∈ TRACKED,
          eqIgnoreAsciiCase word keyword = false) (inside : m ≤ t.length) :
        splitFrom opts limit m (state.push c) (t ++ rest) = splitFrom opts limit 0 (pushText state (c :: t)) rest := by
      have split : pushText state (c :: t) = pushText (state.push c) t := by simp [pushText, SplitState.push]
      rw [split]
      refine ih (state.push c) steps.2 ?_ untracked inside
      cases t with
      | nil => cases m <;> exact .inl rfl
      | cons d t => exact ends.imp_right ends_tail
    cases n with
    | succ n => exact go state ends untracked (by simpa using inside)
    | zero =>
      obtain ⟨semicolon, step⟩ := steps.1
      by_cases start : startsWord opts c = true
      · have closed : Ends (c :: t) rest := ends.resolve_left (by simp [wordsFrom, start])
        have length := (takeWhile_sublist isWordByte (l := t)).length_le
        rw [wordsFrom, if_pos start, forall_mem_cons] at untracked
        rw [cons_append, splitFrom_word start, word_inside (startsWord_byte start) closed, word_untracked untracked.1]
        exact go state (.inr closed) untracked.2 length
      · have jump := step.resolve_left start
        rw [wordsFrom, if_neg start] at ends untracked
        rw [cons_append, splitFrom, if_neg semicolon]
        simp only [start, jump, Nat.sub_self, Bool.false_eq_true, if_false]
        exact go state ends untracked (Nat.zero_le _)

private theorem escapedSkip_parts {quote : Char} (ordinary : quote ≠ '\\') : ∀ t : Text, escapedSkip quote t = quotedSkip quote t ∨
      ∃ u, t.drop (quotedSkip quote t) = quote :: u ∧ escapedSkip quote t = quotedSkip quote t + 1 + escapedSkip quote u
  | [] => .inl rfl
  | [_] => .inl rfl
  | c :: d :: t => by
    have step {a b : Nat} {v : Text} (inner : escapedSkip quote v = quotedSkip quote v ∨
        ∃ u, v.drop (quotedSkip quote v) = quote :: u ∧ escapedSkip quote v = quotedSkip quote v + 1 + escapedSkip quote u)
        (quoted : quotedSkip quote (c :: d :: t) = a + quotedSkip quote v)
        (escaped : escapedSkip quote (c :: d :: t) = a + escapedSkip quote v) (rest : (c :: d :: t).drop a = v) :
        escapedSkip quote (c :: d :: t) = quotedSkip quote (c :: d :: t) ∨
          ∃ u, (c :: d :: t).drop (quotedSkip quote (c :: d :: t)) = quote :: u ∧
            escapedSkip quote (c :: d :: t) = quotedSkip quote (c :: d :: t) + 1 + escapedSkip quote u := by
      rcases inner with same | ⟨u, next, length⟩
      · exact .inl (by rw [quoted, escaped, same])
      · refine .inr ⟨u, ?_, ?_⟩
        · rw [quoted, ← drop_drop, rest, next]
        · omega
    by_cases backslash : c = '\\'
    · exact step (a := 2) (b := 0) (escapedSkip_parts ordinary t) (by simp [quotedSkip, backslash])
        (by simp [escapedSkip, backslash]) rfl
    by_cases closing : c = quote
    · by_cases doubled : d = quote
      · refine .inr ⟨t, ?_, ?_⟩ <;> simp [quotedSkip, escapedSkip, closing, doubled, ordinary]
      · exact .inl (by simp [quotedSkip, escapedSkip, closing, doubled, ordinary])
    · exact step (a := 1) (b := 0) (escapedSkip_parts ordinary (d :: t)) (by simp [quotedSkip, backslash, closing])
        (by simp [escapedSkip, backslash, closing]) rfl

private theorem isQuote_parts (opts : SplitOptions) (quote : isQuote c = true) : c ≠ ';' ∧ c ≠ '\\' ∧ startsWord opts c = false := by
  simp only [isQuote, Bool.or_eq_true, beq_iff_eq] at quote
  rcases quote with (rfl | rfl) | rfl <;> simp [startsWord]

theorem splitFrom_quoted {quote : Char} (isquote : isQuote quote = true) (state : SplitState) (t : Text) :
    splitFrom opts limit 0 state (quote :: t) = splitFrom opts limit 0 (pushText state ((quote :: t).take (escapedLength (quote :: t))))
        ((quote :: t).drop (escapedLength (quote :: t))) := by
  obtain ⟨semicolon, ordinary, notWord⟩ := isQuote_parts opts isquote
  have jump : splitJump opts (quote :: t) = 1 + quotedSkip quote t := by simp [splitJump, isquote]
  rw [splitFrom_jump semicolon (by simp [notWord]) (by omega), jump, escapedLength]
  rcases escapedSkip_parts ordinary t with same | ⟨u, next, length⟩
  · rw [same]
  have shorter : u.length < t.length := by
    have sizes := congrArg List.length next
    simp only [length_drop, length_cons] at sizes
    omega
  have rest : (quote :: t).drop (1 + quotedSkip quote t) = quote :: u := by rw [Nat.add_comm, drop_succ_cons, next]
  have inner := splitFrom_quoted isquote (pushText state ((quote :: t).take (1 + quotedSkip quote t))) u
  have second : escapedLength (quote :: u) = 1 + escapedSkip quote u := rfl
  have whole : 1 + escapedSkip quote t = (1 + quotedSkip quote t) + escapedLength (quote :: u) := by omega
  have taken : (quote :: t).take (1 + quotedSkip quote t + escapedLength (quote :: u)) =
      (quote :: t).take (1 + quotedSkip quote t) ++ (quote :: u).take (escapedLength (quote :: u)) := by
    rw [take_add, rest]
  have dropped : (quote :: t).drop (1 + quotedSkip quote t + escapedLength (quote :: u)) =
      (quote :: u).drop (escapedLength (quote :: u)) := by
    rw [← rest, drop_drop]
  rw [rest, inner, ← pushText_append, whole, taken, dropped]
termination_by t.length

/-! ### The splitter follows the lexer -/

private theorem steps_flat (opts : SplitOptions) (inert : ∀ c ∈ t, isFlat c = true ∧ c ≠ ';') (rest : Text) :
    Steps opts rest t ∧ wordsFrom (startsWord opts) 0 t = [] := by
  induction t with
  | nil => exact ⟨trivial, rfl⟩
  | cons c t ih =>
    obtain ⟨steps, silent⟩ := ih fun d mem => inert d (by simp [mem])
    obtain ⟨here, semicolon⟩ := inert c (by simp)
    simp only [isFlat, Bool.and_eq_true, Bool.not_eq_true', decide_eq_true_eq] at here
    obtain ⟨⟨⟨⟨⟨⟨⟨quote, start⟩, dash⟩, _⟩, slash⟩, dollar⟩, _⟩, _⟩ := here
    simp only [isWordStart, Bool.or_eq_false_iff] at start
    have notWord : startsWord opts c = false := by simp [startsWord, start.1]
    refine ⟨⟨⟨semicolon, .inr ?_⟩, steps⟩, by rw [wordsFrom, if_neg (by simp [notWord]), silent]⟩
    simp [splitJump, quote, dash, slash, dollar, start.1]

/-- The splitter has moved over the lexeme. -/
def Cut (opts : SplitOptions) (limit : Option Nat) (x : Lexeme) : Prop :=
  ∀ state, splitFrom opts limit 0 state x.here = splitFrom opts limit 0 (pushText (track opts state x) x.raw) x.rest

variable {x : Lexeme}

private theorem track_other (other : x.kind ≠ .word) (state : SplitState) : track opts state x = state := by simp [track, other]

private theorem cut_steps (silent : ∀ state, track opts state x = state) (code : CutAsCode opts x) : Cut opts limit x := by
  intro state
  rw [silent, ← splitFrom_steps state code.1 code.2.1 code.2.2 (Nat.zero_le _), x.raw_append_rest]

private theorem cut_flat (other : x.kind ≠ .word) (inert : ∀ c ∈ x.raw, isFlat c = true ∧ c ≠ ';') : Cut opts limit x := by
  obtain ⟨steps, silent⟩ := steps_flat opts inert x.rest
  refine cut_steps (track_other other) ⟨steps, .inl silent, ?_⟩
  rw [Untracked, silent]
  exact fun _ mem => absurd mem not_mem_nil

private theorem cut_jump (other : x.kind ≠ .word) (here : x.here = c :: t)
    (semicolon : c ≠ ';') (notWord : startsWord opts c = false) (positive : 0 < x.length)
    (jump : splitJump opts (c :: t) = x.length) : Cut opts limit x := by
  intro state
  rw [track_other other, here, splitFrom_jump semicolon (by simp [notWord]) (by omega), jump, Lexeme.raw, Lexeme.rest, here]

private theorem cut_quoted (other : x.kind ≠ .word) (here : x.here = c :: t)
    (quote : isQuote c = true) (extent : x.length = escapedLength x.here) : Cut opts limit x := by
  intro state
  rw [track_other other, Lexeme.raw, Lexeme.rest, extent, here]
  exact splitFrom_quoted quote state t

private theorem cut_word (alike : WordCutAlike opts ⟨.word, c :: t, (t.takeWhile isIdentCont).length + 1⟩) :
    Cut opts limit ⟨.word, c :: t, (t.takeWhile isIdentCont).length + 1⟩ := by
  obtain ⟨steps, words⟩ := alike
  have ends := ident_ends c t
  simp only [Lexeme.raw, Lexeme.rest, take_run, drop_succ_cons] at steps words
  by_cases tracked : isTracked opts (c :: t.takeWhile isIdentCont) = true
  · intro state
    have shape : startsWord opts c = true ∧ ∀ d ∈ t.takeWhile isIdentCont, isWordByte d = true := by
      simp only [isTracked, head?_cons, Option.any_some, all_cons, Bool.and_eq_true, all_eq_true] at tracked
      exact ⟨tracked.1, tracked.2.2⟩
    have whole : t.takeWhile isWordByte = t.takeWhile isIdentCont := by
      have inside := word_inside (startsWord_byte shape.1) ends
      rw [drop_run, takeWhile_append_dropWhile] at inside
      rw [inside]
      exact takeWhile_eq_self_iff.mpr shape.2
    simp only [track, Lexeme.raw, Lexeme.rest, take_run, drop_succ_cons, true_and, tracked, if_true]
    rw [splitFrom_word shape.1, whole, splitFrom_skip]
    have taken := take_run isIdentCont c t
    rw [take_succ_cons, List.cons.injEq] at taken
    rw [taken.2]
    simp [pushText, SplitState.push]
  · have code : CutAsCode opts ⟨.word, c :: t, (t.takeWhile isIdentCont).length + 1⟩ := by
      simp only [CutAsCode, Lexeme.raw, Lexeme.rest, take_run, drop_succ_cons]
      exact ⟨steps, .inr ends, words.resolve_left tracked⟩
    refine cut_steps (fun state => ?_) code
    simp only [track, Lexeme.raw, take_run]
    exact if_neg fun both => tracked both.2

private theorem digit_plain (digit : c.isDigit = true) : isFlat c = true ∧ c ≠ ';' := by
  refine ⟨digit_flat digit, ?_⟩
  rintro rfl
  exact absurd digit (by decide)

private theorem space_plain (space : isSpace c = true) : isFlat c = true ∧ c ≠ ';' := by
  refine ⟨space_flat space, ?_⟩
  rintro rfl
  exact absurd space (by decide)

private theorem mark_notWord (mark : c.isAlpha = false) : startsWord opts c = false := by simp [startsWord, mark]

variable {driver : DriverKind}

theorem cut_of_alike {kind : Kind} (shape : Shape driver c t kind n)
    (alike : CutAlike opts ⟨kind, c :: t, n + 1⟩) : Cut opts limit ⟨kind, c :: t, n + 1⟩ := by
  cases shape with
  | space _ space => exact cut_flat (by simp) fun d mem => space_plain (space d mem)
  | lineComment _ dash other =>
    subst dash
    have extent : n + 1 = lineSkip ('-' :: t) := alike
    refine cut_jump (by simp) rfl (by decide) (mark_notWord (by decide)) (Nat.succ_pos _) ?_
    simp [splitJump, isQuote, other, extent]
  | blockComment _ slash star =>
    subst slash
    have extent : n + 1 = 2 + blockSkip t.tail := by simpa [CutAlike] using alike
    refine cut_jump (by simp) rfl (by decide) (mark_notWord (by decide)) (Nat.succ_pos _) ?_
    simp [splitJump, isQuote, star, extent]
  | versionNumber _ digits => exact cut_flat (by simp) fun d mem => digit_plain (digits d mem)
  | literal _ quote | escapeLiteral _ quote => exact cut_quoted (by simp) rfl quote alike
  | quotedIdentifier _ quote =>
    refine cut_quoted (by simp) rfl quote ?_
    simpa [CutAlike, (quote_silent quote).2.2.2] using alike
  | bracketed _ bracket =>
    subst bracket
    exact cut_steps (track_other (by simp)) alike
  | dollarLiteral _ _ dollar =>
    subst dollar
    obtain ⟨quoted, extent⟩ := alike
    refine cut_jump (by simp) rfl (by decide) (mark_notWord (by decide)) (Nat.succ_pos _) ?_
    simp [splitJump, isQuote, quoted, extent]
  | word => exact cut_word alike
  | hashComment _ _ | versionOpen _ _ _ _ | versionClose _ _ | number _ | symbol _ => exact cut_steps (track_other (by simp)) alike

private theorem cut_inside {skip : Nat} (fits : x.length ≤ skip) (state : SplitState) :
    splitFrom opts limit skip state x.here = splitFrom opts limit (skip - x.length) (pushText state x.raw) x.rest :=
  splitFrom_move state x.here fits

private theorem cut_opening (shape : Shape driver c t .versionOpen n) (state : SplitState) : splitFrom opts limit 0 state (c :: t) =
      splitFrom opts limit (blockSkip ((c :: t).drop (n + 1))) (pushText state ((c :: t).take (n + 1))) ((c :: t).drop (n + 1)) := by
  cases shape with
  | versionOpen _ slash star bang =>
    obtain ⟨u, rfl⟩ : ∃ u, t = '*' :: '!' :: u := by
      cases t with
      | nil => simp at star
      | cons d t =>
        cases t with
        | nil => simp at bang
        | cons e t => exact ⟨t, by simp_all⟩
    subst slash
    have inner : blockSkip ('!' :: u) = 1 + blockSkip u := by simp [blockSkip]
    have jump : splitJump opts ('/' :: '*' :: '!' :: u) = 3 + blockSkip u := by
      simp [splitJump, isQuote, inner]
      omega
    have notWord : startsWord opts '/' = false := mark_notWord (by decide)
    rw [splitFrom, if_neg (by decide)]
    simp only [notWord, Bool.false_eq_true, if_false, jump]
    rw [splitFrom_move (m := 2) _ _ (by omega)]
    simp [pushText, SplitState.push]

private theorem trimmed_cons (t : Text) (ts : List Text) : trimmed (t :: ts) = trimmed [t] ++ trimmed ts := by
  by_cases blank : (trim t).isEmpty = true <;> simp [trimmed, blank]

private theorem emit_onto {state : SplitState} {out : List Text} {segment : Text}
    (fits : ∀ l ∈ limit, (out ++ trimmed [segment]).length ≤ l) :
    (onto state out segment).emit limit = some (onto {} (out ++ trimmed [segment]) []) := by
  by_cases blank : (trim segment).isEmpty = true
  · simp [SplitState.emit, onto, trimmed, blank]
  have room : limit.any (fun l => decide (l ≤ out.length)) = false := by
    cases limit with
    | none => rfl
    | some l =>
      simp [trimmed, blank] at fits
      simpa using fits
  have kept : trimmed [segment] = [trim segment] := by simp [trimmed, blank]
  rw [kept]
  exact (if_neg blank).trans (if_neg (Bool.eq_false_iff.mp room))

theorem splitFrom_lexed {grammar : Grammar} {σ : Type} {next : Next σ}
    (shaped : ∀ s c t, Shape driver c t (next s (c :: t)).1 (next s (c :: t)).2.1) {s : σ} {xs : List Lexeme}
    (lexed : lex next s t = xs) {skip : Nat} {state : SplitState} (alike : CutsAlike opts grammar skip state xs)
    {out : List Text} {segment : Text} (fits : ∀ l ∈ limit, (out ++ trimmed (segments grammar.ends segment xs)).length ≤ l) :
    splitFrom opts limit skip (onto state out segment) t = some (out ++ trimmed (segments grammar.ends segment xs)) := by
  induction xs generalizing s t skip state out segment with
  | nil =>
    cases t with
    | cons c t => simp [lex_cons] at lexed
    | nil =>
      have emitted : (onto state out segment).emit limit = some (onto {} (out ++ trimmed [segment]) []) := emit_onto fits
      have stop : splitFrom opts limit skip (onto state out segment) [] =
          ((onto state out segment).emit limit).map SplitState.out := by
        cases skip <;> rfl
      rw [stop, emitted]
      rfl
  | cons x xs ih =>
    obtain ⟨first, here, nonempty, others⟩ := lex_eq_cons next lexed
    obtain ⟨c, u, rfl⟩ := exists_cons_of_ne_nil nonempty
    have shape := shaped s c u
    -- a lexeme inside a statement goes to the segment
    have inside (stays : grammar.ends x = false) :
        segments grammar.ends segment (x :: xs) = segments grammar.ends (segment ++ x.raw) xs := by
      simp [segments, stays]
    rw [← here]
    cases skip with
    | succ skip =>
      obtain ⟨⟨ends, stays⟩, alike⟩ := alike
      rw [inside stays] at fits ⊢
      rw [cut_inside ends, pushText_onto]
      exact ih others alike fits
    | zero =>
      rw [CutsAlike] at alike
      by_cases semicolon : isSemicolon x = true
      · rw [if_pos semicolon] at alike
        obtain ⟨ended, alike⟩ := alike
        have shapes : x.raw = [';'] ∧ x.here = ';' :: x.rest := by
          simp only [isSemicolon, Bool.and_eq_true, decide_eq_true_eq] at semicolon
          have symbol : (next s (c :: u)).1 = .symbol := by
            rw [first] at semicolon
            exact semicolon.1
          have mark : c = ';' := by simpa [here] using semicolon.2
          rw [symbol] at shape
          have one : x.length = 1 := by
            rw [first, lexemeAt]
            cases size : (next s (c :: u)).2.1 with
            | zero => rfl
            | succ n =>
              rw [size] at shape
              cases shape
          simp [Lexeme.raw, Lexeme.rest, one, here, mark]
        rw [EndsAlike] at ended
        rw [shapes.2, splitFrom, if_pos rfl]
        cases stays : grammar.ends x with
        | true =>
          have cut : segments grammar.ends segment (x :: xs) = segment :: segments grammar.ends [] xs := by simp [segments, stays]
          rw [cut, trimmed_cons, ← append_assoc] at fits ⊢
          have room : ∀ l ∈ limit, (out ++ trimmed [segment]).length ≤ l := by
            intro l mem
            have := fits l mem
            rw [length_append] at this
            omega
          have open_ : (opts.mysqlCompoundBlocks && state.trigger && decide (0 < state.blockDepth)) = false := by
            rw [stays] at ended
            exact (Bool.not_eq_true' _).mp ended.symm
          have same : (opts.mysqlCompoundBlocks && (onto state out segment).trigger &&
              decide (0 < (onto state out segment).blockDepth)) = false := open_
          rw [if_neg (by simp [same]), emit_onto room]
          rw [stays, if_pos rfl] at alike
          exact ih others alike fits
        | false =>
          have open_ : (opts.mysqlCompoundBlocks && state.trigger && decide (0 < state.blockDepth)) = true := by simpa [stays] using ended
          have same : (opts.mysqlCompoundBlocks && (onto state out segment).trigger &&
              decide (0 < (onto state out segment).blockDepth)) = true := open_
          rw [if_pos same]
          rw [inside stays, shapes.1] at fits ⊢
          rw [stays, if_neg (by decide)] at alike
          exact ih others alike fits
      · have stays : grammar.ends x = false := by simp [Grammar.ends, semicolon]
        rw [if_neg semicolon] at alike
        rw [inside stays] at fits ⊢
        split_ifs at alike with version
        · rw [first] at version
          replace version : (next s (c :: u)).1 = .versionOpen := version
          rw [version] at shape
          have same : splitFrom opts limit 0 (onto state out segment) x.here =
              splitFrom opts limit (blockSkip x.rest) (pushText (onto state out segment) x.raw) x.rest := by
            rw [first]
            exact cut_opening shape (onto state out segment)
          rw [same, pushText_onto]
          exact ih others alike fits
        · have cut : Cut opts limit x := by
            have single := alike.1
            rw [first] at single ⊢
            exact cut_of_alike shape single
          have tracked : track opts (onto state out segment) x = onto (track opts state x) out segment := by
            simp only [track]
            split_ifs
            · exact word_onto state out segment x.raw x.rest
            · rfl
          rw [cut, tracked, pushText_onto]
          exact ih others alike.2 fits

end

variable {server : Server} {grammar : Grammar} {sql : Text}

theorem splitStatementsWithLimit_eq {opts : SplitOptions} {limit : Option Nat} (alike : CutsAlike opts grammar 0 {} (server.lexemes sql))
    (fits : ∀ l ∈ limit, (statements server grammar sql).length ≤ l) :
    splitStatementsWithLimit sql opts limit = some (statements server grammar sql) := by
  revert alike fits
  refine server.shaped (P := fun lexemes => CutsAlike opts grammar 0 {} (lexemes sql) →
    (∀ l ∈ limit, (trimmed (segments grammar.ends [] (lexemes sql))).length ≤ l) →
    splitStatementsWithLimit sql opts limit = some (trimmed (segments grammar.ends [] (lexemes sql))))
    fun σ next s shaped alike fits => ?_
  have start : splitFrom opts limit 0 (onto {} [] []) sql = some ([] ++ trimmed (segments grammar.ends [] (lex next s sql))) :=
    splitFrom_lexed shaped rfl alike fits
  exact start

theorem splitStatements_eq {opts : SplitOptions} (alike : CutsAlike opts grammar 0 {} (server.lexemes sql)) :
    splitStatements sql opts = statements server grammar sql := by
  rw [splitStatements, splitStatementsWithLimit_eq alike fun _ mem => absurd mem (by simp)]
  rfl

theorem splitSqlStatements_eq (alike : CutsAlike (splitOptions server.driver) grammar 0 {} (server.lexemes sql))
    (few : (statements server grammar sql).length ≤ MAX_SQL_STATEMENTS) :
    splitSqlStatements sql server.driver = statements server grammar sql := by
  have fits : ∀ l ∈ some MAX_SQL_STATEMENTS, (statements server grammar sql).length ≤ l := by
    intro l mem
    cases mem
    exact few
  rw [splitSqlStatements, splitStatementsBounded, splitStatementsWithLimit_eq alike fits]

end Ramag.StatementCuts
