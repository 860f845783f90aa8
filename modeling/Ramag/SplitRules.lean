import Ramag.Lexing
import Ramag.Sql

/-!
Rules of the statement splitter: a text is passed when the splitter, outside
every literal, comment and trigger body, moves over it without ending a
statement. Passed texts compose, and a chunk of passed statements is split at
exactly the semicolons between them.
-/
namespace Ramag.SplitRules
open Strings Domain Sql Lexing List

def pushText (state : SplitState) (t : Text) : SplitState := { state with segment := state.segment ++ t }

@[simp] theorem pushText_nil (state : SplitState) : pushText state [] = state := by simp [pushText]
theorem pushText_append (state : SplitState) (t u : Text) : pushText state (t ++ u) = pushText (pushText state t) u := by simp [pushText]

/-- No trigger has been opened in the statement at hand. -/
def Quiet (state : SplitState) : Prop := state.createSeen = false ∧ state.trigger = false

variable {state : SplitState}

theorem Quiet.push (quiet : Quiet state) (t : Text) : Quiet (pushText state t) := quiet

/-- From a quiet state the splitter moves over the text to what follows it. -/
def Passes (opts : SplitOptions) (t rest : Text) : Prop :=
  ∀ limit state, Quiet state → splitFrom opts limit 0 state (t ++ rest) = splitFrom opts limit 0 (pushText state t) rest

variable {opts : SplitOptions}

theorem passes_nil (rest : Text) : Passes opts [] rest := by
  intro limit state _
  simp

variable {t rest : Text}

theorem Passes.append {u : Text} (first : Passes opts t (u ++ rest)) (second : Passes opts u rest) : Passes opts (t ++ u) rest := by
  intro limit state quiet
  rw [append_assoc, first limit state quiet, second limit _ (quiet.push t), pushText_append]

theorem splitFrom_skip (limit : Option Nat) (n : Nat) (state : SplitState) (t : Text) :
    splitFrom opts limit n state t = splitFrom opts limit 0 (pushText state (t.take n)) (t.drop n) := by
  induction t generalizing n state with
  | nil => cases n <;> simp [splitFrom]
  | cons c t ih =>
    cases n with
    | zero => simp
    | succ n =>
      rw [splitFrom, ih]
      simp [SplitState.push, pushText]

variable {limit : Option Nat} {c : Char}

theorem splitFrom_jump (other : c ≠ ';') (word : (if startsWord opts c then
      state.word ((c :: t).take (splitJump opts (c :: t))) ((c :: t).drop (splitJump opts (c :: t))) else state) = state)
    (positive : 0 < splitJump opts (c :: t)) : splitFrom opts limit 0 state (c :: t) =
      splitFrom opts limit 0 (pushText state ((c :: t).take (splitJump opts (c :: t)))) ((c :: t).drop (splitJump opts (c :: t))) := by
  obtain ⟨n, size⟩ : ∃ n, splitJump opts (c :: t) = n + 1 := ⟨splitJump opts (c :: t) - 1, by omega⟩
  rw [splitFrom, if_neg other]
  simp only [word]
  rw [splitFrom_skip, size]
  simp [SplitState.push, pushText]

private theorem passes_jump (other : c ≠ ';') (notWord : startsWord opts c = false)
    (jump : splitJump opts (c :: t ++ rest) = (c :: t).length) : Passes opts (c :: t) rest := by
  intro limit state _
  rw [cons_append] at jump ⊢
  rw [splitFrom_jump other (by simp [notWord]) (by rw [jump]; simp), jump, ← cons_append, take_left', drop_left'] <;> rfl

/-! ### Characters and words -/

/-- The characters that open nothing outside of words. -/
def isPlain (c : Char) : Bool := !isQuote c && c ≠ '$' && c ≠ '-' && c ≠ '/' && c ≠ ';'

theorem passes_plain (plain : isPlain c = true) (notWord : startsWord opts c = false) (rest : Text) : Passes opts [c] rest := by
  simp only [isPlain, Bool.and_eq_true, Bool.not_eq_true', decide_eq_true_eq] at plain
  obtain ⟨⟨⟨⟨quote, dollar⟩, dash⟩, slash⟩, semicolon⟩ := plain
  rw [startsWord] at notWord
  exact passes_jump semicolon notWord (by simp [splitJump, quote, dollar, dash, slash, notWord])

theorem passes_minus (other : rest.head? ≠ some '-') : Passes opts ['-'] rest :=
  passes_jump (by decide) (by simp [startsWord])
    (by simp [splitJump, isQuote, other])

theorem passes_plains (plain : ∀ c ∈ t, isPlain c = true ∧ startsWord opts c = false) (rest : Text) : Passes opts t rest := by
  induction t with
  | nil => exact passes_nil rest
  | cons c t ih =>
    obtain ⟨first, notWord⟩ := plain c (by simp)
    exact (passes_plain first notWord (t ++ rest)).append (t := [c]) (ih fun d mem => plain d (by simp [mem]))

theorem isPlain_of_wordByte (inside : isWordByte c = true) : isPlain c = true := by
  have ne {d : Char} (other : isWordByte d = false) : c ≠ d := by
    rintro rfl
    simp [inside] at other
  simp (disch := decide) [isPlain, isQuote, ne]

theorem passes_word (letter : c.isAlpha = true) (inside : ∀ d ∈ t, isWordByte d = true)
    (other : eqIgnoreAsciiCase (c :: t) "CREATE" = false) (ends : wordEdge rest.head? = true) : Passes opts (c :: t) rest := by
  have byte : isWordByte c = true := by simp [isWordByte, Char.isAlphanum, letter]
  by_cases compound : opts.mysqlCompoundBlocks = true
  · intro limit state quiet
    have stop : (t ++ rest).takeWhile isWordByte = t := by
      rw [takeWhile_append_of_pos inside]
      cases rest with
      | nil => simp
      | cons d rest =>
        have out : isWordByte d = false := by simpa [wordEdge] using ends
        simp [out]
    have plain := isPlain_of_wordByte byte
    simp only [isPlain, Bool.and_eq_true, Bool.not_eq_true', decide_eq_true_eq] at plain
    obtain ⟨⟨⟨⟨quote, dollar⟩, dash⟩, slash⟩, semicolon⟩ := plain
    have jump : splitJump opts (c :: (t ++ rest)) = (c :: t).length := by
      simp [splitJump, quote, dollar, dash, slash, compound, letter, stop, Nat.add_comm]
    have taken : (c :: (t ++ rest)).take (c :: t).length = c :: t := by simp
    have dropped : (c :: (t ++ rest)).drop (c :: t).length = rest := by simp
    have same : state.word (c :: t) rest = state := by
      simp only [SplitState.word, quiet.1, quiet.2, other, Bool.false_and, Bool.false_eq_true, if_false, Bool.not_false, if_true]
    rw [cons_append, splitFrom_jump semicolon (by rw [jump, taken, dropped, same]; simp) (by simp [jump]), jump, taken, dropped]
  · refine passes_plains (fun d mem => ?_) rest
    have notWord : startsWord opts d = false := by simp [startsWord, compound]
    rcases mem_cons.mp mem with rfl | later
    · exact ⟨isPlain_of_wordByte byte, notWord⟩
    · exact ⟨isPlain_of_wordByte (inside d later), notWord⟩

/-- The words and gaps of a fixed phrase: no quote, no comment, no `CREATE`, and
    every word ends inside the phrase. -/
def phraseFrom : Nat → Text → Bool
  | 0, [] => true
  | _ + 1, [] => false
  | skip + 1, _ :: t => phraseFrom skip t
  | 0, c :: t =>
    if c.isAlpha then
      let run := t.takeWhile isWordByte
      run.length < t.length && !eqIgnoreAsciiCase (c :: run) "CREATE" && phraseFrom run.length t
    else isPlain c && phraseFrom 0 t

def phrase (t : Text) : Bool := phraseFrom 0 t

private theorem phraseFrom_skip {n : Nat} (fits : n ≤ t.length) : phraseFrom n t = phraseFrom 0 (t.drop n) := by
  induction t generalizing n with
  | nil =>
    obtain rfl : n = 0 := by simpa using fits
    rfl
  | cons c t ih =>
    cases n with
    | zero => rfl
    | succ n => simpa [phraseFrom] using ih (n := n) (by simpa using fits)

theorem passes_phrase (closed : phrase t = true) (rest : Text) : Passes opts t rest := by
  generalize size : t.length = n
  induction n using Nat.strong_induction_on generalizing t with
  | _ n ih =>
    cases t with
    | nil => exact passes_nil rest
    | cons c t =>
      rw [phrase, phraseFrom] at closed
      by_cases letter : c.isAlpha = true
      · simp only [letter, if_true, Bool.and_eq_true, decide_eq_true_eq, Bool.not_eq_true'] at closed
        obtain ⟨⟨shorter, other⟩, more⟩ := closed
        rw [phraseFrom_skip shorter.le] at more
        have whole : c :: t = (c :: t.takeWhile isWordByte) ++ t.drop (t.takeWhile isWordByte).length := by
          rw [drop_run, cons_append, takeWhile_append_dropWhile]
        rw [whole]
        refine Passes.append (passes_word letter (fun d mem => mem_takeWhile_imp mem) other ?_) ?_
        · obtain ⟨d, u, tail⟩ : ∃ d u, t.drop (t.takeWhile isWordByte).length = d :: u :=
            exists_cons_of_ne_nil (by rw [Ne, drop_eq_nil_iff]; omega)
          have out : isWordByte d = false := run_stops (by rw [tail]; rfl)
          simp [tail, wordEdge, out]
        · exact ih _ (by simp at size ⊢; omega) more rfl
      · simp only [letter, Bool.false_eq_true, if_false, Bool.and_eq_true] at closed
        have notWord : startsWord opts c = false := by simp [startsWord, letter]
        exact (passes_plain closed.1 notWord (t ++ rest)).append (t := [c])
          (ih t.length (by simp at size; omega) closed.2 rfl)

/-- The inside of a quoted text: quote characters come in pairs, and a
    backslash stands in front of some other character. -/
def quotedBody (quote : Char) : Text → Bool
  | [] => true
  | [c] => c ≠ '\\' && c ≠ quote
  | c :: d :: t =>
    if c = '\\' then d ≠ quote && quotedBody quote t
    else if c = quote then d = quote && quotedBody quote t
    else quotedBody quote (d :: t)

variable {quote : Char}

theorem quotedBody_cons (plain : c ≠ '\\') (other : c ≠ quote) (t : Text) : quotedBody quote (c :: t) = quotedBody quote t := by
  cases t <;> simp [quotedBody, plain, other]

theorem quotedBody_escape {d : Char} (other : d ≠ quote) (t : Text) : quotedBody quote ('\\' :: d :: t) = quotedBody quote t := by
  simp [quotedBody, other]

theorem quotedBody_pair (ordinary : quote ≠ '\\') (t : Text) : quotedBody quote (quote :: quote :: t) = quotedBody quote t := by
  simp [quotedBody, ordinary]

theorem quotedSkip_close (ordinary : quote ≠ '\\') (t : Text) : quotedSkip quote (quote :: t) = 1 := by
  cases t <;> simp [quotedSkip, ordinary]

theorem quotedSkip_escape (quote d : Char) (t : Text) : quotedSkip quote ('\\' :: d :: t) = 2 + quotedSkip quote t := by simp [quotedSkip]

theorem quotedSkip_cons (plain : c ≠ '\\') (other : c ≠ quote) (t : Text) : quotedSkip quote (c :: t) = 1 + quotedSkip quote t := by
  cases t <;> simp [quotedSkip, plain, other]

private theorem first_region (ordinary : quote ≠ '\\') : ∀ body, quotedBody quote body = true → ∃ a b, body = a ++ b ∧
      (∀ u, quotedSkip quote (a ++ quote :: u) = a.length + 1) ∧
      (b = [] ∨ ∃ more, b = quote :: quote :: more ∧ quotedBody quote more = true)
  | [], _ => ⟨[], [], rfl, quotedSkip_close ordinary, .inl rfl⟩
  | [c], inside => by
    simp only [quotedBody, Bool.and_eq_true, decide_eq_true_eq] at inside
    refine ⟨[c], [], rfl, fun u => ?_, .inl rfl⟩
    rw [List.singleton_append, quotedSkip_cons inside.1 inside.2, quotedSkip_close ordinary]
    rfl
  | c :: d :: t, inside => by
    simp only [quotedBody] at inside
    by_cases escape : c = '\\'
    · simp only [escape, if_true, Bool.and_eq_true] at inside
      obtain ⟨a, b, split, region, rest⟩ := first_region ordinary t inside.2
      refine ⟨c :: d :: a, b, by rw [split]; rfl, fun u => ?_, rest⟩
      rw [escape, cons_append, cons_append, quotedSkip_escape, region]
      simp only [length_cons]
      omega
    · by_cases closing : c = quote
      · simp only [closing, if_true, if_false, Bool.and_eq_true, decide_eq_true_eq, ordinary] at inside
        exact ⟨[], c :: d :: t, rfl, quotedSkip_close ordinary, .inr ⟨t, by rw [closing, inside.1], inside.2⟩⟩
      simp only [escape, closing, if_false] at inside
      obtain ⟨a, b, split, region, rest⟩ := first_region ordinary (d :: t) inside
      refine ⟨c :: a, b, by rw [split]; rfl, fun u => ?_, rest⟩
      rw [cons_append, quotedSkip_cons escape closing, region]
      simp only [length_cons]
      omega

theorem passes_quoted (isquote : isQuote quote = true) (ordinary : quote ≠ '\\')
    (notWord : startsWord opts quote = false) {body : Text} (inside : quotedBody quote body = true) (rest : Text) :
    Passes opts (quote :: body ++ [quote]) rest := by
  generalize size : body.length = n
  induction n using Nat.strong_induction_on generalizing body with
  | _ n ih =>
    have semicolon : quote ≠ ';' := by
      rintro rfl
      cases isquote
    obtain ⟨a, b, split, region, more⟩ := first_region ordinary body inside
    have one (u : Text) : Passes opts (quote :: a ++ [quote]) u := by
      refine passes_jump semicolon notWord ?_
      have same : a ++ [quote] ++ u = a ++ quote :: u := by simp
      change splitJump opts (quote :: (a ++ [quote] ++ u)) = (a ++ [quote]).length + 1
      rw [same, splitJump, if_pos isquote, region, length_append, length_singleton]
      omega
    rcases more with rfl | ⟨later, rfl, closed⟩
    · rw [split, append_nil]
      exact one rest
    have again := ih later.length (by rw [← size, split]; simp; omega) closed rfl
    have whole : quote :: body ++ [quote] = (quote :: a ++ [quote]) ++ (quote :: later ++ [quote]) := by
      rw [split]
      simp
    rw [whole]
    exact (one _).append again

/-- Statements one after the other with a semicolon and a gap between them, and
    after the last one too when the chunk is closed. -/
def chunk (gap : Text) (closed : Bool) : List Text → Text
  | [] => []
  | [s] => if closed then s ++ ';' :: gap else s
  | s :: ss => s ++ ';' :: gap ++ chunk gap closed ss

variable {gap : Text} {ss : List Text}

theorem chunk_cons {closed : Bool} (s : Text) (ended : closed = true ∨ ss ≠ []) :
    chunk gap closed (s :: ss) = s ++ ';' :: (gap ++ chunk gap closed ss) := by
  cases ss with
  | nil =>
    obtain rfl : closed = true := by simpa using ended
    simp [chunk]
  | cons t ss => simp [chunk]

/-- A statement that is passed as a whole and has no white space to trim. -/
structure Whole (opts : SplitOptions) (s : Text) : Prop where
  passes : ∀ rest, rest.head?.all (· = ';') = true → Passes opts s rest
  first : s.head?.any (fun c => !isWhitespace c) = true
  last : s.getLast?.any (fun c => !isWhitespace c) = true

variable {s : Text}

theorem white_notWord (space : isWhitespace c = true) : isWordByte c = false := by
  have letter : c.isAlphanum = false := by
    by_contra letter
    rw [alphanum_dark (by simpa using letter)] at space
    cases space
  have underscore : (c == '_') = false := by
    rw [beq_eq_false_iff_ne]
    rintro rfl
    cases space
  rw [isWordByte, letter, underscore]
  rfl

theorem white_plain (space : isWhitespace c = true) : isPlain c = true := by
  have ne {d : Char} (other : isWhitespace d = false) : c ≠ d := by
    rintro rfl
    simp [space] at other
  simp (disch := decide) [isPlain, isQuote, ne]

theorem white_startsWord (space : isWhitespace c = true) : startsWord opts c = false := by
  have other := white_notWord space
  simp only [isWordByte, Char.isAlphanum, Bool.or_eq_false_iff] at other
  simp [startsWord, other.1.1]

private theorem white_passes (white : ∀ c ∈ gap, isWhitespace c = true) (rest : Text) : Passes opts gap rest :=
  passes_plains (fun c mem => ⟨white_plain (white c mem), white_startsWord (white c mem)⟩) rest

private theorem emit_whole (white : ∀ c ∈ gap, isWhitespace c = true) (whole : Whole opts s) (segment : state.segment = gap ++ s)
    (room : ∀ n ∈ limit, state.out.length < n) : state.emit limit = some { out := state.out ++ [s] } := by
  have nonempty : s ≠ [] := by
    rintro rfl
    have first := whole.first
    cases first
  have free : limit.any (· ≤ state.out.length) = false := by
    cases limit with
    | none => rfl
    | some n => simpa using room n rfl
  rw [SplitState.emit, segment, trim_gap white whole.first whole.last]
  simp [nonempty, free]

theorem splitFrom_whole {front : Text} {done : List Text}
    (leading : ∀ c ∈ front, isWhitespace c = true) (white : ∀ c ∈ gap, isWhitespace c = true) (whole : Whole opts s)
    (room : ∀ n ∈ limit, done.length < n) (rest : Text) :
    splitFrom opts limit 0 { out := done, segment := front } (s ++ ';' :: (gap ++ rest)) =
      splitFrom opts limit 0 { out := done ++ [s], segment := gap } rest := by
  rw [whole.passes (';' :: (gap ++ rest)) rfl limit _ ⟨rfl, rfl⟩, splitFrom, if_pos rfl]
  have emitted : (pushText { out := done, segment := front } s).emit limit = some { out := done ++ [s] } :=
    emit_whole leading whole rfl room
  have open_ : (pushText { out := done, segment := front } s).trigger = false := rfl
  simp only [open_, Bool.and_false, Bool.false_and, Bool.false_eq_true, if_false, emitted]
  exact white_passes white rest limit _ ⟨rfl, rfl⟩

theorem splitFrom_chunk (white : ∀ c ∈ gap, isWhitespace c = true) (closed : Bool)
    {done : List Text} (whole : ∀ s ∈ ss, Whole opts s) {front : Text} (leading : ∀ c ∈ front, isWhitespace c = true)
    (room : ∀ n ∈ limit, done.length + ss.length ≤ n) :
    splitFrom opts limit 0 { out := done, segment := front } (chunk gap closed ss) = some (done ++ ss) := by
  have blank {front : Text} (leading : ∀ c ∈ front, isWhitespace c = true) (done : List Text) :
      (SplitState.emit { out := done, segment := front } limit).map SplitState.out = some done := by
    have empty : trim front = [] := by
      rw [trim, trimStart, dropWhile_eq_nil_iff.mpr leading]
      rfl
    simp [SplitState.emit, empty]
  induction ss generalizing done front with
  | nil => simpa [chunk, splitFrom] using blank leading done
  | cons s ss ih =>
    have first := whole s (by simp)
    have free : ∀ n ∈ limit, done.length < n := fun n mem => by
      have := room n mem
      simp at this
      omega
    have more : splitFrom opts limit 0 { out := done ++ [s], segment := gap } (chunk gap closed ss) = some (done ++ [s] ++ ss) :=
      ih (fun u mem => whole u (by simp [mem])) white fun n mem => by
        have := room n mem
        simp at this ⊢
        omega
    rw [append_assoc] at more
    by_cases ended : closed = true ∨ ss ≠ []
    · rw [chunk_cons s ended, splitFrom_whole leading white first free, more]
      rfl
    obtain ⟨rfl, rfl⟩ : closed = false ∧ ss = [] := by simpa using ended
    have passed := first.passes [] rfl limit { out := done, segment := front } ⟨rfl, rfl⟩
    rw [append_nil] at passed
    rw [show chunk gap false [s] = s from rfl, passed, splitFrom, emit_whole leading first rfl free]
    rfl

theorem splitStatements_chunk (white : ∀ c ∈ gap, isWhitespace c = true) (closed : Bool)
    (whole : ∀ s ∈ ss, Whole opts s) : splitStatements (chunk gap closed ss) opts = ss := by
  have split : splitFrom opts none 0 { out := [], segment := [] } (chunk gap closed ss) = some ([] ++ ss) :=
    splitFrom_chunk white closed whole (by simp) (by simp)
  rw [splitStatements, splitStatementsWithLimit, split]
  rfl

end Ramag.SplitRules
