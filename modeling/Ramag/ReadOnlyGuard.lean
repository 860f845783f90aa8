import Mathlib
import Ramag.Lexing
import Ramag.Sql

/-!
The read-only guard against a server's lexer. The guard looks at the mask of a
statement; a dialect is followed when every lexeme of an agreed shape is either
blanked as a whole or shown as it stands. Then a write keyword that the server
reads is a word of the mask, and the word that begins the statement is the
first keyword of the mask.
-/
namespace Ramag.ReadOnlyGuard
open Strings Domain Sql Lexing List

variable {c : Char}

theorem toUpper_of_not_alpha (other : c.isAlpha = false) : c.toUpper = c :=
  Char.toUpper_eq_of_not_isLower fun lower => by simp [Char.isAlpha, lower] at other

theorem toUpper_eq_iff {c d : Char} (other : d.isAlpha = false) : c.toUpper = d ↔ c = d := by
  constructor
  · rintro rfl
    rw [Char.isAlpha_toUpper_eq_isAlpha] at other
    exact (toUpper_of_not_alpha other).symm
  · rintro rfl
    exact toUpper_of_not_alpha other

variable {p : Char → Bool}

private theorem test_toUpper (letters : ∀ c, c.isAlpha = true → p c = false) (c : Char) : p c.toUpper = p c := by
  by_cases letter : c.isAlpha = true
  · rw [letters c letter, letters _ (by simpa using letter)]
  · rw [toUpper_of_not_alpha (by simpa using letter)]

@[simp] theorem isWordByte_toUpper (c : Char) : isWordByte c.toUpper = isWordByte c := by
  have rest := test_toUpper (p := fun c => c.isDigit || c == '_')
    (fun c letter => by
      have range := alpha_range letter
      have digit : c.isDigit = false := by
        simp only [Char.isDigit, UInt32.le_iff_toNat_le, Bool.and_eq_false_iff, decide_eq_false_iff_not]
        have value : c.toNat = c.val.toNat := rfl
        have marks : '0'.val.toNat = 48 ∧ '9'.val.toNat = 57 := ⟨rfl, rfl⟩
        omega
      simpa [digit] using ne_of_alpha letter (by decide)) c
  simp [isWordByte, Char.isAlphanum, Bool.or_assoc, rest]

theorem white_of_alpha (letter : c.isAlpha = true) : isAsciiWhitespace c = false := by
  simp only [isAsciiWhitespace, Bool.or_eq_false_iff, beq_eq_false_iff_ne]
  refine ⟨⟨⟨⟨?_, ?_⟩, ?_⟩, ?_⟩, ?_⟩ <;> exact ne_of_alpha letter (by decide)

@[simp] theorem isAsciiWhitespace_toUpper (c : Char) : isAsciiWhitespace c.toUpper = isAsciiWhitespace c := by
  exact test_toUpper (fun c letter => white_of_alpha letter) c

theorem isWordByte_of_alpha (letter : c.isAlpha = true) : isWordByte c = true := by simp [isWordByte, Char.isAlphanum, letter]

@[simp] theorem toAsciiUppercase_append (s t : Text) :
    toAsciiUppercase (s ++ t) = toAsciiUppercase s ++ toAsciiUppercase t := map_append

@[simp] theorem toAsciiUppercase_cons (c : Char) (t : Text) :
    toAsciiUppercase (c :: t) = c.toUpper :: toAsciiUppercase t := rfl

@[simp] theorem toAsciiUppercase_blanks (n : Nat) :
    toAsciiUppercase (List.replicate n ' ') = List.replicate n ' ' := by
  simp [toAsciiUppercase]

private theorem WRITE_INNER_letters : ∀ word ∈ WRITE_INNER, ∀ c ∈ word, c.isAlpha = true := by simp [WRITE_INNER]

@[simp] theorem mask_nil : sqlCodeForWriteCheck [] = [] := rfl

private theorem mask_skip (n : Nat) (blank : Bool) (t : Text) : maskFrom n blank t =
      (if blank then List.replicate (t.take n).length ' ' else t.take n) ++ sqlCodeForWriteCheck (t.drop n) := by
  induction t generalizing n with
  | nil => cases n <;> cases blank <;> simp [maskFrom]
  | cons c t ih =>
    cases n with
    | zero => cases blank <;> rfl
    | succ n => cases blank <;> simp [maskFrom, ih, replicate_succ]

variable {t : Text}

variable {n : Nat}

theorem mask_blanked (jump : maskJump t = (n + 1, true)) (fits : n < t.length) :
    sqlCodeForWriteCheck t = List.replicate (n + 1) ' ' ++ sqlCodeForWriteCheck (t.drop (n + 1)) := by
  cases t with
  | nil => simp at fits
  | cons c t =>
    have inside : min n t.length = n := by simp at fits; omega
    rw [sqlCodeForWriteCheck, maskFrom, jump]
    simp [mask_skip, inside, replicate_succ]

theorem mask_kept (n : Nat) (kept : ∀ i < n, i < t.length → maskJump (t.drop i) = (1, false)) :
    sqlCodeForWriteCheck t = t.take n ++ sqlCodeForWriteCheck (t.drop n) := by
  induction n generalizing t with
  | zero => simp
  | succ n ih =>
    cases t with
    | nil => simp
    | cons c t =>
      have first : maskJump (c :: t) = (1, false) := kept 0 (by omega) (by simp)
      have others := ih (t := t) fun i small inside => kept (i + 1) (by omega) (by simpa using inside)
      rw [sqlCodeForWriteCheck, maskFrom, first]
      simpa [mask_skip] using others

theorem mask_head (first : (sqlCodeForWriteCheck t).head? = some c) : c = ' ' ∨ t.head? = some c := by
  cases t with
  | nil => simp at first
  | cons d t =>
    rw [sqlCodeForWriteCheck, maskFrom] at first
    by_cases blank : (maskJump (d :: t)).2 = true
    · simp only [blank, if_true, head?_cons, Option.some.injEq] at first
      exact .inl first.symm
    · simp only [blank, if_false, Bool.false_eq_true, head?_cons] at first
      exact .inr first

private theorem firstKeyword_white (white : isAsciiWhitespace c = true) (t : Text) : firstKeyword (c :: t) = firstKeyword t := by
  simp [firstKeyword, firstKeywordFrom, white]

theorem firstKeyword_skip {w : Text} (white : ∀ c ∈ w, isAsciiWhitespace c = true) (t : Text) : firstKeyword (w ++ t) = firstKeyword t := by
  induction w with
  | nil => rfl
  | cons c w ih => rw [cons_append, firstKeyword_white (white c (by simp)), ih fun d mem => white d (by simp [mem])]

theorem firstKeyword_here (dark : isAsciiWhitespace c = false)
    (line : c = '-' → t.head? ≠ some '-') (block : c = '/' → t.head? ≠ some '*') : firstKeyword (c :: t) =
      if ((c :: t).takeWhile Char.isAlpha).isEmpty then none else some (toAsciiUppercase ((c :: t).takeWhile Char.isAlpha)) := by
  have noLine : (c = '-' && t.head? = some '-') = false := by
    by_cases dash : c = '-' <;> simp [dash]
    exact line dash
  have noBlock : (c = '/' && t.head? = some '*') = false := by
    by_cases slash : c = '/' <;> simp [slash]
    exact block slash
  simp [firstKeyword, firstKeywordFrom, dark, noLine, noBlock]

private theorem containsWordFrom_append {word : Text} (pre t : Text) {before : Option Char}
    (found : containsWordFrom word (pre.getLast?.or before) t = true) : containsWordFrom word before (pre ++ t) = true := by
  induction pre generalizing before with
  | nil => simpa using found
  | cons c pre ih =>
    have inner : containsWordFrom word (some c) (pre ++ t) = true := by
      refine ih ?_
      rw [getLast?_cons] at found
      cases last : pre.getLast? <;> simpa [last] using found
    simp [containsWordFrom, inner]

theorem containsWord_between {word : Text} (nonempty : word ≠ []) {pre post : Text} (left : wordEdge pre.getLast?)
    (right : wordEdge post.head?) : containsWord (pre ++ word ++ post) word = true := by
  rw [containsWord, append_assoc]
  refine containsWordFrom_append pre (word ++ post) ?_
  rw [Option.or_none]
  obtain ⟨c, rest, rfl⟩ := exists_cons_of_ne_nil nonempty
  have starts : (c :: rest).isPrefixOf (c :: (rest ++ post)) = true := by simp
  have after : (c :: (rest ++ post)).drop (c :: rest).length = post := by simp
  rw [cons_append, containsWordFrom, starts, after, left, right]
  rfl

theorem getFrom_append (a b : Text) : getFrom (byteLen a) (a ++ b) = some b := by
  induction a with
  | nil => cases b <;> rfl
  | cons c a ih =>
    have positive := c.utf8Size_pos
    obtain ⟨n, size⟩ : ∃ n, c.utf8Size + byteLen a = n + 1 := ⟨c.utf8Size + byteLen a - 1, by omega⟩
    have left : n + 1 - c.utf8Size = byteLen a := by omega
    rw [byteLen_cons, size, cons_append, getFrom, if_pos (by omega), left, ih]

/-- The lexemes that the guard has to blank; it shows the others. -/
def blanked : Kind → Bool
  | .lineComment | .blockComment | .literal | .escapeLiteral | .dollarLiteral | .quotedIdentifier | .versionOpen => true
  | _ => false

private theorem not_code_of_blanked {kind : Kind} (blank : blanked kind = true) : kind.isCode = false := by
  cases kind <;> first | rfl | cases blank

/-- The guard moves over the lexeme as over a lexeme of its kind. -/
def Masked (x : Lexeme) : Prop :=
  if blanked x.kind then maskJump x.here = (x.length, true)
  else ∀ i < x.length, maskJump (x.here.drop i) = (1, false)

def rendered (x : Lexeme) : Text := if blanked x.kind then List.replicate x.length ' ' else x.raw

/-- The mask of the text from the lexeme on is the lexeme as the guard shows it
    and the mask of what follows. -/
def Shown (x : Lexeme) : Prop := sqlCodeForWriteCheck x.here = rendered x ++ sqlCodeForWriteCheck x.rest

variable {x : Lexeme}

theorem Masked.shown_visible (masked : Masked x) (visible : blanked x.kind = false) : Shown x := by
  rw [Masked, if_neg (by simp [visible])] at masked
  rw [Shown, rendered, if_neg (by simp [visible])]
  exact mask_kept x.length fun i small _ => masked i small

theorem Masked.shown (masked : Masked x) (positive : 0 < x.length) (more : x.rest ≠ []) : Shown x := by
  have fits : x.length < x.here.length := by
    rw [Lexeme.rest, Ne, drop_eq_nil_iff] at more
    omega
  by_cases blank : blanked x.kind = true
  · rw [Masked, if_pos blank] at masked
    obtain ⟨n, size⟩ : ∃ n, x.length = n + 1 := ⟨x.length - 1, by omega⟩
    rw [Shown, rendered, if_pos blank, Lexeme.rest, size]
    exact mask_blanked (size ▸ masked) (by omega)
  · exact masked.shown_visible (by simpa using blank)

private theorem maskJump_alpha (letter : c.isAlpha = true) (t : Text) : maskJump (c :: t) = (1, false) := by
  have single := ne_of_alpha letter (d := '\'') (by decide)
  have double := ne_of_alpha letter (d := '"') (by decide)
  have back := ne_of_alpha letter (d := '`') (by decide)
  have dollar := ne_of_alpha letter (d := '$') (by decide)
  have dash := ne_of_alpha letter (d := '-') (by decide)
  have slash := ne_of_alpha letter (d := '/') (by decide)
  simp [maskJump, isQuote, single, double, back, dollar, dash, slash]

private theorem raw_get {i : Nat} (small : i < x.length) (inside : i < x.here.length) :
    ∃ c ∈ x.raw, x.here.drop i = c :: x.here.drop (i + 1) := by
  refine ⟨x.here[i], ?_, by simp⟩
  rw [Lexeme.raw, List.mem_take_iff_getElem]
  exact ⟨i, by omega, rfl⟩

theorem letters_masked (word : x.kind = .word) (letters : ∀ c ∈ x.raw, c.isAlpha = true) (fits : x.length ≤ x.here.length) : Masked x := by
  rw [Masked, if_neg (by simp [word, blanked])]
  intro i small
  obtain ⟨c, mem, here⟩ := raw_get small (by omega)
  rw [here, maskJump_alpha (letters c mem)]

/-- No dollar sign of the lexeme opens a dollar quote for the guard. -/
def NoDollarQuote (x : Lexeme) : Prop :=
  ∀ i < x.length, (x.here.drop i).head? = some '$' → scanDollarQuoted (x.here.drop i) = none

instance : DecidablePred NoDollarQuote := fun x => inferInstanceAs (Decidable (∀ i < x.length, _))

theorem blockSkip_eq_flatSkip (t : Text) : blockSkip t = flatSkip t := by
  induction t using flatSkip.induct with
  | case1 t => rfl
  | case2 c t other ih => rw [blockSkip, flatSkip, ih] <;> assumption
  | case3 => rfl

theorem maskedSkip_eq_escapedSkip (quote : Char) : ∀ t : Text, maskedSkip quote t = escapedSkip quote t
  | [] => rfl
  | [_] => rfl
  | c :: d :: t => by simp [maskedSkip, escapedSkip, maskedSkip_eq_escapedSkip quote t, maskedSkip_eq_escapedSkip quote (d :: t)]

theorem identStart_range (start : isIdentStart c = true) : 65 ≤ c.toNat ∧ c.toNat ≠ 96 := by
  simp only [isIdentStart, Bool.or_eq_true, beq_iff_eq, decide_eq_true_eq] at start
  rcases start with (letter | rfl) | wide
  · have := alpha_range letter
    omega
  · decide
  · omega

theorem tagCont_range (inside : isTagCont c = true) : 48 ≤ c.toNat ∧ c.toNat ≠ 96 := by
  simp only [isTagCont, Bool.or_eq_true] at inside
  rcases inside with start | digit
  · have := identStart_range start
    omega
  · have := digit_range digit
    omega

theorem tagCont_of_wordByte (inside : isWordByte c = true) : isTagCont c = true := by
  simp only [isWordByte, Char.isAlphanum, Bool.or_eq_true, beq_iff_eq] at inside
  rcases inside with (letter | digit) | rfl
  · simp [isTagCont, isIdentStart, letter]
  · simp [isTagCont, digit]
  · decide

theorem plain_jump (plain : 48 ≤ c.toNat ∧ c.toNat ≠ 96) (t : Text) : maskJump (c :: t) = (1, false) := by
  have ne {d : Char} (other : d.toNat < 48 ∨ d.toNat = 96) : c ≠ d := by
    rintro rfl
    omega
  simp (disch := decide) [maskJump, isQuote, ne]

theorem maskJump_dollar (head : t.head? = some '$') (closed : scanDollarQuoted t = none) : maskJump t = (1, false) := by
  cases t with
  | nil => simp at head
  | cons c t =>
    obtain rfl : c = '$' := by simpa using head
    simp [maskJump, isQuote, closed]

/-- Over the given number of characters the mask moves one at a time. -/
def Calm (t : Text) (n : Nat) : Prop := ∀ i < n, maskJump (t.drop i) = (1, false)

theorem Calm.append {m : Nat} (first : Calm t n) (second : Calm (t.drop n) m) : Calm t (n + m) := by
  intro i small
  by_cases inside : i < n
  · exact first i inside
  · have later := second (i - n) (by omega)
    rwa [drop_drop, show n + (i - n) = i by omega] at later

theorem calm_zero (t : Text) : Calm t 0 := fun i small => absurd small (Nat.not_lt_zero i)

theorem Calm.mono {m : Nat} (calm : Calm t n) (fewer : m ≤ n) : Calm t m :=
  fun i small => calm i (by omega)

theorem calm_one (jump : maskJump t = (1, false)) : Calm t 1 := by
  intro i small
  obtain rfl : i = 0 := by omega
  exact jump

theorem calm_run (alone : ∀ c, p c = true → ∀ u, maskJump (c :: u) = (1, false)) (t : Text) : Calm t (t.takeWhile p).length := by
  induction t with
  | nil => exact calm_zero []
  | cons c t ih =>
    by_cases inside : p c = true
    · rw [takeWhile_cons, if_pos inside, length_cons, Nat.add_comm]
      exact (calm_one (alone c inside t)).append ih
    · rw [takeWhile_cons, if_neg inside]
      exact calm_zero _

theorem run_masked (visible : blanked x.kind = false)
    (plain : ∀ c ∈ x.raw, (∀ t, maskJump (c :: t) = (1, false)) ∨ c = '$') (fits : x.length ≤ x.here.length)
    (noDollar : NoDollarQuote x) : Masked x := by
  rw [Masked, if_neg (by simp [visible])]
  intro i small
  have step : x.here.drop i = x.here[i] :: x.here.drop (i + 1) := by simp
  have mem : x.here[i] ∈ x.raw := by
    rw [Lexeme.raw, List.mem_take_iff_getElem]
    exact ⟨i, by omega, rfl⟩
  rcases plain _ mem with alone | dollar
  · rw [step]
    exact alone _
  · refine maskJump_dollar ?_ (noDollar i small ?_) <;> rw [step, dollar] <;> rfl

theorem noDollarQuote_of_not_mem (none : '$' ∉ x.raw) : NoDollarQuote x := by
  intro i small head
  refine absurd ?_ none
  rw [List.head?_drop] at head
  obtain ⟨inside, get⟩ := List.getElem?_eq_some_iff.mp head
  rw [Lexeme.raw, List.mem_take_iff_getElem]
  exact ⟨i, by omega, get⟩

theorem space_range (space : isSpace c = true) : isAsciiWhitespace c = true ∨ c = '\x0b' := by
  simp only [isSpace, Bool.or_eq_true, beq_iff_eq] at space
  rcases space with ((((rfl | rfl) | rfl) | rfl) | rfl) | rfl <;> simp [isAsciiWhitespace]

theorem isSpace_jump (space : isSpace c = true) (t : Text) : maskJump (c :: t) = (1, false) := by
  simp only [isSpace, Bool.or_eq_true, beq_iff_eq] at space
  rcases space with ((((rfl | rfl) | rfl) | rfl) | rfl) | rfl <;> rfl

theorem wordByte_false (other : isTagCont c = false) : isWordByte c = false := by
  by_contra inside
  simp [tagCont_of_wordByte (by simpa using inside)] at other

theorem alpha_not_space (letter : c.isAlpha = true) : isSpace c = false := by
  have range := alpha_range letter
  by_contra space
  rcases space_range (by simpa using space) with white | rfl
  · simp [white_of_alpha letter] at white
  · simp at range

theorem ident_solid (inside : isIdentCont c = true) : isAsciiWhitespace c = false ∧ c ≠ '-' ∧ c ≠ '/' := by
  simp only [isIdentCont, Bool.or_eq_true, beq_iff_eq] at inside
  rcases inside with tag | rfl
  · have range := tagCont_range tag
    have ne {d : Char} (other : d.toNat < 48) : c ≠ d := by
      rintro rfl
      omega
    simp (disch := decide) [isAsciiWhitespace, ne]
  · decide

/-! ### Words and white space of either dialect -/

section
variable {c : Char} (t : Text)

/-- An identifier run and the white space run that begin with `c`. -/
def identRun (c : Char) (t : Text) : Lexeme := ⟨.word, c :: t, (t.takeWhile isIdentCont).length + 1⟩
def spaceRun (c : Char) (t : Text) : Lexeme := ⟨.space, c :: t, (t.takeWhile isSpace).length + 1⟩

private theorem run_fits (p : Char → Bool) : (t.takeWhile p).length + 1 ≤ (c :: t).length := by
  have := (takeWhile_sublist p (l := t)).length_le
  simpa using this

theorem identRun_masked (start : isIdentCont c = true) (noDollar : NoDollarQuote (identRun c t)) : Masked (identRun c t) := by
  refine run_masked rfl ?_ (run_fits t isIdentCont) noDollar
  simp only [identRun, Lexeme.raw, take_run]
  intro d mem
  have inside := mem_run start d mem
  simp only [isIdentCont, Bool.or_eq_true, beq_iff_eq] at inside
  exact inside.imp_left fun tag => plain_jump (tagCont_range tag)

theorem identRun_word (start : isIdentCont c = true) : (identRun c t).length ≤ (c :: t).length ∧
    (∀ d ∈ (identRun c t).raw, isAsciiWhitespace d = false ∧ d ≠ '-' ∧ d ≠ '/') ∧ wordEdge (identRun c t).rest.head? := by
  refine ⟨run_fits t isIdentCont, ?_, ?_⟩
  · simp only [identRun, Lexeme.raw, take_run]
    exact fun d mem => ident_solid (mem_run start d mem)
  cases head : (identRun c t).rest.head? with
  | none => rfl
  | some d =>
    have stop := run_stops (p := isIdentCont) (t := t) (by simpa [identRun, Lexeme.rest] using head)
    simp only [isIdentCont, Bool.or_eq_false_iff] at stop
    simp [wordEdge, wordByte_false stop.1]

theorem spaceRun_spaces (space : isSpace c = true) : ∀ d ∈ (spaceRun c t).raw, isSpace d = true := by
  simp only [spaceRun, Lexeme.raw, take_run]
  exact mem_run space

theorem spaceRun_masked (space : isSpace c = true) : Masked (spaceRun c t) := by
  refine run_masked rfl ?_ (run_fits t isSpace) (noDollarQuote_of_not_mem ?_)
  · exact fun d mem => .inl (isSpace_jump (spaceRun_spaces t space d mem))
  · exact fun dollar => absurd (spaceRun_spaces t space _ dollar) (by decide)

theorem spaceRun_edge (space : isSpace c = true) : wordEdge (spaceRun c t).raw.getLast? := by
  cases last : (spaceRun c t).raw.getLast? with
  | none => rfl
  | some d =>
    have white := spaceRun_spaces t space d (mem_of_getLast? last)
    simp only [isSpace, Bool.or_eq_true, beq_iff_eq] at white
    rcases white with ((((rfl | rfl) | rfl) | rfl) | rfl) | rfl <;> rfl

end

theorem isSpace_of_white (white : isAsciiWhitespace c = true) : isSpace c = true := by
  simp only [isAsciiWhitespace, Bool.or_eq_true, beq_iff_eq] at white
  rcases white with (((rfl | rfl) | rfl) | rfl) | rfl <;> rfl

/-- What a dialect owes to the guard: the lexemes of an agreed shape are masked
    by their kind, a word ends where the guard sees it end, and white space and
    letters open the lexemes that they open for the guard. -/
structure Followed {σ : Type} (next : Next σ) (Alike : Lexeme → Prop) : Prop where
  masked : ∀ {s t}, t ≠ [] → Alike (lexemeAt next s t) → (lexemeAt next s t).rest ≠ [] → Masked (lexemeAt next s t)
  apart : ∀ {s t c}, t ≠ [] → Alike (lexemeAt next s t) → blanked (lexemeAt next s t).kind = false →
    (lexemeAt next s t).rest.head? = some c → isWordByte c = true → wordEdge (lexemeAt next s t).raw.getLast?
  word : ∀ {s t}, t ≠ [] → (lexemeAt next s t).kind = .word → (lexemeAt next s t).length ≤ t.length ∧
    (∀ c ∈ (lexemeAt next s t).raw, isAsciiWhitespace c = false ∧ c ≠ '-' ∧ c ≠ '/') ∧ wordEdge (lexemeAt next s t).rest.head?
  space : ∀ {s t}, t ≠ [] → (lexemeAt next s t).kind = .space → ∀ c ∈ (lexemeAt next s t).raw, isAsciiWhitespace c = true ∨ c = '\x0b'
  opensSpace : ∀ {s c t}, isAsciiWhitespace c = true → (lexemeAt next s (c :: t)).kind = .space
  opensWord : ∀ {s c t}, c.isAlpha = true → (lexemeAt next s (c :: t)).kind = .word

/-- The keyword of a word: the letters that it begins with, in upper case. -/
def keyword (x : Lexeme) : Text := toAsciiUppercase (x.raw.takeWhile Char.isAlpha)

/-- White space without a vertical tab, comments, and what else is blanked. -/
def Leading (x : Lexeme) : Prop := blanked x.kind = true ∨ (x.kind = .space ∧ '\x0b' ∉ x.raw)

instance : DecidablePred Leading := fun _ => inferInstanceAs (Decidable (_ ∨ _))

/-- The statement begins with a keyword that is not known to be safe. -/
def BeginsUnsafe (pre : List Lexeme) (x : Lexeme) : Prop :=
  (∀ y ∈ pre, Leading y) ∧ x.kind = .word ∧ x.raw.all Char.isAlpha = true ∧ toAsciiUppercase x.raw ∉ SAFE_LEADING

/-- The first words of a `SHOW CREATE …` statement. -/
def ShowsCreate (xs : List Lexeme) : Prop :=
  ∃ a b more, xs.filter (·.kind.isCode) = a :: b :: more ∧ a.kind = .word ∧ keyword a = "SHOW" ∧ b.kind = .word ∧ keyword b = "CREATE"

/-- A write keyword, other than the `CREATE` of a `SHOW CREATE …` statement. -/
def Writes (xs : List Lexeme) (x : Lexeme) : Prop :=
  x.kind = .word ∧ toAsciiUppercase x.raw ∈ WRITE_INNER ∧ ¬ (toAsciiUppercase x.raw = "CREATE" ∧ ShowsCreate xs)

private theorem rendered_upper (visible : blanked x.kind = false) : rendered x = x.raw := by rw [rendered, if_neg (by simp [visible])]

private theorem wordEdge_upper (c : Option Char) : wordEdge (c.map Char.toUpper) = wordEdge c := by
  cases c <;> simp [wordEdge]

private theorem wordEdge_mask (edge : wordEdge t.head?) : wordEdge (sqlCodeForWriteCheck t).head? := by
  cases first : (sqlCodeForWriteCheck t).head? with
  | none => rfl
  | some c =>
    rcases mask_head first with rfl | same
    · rfl
    · rwa [same] at edge

private theorem head_not_alpha {c : Option Char} (edge : wordEdge c) : ∀ d ∈ c, d.isAlpha = false := by
  rintro d rfl
  by_cases letter : d.isAlpha = true
  · simp [wordEdge, isWordByte_of_alpha letter] at edge
  · simpa using letter

private theorem takeWhile_append_edge (a : Text) {b : Text} (edge : ∀ d ∈ b.head?, p d = false) : (a ++ b).takeWhile p = a.takeWhile p := by
  induction a with
  | nil =>
    cases b with
    | nil => rfl
    | cons d b => simp [edge d (by simp)]
  | cons c a ih => by_cases inside : p c = true <;> simp [inside, ih]

private theorem takeWhile_alpha_upper (t : Text) :
    (toAsciiUppercase t).takeWhile Char.isAlpha = toAsciiUppercase (t.takeWhile Char.isAlpha) := by
  induction t with
  | nil => rfl
  | cons c t ih => by_cases letter : c.isAlpha = true <;> simp_all [toAsciiUppercase]

private theorem toAsciiUppercase_idem (t : Text) : toAsciiUppercase (toAsciiUppercase t) = toAsciiUppercase t := by simp [toAsciiUppercase]

private theorem leading_letters (visible : blanked x.kind = false) (shown : Shown x) (ends : wordEdge x.rest.head?) :
    (toAsciiUppercase (sqlCodeForWriteCheck x.here)).takeWhile Char.isAlpha = keyword x := by
  have after := head_not_alpha (wordEdge_mask ends)
  rw [takeWhile_alpha_upper, shown, rendered_upper visible, takeWhile_append_edge x.raw after, keyword]

section
variable {σ : Type} {next : Next σ} {Alike : Lexeme → Prop}

variable {x : Lexeme} {s : σ}

private theorem shown_of_word (followed : Followed next Alike) (first : x = lexemeAt next s x.here)
    (nonempty : x.here ≠ []) (word : x.kind = .word) (letters : ∀ c ∈ x.raw, c.isAlpha = true) : Masked x ∧ Shown x := by
  have fits := (followed.word (s := s) nonempty (first ▸ word)).1
  rw [← first] at fits
  have masked := letters_masked word letters fits
  exact ⟨masked, masked.shown_visible (by simp [word, blanked])⟩

variable {pre post : List Lexeme} {t : Text}

private theorem masked_of_alike (followed : Followed next Alike)
    {x y : Lexeme} (lexed : lex next s t = pre ++ x :: post) (mem : y ∈ pre) (alike : Alike y) : Masked y ∧ Shown y := by
  obtain ⟨front, back, split⟩ := append_of_mem mem
  rw [split, append_assoc] at lexed
  obtain ⟨s', first, nonempty, tail, _⟩ := lex_split next lexed
  obtain ⟨_, _, _, others⟩ := lex_eq_cons next tail
  have more : y.rest ≠ [] := by
    intro empty
    rw [empty] at others
    simp at others
  have masked := followed.masked (s := s') nonempty (first ▸ alike) (first ▸ more)
  rw [← first] at masked
  exact ⟨masked, masked.shown (by rw [first]; exact Nat.succ_pos _) more⟩

theorem mask_front (followed : Followed next Alike) (lexed : lex next s t = pre ++ x :: post) (alike : ∀ y ∈ pre, Alike y) :
    sqlCodeForWriteCheck t = pre.flatMap rendered ++ sqlCodeForWriteCheck x.here := by
  refine image_front (fun s t nonempty same more => ?_) lexed alike
  exact (followed.masked nonempty same more).shown (by simp [lexemeAt]) more

variable {c : Char}

private theorem front_edge (followed : Followed next Alike)
    (lexed : lex next s t = pre ++ x :: post) (alike : ∀ y ∈ pre, Alike y) (first : x.here.head? = some c)
    (inside : isWordByte c = true) : wordEdge (pre.flatMap rendered).getLast? := by
  rcases eq_nil_or_concat pre with rfl | ⟨front, y, rfl⟩
  · rfl
  rw [concat_eq_append, append_assoc] at lexed
  obtain ⟨s', same, nonempty, _, _⟩ := lex_split next lexed
  have next_here := lex_next_here next lexed
  have agreed : Alike y := alike y (by simp)
  have size : y.length = (next s' y.here).2.1 + 1 := congrArg Lexeme.length same
  rw [concat_eq_append, flatMap_append, flatMap_singleton]
  by_cases blank : blanked y.kind = true
  · simp [rendered, blank, size, wordEdge, replicate_succ', isWordByte]
  have edge := followed.apart (s := s') nonempty (same ▸ agreed) (by rw [← same]; simpa using blank)
    (by rw [← same, next_here]; exact first) inside
  rw [← same] at edge
  have full : y.raw ≠ [] := by simp [Lexeme.raw, size, nonempty]
  rw [rendered_upper (by simpa using blank), getLast?_append_of_ne_nil _ full]
  exact edge

variable {w : Text}

private theorem upper_letters (upper : toAsciiUppercase x.raw = w)
    (letters : ∀ c ∈ w, c.isAlpha = true) : ∀ c ∈ x.raw, c.isAlpha = true := by
  intro c mem
  have inside : c.toUpper ∈ w := upper ▸ mem_map_of_mem mem
  simpa using letters _ inside

theorem word_found (followed : Followed next Alike)
    (lexed : lex next s t = pre ++ x :: post) (alike : ∀ y ∈ pre, Alike y) (word : x.kind = .word)
    (letters : ∀ c ∈ x.raw, c.isAlpha = true) :
    containsWord (toAsciiUppercase (sqlCodeForWriteCheck t)) (toAsciiUppercase x.raw) = true := by
  obtain ⟨s', first, nonempty, _, _⟩ := lex_split next lexed
  have shown := (shown_of_word followed first nonempty word letters).2
  have ends := (followed.word (s := s') nonempty (first ▸ word)).2.2
  rw [← first] at ends
  have size : x.length = (next s' x.here).2.1 + 1 := congrArg Lexeme.length first
  obtain ⟨c, others, here⟩ := exists_cons_of_ne_nil nonempty
  have raw : x.raw = c :: others.take (next s' x.here).2.1 := by simp [Lexeme.raw, here, size]
  have left := front_edge followed lexed alike (c := c) (by simp [here])
    (isWordByte_of_alpha (letters c (by simp [raw])))
  rw [mask_front followed lexed alike, shown, rendered_upper (by simp [word, blanked]), ← append_assoc,
    toAsciiUppercase_append, toAsciiUppercase_append]
  refine containsWord_between (by simp [raw]) ?_ ?_
  · rw [toAsciiUppercase, getLast?_map, wordEdge_upper]
    exact left
  · rw [toAsciiUppercase, head?_map, wordEdge_upper]
    exact wordEdge_mask ends

private theorem leading_white (followed : Followed next Alike) (lexed : lex next s t = pre ++ post) (leading : ∀ y ∈ pre, Leading y) :
    ∀ c ∈ pre.flatMap rendered, isAsciiWhitespace c = true := by
  intro c mem
  obtain ⟨y, inside, shown⟩ := mem_flatMap.mp mem
  obtain ⟨front, back, split⟩ := append_of_mem inside
  rw [split, append_assoc] at lexed
  obtain ⟨s', first, nonempty, _, _⟩ := lex_split next lexed
  rcases leading y inside with blank | ⟨space, noTab⟩
  · rw [rendered, if_pos blank] at shown
    rw [eq_of_mem_replicate shown]
    rfl
  rw [rendered_upper (by simp [space, blanked])] at shown
  rcases followed.space (s := s') nonempty (first ▸ space) c (first ▸ shown) with white | rfl
  · exact white
  · exact absurd shown noTab

theorem first_found (followed : Followed next Alike)
    (lexed : lex next s t = pre ++ x :: post) (alike : ∀ y ∈ pre, Alike y) (leading : ∀ y ∈ pre, Leading y)
    (word : x.kind = .word) (letters : ∀ c ∈ x.raw, c.isAlpha = true) :
    firstKeyword (toAsciiUppercase (sqlCodeForWriteCheck t)) = some (toAsciiUppercase x.raw) := by
  obtain ⟨s', first, nonempty, _, _⟩ := lex_split next lexed
  have shown := (shown_of_word followed first nonempty word letters).2
  have ends := (followed.word (s := s') nonempty (first ▸ word)).2.2
  rw [← first] at ends
  have white := leading_white followed lexed leading
  have letter : keyword x = toAsciiUppercase x.raw := by rw [keyword, takeWhile_eq_self_iff.mpr letters]
  have read := leading_letters (by simp [word, blanked]) shown ends
  have size : x.length = (next s' x.here).2.1 + 1 := congrArg Lexeme.length first
  obtain ⟨c, others, here⟩ := exists_cons_of_ne_nil nonempty
  have raw : x.raw = c :: others.take (next s' x.here).2.1 := by simp [Lexeme.raw, here, size]
  have alpha : c.toUpper.isAlpha = true := by simpa using letters c (by simp [raw])
  rw [mask_front followed lexed alike, toAsciiUppercase_append, firstKeyword_skip]
  · rw [letter] at read
    rw [shown, rendered_upper (by simp [word, blanked]), raw, cons_append, toAsciiUppercase_cons] at read ⊢
    rw [firstKeyword_here, read]
    · simp [toAsciiUppercase_idem]
    · simpa using white_of_alpha (by simpa using letters c (by simp [raw]))
    · intro dash
      exact absurd dash (ne_of_alpha alpha (by decide))
    · intro slash
      exact absurd slash (ne_of_alpha alpha (by decide))
  · intro d mem
    obtain ⟨e, inside, rfl⟩ := mem_map.mp mem
    simpa using white e inside

variable {kw : Text}

private theorem white_of_keyword {t : Text} (shape : ∀ c ∈ w, isAsciiWhitespace c = true ∨ c = '\x0b')
    (found : firstKeyword (w ++ t) = some kw) : ∀ c ∈ w, isAsciiWhitespace c = true := by
  induction w with
  | nil => simp
  | cons c w ih =>
    rcases shape c (by simp) with white | rfl
    · rw [cons_append, firstKeyword_white white] at found
      have inner := ih (fun d mem => shape d (by simp [mem])) found
      simpa [white] using inner
    · rw [cons_append, firstKeyword_here (by decide) (by simp) (by simp)] at found
      simp [Char.isAlpha, Char.isUpper, Char.isLower] at found

private theorem keyword_here {others : Text} (here : x.here = c :: others)
    (positive : 0 < x.length) (dark : isAsciiWhitespace c = false) (visible : blanked x.kind = false) (masked : Masked x)
    (found : firstKeyword (toAsciiUppercase (sqlCodeForWriteCheck x.here)) = some kw) :
    c.isAlpha = true ∧ kw = (toAsciiUppercase (sqlCodeForWriteCheck x.here)).takeWhile Char.isAlpha := by
  rw [Masked, if_neg (by simp [visible])] at masked
  have jump : maskJump (c :: others) = (1, false) := by simpa [here] using masked 0 positive
  have image : sqlCodeForWriteCheck (c :: others) = c :: sqlCodeForWriteCheck others := by
    rw [mask_kept 1 (by intro i small _; simpa [show i = 0 by omega] using jump)]
    rfl
  have second {d : Char} (other : d.isAlpha = false) (blank : d ≠ ' ')
      (head : (toAsciiUppercase (sqlCodeForWriteCheck others)).head? = some d) : others.head? = some d := by
    rw [toAsciiUppercase, head?_map, Option.map_eq_some_iff] at head
    obtain ⟨e, head, upper⟩ := head
    rw [toUpper_eq_iff other] at upper
    subst upper
    exact (mask_head head).resolve_left blank
  rw [here, image, toAsciiUppercase_cons] at found ⊢
  rw [firstKeyword_here (by simpa using dark)] at found
  · by_cases letter : c.isAlpha = true
    · simp only [takeWhile_cons, Char.isAlpha_toUpper_eq_isAlpha, letter, if_true, isEmpty_cons,
        Bool.false_eq_true, if_false, Option.some.injEq] at found ⊢
      rw [← found, toAsciiUppercase_cons, Char.toUpper_toUpper_eq_toUpper, takeWhile_alpha_upper, toAsciiUppercase_idem]
      exact ⟨trivial, rfl⟩
    · simp [letter] at found
  · intro dash head
    have dash : c = '-' := (toUpper_eq_iff (by decide)).mp dash
    have next := second (by decide) (by decide) head
    simp [maskJump, dash, isQuote, next] at jump
  · intro slash head
    have slash : c = '/' := (toUpper_eq_iff (by decide)).mp slash
    have next := second (by decide) (by decide) head
    have blanked := congrArg Prod.snd jump
    simp [maskJump, slash, isQuote, next] at blanked
    split at blanked <;> simp at blanked

private theorem first_code (followed : Followed next Alike) {xs post : List Lexeme} (lexed : lex next s t = xs ++ post)
    (read : ∀ y ∈ xs, Masked y ∧ Shown y) (some_word : ∃ y ∈ xs, y.kind = .word)
    (found : firstKeyword (toAsciiUppercase (sqlCodeForWriteCheck t)) = some kw) :
    ∃ lead f others w, xs = lead ++ f :: others ∧ (∀ y ∈ lead, y.kind.isCode = false) ∧ f.kind = .word ∧
      keyword f = kw ∧ kw ≠ [] ∧ (∀ c ∈ w, isAsciiWhitespace c = true) ∧ sqlCodeForWriteCheck t = w ++ sqlCodeForWriteCheck f.here := by
  induction xs generalizing s t with
  | nil => simp at some_word
  | cons y xs ih =>
    obtain ⟨first, here, nonempty, tail⟩ := lex_eq_cons next lexed
    obtain ⟨masked, shown⟩ := read y (by simp)
    have image : sqlCodeForWriteCheck t = rendered y ++ sqlCodeForWriteCheck y.rest := by rw [← here, shown]
    -- past a lexeme that is rendered as white space
    have skip (notCode : y.kind.isCode = false) (notWord : y.kind ≠ .word)
        (white : ∀ c ∈ toAsciiUppercase (rendered y), isAsciiWhitespace c = true) :
        ∃ lead f others w, y :: xs = lead ++ f :: others ∧ (∀ y ∈ lead, y.kind.isCode = false) ∧ f.kind = .word ∧
          keyword f = kw ∧ kw ≠ [] ∧ (∀ c ∈ w, isAsciiWhitespace c = true) ∧
          sqlCodeForWriteCheck t = w ++ sqlCodeForWriteCheck f.here := by
      rw [image, toAsciiUppercase_append, firstKeyword_skip white] at found
      obtain ⟨lead, f, others, w, split, quiet, word, same, full, blank, text⟩ :=
        ih tail (fun z mem => read z (by simp [mem])) (by simpa [notWord] using some_word) found
      refine ⟨y :: lead, f, others, rendered y ++ w, by rw [split]; rfl, ?_, word, same, full, ?_, ?_⟩
      · simpa [notCode] using quiet
      · intro c mem
        rcases mem_append.mp mem with inside | inside
        · simpa using white _ (mem_map_of_mem inside)
        · exact blank c inside
      · rw [image, text, append_assoc]
    by_cases blank : blanked y.kind = true
    · refine skip ?_ ?_ ?_
      · exact not_code_of_blanked blank
      · intro word
        simp [word, blanked] at blank
      rw [rendered, if_pos blank, toAsciiUppercase_blanks]
      intro c mem
      rw [eq_of_mem_replicate mem]
      rfl
    · have visible : blanked y.kind = false := by simpa using blank
      by_cases space : y.kind = .space
      · refine skip (by simp [space, Kind.isCode]) (by simp [space]) ?_
        rw [image, toAsciiUppercase_append] at found
        refine white_of_keyword (fun c mem => ?_) found
        rw [rendered_upper visible] at mem
        obtain ⟨d, inside, rfl⟩ := mem_map.mp mem
        have shape := followed.space (s := s) nonempty (first ▸ space) d (first ▸ inside)
        rw [isAsciiWhitespace_toUpper, toUpper_eq_iff (by decide)]
        exact shape
      · obtain ⟨c, others, text⟩ := exists_cons_of_ne_nil nonempty
        have dark : isAsciiWhitespace c = false := by
          by_contra white
          have kind := followed.opensSpace (s := s) (t := others) (by simpa using white)
          rw [← text, ← first] at kind
          exact space kind
        have positive : 0 < y.length := by rw [first]; exact Nat.succ_pos _
        rw [← here] at found
        obtain ⟨letter, kw_eq⟩ := keyword_here (here.trans text) positive dark visible masked found
        have word : y.kind = .word := by
          have kind := followed.opensWord (s := s) (t := others) letter
          rwa [← text, ← first] at kind
        have ends := (followed.word (s := s) nonempty (first ▸ word)).2.2
        rw [← first] at ends
        rw [leading_letters visible shown ends] at kw_eq
        refine ⟨[], y, xs, [], rfl, by simp, word, kw_eq.symm, ?_, by simp, by rw [here]; rfl⟩
        rw [kw_eq, keyword]
        have raw : y.raw = c :: others.take (y.length - 1) := by
          obtain ⟨n, size⟩ : ∃ n, y.length = n + 1 := ⟨y.length - 1, by omega⟩
          simp [Lexeme.raw, here.trans text, size]
        simp [raw, letter]

private theorem trimStart_white (white : ∀ d ∈ w, isAsciiWhitespace d = true)
    (letter : c.isAlpha = true) (t : Text) : trimStart (w ++ c :: t) = c :: t := by
  rw [trimStart, dropWhile_append_of_pos]
  · have dark : isWhitespace c = false := by
      have range := alpha_range letter
      simp only [isWhitespace, Bool.or_eq_false_iff, Bool.and_eq_false_iff, beq_eq_false_iff_ne, decide_eq_false_iff_not]
      omega
    simp [dark]
  · intro d mem
    have shape := white d mem
    simp only [isAsciiWhitespace, Bool.or_eq_true, beq_iff_eq] at shape
    rcases shape with (((rfl | rfl) | rfl) | rfl) | rfl <;> rfl

private theorem shows_create (followed : Followed next Alike) {xs post : List Lexeme}
    (lexed : lex next s t = xs ++ post) (read : ∀ y ∈ xs, Masked y ∧ Shown y) (mem : x ∈ xs) (word : x.kind = .word)
    (create : keyword x = "CREATE") (first : firstKeyword (toAsciiUppercase (sqlCodeForWriteCheck t)) = some "SHOW")
    (second : (getFrom (byteLen "SHOW") (trimStart (toAsciiUppercase (sqlCodeForWriteCheck t)))).bind firstKeyword =
      some "CREATE") : ShowsCreate (xs ++ post) := by
  obtain ⟨lead, f, others, w, split, quiet, wordF, show_, _, white, text⟩ := first_code followed lexed read ⟨x, mem, word⟩ first
  rw [split, append_assoc] at lexed
  obtain ⟨s', firstF, nonempty, tail, _⟩ := lex_split next lexed
  obtain ⟨_, _, _, after⟩ := lex_eq_cons next tail
  obtain ⟨maskedF, shownF⟩ := read f (by simp [split])
  obtain ⟨_, solid, ends⟩ := followed.word (s := s') nonempty (firstF ▸ wordF)
  rw [← firstF] at solid ends
  have visibleF : blanked f.kind = false := by simp [wordF, blanked]
  have letters := takeWhile_append_dropWhile (p := Char.isAlpha) (l := toAsciiUppercase f.raw)
  rw [takeWhile_alpha_upper, ← keyword, show_] at letters
  -- the text after `SHOW` is the rest of its word and the mask of what follows
  have parts : toAsciiUppercase (sqlCodeForWriteCheck f.here) = "SHOW" ++
      ((toAsciiUppercase f.raw).dropWhile Char.isAlpha ++ toAsciiUppercase (sqlCodeForWriteCheck f.rest)) := by
    rw [shownF, rendered_upper visibleF, toAsciiUppercase_append, ← append_assoc, letters]
  have upper_white : ∀ d ∈ toAsciiUppercase w, isAsciiWhitespace d = true := by
    intro d inside
    obtain ⟨e, original, rfl⟩ := mem_map.mp inside
    simpa using white e original
  have trimmed : trimStart (toAsciiUppercase (sqlCodeForWriteCheck t)) = toAsciiUppercase (sqlCodeForWriteCheck f.here) := by
    rw [text, toAsciiUppercase_append, parts]
    exact trimStart_white upper_white (c := 'S') (by decide) _
  rw [trimmed, parts, getFrom_append, Option.bind_some] at second
  cases rest : (toAsciiUppercase f.raw).dropWhile Char.isAlpha with
  | cons d more =>
    have dark : d.isAlpha = false := by
      have head := head?_dropWhile_not Char.isAlpha (toAsciiUppercase f.raw)
      simpa [rest] using head
    have original : d ∈ toAsciiUppercase f.raw := (dropWhile_sublist _).subset (by rw [rest]; simp)
    obtain ⟨e, inside, upper⟩ := mem_map.mp original
    obtain ⟨white, dash, slash⟩ := solid e inside
    rw [toUpper_eq_iff dark] at upper
    subst upper
    rw [rest, cons_append, firstKeyword_here white (fun same => absurd same dash) fun same => absurd same slash] at second
    simp [dark] at second
  | nil =>
    rw [rest, nil_append] at second
    have later : x ∈ others := by
      rw [split, mem_append, mem_cons] at mem
      rcases mem with front | rfl | back
      · have code := quiet x front
        rw [word] at code
        cases code
      · rw [create] at show_
        exact absurd show_ (by decide)
      · exact back
    obtain ⟨lead', g, more, _, split', quiet', wordG, create', _⟩ :=
      first_code followed after (fun y inside => read y (by simp [split, inside])) ⟨x, later, word⟩ second
    refine ⟨f, g, (more ++ post).filter (·.kind.isCode), ?_, wordF, show_, wordG, create'⟩
    have none_lead : lead.filter (·.kind.isCode) = [] := by simpa using quiet
    have none_lead' : lead'.filter (·.kind.isCode) = [] := by simpa using quiet'
    have codeF : f.kind.isCode = true := by rw [wordF]; rfl
    have codeG : g.kind.isCode = true := by rw [wordG]; rfl
    simp [split, split', none_lead, none_lead', codeF, codeG]

/-- A statement with a write keyword in its mask is a write statement, unless
    the keyword is exempt. -/
private theorem write_of_found {stmt word : Text} (inner : word ∈ WRITE_INNER)
    (found : containsWord (toAsciiUppercase (sqlCodeForWriteCheck stmt)) word = true) (counted : word = "CREATE" →
      firstKeyword (toAsciiUppercase (sqlCodeForWriteCheck stmt)) = some "SHOW" →
      (getFrom (byteLen "SHOW") (trimStart (toAsciiUppercase (sqlCodeForWriteCheck stmt)))).bind firstKeyword ≠
        some "CREATE") : isWriteStatement stmt = true := by
  rw [isWriteStatement]
  cases first : firstKeyword (toAsciiUppercase (sqlCodeForWriteCheck stmt)) with
  | none => exact any_eq_true.mpr ⟨word, inner, found⟩
  | some kw =>
    by_cases safe : kw ∉ SAFE_LEADING
    · simp [safe]
    simp only [safe, if_false]
    rw [if_pos]
    refine any_eq_true.mpr ⟨word, inner, ?_⟩
    rw [found, Bool.and_true, Bool.not_eq_true', Bool.and_eq_false_iff]
    by_cases create : word = "CREATE"
    · by_cases shows : kw = "SHOW"
      · subst shows
        have other := counted create first
        generalize (getFrom _ _).bind firstKeyword = second at other ⊢
        cases second <;> simp_all
      · exact .inl (Bool.and_eq_false_iff.mpr (.inl (beq_eq_false_iff_ne.mpr shows)))
    · exact .inr (by simpa using create)

theorem guard_sound (followed : Followed next Alike) {stmt : Text} (lexed : lex next s stmt = pre ++ x :: post) (alike : ∀ y ∈ pre, Alike y)
    (danger : BeginsUnsafe pre x ∨ Writes (pre ++ x :: post) x) : isWriteStatement stmt = true := by
  rcases danger with ⟨leading, word, letters, unsafe_⟩ | ⟨word, inner, counted⟩
  · have first := first_found followed lexed alike leading word (all_eq_true.mp letters)
    simp [isWriteStatement, first, unsafe_]
  have letters : ∀ c ∈ x.raw, c.isAlpha = true := upper_letters rfl fun c mem => WRITE_INNER_letters _ inner c mem
  refine write_of_found inner (word_found followed lexed alike word letters) fun create first second => ?_
  have read : ∀ y ∈ pre ++ [x], Masked y ∧ Shown y := by
    intro y mem
    rcases mem_append.mp mem with front | last
    · exact masked_of_alike followed lexed front (alike y front)
    · obtain ⟨s', first, nonempty, _, _⟩ := lex_split next lexed
      rw [mem_singleton.mp last]
      exact shown_of_word followed first nonempty word letters
  have same : keyword x = "CREATE" := by rw [keyword, takeWhile_eq_self_iff.mpr letters, create]
  rw [show pre ++ x :: post = (pre ++ [x]) ++ post by simp] at lexed counted
  exact counted ⟨create, shows_create followed lexed read (by simp) word same first second⟩

end

private theorem emit_bounded {state next : SplitState} {limit : Option Nat} (emitted : state.emit limit = some next) :
    state.emit none = some next := by
  by_cases empty : (trim state.segment).isEmpty = true
  · simpa [SplitState.emit, empty] using emitted
  · by_cases full : limit.any (· ≤ state.out.length) = true
    · simp [SplitState.emit, empty, full] at emitted
    · simpa [SplitState.emit, empty, full] using emitted

variable {opts : SplitOptions}

private theorem splitFrom_bounded {limit : Option Nat} {skip : Nat} {state : SplitState}
    {out : List Text} (split : splitFrom opts limit skip state t = some out) : splitFrom opts none skip state t = some out := by
  induction t generalizing skip state with
  | nil =>
    simp only [splitFrom, Option.map_eq_some_iff] at split ⊢
    obtain ⟨next, emitted, same⟩ := split
    exact ⟨next, emit_bounded emitted, same⟩
  | cons c t ih =>
    cases skip with
    | succ skip => exact ih split
    | zero =>
      by_cases semicolon : c = ';'
      · by_cases inside : (opts.mysqlCompoundBlocks && state.trigger && 0 < state.blockDepth) = true
        · simp only [splitFrom, semicolon, inside, if_true] at split ⊢
          exact ih split
        simp only [splitFrom, semicolon, inside, if_true] at split ⊢
        cases emitted : state.emit limit with
        | none => simp [emitted] at split
        | some next =>
          rw [emitted] at split
          rw [emit_bounded emitted]
          exact ih split
      · simp only [splitFrom, semicolon, if_false] at split ⊢
        exact ih split

theorem splitStatementsBounded_ok {sql : Text} {limit : Nat} {statements : List Text}
    (split : splitStatementsBounded sql opts limit = .ok statements) : statements = splitStatements sql opts := by
  rw [splitStatementsBounded] at split
  cases bounded : splitStatementsWithLimit sql opts (some limit) with
  | none => simp [bounded] at split
  | some out =>
    simp only [bounded, Except.ok.injEq] at split
    rw [splitStatements, splitStatementsWithLimit, splitFrom_bounded bounded, split]
    rfl

theorem executeImpl_rejects {query : Query} {stmt : Text}
    (mem : stmt ∈ splitStatements query.sql opts) (write : isWriteStatement stmt = true) :
    ∃ error, executeImpl true opts query = .error error := by
  cases valid : query.validate with
  | error error => exact ⟨error, by simp [executeImpl, valid]⟩
  | ok _ =>
    cases split : splitStatementsBounded query.sql opts MAX_SQL_STATEMENTS with
    | error error => exact ⟨error, by simp [executeImpl, valid, split]⟩
    | ok statements =>
      rw [← splitStatementsBounded_ok split] at mem
      by_cases control : statements.any isTransactionControlStatement = true
      · exact ⟨_, by simp only [executeImpl, valid, split, control, if_true]; rfl⟩
      · have any : statements.any isWriteStatement = true := any_eq_true.mpr ⟨stmt, mem, write⟩
        exact ⟨_, by simp only [executeImpl, valid, split, control, any, Bool.true_and, if_true]; rfl⟩

end Ramag.ReadOnlyGuard
