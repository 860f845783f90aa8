import Ramag.Strings

/-!
Lossless lexing. A dialect is a function that reads one lexeme off the front of
a text (`Next`); `lex` cuts the whole text into lexemes, each of which remembers
the text from its first character on. The rules at the end say how a second
scanner over the same text (a mask, a splitter) is followed lexeme by lexeme.
-/
namespace Ramag.Lexing
open Strings List

inductive Kind
  | word
  | number
  | symbol
  | space
  | lineComment
  | hashComment
  | blockComment
  | literal
  | escapeLiteral
  | dollarLiteral
  | quotedIdentifier
  | versionOpen
  | versionNumber
  | versionClose
  deriving DecidableEq

/-- What a server executes: everything but space, comments, literals and quoted
    identifiers. -/
def Kind.isCode : Kind → Bool
  | .word | .number | .symbol => true
  | _ => false

/-- One lexeme: its kind, the text from it on, and its length. -/
structure Lexeme where
  kind : Kind
  here : Text
  length : Nat
  deriving DecidableEq

def Lexeme.raw (x : Lexeme) : Text := x.here.take x.length
def Lexeme.rest (x : Lexeme) : Text := x.here.drop x.length

theorem Lexeme.raw_append_rest (x : Lexeme) : x.raw ++ x.rest = x.here := take_append_drop _ _

/-- A dialect: in a state, the kind of the lexeme in front, the number of
    characters after its first one, and the next state. -/
abbrev Next (σ : Type) := σ → Text → Kind × Nat × σ

section
variable {σ : Type} (next : Next σ)

/-- The lexeme in front of a text. -/
def lexemeAt (s : σ) (t : Text) : Lexeme := ⟨(next s t).1, t, (next s t).2.1 + 1⟩

def lexFrom : Nat → σ → Text → List Lexeme
  | _, _, [] => []
  | skip + 1, s, _ :: t => lexFrom skip s t
  | 0, s, c :: t => lexemeAt next s (c :: t) :: lexFrom (next s (c :: t)).2.1 (next s (c :: t)).2.2 t

def lex (s : σ) (t : Text) : List Lexeme := lexFrom next 0 s t

theorem lexFrom_skip (n : Nat) (s : σ) (t : Text) : lexFrom next n s t = lex next s (t.drop n) := by
  induction t generalizing n with
  | nil => cases n <;> simp [lexFrom, lex]
  | cons c t ih =>
    cases n with
    | zero => rfl
    | succ n => simpa [lexFrom] using ih n

@[simp] theorem lex_nil (s : σ) : lex next s [] = [] := rfl

theorem lex_cons (s : σ) (c : Char) (t : Text) : lex next s (c :: t) =
      lexemeAt next s (c :: t) :: lex next (next s (c :: t)).2.2 (lexemeAt next s (c :: t)).rest := by
  rw [lex, lexFrom, lexFrom_skip]
  rfl

variable {s : σ} {t : Text} {x : Lexeme}

/-- A lexed text is a first lexeme and the lexemes of what follows it. -/
theorem lex_eq_cons {xs : List Lexeme} (lexed : lex next s t = x :: xs) :
    x = lexemeAt next s t ∧ x.here = t ∧ t ≠ [] ∧ lex next (next s t).2.2 x.rest = xs := by
  cases t with
  | nil => simp at lexed
  | cons c t =>
    rw [lex_cons] at lexed
    obtain ⟨first, others⟩ := List.cons.inj lexed
    subst first
    exact ⟨rfl, rfl, by simp, others⟩

/-- Every lexeme of a lexed text is read off the text that it remembers. -/
theorem lex_split {pre post : List Lexeme} (lexed : lex next s t = pre ++ x :: post) :
    ∃ s', x = lexemeAt next s' x.here ∧ x.here ≠ [] ∧ lex next s' x.here = x :: post ∧ t = pre.flatMap Lexeme.raw ++ x.here := by
  induction pre generalizing s t with
  | nil =>
    obtain ⟨first, here, nonempty, _⟩ := lex_eq_cons next lexed
    subst here
    exact ⟨s, first, nonempty, lexed, rfl⟩
  | cons y pre ih =>
    obtain ⟨_, here, _, others⟩ := lex_eq_cons next lexed
    obtain ⟨s', first, nonempty, tail, text⟩ := ih others
    refine ⟨s', first, nonempty, tail, ?_⟩
    rw [flatMap_cons, append_assoc, ← text, y.raw_append_rest, here]

theorem lex_next_here {pre post : List Lexeme} {y : Lexeme} (lexed : lex next s t = pre ++ y :: x :: post) : y.rest = x.here := by
  obtain ⟨s', _, _, tail, _⟩ := lex_split next lexed
  obtain ⟨_, _, _, others⟩ := lex_eq_cons next tail
  exact (lex_eq_cons next others).2.1.symm

end

def isSpace (c : Char) : Bool :=
  c == ' ' || c == '\t' || c == '\n' || c == '\r' || c == '\x0b' || c == '\x0c'

def isIdentStart (c : Char) : Bool := c.isAlpha || c == '_' || 0x80 ≤ c.toNat
/-- The characters of a dollar-quote tag after its first one, and of a number
    with what runs into it. -/
def isTagCont (c : Char) : Bool := isIdentStart c || c.isDigit
def isIdentCont (c : Char) : Bool := isTagCont c || c == '$'

theorem take_run (p : Char → Bool) (c : Char) (t : Text) : (c :: t).take ((t.takeWhile p).length + 1) = c :: t.takeWhile p := by
  rw [take_succ_cons, ← prefix_iff_eq_take.mp ( takeWhile_prefix p)]

theorem drop_run (p : Char → Bool) (t : Text) : t.drop (t.takeWhile p).length = t.dropWhile p := by
  have whole := takeWhile_append_dropWhile (p := p) (l := t)
  calc t.drop (t.takeWhile p).length
      _ = (t.takeWhile p ++ t.dropWhile p).drop (t.takeWhile p).length := by rw [whole]
      _ = t.dropWhile p := drop_left

variable {c : Char}

/-- A run of the characters of a class, with its first one. -/
theorem mem_run {p : Char → Bool} (first : p c = true) {t : Text} : ∀ d ∈ c :: t.takeWhile p, p d = true := by
  rintro d (_ | ⟨_, mem⟩)
  · exact first
  · exact mem_takeWhile_imp mem

/-- A run stops where no character of its class follows. -/
theorem run_stops {p : Char → Bool} {t : Text} (head : (t.drop (t.takeWhile p).length).head? = some c) : p c = false := by
  have stop := head?_dropWhile_not p t
  rw [drop_run] at head
  simpa [head] using stop

/-! ### Extents of literals and comments -/

/-- The characters after an opening quote, the closing quote included, where
    only a doubled quote stands for the quote. -/
def doubledSkip (quote : Char) : Text → Nat
  | [] => 0
  | [_] => 1
  | c :: d :: t => if c = quote then if d = quote then 2 + doubledSkip quote t else 1 else 1 + doubledSkip quote (d :: t)

/-- As `doubledSkip`, where a backslash escapes the character after it. -/
def escapedSkip (quote : Char) : Text → Nat
  | [] => 0
  | [_] => 1
  | c :: d :: t =>
    if c = '\\' then 2 + escapedSkip quote t
    else if c = quote then if d = quote then 2 + escapedSkip quote t else 1
    else 1 + escapedSkip quote (d :: t)

/-- No quote character up to the closing one stands after an odd run of
    backslashes. -/
def quoteSafe (quote : Char) : Text → Bool
  | [] => true
  | [_] => true
  | c :: d :: t =>
    if c = '\\' then d ≠ quote && quoteSafe quote t
    else if c = quote then if d = quote then quoteSafe quote t else true
    else quoteSafe quote (d :: t)

private theorem doubledSkip_cons {quote : Char} (other : c ≠ quote) (t : Text) : doubledSkip quote (c :: t) = 1 + doubledSkip quote t := by
  cases t with
  | nil => rfl
  | cons d t => simp [doubledSkip, other]

/-- The two readings of a literal agree when no backslash decides about a quote. -/
theorem escapedSkip_eq_doubledSkip {quote : Char} (ordinary : quote ≠ '\\') :
    ∀ t : Text, quoteSafe quote t = true → escapedSkip quote t = doubledSkip quote t
  | [], _ => rfl
  | [_], _ => rfl
  | c :: d :: t, safe => by
    simp only [quoteSafe] at safe
    by_cases backslash : c = '\\'
    · subst backslash
      simp only [if_true, Bool.and_eq_true, decide_eq_true_eq] at safe
      have inner := escapedSkip_eq_doubledSkip ordinary t safe.2
      rw [doubledSkip_cons ordinary.symm, doubledSkip_cons safe.1, escapedSkip, if_pos rfl, inner]
      omega
    · by_cases closing : c = quote
      · by_cases doubled : d = quote
        · simp only [closing, doubled, ordinary, if_true, if_false] at safe
          have inner := escapedSkip_eq_doubledSkip ordinary t safe
          simp [escapedSkip, doubledSkip, closing, doubled, inner]
        · simp [escapedSkip, doubledSkip, closing, doubled, ordinary]
      · simp only [backslash, closing, if_false] at safe
        rw [doubledSkip_cons closing, escapedSkip, if_neg backslash, if_neg closing, escapedSkip_eq_doubledSkip ordinary (d :: t) safe]

/-- The characters after the opening of a flat block comment, its closing
    included. -/
def flatSkip : Text → Nat
  | '*' :: '/' :: _ => 2
  | _ :: t => 1 + flatSkip t
  | [] => 0

/-- As `flatSkip`, where comments nest; the count is the comments open inside
    the first one. -/
def nestedSkip : Nat → Text → Nat
  | 0, '*' :: '/' :: _ => 2
  | depth + 1, '*' :: '/' :: t => 2 + nestedSkip depth t
  | depth, '/' :: '*' :: t => 2 + nestedSkip (depth + 1) t
  | depth, _ :: t => 1 + nestedSkip depth t
  | _, [] => 0

/-- No comment opens inside the comment. -/
def flat : Text → Bool
  | '*' :: '/' :: _ => true
  | '/' :: '*' :: _ => false
  | _ :: t => flat t
  | [] => true

theorem flatSkip_eq_nestedSkip (t : Text) (closed : flat t = true) : flatSkip t = nestedSkip 0 t := by
  induction t using flatSkip.induct with
  | case1 t => simp [flatSkip, nestedSkip]
  | case2 c t other ih =>
    have inner : ∀ u, c = '/' → t = '*' :: u → False := by
      rintro u rfl rfl
      simp [flat] at closed
    rw [flat] at closed
    · rw [flatSkip, nestedSkip, ih closed] <;> simp_all
    all_goals assumption
  | case3 => rfl

section
variable {σ : Type} {next : Next σ} {image : Text → Text} {render : Lexeme → Text} {Alike : Lexeme → Prop}

/-- A scanner that reads every lexeme of a prefix alike has rendered exactly
    these lexemes when it reaches the next one. -/
theorem image_front (aligned : ∀ s t, t ≠ [] → Alike (lexemeAt next s t) → (lexemeAt next s t).rest ≠ [] →
      image t = render (lexemeAt next s t) ++ image (lexemeAt next s t).rest)
    {s : σ} {t : Text} {pre post : List Lexeme} {x : Lexeme} (lexed : lex next s t = pre ++ x :: post)
    (alike : ∀ y ∈ pre, Alike y) : image t = pre.flatMap render ++ image x.here := by
  induction pre generalizing s t with
  | nil => simp [(lex_eq_cons next lexed).2.1]
  | cons y pre ih =>
    obtain ⟨first, _, nonempty, others⟩ := lex_eq_cons next lexed
    have more : y.rest ≠ [] := by
      intro empty
      rw [empty] at others
      simp at others
    have step := aligned s t nonempty (first ▸ alike y (by simp)) (first ▸ more)
    rw [step, ← first, ih others fun z mem => alike z (by simp [mem]), flatMap_cons, append_assoc]

end

end Ramag.Lexing
