import Mathlib
import Ramag.SqlServers
import Ramag.SqlUtils

/-!
The tokenizer under the servers' lexers: `ReadsAlike` says which lexemes it
passes over as the server does, and `tokens_lexemes` that a text of such lexemes
has exactly the tokens of its lexemes.
-/
namespace Ramag.KeywordDepths
open Strings Domain Sql Lexing SqlUtils SqlServers List

/-- What the keyword readings of a text consist of. -/
inductive Event
  | word (keyword : Text)
  | opens
  | closes

def paren : Option Char → List Event
  | some '(' => [.opens]
  | some ')' => [.closes]
  | _ => []

/-- The words of a text that opens no literal and no comment, for a scanner
    whose words begin with the given characters. -/
def wordsFrom (start : Char → Bool) : Nat → Text → List Text
  | _, [] => []
  | skip + 1, _ :: t => wordsFrom start skip t
  | 0, c :: t =>
    if start c then (c :: t.takeWhile isWordByte) :: wordsFrom start (t.takeWhile isWordByte).length t
    else wordsFrom start 0 t

def words (t : Text) : List Text := wordsFrom isWordStart 0 t

def wordEvents (t : Text) : List Event := (words t).map fun word => .word (toAsciiUppercase word)

/-- The tokens of events that begin at a depth. -/
def depths : Nat → List Event → List Token
  | _, [] => []
  | depth, .word keyword :: es => (keyword, depth) :: depths depth es
  | depth, .opens :: es => depths (depth + 1) es
  | depth, .closes :: es => depths (depth - 1) es

/-- The depth behind events. -/
def level : Nat → List Event → Nat
  | depth, [] => depth
  | depth, .word _ :: es => level depth es
  | depth, .opens :: es => level (depth + 1) es
  | depth, .closes :: es => level (depth - 1) es

theorem depths_append (depth : Nat) (es fs : List Event) : depths depth (es ++ fs) = depths depth es ++ depths (level depth es) fs := by
  induction es generalizing depth with
  | nil => rfl
  | cons e es ih => cases e <;> simp [depths, level, ih]

@[simp] theorem level_words (depth : Nat) (ws : List Text) (f : Text → Text) :
    level depth (ws.map fun word => .word (f word)) = depth := by
  induction ws with
  | nil => rfl
  | cons w ws ih => simpa [level] using ih

@[simp] theorem depths_words (depth : Nat) (ws : List Text) (f : Text → Text) :
    depths depth (ws.map fun word => .word (f word)) = ws.map fun word => (f word, depth) := by
  induction ws with
  | nil => rfl
  | cons w ws ih => simpa [depths] using ih

section
variable {driver : DriverKind}

theorem tokensFrom_skip (n depth : Nat) (t : Text) : tokensFrom driver n depth t = tokensFrom driver 0 depth (t.drop n) := by
  induction t generalizing n with
  | nil => cases n <;> rfl
  | cons c t ih =>
    cases n with
    | zero => rfl
    | succ n => simpa [tokensFrom] using ih n

variable {c : Char}

theorem wordStart_byte (start : isWordStart c = true) : isWordByte c = true := by
  simp only [isWordStart, Bool.or_eq_true, beq_iff_eq] at start
  rcases start with letter | rfl
  · simp [isWordByte, Char.isAlphanum, letter]
  · decide

theorem wordStart_ne {d : Char} (start : isWordStart c = true) (other : isWordStart d = false) : c ≠ d := by
  rintro rfl
  simp [start] at other

variable {t : Text}

theorem tokens_jump (depth : Nat) (notWord : isWordStart c = false) (opens : c ≠ '(') (closes : c ≠ ')')
    (positive : 0 < tokenJump driver (c :: t)) :
    tokensFrom driver 0 depth (c :: t) = tokensFrom driver 0 depth ((c :: t).drop (tokenJump driver (c :: t))) := by
  obtain ⟨n, size⟩ : ∃ n, tokenJump driver (c :: t) = n + 1 := ⟨tokenJump driver (c :: t) - 1, by omega⟩
  rw [tokensFrom, if_neg opens, if_neg closes]
  simp only [notWord, Bool.false_eq_true, if_false]
  rw [tokensFrom_skip, size]
  rfl

theorem tokenJump_word (start : isWordStart c = true) (t : Text) : tokenJump driver (c :: t) = 1 + (t.takeWhile isWordByte).length := by
  simp (disch := decide) [tokenJump, isQuote, wordStart_ne start, start]

theorem tokens_word (start : isWordStart c = true) (depth : Nat) (t : Text) : tokensFrom driver 0 depth (c :: t) =
      (toAsciiUppercase (c :: t.takeWhile isWordByte), depth) :: tokensFrom driver (t.takeWhile isWordByte).length depth t := by
  rw [tokensFrom, if_neg (wordStart_ne start (by decide)), if_neg (wordStart_ne start (by decide))]
  simp only [start, if_true]
  rw [tokenJump_word start, Nat.add_comm, take_run, Nat.add_sub_cancel]

/-! ### Texts that open nothing -/

/-- In front of the rest, the tokenizer moves over the text word by word and
    else one character at a time. -/
def Walks (driver : DriverKind) (rest : Text) : Text → Prop
  | [] => True
  | c :: t => (isWordStart c = true ∨ (c ≠ '(' ∧ c ≠ ')' ∧ tokenJump driver (c :: (t ++ rest)) = 1)) ∧ Walks driver rest t

instance decidableWalks (driver : DriverKind) (rest : Text) : ∀ t, Decidable (Walks driver rest t)
  | [] => isTrue trivial
  | _ :: t => have := decidableWalks driver rest t; inferInstanceAs (Decidable (_ ∧ _))

/-- No word goes on over the end of the text. -/
def Ends (t rest : Text) : Prop := wordEdge t.getLast? = true ∨ wordEdge rest.head? = true

instance (t rest : Text) : Decidable (Ends t rest) := inferInstanceAs (Decidable (_ ∨ _))

variable {rest : Text}

theorem ends_tail {d : Char} (ends : Ends (c :: d :: t) rest) : Ends (d :: t) rest := by rwa [Ends, getLast?_cons_cons] at ends

theorem word_inside (byte : isWordByte c = true) (ends : Ends (c :: t) rest) :
    (t ++ rest).takeWhile isWordByte = t.takeWhile isWordByte := by
  rw [takeWhile_append]
  split_ifs with whole
  · have all : t.takeWhile isWordByte = t := ( takeWhile_prefix _).eq_of_length whole
    have bytes : ∀ d ∈ c :: t, isWordByte d = true := by
      intro d mem
      rcases mem_cons.mp mem with rfl | later
      · exact byte
      · exact mem_takeWhile_imp (all ▸ later)
    have edge : wordEdge rest.head? = true := by
      rcases ends with last | edge
      · have stop : ∀ d, (c :: t).getLast? = some d → False := fun d same => by
          have byte := bytes d (mem_of_getLast? same)
          simp [same, wordEdge, byte] at last
        obtain ⟨d, same⟩ : ∃ d, (c :: t).getLast? = some d := ⟨_, getLast?_eq_some_getLast (by simp)⟩
        exact absurd same (stop d)
      · exact edge
    have none : rest.takeWhile isWordByte = [] := by
      cases rest with
      | nil => rfl
      | cons d rest =>
        have stop : isWordByte d = false := by simpa [wordEdge] using edge
        simp [stop]
    rw [none, all, append_nil]
  · rfl

private theorem tokens_walk {n : Nat} (depth : Nat) (walks : Walks driver rest t) (ends : Ends t rest) (inside : n ≤ t.length) :
    tokensFrom driver n depth (t ++ rest) =
      ((wordsFrom isWordStart n t).map fun word => (toAsciiUppercase word, depth)) ++ tokensFrom driver 0 depth rest := by
  induction t generalizing n with
  | nil =>
    obtain rfl : n = 0 := by simpa using inside
    rfl
  | cons c t ih =>
    have later : Ends t rest ∨ t = [] := by
      cases t with
      | nil => exact .inr rfl
      | cons d t => exact .inl (ends_tail ends)
    have go {m : Nat} (inside : m ≤ t.length) : tokensFrom driver m depth (t ++ rest) =
        ((wordsFrom isWordStart m t).map fun word => (toAsciiUppercase word, depth)) ++ tokensFrom driver 0 depth rest := by
      rcases later with ends | rfl
      · exact ih walks.2 ends inside
      · obtain rfl : m = 0 := by simpa using inside
        rfl
    cases n with
    | succ n => exact go (by simpa using inside)
    | zero =>
      by_cases start : isWordStart c = true
      · have length := (takeWhile_sublist isWordByte (l := t)).length_le
        rw [cons_append, tokens_word start, word_inside (wordStart_byte start) ends, go length, wordsFrom, if_pos start]
        rfl
      obtain ⟨opens, closes, jump⟩ := walks.1.resolve_left start
      rw [cons_append, tokens_jump depth (by simpa using start) opens closes (by omega), jump, wordsFrom, if_neg start]
      exact go (Nat.zero_le _)

/-- A text without words is passed over, whatever follows it. -/
private theorem tokens_silent (depth : Nat) (walks : Walks driver rest t) (silent : words t = []) :
    tokensFrom driver 0 depth (t ++ rest) = tokensFrom driver 0 depth rest := by
  induction t with
  | nil => rfl
  | cons c t ih =>
    by_cases start : isWordStart c = true
    · simp [words, wordsFrom, start] at silent
    obtain ⟨opens, closes, jump⟩ := walks.1.resolve_left start
    rw [words, wordsFrom, if_neg start] at silent
    rw [cons_append, tokens_jump depth (by simpa using start) opens closes (by omega), jump]
    exact ih walks.2 silent

/-- Characters that open nothing and are no part of a word's start. -/
def isFlat (c : Char) : Bool :=
  !isQuote c && !isWordStart c && c ≠ '-' && c ≠ '#' && c ≠ '/' && c ≠ '$' && c ≠ '(' && c ≠ ')'

theorem tokenJump_flat (inert : isFlat c = true) (t : Text) : tokenJump driver (c :: t) = 1 := by
  simp only [isFlat, Bool.and_eq_true, Bool.not_eq_true', decide_eq_true_eq] at inert
  obtain ⟨⟨⟨⟨⟨⟨⟨quote, start⟩, dash⟩, hash⟩, slash⟩, dollar⟩, _⟩, _⟩ := inert
  simp [tokenJump, quote, dash, hash, slash, dollar, start]

theorem walks_of_flat (inert : ∀ c ∈ t, isFlat c = true) (rest : Text) : Walks driver rest t := by
  induction t with
  | nil => trivial
  | cons c t ih =>
    have here := inert c (by simp)
    refine ⟨.inr ⟨?_, ?_, tokenJump_flat here _⟩, ih fun d mem => inert d (by simp [mem])⟩
    · rintro rfl
      simp [isFlat] at here
    · rintro rfl
      simp [isFlat] at here

theorem words_of_flat (inert : ∀ c ∈ t, isFlat c = true) : words t = [] := by
  induction t with
  | nil => rfl
  | cons c t ih =>
    have here := inert c (by simp)
    simp only [isFlat, Bool.and_eq_true, Bool.not_eq_true'] at here
    rw [words, wordsFrom, if_neg (by simp [here])]
    exact ih fun d mem => inert d (by simp [mem])

end

/-- What the tokenizer makes of a lexeme. -/
def emitted (x : Lexeme) : List Event :=
  match x.kind with
  | .word | .number => wordEvents x.raw
  | .quotedIdentifier => if x.here.head? = some '[' then wordEvents x.raw else []
  | .symbol => paren x.here.head?
  | _ => []

/-- A word of ASCII letters, digits and underscores, as keywords are. -/
def isPlain (t : Text) : Bool := t.head?.any isWordStart && t.all isWordByte

/-- The extent of a quoted text where a backslash escapes. -/
def escapedLength : Text → Nat
  | [] => 0
  | c :: t => 1 + escapedSkip c t

section
variable (driver : DriverKind) (isName : Lexeme → Bool) (noted : List Text)

/-- None of the words in the text is a noted keyword. -/
def Unnoted (t : Text) : Prop := ∀ word ∈ words t, toAsciiUppercase word ∉ noted

instance (t : Text) : Decidable (Unnoted noted t) := inferInstanceAs (Decidable (∀ _ ∈ _, _))

/-- The text of a lexeme that the tokenizer takes for code opens nothing there. -/
def ReadAsCode (x : Lexeme) : Prop :=
  Walks driver x.rest x.raw ∧ (words x.raw = [] ∨ Ends x.raw x.rest) ∧ Unnoted noted x.raw

instance : DecidablePred (ReadAsCode driver noted) := fun _ => inferInstanceAs (Decidable (_ ∧ _ ∧ _))

/-- A keyword of the server is a word of the tokenizer; a word that the server
    takes for a name, or of other characters, holds no noted keyword. -/
def WordAlike (x : Lexeme) : Prop :=
  Walks driver x.rest x.raw ∧ ((isPlain x.raw = true ∧ isName x = false) ∨ Unnoted noted x.raw)

instance : DecidablePred (WordAlike driver isName noted) := fun _ => inferInstanceAs (Decidable (_ ∧ (_ ∨ _)))

/-- The lexemes that the tokenizer passes over as the server does: literals,
    quoted identifiers and comments have the same extent for both, and what the
    tokenizer takes for code holds no other keyword. -/
def ReadsAlike (x : Lexeme) : Prop :=
  match x.kind with
  | .lineComment => x.length = lineSkip x.here
  | .blockComment => isMysqlExecutableComment driver x.here = false ∧ x.length = 2 + blockCommentEnd (driver = .Postgres) (x.here.drop 2)
  | .literal | .escapeLiteral => x.length = escapedLength x.here
  | .quotedIdentifier =>
      if x.here.head? = some '[' then ReadAsCode driver noted x else x.length = escapedLength x.here
  | .dollarLiteral => scanDollarQuoted x.here = some x.length
  | .versionClose => x.rest.head? ≠ some '*'
  | .symbol => tokenJump driver x.here = 1
  | .word => WordAlike driver isName noted x
  | .number => ReadAsCode driver noted x
  | .space | .hashComment | .versionOpen | .versionNumber => True

instance : DecidablePred (ReadsAlike driver isName noted)
  | ⟨.lineComment, _, _⟩ | ⟨.symbol, _, _⟩ | ⟨.literal, _, _⟩ | ⟨.escapeLiteral, _, _⟩ | ⟨.dollarLiteral, _, _⟩ =>
    inferInstanceAs (Decidable (_ = _))
  | ⟨.blockComment, _, _⟩ => inferInstanceAs (Decidable (_ ∧ _))
  | ⟨.quotedIdentifier, _, _⟩ => inferInstanceAs (Decidable (ite _ _ _))
  | ⟨.versionClose, _, _⟩ => inferInstanceAs (Decidable (_ ≠ _))
  | ⟨.word, _, _⟩ => inferInstanceAs (Decidable (WordAlike _ _ _ _))
  | ⟨.number, _, _⟩ => inferInstanceAs (Decidable (ReadAsCode _ _ _))
  | ⟨.space, _, _⟩ | ⟨.hashComment, _, _⟩ | ⟨.versionOpen, _, _⟩ | ⟨.versionNumber, _, _⟩ => isTrue trivial

end

section
variable {driver : DriverKind} {isName : Lexeme → Bool} {noted : List Text}

/-- The tokenizer has emitted exactly the lexeme when it reaches what follows. -/
def Passed (driver : DriverKind) (x : Lexeme) : Prop :=
  ∀ depth, tokensFrom driver 0 depth x.here = depths depth (emitted x) ++ tokensFrom driver 0 (level depth (emitted x)) x.rest

variable {x : Lexeme} {c : Char} {t : Text}

private theorem passed_jump (here : x.here = c :: t) (jump : tokenJump driver x.here = x.length) (silent : emitted x = [] := by rfl)
    (notWord : isWordStart c = false := by decide) (opens : c ≠ '(' := by decide) (closes : c ≠ ')' := by decide)
    (positive : 0 < x.length := by exact Nat.succ_pos _) : Passed driver x := by
  intro depth
  rw [silent, depths, level, Lexeme.rest, ← jump, here]
  rw [here] at jump
  exact tokens_jump depth notWord opens closes (by omega)

private theorem passed_walk (shown : emitted x = wordEvents x.raw) (walks : Walks driver x.rest x.raw)
    (ends : words x.raw = [] ∨ Ends x.raw x.rest) : Passed driver x := by
  intro depth
  rw [shown, wordEvents, level_words, depths_words]
  nth_rewrite 1 [← x.raw_append_rest]
  rcases ends with silent | ends
  · rw [tokens_silent depth walks silent, silent]
    rfl
  · exact tokens_walk depth walks ends (Nat.zero_le _)

private theorem passed_flat (silent : emitted x = []) (inert : ∀ c ∈ x.raw, isFlat c = true) : Passed driver x := by
  have none := words_of_flat inert
  exact passed_walk (by rw [silent, wordEvents, none]; rfl) (walks_of_flat inert x.rest) (.inl none)

theorem space_flat (space : isSpace c = true) : isFlat c = true := by
  simp only [isSpace, Bool.or_eq_true, beq_iff_eq] at space
  rcases space with ((((rfl | rfl) | rfl) | rfl) | rfl) | rfl <;> decide

theorem digit_flat (digit : c.isDigit = true) : isFlat c = true := by
  have range := digit_range digit
  have ne {d : Char} (other : d.toNat < 48 ∨ 57 < d.toNat) : c ≠ d := by
    rintro rfl
    omega
  have notAlpha : c.isAlpha = false := by
    by_contra letter
    have := alpha_range (by simpa using letter)
    omega
  simp (disch := decide) [isFlat, isQuote, isWordStart, notAlpha, ne]

private theorem escapedLength_jump (quote : isQuote c = true) (t : Text) : tokenJump driver (c :: t) = escapedLength (c :: t) := by
  simp [tokenJump, quote, escapedLength, ReadOnlyGuard.maskedSkip_eq_escapedSkip]

theorem quote_silent (quote : isQuote c = true) : isWordStart c = false ∧ c ≠ '(' ∧ c ≠ ')' ∧ c ≠ '[' := by
  simp only [isQuote, Bool.or_eq_true, beq_iff_eq] at quote
  rcases quote with (rfl | rfl) | rfl <;> decide

private theorem passed_quoted (here : x.here = c :: t) (quote : isQuote c = true)
    (silent : emitted x = []) (positive : 0 < x.length) (extent : x.length = escapedLength x.here) : Passed driver x := by
  obtain ⟨notWord, opens, closes, _⟩ := quote_silent quote
  refine passed_jump here ?_ silent notWord opens closes positive
  rw [extent, here, escapedLength_jump quote]

theorem ident_ends (c : Char) (t : Text) : Ends (c :: t.takeWhile isIdentCont) (t.drop (t.takeWhile isIdentCont).length) := by
  right
  cases head : (t.drop (t.takeWhile isIdentCont).length).head? with
  | none => rfl
  | some d =>
    have stop := run_stops head
    simp only [isIdentCont, Bool.or_eq_false_iff] at stop
    simp [wordEdge, ReadOnlyGuard.wordByte_false stop.1]

private theorem passed_symbol (other : isTagCont c = false)
    (jump : tokenJump driver (c :: t) = 1) : Passed driver ⟨.symbol, c :: t, 1⟩ := by
  have notWord : isWordStart c = false := by
    by_contra start
    have inside := ReadOnlyGuard.tagCont_of_wordByte (wordStart_byte (by simpa using start))
    simp [inside] at other
  by_cases opens : c = '('
  · subst opens
    intro depth
    rfl
  by_cases closes : c = ')'
  · subst closes
    intro depth
    rfl
  refine passed_jump rfl jump ?_ notWord opens closes
  change paren (some c) = []
  unfold paren
  split
  · simp_all
  · simp_all
  · rfl

theorem passed_of_alike {kind : Kind} {n : Nat} (shape : Shape driver c t kind n)
    (alike : ReadsAlike driver isName noted ⟨kind, c :: t, n + 1⟩) : Passed driver ⟨kind, c :: t, n + 1⟩ := by
  cases shape with
  | space _ space => exact passed_flat rfl fun d mem => space_flat (space d mem)
  | lineComment _ dash other =>
    subst dash
    refine passed_jump rfl ?_
    have extent : n + 1 = lineSkip ('-' :: t) := alike
    simp [tokenJump, isQuote, other, extent]
  | hashComment mysql hash =>
    subst hash
    refine passed_jump rfl ?_
    simp [tokenJump, isQuote, mysql, lineSkip]
  | blockComment _ slash star =>
    subst slash
    obtain ⟨ordinary, extent⟩ := alike
    refine passed_jump rfl ?_
    simp [tokenJump, isQuote, star, ordinary, show n + 1 = _ from extent]
  | versionOpen mysql slash star bang =>
    subst slash
    refine passed_jump rfl ?_
    obtain ⟨u, rfl⟩ : ∃ u, t = '*' :: '!' :: u := by
      cases t with
      | nil => simp at star
      | cons d t =>
        cases t with
        | nil => simp at bang
        | cons e t => exact ⟨t, by simp_all⟩
    simp [tokenJump, isQuote, isMysqlExecutableComment, mysql]
  | versionNumber _ digits => exact passed_flat rfl fun d mem => digit_flat (digits d mem)
  | versionClose star slash =>
    obtain ⟨u, rfl⟩ : ∃ u, t = '/' :: u := by
      cases t with
      | nil => simp at slash
      | cons d t => exact ⟨t, by simp_all⟩
    subst star
    have other : u.head? ≠ some '*' := alike
    refine passed_walk rfl ⟨.inr ⟨by decide, by decide, tokenJump_flat (by decide) _⟩, .inr ⟨by decide, by decide, ?_⟩, trivial⟩
      (.inl rfl)
    simp [tokenJump, isQuote, Lexeme.rest, other, isWordStart]
  | literal _ quote | escapeLiteral _ quote => exact passed_quoted rfl quote rfl (Nat.succ_pos _) alike

  | quotedIdentifier _ quote =>
    have other : c ≠ '[' := (quote_silent quote).2.2.2
    refine passed_quoted rfl quote (by simp [emitted, other]) (Nat.succ_pos _) ?_
    simpa [ReadsAlike, other] using alike
  | bracketed _ bracket =>
    subst bracket
    have code : ReadAsCode driver noted _ := alike
    exact passed_walk rfl code.1 code.2.1
  | dollarLiteral _ postgres dollar =>
    subst dollar
    refine passed_jump rfl ?_
    have extent : scanDollarQuoted ('$' :: t) = some (n + 1) := alike
    simp [tokenJump, isQuote, postgres, extent]
  | word =>
    refine passed_walk rfl alike.1 (.inr ?_)
    simp only [Lexeme.raw, Lexeme.rest, take_run, drop_succ_cons]
    exact ident_ends c t
  | number => exact passed_walk rfl alike.1 alike.2.1
  | symbol other => exact passed_symbol other alike

private theorem tokens_lexed {σ : Type} {next : Next σ}
    (shaped : ∀ s c t, Shape driver c t (next s (c :: t)).1 (next s (c :: t)).2.1) {s : σ} {xs : List Lexeme}
    (lexed : lex next s t = xs) (alike : ∀ x ∈ xs, ReadsAlike driver isName noted x) (depth : Nat) :
    tokensFrom driver 0 depth t = depths depth (xs.flatMap emitted) := by
  induction xs generalizing s t depth with
  | nil =>
    cases t with
    | nil => rfl
    | cons c t => simp [lex_cons] at lexed
  | cons x xs ih =>
    obtain ⟨first, here, nonempty, others⟩ := lex_eq_cons next lexed
    obtain ⟨c, u, rfl⟩ := exists_cons_of_ne_nil nonempty
    have passed : Passed driver x := by
      have alike := alike x (by simp)
      subst first
      exact passed_of_alike (shaped s c u) alike
    rw [← here, passed depth, flatMap_cons, depths_append, ih others fun y mem => alike y (by simp [mem])]

theorem tokens_lexemes {server : Server} (alike : ∀ x ∈ server.lexemes t, ReadsAlike server.driver isName noted x) :
    keywordDepths t server.driver = depths 0 ((server.lexemes t).flatMap emitted) := by
  revert alike
  refine server.shaped (P := fun lexemes => (∀ x ∈ lexemes t, ReadsAlike server.driver isName noted x) →
    keywordDepths t server.driver = depths 0 ((lexemes t).flatMap emitted)) fun σ next s shaped alike => ?_
  exact tokens_lexed shaped rfl alike 0

end

end Ramag.KeywordDepths
