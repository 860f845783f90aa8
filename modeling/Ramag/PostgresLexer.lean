import Ramag.Lexing

/-!
The lexical rules of PostgreSQL with `standard_conforming_strings` on: in
`'…'` a backslash is an ordinary character, in `E'…'` it escapes, block
comments nest, and a dollar-quoted literal ends at the first occurrence of its
tag.
-/
namespace Ramag.PostgresLexer
open Strings Lexing

/-- What was read before: an `E` directly in front of a quote, or an escape
    literal, which goes on after white space with a line break. -/
inductive State
  | plain
  | escapePrefix
  | escapeDone (newline : Bool)
  deriving DecidableEq

/-- The tag of the dollar quote that opens here, both dollar signs included. -/
def dollarTag : Text → Option Text
  | '$' :: t =>
    let name := t.takeWhile isTagCont
    if name.head?.all isIdentStart && (t.drop name.length).head? = some '$' then some ('$' :: name ++ ['$']) else none
  | _ => none

/-- The length of a dollar-quoted literal; one without an end takes the rest of
    the text. -/
def dollarLength (tag t : Text) : Nat :=
  match findText tag (t.drop tag.length) with
  | some offset => tag.length + offset + tag.length
  | none => t.length

/-- The characters of a line comment: up to a line break, together with the
    carriage return of a line feed after it. -/
def commentSkip : Text → Nat
  | [] => 0
  | c :: t =>
    if c = '\n' then 0
    else if c = '\r' then if t.head? = some '\n' then 1 else 0
    else 1 + commentSkip t

def State.afterSpace : State → Text → State
  | .escapeDone newline, space => .escapeDone (newline || space.any fun c => c == '\n' || c == '\r')
  | _, _ => .plain

def State.afterComment : State → State
  | .escapeDone newline => .escapeDone newline
  | _ => .plain

/-- After a word that begins with `c` and goes on as `t` does. -/
def State.afterWord (c : Char) (t : Text) : State :=
  if (c = 'E' || c = 'e') && t.head? = some '\'' then .escapePrefix else .plain

def State.escapes (state : State) : Bool := state = .escapePrefix || state = .escapeDone true

def next : Next State
  | _, [] => (.symbol, 0, .plain)
  | state, c :: t =>
    if isSpace c then (.space, (t.takeWhile isSpace).length, state.afterSpace (c :: t.takeWhile isSpace))
    else if c = '-' && t.head? = some '-' then (.lineComment, commentSkip t, state.afterComment)
    else if c = '/' && t.head? = some '*' then (.blockComment, 1 + nestedSkip 0 t.tail, .plain)
    else if c = '\'' then
      if state.escapes then (.escapeLiteral, escapedSkip c t, .escapeDone false)
      else (.literal, doubledSkip c t, .plain)
    else if c = '"' then (.quotedIdentifier, doubledSkip c t, .plain)
    else if isIdentStart c then (.word, (t.takeWhile isIdentCont).length, .afterWord c t)
    else if c.isDigit then (.number, (t.takeWhile isTagCont).length, .plain)
    else match dollarTag (c :: t) with
      | some tag => (.dollarLiteral, dollarLength tag (c :: t) - 1, .plain)
      | none => (.symbol, 0, .plain)

/-- The lexemes of a statement. -/
def lexemes (t : Text) : List Lexeme := lex next .plain t

example : (lexemes "SELECT 'a\\', $$b;$$ -- c").map Lexeme.kind =
    [.word, .space, .literal, .symbol, .space, .dollarLiteral, .space, .lineComment] := by
  decide

end Ramag.PostgresLexer
