import Ramag.MysqlLexer

/-!
The lexical rules of SQLite: quotes of every kind are escaped by doubling only,
`[…]` quotes an identifier, comments are `--` up to a line feed and flat block
comments, and a number takes the identifier characters that run into it.
-/
namespace Ramag.SqliteLexer
open Strings Lexing MysqlLexer

/-- White space; a vertical tab is none. -/
def isGap (c : Char) : Bool := c == ' ' || c == '\t' || c == '\n' || c == '\r' || c == '\x0c'

/-- The length of the number that a digit or a dot opens. -/
def numberLength (t : Text) : Nat :=
  let whole := digitsLength t
  let rest := t.drop whole
  let core := if rest.head? = some '.' then whole + 1 + fractionLength rest.tail else whole + exponentLength rest
  core + ((t.drop core).takeWhile isIdentCont).length

def next : Next Unit
  | _, [] => (.symbol, 0, ())
  | _, c :: t =>
    if isGap c then (.space, (t.takeWhile isGap).length, ())
    else if c = '-' && t.head? = some '-' then (.lineComment, (t.takeWhile (· ≠ '\n')).length, ())
    else if c = '/' && t.head? = some '*' then (.blockComment, 1 + flatSkip t.tail, ())
    else if c = '\'' then (.literal, doubledSkip c t, ())
    else if c = '"' || c = '`' then (.quotedIdentifier, doubledSkip c t, ())
    else if c = '[' && t.contains ']' then (.quotedIdentifier, (t.takeWhile (· ≠ ']')).length + 1, ())
    else if isIdentStart c then (.word, (t.takeWhile isIdentCont).length, ())
    else if c.isDigit || (c = '.' && t.head?.any Char.isDigit) then (.number, numberLength (c :: t) - 1, ())
    else (.symbol, 0, ())

/-- The lexemes of a statement. -/
def lexemes (t : Text) : List Lexeme := lex next () t

example : (lexemes "a [b c]='\\'--d").map Lexeme.kind =
    [.word, .space, .quotedIdentifier, .symbol, .literal, .lineComment] := by
  decide

end Ramag.SqliteLexer
