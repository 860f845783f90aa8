import Ramag.Lexing

/-!
The lexical rules of MySQL in its default SQL mode: backslash and doubled-quote
escapes in `'…'` and `"…"`, back-quoted identifiers, `#` comments, `--`
comments only before white space, a control character or the end, dollar signs
as identifier characters, and `/*! … */` bodies that are executed.
-/
namespace Ramag.MysqlLexer
open Strings Lexing

/-- What was read directly before: the opening of an executed comment, an
    identifier, or the dot of a qualified name. -/
inductive Mode
  | plain
  | version
  | ident
  | dot
  deriving DecidableEq

structure State where
  inBody : Bool := false
  mode : Mode := .plain

def State.turn (state : State) (mode : Mode) : State := { state with mode }

def isCommentMark (c : Char) : Bool := isSpace c || c.toNat < 0x20 || c.toNat == 0x7F

/-- Two dashes open a comment only in front of a gap. -/
def opensLine : Text → Bool
  | '-' :: '-' :: t => t.head?.all isCommentMark
  | _ => false

variable (t : Text)

def digitsLength : Nat := (t.takeWhile Char.isDigit).length
def isHexDigit (c : Char) : Bool := c.isDigit || (65 ≤ c.toNat && c.toNat ≤ 70) || (97 ≤ c.toNat && c.toNat ≤ 102)
def isSign (c : Char) : Bool := c == '+' || c == '-'

/-- The five or six digits of a version number; no number when there are fewer. -/
def versionLength : Nat :=
  let digits := ((t.take 6).takeWhile Char.isDigit).length
  if 5 ≤ digits then digits else 0

/-- The length of an exponent, its letter included; zero without one. -/
def exponentLength : Text → Nat
  | c :: t =>
    if c == 'e' || c == 'E' then
      let sign := if t.head?.any isSign then 1 else 0
      let digits := digitsLength (t.drop sign)
      if digits = 0 then 0 else 1 + sign + digits
    else 0
  | [] => 0

/-- A `0x…` or `0b…` number that nothing runs into; zero without one. -/
def radixLength : Text → Nat
  | '0' :: 'x' :: t => radix isHexDigit t
  | '0' :: 'b' :: t => radix (fun c => c == '0' || c == '1') t
  | _ => 0
where
  radix (digit : Char → Bool) (t : Text) : Nat := let digits := (t.takeWhile digit).length
    if 0 < digits && !(t.drop digits).head?.any isIdentCont then 2 + digits else 0

/-- The length of a fraction after its dot, with the exponent. -/
def fractionLength : Nat := digitsLength t + exponentLength (t.drop (digitsLength t))

/-- The length of the number that a digit opens; zero when it opens an
    identifier. -/
def numberLength : Nat :=
  let digits := digitsLength t
  let rest := t.drop digits
  if radixLength t ≠ 0 then radixLength t
  else if rest.head? = some '.' then digits + 1 + fractionLength rest.tail
  else if !rest.head?.any isIdentCont then digits
  else if exponentLength rest = 0 then 0
  else digits + exponentLength rest

def next : Next State
  | state, [] => (.symbol, 0, state)
  | state, c :: t =>
    let ident := (Kind.word, (t.takeWhile isIdentCont).length, state.turn .ident)
    if isSpace c then (.space, (t.takeWhile isSpace).length, state.turn .plain)
    else if c = '#' then (.hashComment, (t.takeWhile (· ≠ '\n')).length, state.turn .plain)
    else if opensLine (c :: t) then (.lineComment, (t.takeWhile (· ≠ '\n')).length, state.turn .plain)
    else if c = '/' && t.head? = some '*' then
      if t.tail.head? = some '!' then (.versionOpen, 2, ⟨true, .version⟩)
      else (.blockComment, 1 + flatSkip t.tail, state.turn .plain)
    else if state.inBody && c = '*' && t.head? = some '/' then (.versionClose, 1, ⟨false, .plain⟩)
    else if c = '\'' || c = '"' then (.literal, escapedSkip c t, state.turn .plain)
    else if c = '`' then (.quotedIdentifier, doubledSkip c t, state.turn .ident)
    else if c.isDigit then
      if state.mode = .dot then ident
      else if state.mode = .version && 0 < versionLength (c :: t) then
        (.versionNumber, versionLength (c :: t) - 1, state.turn .plain)
      else if numberLength (c :: t) = 0 then ident
      else (.number, numberLength (c :: t) - 1, state.turn .plain)
    else if isIdentCont c then ident
    else if c = '.' && state.mode = .ident && t.head?.any isIdentCont then (.symbol, 0, state.turn .dot)
    else if c = '.' && t.head?.any Char.isDigit then (.number, fractionLength t, state.turn .plain)
    else if c = '\\' && t.head? = some 'N' then (.number, 1, state.turn .plain)
    else (.symbol, 0, state.turn .plain)

/-- The lexemes of a statement. -/
def lexemes : List Lexeme := lex next {} t

example : (lexemes "SELECT 1e5,$a$/*!50001 b */--1 # c").map Lexeme.kind =
    [.word, .space, .number, .symbol, .word, .versionOpen, .versionNumber, .space, .word, .space, .versionClose,
      .symbol, .symbol, .number, .space, .hashComment] := by
  decide

end Ramag.MysqlLexer
