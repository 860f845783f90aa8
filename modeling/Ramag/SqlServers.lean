import Ramag.PostgresGuard
import Ramag.MysqlGuard
import Ramag.SqliteLexer

/-!
The servers behind the SQL drivers: each with the lexer of its dialect, for
MySQL together with the server's version, which decides about the bodies of
`/*!NNNNN … */`. `Shape` is what the lexers have in common.
-/
namespace Ramag.SqlServers
open Strings Domain Sql Lexing

inductive Server
  | mysql (version : Nat)
  | postgres
  | sqlite

def Server.driver : Server → DriverKind
  | .mysql _ => .Mysql
  | .postgres => .Postgres
  | .sqlite => .Sqlite

/-- The characters of a comment that the server leaves out, after its opening;
    one level of comments inside it is passed over. -/
def leftOut : Bool → Text → Nat
  | false, '*' :: '/' :: _ => 2
  | true, '*' :: '/' :: t => 2 + leftOut false t
  | false, '/' :: '*' :: t => 2 + leftOut true t
  | inner, _ :: t => 1 + leftOut inner t
  | _, [] => 0

/-- A version number that is newer than the server. -/
def newer (version : Nat) (t : Text) : Bool :=
  let digits := t.take (MysqlLexer.versionLength t)
  !digits.isEmpty && version < digits.foldl (fun n c => 10 * n + (c.toNat - 48)) 0

/-- MySQL's lexer, where the body of an executed comment for a newer server is a
    comment. -/
def mysqlNext (version : Nat) : Next MysqlLexer.State
  | state, '/' :: '*' :: '!' :: t =>
    if newer version t then (.blockComment, 2 + leftOut false t, state.turn .plain)
    else MysqlLexer.next state ('/' :: '*' :: '!' :: t)
  | state, t => MysqlLexer.next state t

def Server.lexemes : Server → Text → List Lexeme
  | .mysql version, t => lex (mysqlNext version) {} t
  | .postgres, t => PostgresLexer.lexemes t
  | .sqlite, t => SqliteLexer.lexemes t

example : (Server.lexemes (.mysql 80036) "/*!50001 a*//*!99999 b*/").map Lexeme.kind =
    [.versionOpen, .versionNumber, .space, .word, .versionClose, .blockComment] := by
  decide

/-! ### Shapes -/

/-- The lexeme in front of `c :: t`, as far as the dialects agree about it. -/
inductive Shape (driver : DriverKind) (c : Char) (t : Text) : Kind → Nat → Prop
  | space (n : Nat) : (∀ d ∈ (c :: t).take (n + 1), isSpace d = true) → Shape driver c t .space n
  | lineComment (n : Nat) : c = '-' → t.head? = some '-' → Shape driver c t .lineComment n
  | hashComment : driver = .Mysql → c = '#' → Shape driver c t .hashComment (t.takeWhile (· ≠ '\n')).length
  | blockComment (n : Nat) : c = '/' → t.head? = some '*' → Shape driver c t .blockComment n
  | versionOpen : driver = .Mysql → c = '/' → t.head? = some '*' → t.tail.head? = some '!' → Shape driver c t .versionOpen 2
  | versionNumber (n : Nat) : (∀ d ∈ (c :: t).take (n + 1), d.isDigit = true) → Shape driver c t .versionNumber n
  | versionClose : c = '*' → t.head? = some '/' → Shape driver c t .versionClose 1
  | literal (n : Nat) : isQuote c = true → Shape driver c t .literal n
  | escapeLiteral (n : Nat) : isQuote c = true → Shape driver c t .escapeLiteral n
  | quotedIdentifier (n : Nat) : isQuote c = true → Shape driver c t .quotedIdentifier n
  | bracketed (n : Nat) : c = '[' → Shape driver c t .quotedIdentifier n
  | dollarLiteral (n : Nat) : driver = .Postgres → c = '$' → Shape driver c t .dollarLiteral n
  | word : Shape driver c t .word (t.takeWhile isIdentCont).length
  | number (n : Nat) : Shape driver c t .number n
  | symbol : isTagCont c = false → Shape driver c t .symbol 0

private theorem space_shape {driver : DriverKind} {p : Char → Bool} (gap : ∀ d, p d = true → isSpace d = true) {c : Char}
    (first : p c = true) (t : Text) : Shape driver c t .space (t.takeWhile p).length := by
  refine .space _ fun d mem => gap d ?_
  rw [take_run] at mem
  exact mem_run first d mem

private theorem version_shape {driver : DriverKind} {c : Char} {t : Text} (version : 0 < MysqlLexer.versionLength (c :: t)) :
    Shape driver c t .versionNumber (MysqlLexer.versionLength (c :: t) - 1) := by
  refine .versionNumber _ fun d mem => ?_
  rw [Nat.sub_add_cancel version] at mem
  simp only [MysqlLexer.versionLength] at version mem
  by_cases five : 5 ≤ (((c :: t).take 6).takeWhile Char.isDigit).length
  · rw [if_pos five] at mem
    have start : ((c :: t).take 6).takeWhile Char.isDigit <+: c :: t := (List.takeWhile_prefix _).trans (List.take_prefix _ _)
    rw [← List.prefix_iff_eq_take.mp start] at mem
    exact List.mem_takeWhile_imp mem
  · rw [if_neg five] at version
    exact absurd version (lt_irrefl 0)

private theorem mysql_shape {c : Char} {t : Text} {kind : Kind} {n : Nat} (reads : MysqlGuard.Reads c t kind n) :
    Shape .Mysql c t kind n := by
  cases reads with
  | space space => exact space_shape (fun _ => id) space t
  | hashComment hash => exact .hashComment rfl hash
  | lineComment line => exact .lineComment _ (MysqlGuard.opensLine_cons line).1 (MysqlGuard.opensLine_cons line).2
  | versionOpen slash star bang => exact .versionOpen rfl slash star bang
  | blockComment slash star _ => exact .blockComment _ slash star
  | versionClose star slash => exact .versionClose star slash
  | literal quote =>
    refine .literal _ ?_
    rcases quote with rfl | rfl <;> rfl
  | quotedIdentifier back => exact .quotedIdentifier _ (back ▸ rfl)
  | word _ => exact .word
  | versionNumber version => exact version_shape version
  | number _ | fraction _ | null _ _ => exact .number _
  | symbol ident _ _ _ _ =>
    refine .symbol ?_
    simp only [isIdentCont, Bool.or_eq_false_iff] at ident
    exact ident.1

private theorem dollarTag_head {c : Char} {t tag : Text} (opened : PostgresLexer.dollarTag (c :: t) = some tag) : c = '$' := by
  by_contra other
  rw [PostgresLexer.dollarTag] at opened
  · cases opened
  · intro u same
    exact other (List.cons.inj same).1

private theorem postgres_shape {c : Char} {t : Text} {kind : Kind} {n : Nat} (reads : PostgresGuard.Reads c t kind n) :
    Shape .Postgres c t kind n := by
  cases reads with
  | space space => exact space_shape (fun _ => id) space t
  | lineComment dash other => exact .lineComment _ dash other
  | blockComment slash star => exact .blockComment _ slash star
  | escapeLiteral quote => exact .escapeLiteral _ (quote ▸ rfl)
  | literal quote => exact .literal _ (quote ▸ rfl)
  | quotedIdentifier quote => exact .quotedIdentifier _ (quote ▸ rfl)
  | word _ => exact .word
  | number _ => exact .number _
  | dollarLiteral tag opened => exact .dollarLiteral _ rfl (dollarTag_head opened)
  | symbol tag _ _ _ _ => exact .symbol tag

private theorem sqlite_shape (c : Char) (t : Text) :
    Shape .Sqlite c t (SqliteLexer.next () (c :: t)).1 (SqliteLexer.next () (c :: t)).2.1 := by
  rw [SqliteLexer.next]
  split_ifs with gap line block single double bracket ident number
  · refine space_shape (fun d gap => ?_) gap t
    simp only [SqliteLexer.isGap, Bool.or_eq_true, beq_iff_eq] at gap
    rcases gap with (((rfl | rfl) | rfl) | rfl) | rfl <;> rfl
  · simp only [Bool.and_eq_true, decide_eq_true_eq] at line
    exact .lineComment _ line.1 line.2
  · simp only [Bool.and_eq_true, decide_eq_true_eq] at block
    exact .blockComment _ block.1 block.2
  · exact .literal _ (single ▸ rfl)
  · simp only [Bool.or_eq_true, decide_eq_true_eq] at double
    refine .quotedIdentifier _ ?_
    rcases double with rfl | rfl <;> rfl
  · simp only [Bool.and_eq_true, decide_eq_true_eq] at bracket
    exact .bracketed _ bracket.1
  · exact .word
  · exact .number _
  · simp only [Bool.or_eq_true, not_or] at number
    exact .symbol (by simp [isTagCont, ident, number.1])

private theorem mysqlNext_shape (version : Nat) (s : MysqlLexer.State) (c : Char) (t : Text) :
    Shape .Mysql c t (mysqlNext version s (c :: t)).1 (mysqlNext version s (c :: t)).2.1 := by
  have ordinary := mysql_shape (MysqlGuard.next_reads s c t)
  by_cases executed : ∃ u, c :: t = '/' :: '*' :: '!' :: u
  · obtain ⟨u, same⟩ := executed
    obtain ⟨rfl, rfl⟩ := List.cons.inj same
    rw [mysqlNext]
    split_ifs
    · exact .blockComment _ rfl rfl
    · exact ordinary
  · rw [mysqlNext]
    · exact ordinary
    · intro u same
      exact executed ⟨u, same⟩

theorem Server.shaped (server : Server) {P : (Text → List Lexeme) → Prop} (shaped : ∀ (σ : Type) (next : Next σ) (s : σ),
      (∀ s c t, Shape server.driver c t (next s (c :: t)).1 (next s (c :: t)).2.1) → P (lex next s)) : P server.lexemes := by
  cases server with
  | mysql version => exact shaped _ _ _ (mysqlNext_shape version)
  | postgres => exact shaped _ _ _ fun s c t => postgres_shape (PostgresGuard.next_reads s c t)
  | sqlite => exact shaped _ _ _ fun _ c t => sqlite_shape c t

end Ramag.SqlServers
