import Ramag.DangerousStatements

/-!
The refusal of transaction control in front of an execution, under the servers'
lexical rules: the first keyword that the check finds is the server's when the
comments in front of it are of the styles that it knows.
-/
namespace Ramag.TransactionControl
open Strings Domain Sql Lexing SqlServers KeywordDepths StatementCuts List
open DangerousStatements ReadOnlyGuard

/-- The statements that `execute_in_transaction_impl` goes on to run; `slot` is
    what the transaction store holds: nothing, or an ended or an open transaction. -/
def executeInTransactionImpl (slot : Option Bool) (production : Bool) (opts : SplitOptions) (query : Query) : Result (List Text) :=
  match query.validate with
  | .error error => .error error
  | .ok () =>
    if query.transactional then .error (.InvalidConfig "事务会话内不能嵌套自动提交事务")
    else
      match slot with
      | none => .error (.QueryFailed "事务不存在或不属于当前连接")
      | some false => .error (.QueryFailed "事务已经结束")
      | some true =>
        match splitStatementsBounded query.sql opts MAX_SQL_STATEMENTS with
        | .error error => .error error
        | .ok statements =>
          if statements.any isTransactionControlStatement then
            .error (.InvalidConfig "手动事务内请使用事务控制按钮，不要直接执行事务控制语句")
          else if production && statements.any isWriteStatement then .error (.Forbidden READ_ONLY_MESSAGE)
          else .ok statements

/-- The options that the drivers split with. -/
def backendOptions : Server → SplitOptions
  | .mysql _ => .mysql
  | .postgres => .postgres
  | .sqlite => .sqlite

def followedBy (keyword : Text) (rest : List Lexeme) : Bool :=
  (leading isBlank rest).any fun found => found.1 = keyword

variable (server : Server)

/-- A transaction-control command, by its first keywords. -/
def isControl (keyword : Text) (rest : List Lexeme) : Bool :=
  keyword ∈ ["BEGIN".toList, "COMMIT".toList, "ROLLBACK".toList, "SAVEPOINT".toList, "RELEASE".toList] ||
    (keyword = "START" && followedBy "TRANSACTION" rest) ||
    match server with
    | .mysql _ => false
    | .postgres => keyword = "END" || keyword = "ABORT" ||
        (keyword = "PREPARE" && followedBy "TRANSACTION" rest)
    | .sqlite => keyword = "END"

def Controls (s : Text) : Prop :=
  ∃ keyword rest, leading isBlank (server.lexemes s) = some (keyword, rest) ∧ isControl server keyword rest = true

/-! ### The first keyword -/

/-- In front of the first word stand only white space without vertical tabs and
    comments that the check passes over with the same extent. The count is the
    characters of an executed comment that are still to be passed over: to the
    check the whole comment is one, and the first word must not be in it. -/
def ledFrom : Nat → List Lexeme → Bool
  | _, [] => false
  | skip + 1, x :: xs => isBlank x && x.length ≤ skip + 1 && ledFrom (skip + 1 - x.length) xs
  | 0, x :: xs =>
    match x.kind with
    | .word => true
    | .space => x.raw.all isAsciiWhitespace && ledFrom 0 xs
    | .lineComment => x.length = lineSkip x.here && ledFrom 0 xs
    | .blockComment => x.length = 2 + blockSkip (x.here.drop 2) && ledFrom 0 xs
    | .versionOpen => ledFrom (blockSkip x.rest) xs
    | _ => false

private theorem firstKeywordFrom_skip (n : Nat) (t : Text) : firstKeywordFrom n t = firstKeyword (t.drop n) := by
  induction t generalizing n with
  | nil => cases n <;> rfl
  | cons c t ih =>
    cases n with
    | zero => rfl
    | succ n => simpa [firstKeywordFrom] using ih n

private theorem firstKeyword_line {t : Text} (second : t.head? = some '-') :
    firstKeyword ('-' :: t) = firstKeyword (('-' :: t).drop (lineSkip ('-' :: t))) := by
  have white : isAsciiWhitespace '-' = false := by decide
  have size : lineSkip ('-' :: t) = lineSkip t + 1 := by simp [lineSkip]
  rw [firstKeyword, firstKeywordFrom, size, drop_succ_cons, ← firstKeywordFrom_skip]
  simp [white, second]

private theorem firstKeyword_block {t : Text} (second : t.head? = some '*') :
    firstKeyword ('/' :: t) = firstKeywordFrom (1 + blockSkip t.tail) t := by
  have white : isAsciiWhitespace '/' = false := by decide
  rw [firstKeyword, firstKeywordFrom]
  simp [white, second]

private theorem firstKeyword_word {c : Char} {t keyword : Text} (letters : ∀ d ∈ keyword, d.isAlpha = true)
    (spelled : toAsciiUppercase (c :: t.takeWhile isIdentCont) = keyword) : firstKeyword (c :: t) = some keyword := by
  have alpha : ∀ d ∈ c :: t.takeWhile isIdentCont, d.isAlpha = true := by
    intro d mem
    have upper : d.toUpper ∈ keyword := spelled ▸ mem_map_of_mem mem
    simpa using letters _ upper
  have first := alpha c (by simp)
  have run : t.takeWhile Char.isAlpha = t.takeWhile isIdentCont := by
    have whole := takeWhile_append_dropWhile (p := isIdentCont) (l := t)
    conv_lhs => rw [← whole, takeWhile_append_of_pos fun d mem => alpha d (by simp [mem])]
    have stop : (t.dropWhile isIdentCont).takeWhile Char.isAlpha = [] := by
      cases behind : t.dropWhile isIdentCont with
      | nil => rfl
      | cons d u =>
        have other := head?_dropWhile_not isIdentCont t
        rw [behind] at other
        have notAlpha : d.isAlpha = false := by
          by_contra letter
          simp [isIdentCont, isTagCont, isIdentStart, letter] at other
        simp [notAlpha]
    rw [stop, append_nil]
  rw [firstKeyword_here (white_of_alpha first)]
  · rw [takeWhile_cons_of_pos first, run, spelled]
    rfl
  · intro dash
    exact absurd (dash ▸ first) (by decide)
  · intro slash
    exact absurd (slash ▸ first) (by decide)

private theorem led_step {driver : DriverKind} {c : Char} {t : Text} {kind : Kind} {n : Nat} {xs : List Lexeme}
    (shape : Shape driver c t kind n) (other : kind ≠ .word) (led : ledFrom 0 (⟨kind, c :: t, n + 1⟩ :: xs) = true) :
    isBlank ⟨kind, c :: t, n + 1⟩ = true ∧
      ∃ m, ledFrom m xs = true ∧ firstKeyword (c :: t) = firstKeywordFrom m ((c :: t).drop (n + 1)) := by
  cases shape with
  | space _ _ =>
    simp only [ledFrom, Bool.and_eq_true, all_eq_true] at led
    have gap := firstKeyword_skip led.1 ((c :: t).drop (n + 1))
    rw [Lexeme.raw, take_append_drop] at gap
    exact ⟨rfl, 0, led.2, gap⟩
  | lineComment _ dash second =>
    subst dash
    simp only [ledFrom, Bool.and_eq_true, decide_eq_true_eq] at led
    exact ⟨rfl, 0, led.2, by rw [led.1, firstKeyword_line second]; rfl⟩
  | blockComment _ slash star =>
    subst slash
    simp only [ledFrom, Bool.and_eq_true, decide_eq_true_eq, drop_succ_cons, drop_one] at led
    refine ⟨rfl, 0, led.2, ?_⟩
    rw [led.1, firstKeyword_block star, firstKeywordFrom_skip, firstKeywordFrom_skip, Nat.add_comm 2, drop_zero, Nat.add_comm 1]
    rfl
  | versionOpen _ slash star bang =>
    obtain ⟨u, rfl⟩ : ∃ u, t = '*' :: '!' :: u := by
      cases t with
      | nil => simp at star
      | cons d t =>
        cases t with
        | nil => simp at bang
        | cons e t => exact ⟨t, by simp_all⟩
    subst slash
    have inner : blockSkip ('!' :: u) = 1 + blockSkip u := by simp [blockSkip]
    refine ⟨rfl, blockSkip u, led, ?_⟩
    rw [firstKeyword_block rfl, tail_cons, inner, firstKeywordFrom_skip, firstKeywordFrom_skip]
    rw [show 1 + (1 + blockSkip u) = blockSkip u + 2 by omega]
    rfl
  | word => exact absurd rfl other
  | hashComment _ _ | versionNumber _ _ | versionClose _ _ | literal _ _ | escapeLiteral _ _ | quotedIdentifier _ _
  | bracketed _ _ | dollarLiteral _ _ _ | number _ | symbol _ => simp [ledFrom] at led

private theorem firstKeyword_lexed {driver : DriverKind} {σ : Type} {next : Next σ}
    (shaped : ∀ s c t, Shape driver c t (next s (c :: t)).1 (next s (c :: t)).2.1) {s : σ} {t : Text} {xs : List Lexeme}
    (lexed : lex next s t = xs) {skip : Nat} (led : ledFrom skip xs = true) {keyword : Text} {rest : List Lexeme}
    (first : leading isBlank xs = some (keyword, rest)) (letters : ∀ d ∈ keyword, d.isAlpha = true) :
    firstKeywordFrom skip t = some keyword := by
  induction xs generalizing s t skip with
  | nil => simp [ledFrom] at led
  | cons x xs ih =>
    obtain ⟨front, here, nonempty, others⟩ := lex_eq_cons next lexed
    obtain ⟨c, u, rfl⟩ := exists_cons_of_ne_nil nonempty
    have shape := shaped s c u
    have later (blank : isBlank x = true) : leading isBlank xs = some (keyword, rest) := by
      rw [leading, dropWhile_cons_of_pos blank] at first
      exact first
    rw [← here]
    cases skip with
    | succ skip =>
      simp only [ledFrom, Bool.and_eq_true, decide_eq_true_eq] at led
      obtain ⟨⟨blank, fits⟩, led⟩ := led
      have step : firstKeywordFrom (skip + 1) x.here = firstKeywordFrom (skip + 1 - x.length) x.rest := by
        rw [firstKeywordFrom_skip, firstKeywordFrom_skip, Lexeme.rest, drop_drop]
        congr 2
        omega
      rw [step]
      exact ih others led (later blank)
    | zero =>
      by_cases word : (next s (c :: u)).1 = .word
      · rw [word] at shape
        have spelled : toAsciiUppercase (c :: u.takeWhile isIdentCont) = keyword := by
          have notBlank : isBlank x = false := by rw [front]; simp [isBlank, lexemeAt, word]
          rw [leading, dropWhile_cons_of_neg (by simp [notBlank])] at first
          simp only [front, lexemeAt, word, if_true, Option.some.injEq, Prod.mk.injEq] at first
          generalize (next s (c :: u)).2.1 = n at shape first
          cases shape
          rw [← first.1, Lexeme.raw, take_run]
        rw [here]
        exact firstKeyword_word letters spelled
      · rw [front] at led
        obtain ⟨blank, m, led, step⟩ := led_step shape word led
        rw [here]
        refine step.trans ?_
        have rest : x.rest = (c :: u).drop ((next s (c :: u)).2.1 + 1) := by rw [front]; rfl
        rw [← rest]
        exact ih others led (later (front ▸ blank))

/-- The statement is a transaction-control command that the check knows, behind
    comments that it knows. -/
def Recognised (s : Text) : Prop :=
  ledFrom 0 (server.lexemes s) = true ∧ ∃ keyword rest, leading isBlank (server.lexemes s) = some (keyword, rest) ∧
    isControl server keyword rest = true ∧ keyword ∉ ["END".toList, "ABORT".toList, "PREPARE".toList]

/-- The text is cut as the server does, and when it has transaction-control
    commands the check recognises one of them. -/
structure Known (server : Server) (grammar : Grammar) (sql : Text) : Prop where
  cuts : CutsAlike (backendOptions server) grammar 0 {} (server.lexemes sql)
  recognised : (∃ s ∈ statements server grammar sql, Controls server s) → ∃ s ∈ statements server grammar sql, Recognised server s

private theorem control_keyword {server : Server} {keyword : Text} {rest : List Lexeme} (control : isControl server keyword rest = true)
    (known : keyword ∉ ["END".toList, "ABORT".toList, "PREPARE".toList]) :
    keyword ∈ ["BEGIN".toList, "START".toList, "COMMIT".toList, "ROLLBACK".toList, "SAVEPOINT".toList, "RELEASE".toList] := by
  simp only [mem_cons, not_mem_nil, or_false, not_or] at known ⊢
  unfold isControl at control
  rw [Bool.or_eq_true, Bool.or_eq_true] at control
  rcases control with (plain | start) | own
  · simp only [decide_eq_true_eq, mem_cons, not_mem_nil, or_false] at plain
    rcases plain with same | same | same | same | same <;> simp [same]
  · simp only [Bool.and_eq_true, decide_eq_true_eq] at start
    exact .inr (.inl start.1)
  cases server with
  | mysql _ => cases own
  | postgres => simp only [known.1, known.2.1, known.2.2, decide_false, Bool.false_and, Bool.or_self, Bool.false_eq_true] at own
  | sqlite => simp only [known.1, decide_false, Bool.false_eq_true] at own

private theorem recognised_control {server : Server} {s : Text} (recognised : Recognised server s) :
    isTransactionControlStatement s = true := by
  obtain ⟨led, keyword, rest, first, control, known⟩ := recognised
  have among := control_keyword control known
  have letters : keyword.all Char.isAlpha = true := by
    simp only [mem_cons, not_mem_nil, or_false] at among
    rcases among with rfl | rfl | rfl | rfl | rfl | rfl <;> decide
  have found : firstKeyword s = some keyword := by
    revert led first
    refine server.shaped (P := fun lexemes => ledFrom 0 (lexemes s) = true → leading isBlank (lexemes s) = some (keyword, rest) →
      firstKeyword s = some keyword) fun σ next state shaped led first => ?_
    exact firstKeyword_lexed shaped rfl led first (all_eq_true.mp letters)
  rw [isTransactionControlStatement, found]
  exact decide_eq_true among

/-- A text with a transaction-control command runs no statement, neither on a
    pooled connection nor in a leased transaction. -/
theorem control_rejected {server : Server} {grammar : Grammar} {query : Query} (known : Known server grammar query.sql)
    {s : Text} (stands : s ∈ statements server grammar query.sql) (controls : Controls server s) (production : Bool) (slot : Option Bool) :
    (∃ error, executeImpl production (backendOptions server) query = .error error) ∧
      ∃ error, executeInTransactionImpl slot production (backendOptions server) query = .error error := by
  obtain ⟨found, mem, recognised⟩ := known.recognised ⟨s, stands, controls⟩
  rw [← splitStatements_eq known.cuts] at mem
  have control := recognised_control recognised
  have checked {statements : List Text}
      (split : splitStatementsBounded query.sql (backendOptions server) MAX_SQL_STATEMENTS = .ok statements) :
      statements.any isTransactionControlStatement = true := by
    rw [splitStatementsBounded_ok split]
    exact any_eq_true.mpr ⟨found, mem, control⟩
  constructor
  · rw [executeImpl]
    split
    · exact ⟨_, rfl⟩
    split
    · exact ⟨_, rfl⟩
    · rename_i split
      rw [if_pos (checked split)]
      exact ⟨_, rfl⟩
  · unfold executeInTransactionImpl
    split
    · exact ⟨_, rfl⟩
    split_ifs
    · exact ⟨_, rfl⟩
    split
    · exact ⟨_, rfl⟩
    · exact ⟨_, rfl⟩
    split
    · exact ⟨_, rfl⟩
    · rename_i split
      rw [if_pos (checked split)]
      exact ⟨_, rfl⟩

private def committed : Text := "SELECT 1; /* a */ -- b
Commit".toList

theorem control_rejected_mysql : (∃ error, executeImpl false (backendOptions (.mysql 80036)) { sql := committed } = .error error) ∧
      ∃ error, executeInTransactionImpl (some true) false (backendOptions (.mysql 80036)) { sql := committed } =
        .error error := by
  have stands : "/* a */ -- b
Commit".toList ∈ statements (.mysql 80036) plainGrammar committed := by decide +kernel
  have first : leading isBlank ((Server.mysql 80036).lexemes "/* a */ -- b
Commit".toList) = some ("COMMIT".toList, []) := by
    decide +kernel
  have known : Known (.mysql 80036) plainGrammar committed :=
    ⟨by decide +kernel, fun _ => ⟨_, stands, by decide +kernel, _, _, first, by decide, by decide⟩⟩
  exact control_rejected known stands ⟨_, _, first, by decide⟩ false (some true)

/-- PostgreSQL ends a transaction on `END`, which the check does not know. -/
theorem control_rejected_end :
    ¬ ∀ (server : Server) (grammar : Grammar) (query : Query) (s : Text), s ∈ statements server grammar query.sql →
      Controls server s → ∀ (production : Bool) (slot : Option Bool),
        (∃ error, executeImpl production (backendOptions server) query = .error error) ∧
          ∃ error, executeInTransactionImpl slot production (backendOptions server) query = .error error := by
  intro all
  have first : leading isBlank (Server.postgres.lexemes "END".toList) = some ("END".toList, []) := by decide
  obtain ⟨_, error, rejected⟩ := all .postgres plainGrammar { sql := "END".toList } "END".toList (by decide)
    ⟨_, _, first, by decide⟩ false (some true)
  cases rejected

end Ramag.TransactionControl
