import Ramag.Strings
import Mathlib.Data.List.Forall2

/-!
The domain vocabulary that the SQL paths share: drivers, errors, resource
limits and the query that an executor receives.
-/
namespace Ramag.Domain
open Strings List

inductive DriverKind
  | Mysql
  | Postgres
  | Sqlite
  | Redis
  | Mongodb
  deriving DecidableEq

inductive DomainError
  | InvalidConfig (message : Text)
  | Forbidden (message : Text)
  | QueryFailed (message : Text)
  | Storage (message : Text)
  | NotFound (message : Text)
  | Other (message : Text)
  deriving DecidableEq

abbrev Result := Except DomainError

def DomainError.message : DomainError → Text
  | .InvalidConfig m | .Forbidden m | .QueryFailed m | .Storage m | .NotFound m | .Other m => m

def READ_ONLY_MESSAGE : Text := "生产模式下无法执行写操作"

/-- A number in decimal digits. -/
def natText (n : Nat) : Text := Nat.toDigits 10 n

def TRANSFER_BATCH_ITEMS : Nat := 5000
def TRANSFER_BATCH_BYTES : Nat := 32 * 1024 * 1024
def MAX_SQL_QUERY_BYTES : Nat := 32 * 1024 * 1024
def MAX_INTERACTIVE_RESULT_BYTES : Nat := 256 * 1024 * 1024
def MAX_CONNECTION_IDENTIFIER_BYTES : Nat := 4 * 1024

/-- An identifier between quotes, with every quote inside it doubled. -/
def quoted (quote : Char) (ident : Text) : Text := [quote] ++ replaceChar quote [quote, quote] ident ++ [quote]

def quoteIdentifier : DriverKind → Text → Text
  | .Mysql, ident => quoted '`' ident
  | .Postgres, ident | .Sqlite, ident => quoted '"' ident
  | .Redis, ident | .Mongodb, ident => ident

/-- The characters of the categories `Cc`. -/
def isControl (c : Char) : Bool := c.toNat < 0x20 || (0x7F ≤ c.toNat && c.toNat ≤ 0x9F)

structure Query where
  sql : Text
  transactional : Bool := false
  defaultSchema : Option Text := none
  autoLimit : Option Nat := none
  resultByteLimit : Option Nat := none

def Query.validate (query : Query) : Result Unit :=
  if byteLen query.sql > MAX_SQL_QUERY_BYTES then
    .error (.InvalidConfig ("SQL 内容超过 " ++ natText (MAX_SQL_QUERY_BYTES / 1024 / 1024) ++ " MiB 安全上限"))
  else if '\x00' ∈ query.sql then .error (.InvalidConfig "SQL 内容不能包含 NUL 字符")
  else if query.resultByteLimit.any fun limit => limit = 0 || limit > MAX_INTERACTIVE_RESULT_BYTES then
    .error (.InvalidConfig ("SQL 结果字节预算必须在 1 字节到 " ++ natText (MAX_INTERACTIVE_RESULT_BYTES / 1024 / 1024) ++ " MiB 之间"))
  else if query.defaultSchema.any fun schema =>
      byteLen schema > MAX_CONNECTION_IDENTIFIER_BYTES || schema.any isControl then
    .error (.InvalidConfig ("默认 schema 超过 " ++ natText (MAX_CONNECTION_IDENTIFIER_BYTES / 1024) ++ " KiB 上限或包含控制字符"))
  else .ok ()

/-! ### Fallible steps -/

variable {ε α β : Type} {step : Except ε α} {next : α → Except ε β}

theorem bind_ok_iff {result : β} : (step >>= next) = .ok result ↔ ∃ value, step = .ok value ∧ next value = .ok result := by
  cases step with
  | error error =>
    constructor
    · intro done
      cases done
    · rintro ⟨_, ⟨⟩, _⟩
  | ok value =>
    constructor
    · intro done
      exact ⟨value, rfl, done⟩
    · rintro ⟨_, ⟨⟩, done⟩
      exact done

theorem bind_ok {result : β} (done : (step >>= next) = .ok result) : ∃ value, step = .ok value ∧ next value = .ok result :=
  bind_ok_iff.mp done

theorem mapError_ok {δ : Type} {f : ε → δ} {value : α} (done : step.mapError f = .ok value) : step = .ok value := by
  cases step with
  | error error => cases done
  | ok other => simpa [Except.mapError] using done

variable {items : List α}

theorem mapM_ok_iff {f : α → Except ε β} {results : List β} :
    items.mapM f = .ok results ↔ List.Forall₂ (fun item result => f item = .ok result) items results := by
  induction items generalizing results with
  | nil =>
    rw [mapM_nil, forall₂_nil_left_iff]
    exact ⟨fun done => (Except.ok.inj done).symm, fun same => same ▸ rfl⟩
  | cons item items ih =>
    rw [mapM_cons, forall₂_cons_left_iff]
    simp only [bind_ok_iff, ih]
    constructor
    · rintro ⟨first, own, rest, others, done⟩
      exact ⟨first, rest, own, others, (Except.ok.inj done).symm⟩
    · rintro ⟨first, rest, own, others, rfl⟩
      exact ⟨first, own, rest, others, rfl⟩

theorem mapM_ok_mem {f : α → Except ε β} {results : List β} {item : α}
    (done : items.mapM f = .ok results) (mem : item ∈ items) : ∃ result ∈ results, f item = .ok result := by
  rw [mapM_ok_iff] at done
  induction done with
  | nil => cases mem
  | cons own _ ih =>
    rcases mem_cons.mp mem with rfl | later
    · exact ⟨_, mem_cons_self, own⟩
    · obtain ⟨result, there, given⟩ := ih later
      exact ⟨result, mem_cons_of_mem _ there, given⟩

/-- Elements that are written one by one and read back one by one come back
    together exactly when each of them does. -/
theorem mapM_roundTrip_iff {write : α → Except ε β} {read : β → Except ε α} :
    (∃ written, items.mapM write = .ok written ∧ written.mapM read = .ok items) ↔
      ∀ item ∈ items, ∃ written, write item = .ok written ∧ read written = .ok item := by
  simp only [mapM_ok_iff]
  induction items with
  | nil =>
    constructor
    · exact nofun
    · intro _
      exact ⟨[], .nil, .nil⟩
  | cons item items ih =>
    rw [forall_mem_cons, ← ih]
    constructor
    · rintro ⟨_, written, back⟩
      cases written with
      | cons own others =>
        obtain ⟨same, rest⟩ := forall₂_cons.mp back
        exact ⟨⟨_, own, same⟩, _, others, rest⟩
    · rintro ⟨⟨first, own, same⟩, rest, others, back⟩
      exact ⟨first :: rest, .cons own others, .cons same back⟩

end Ramag.Domain
