import Ramag.Json
import Ramag.SqlImport

/-!
The lines of the Redis and MongoDB imports. A line is skipped, handled as a
record, warned about, or ends the import; cutting the preview of a warning
inside of a character panics.
-/
namespace Ramag.ImportLines
open Strings Domain Sql SqlImport Json List

inductive ImportKind
  | Redis
  | Mongo

def ImportKind.label : ImportKind → Text
  | .Redis => "Redis 导入文件"
  | .Mongo => "MongoDB 导入文件"

/-- The records that the loop has a use for. -/
def ImportKind.recognises : ImportKind → Value → Bool
  | .Redis, record => ((record.get "key").bind Value.asStr).isSome
  | .Mongo, record => ((record.get "collection").bind Value.asStr).isSome || (record.get "doc").isSome

/-- What becomes of a line. -/
inductive Turn
  | blank
  | record (record : Value)
  | warned (warning : Text)
  | failed (error : DomainError)
  | panicked

/-- `&t[..stop]`, which is only there for a character boundary. -/
def sliceTo (stop : Nat) (t : Text) : Option Text := (getFrom stop t).map fun rest => t.take (t.length - rest.length)

def readLineBounded (kind : ImportKind) (line : Text) : Result Text :=
  if byteLen line > MAX_LINE_BYTES then
    .error (.InvalidConfig (kind.label ++ "单行超过 " ++ natText (MAX_LINE_BYTES / 1024 / 1024) ++ " MiB 安全上限，疑似损坏"))
  else .ok line

section
variable (kind : ImportKind) (fromStr : Text → Except Text Value)

/-- One line of the loop; `fromStr` reads a JSON document, or tells its error. -/
def importLine (line : Text) : Turn :=
  match readLineBounded kind line with
  | .error error => .failed error
  | .ok line =>
    let trimmed := trim line
    if trimmed = [] then .blank
    else match fromStr trimmed with
      | .error error => .failed (.InvalidConfig ("JSONL 解析失败：" ++ error))
      | .ok record =>
        if kind.recognises record then .record record
        else match sliceTo (min (byteLen trimmed) 80) trimmed with
          | some preview => .warned ("无法识别的记录被跳过：" ++ preview)
          | none => .panicked

inductive Ended (σ : Type)
  | finished (s : TransferSummary × σ)
  | failed (error : DomainError)
  | panicked

variable {σ : Type}

/-- The loop over the lines; a record goes on with the import or ends it. -/
def importLines (handle : Value → TransferSummary × σ → TransferSummary × σ ⊕ Result (TransferSummary × σ)) :
    List Text → TransferSummary × σ → Ended σ
  | [], s => .finished s
  | line :: rest, s => match importLine kind fromStr line with
    | .blank => importLines handle rest s
    | .record record => match handle record s with
      | .inl s => importLines handle rest s
      | .inr (.ok s) => .finished s
      | .inr (.error error) => .failed error
    | .warned warning => importLines handle rest (s.1.pushWarning warning, s.2)
    | .failed error => .failed error
    | .panicked => .panicked

def Unrecognised (line : Text) : Prop := ∀ record, fromStr (trim line) = .ok record → kind.recognises record = false

/-- A document on a line that is not too long, with a character boundary after
    80 bytes if it has so many. -/
def Previews (line : Text) : Prop :=
  byteLen line ≤ MAX_LINE_BYTES ∧ trim line ≠ [] ∧ (∃ record, fromStr (trim line) = .ok record) ∧
    (byteLen (trim line) ≤ 80 ∨ ∃ front, front <+: trim line ∧ byteLen front = 80)

end

theorem getFrom_isSome {stop : Nat} {t : Text} : (getFrom stop t).isSome ↔ ∃ front, front <+: t ∧ byteLen front = stop := by
  constructor
  · intro given
    fun_induction getFrom stop t with
    | case1 t => exact ⟨[], nil_prefix, rfl⟩
    | case2 => cases given
    | case3 n c t fits ih =>
      obtain ⟨front, begins, bytes⟩ := ih given
      exact ⟨c :: front, (prefix_cons_inj c).mpr begins, by rw [byteLen_cons]; omega⟩
    | case4 => cases given
  · rintro ⟨front, ⟨rest, rfl⟩, rfl⟩
    induction front with
    | nil => cases rest <;> rfl
    | cons c front ih =>
      have positive := c.utf8Size_pos
      obtain ⟨n, bytes⟩ := Nat.exists_eq_add_one_of_ne_zero (n := c.utf8Size + byteLen front) (by omega)
      have left : n + 1 - c.utf8Size = byteLen front := by omega
      rw [cons_append, byteLen_cons, bytes, getFrom, if_pos (by omega), left]
      exact ih

theorem sliceTo_isSome {t : Text} :
    (sliceTo (min (byteLen t) 80) t).isSome ↔ byteLen t ≤ 80 ∨ ∃ front, front <+: t ∧ byteLen front = 80 := by
  rw [sliceTo, Option.isSome_map, getFrom_isSome]
  by_cases short : byteLen t ≤ 80
  · rw [Nat.min_eq_left short]
    exact iff_of_true ⟨t, prefix_rfl, rfl⟩ (.inl short)
  · rw [Nat.min_eq_right (by omega), or_iff_right short]

section
variable {kind : ImportKind} {fromStr : Text → Except Text Value} {line : Text}

theorem importLine_turn : match importLine kind fromStr line with
    | .warned _ => Unrecognised kind fromStr line ∧ Previews fromStr line
    | .panicked => Unrecognised kind fromStr line ∧ ¬ Previews fromStr line
    | .record record => fromStr (trim line) = .ok record ∧ kind.recognises record = true
    | _ => ¬ Previews fromStr line := by
  unfold importLine readLineBounded
  by_cases long : byteLen line > MAX_LINE_BYTES
  · rw [if_pos long]
    exact fun previews => absurd previews.1 (not_le.mpr long)
  rw [if_neg long]
  by_cases blank : trim line = []
  · simp [blank, Previews]
  simp only [if_neg blank]
  cases read : fromStr (trim line) with
  | error error => simp [Previews, read]
  | ok record =>
    by_cases known : kind.recognises record = true
    · simp [known]
    · have other : Unrecognised kind fromStr line := fun _ same => Except.ok.inj (read.symm.trans same) ▸ Bool.not_eq_true _ ▸ known
      simp only [if_neg known]
      cases sliced : sliceTo (min (byteLen (trim line)) 80) (trim line) with
      | some preview => exact ⟨other, not_lt.mp long, blank, ⟨record, read⟩, sliceTo_isSome.mp (by rw [sliced]; rfl)⟩
      | none => exact ⟨other, fun previews => nomatch (sliced ▸ sliceTo_isSome.mpr previews.2.2.2)⟩

theorem importLine_warned (unrecognised : Unrecognised kind fromStr line) :
    (∃ warning, importLine kind fromStr line = .warned warning) ↔ Previews fromStr line := by
  have turn := @importLine_turn kind fromStr line
  revert turn
  cases importLine kind fromStr line with
  | warned warning => exact fun turn => iff_of_true ⟨warning, rfl⟩ turn.2
  | record record => exact fun turn => nomatch (unrecognised record turn.1).symm.trans turn.2
  | panicked => exact fun turn => iff_of_false nofun turn.2
  | _ => exact fun turn => iff_of_false nofun turn

end

/-- A line that is no record is warned about exactly when it is a document whose
    preview ends at a character boundary, and a file whose other lines are of
    this kind is imported without a panic. -/
theorem import_lines_previewed (kind : ImportKind) (fromStr : Text → Except Text Value) : (∀ line, Unrecognised kind fromStr line →
      ((∃ warning, importLine kind fromStr line = .warned warning) ↔ Previews fromStr line)) ∧
    ∀ {σ : Type} (handle : Value → TransferSummary × σ → TransferSummary × σ ⊕ Result (TransferSummary × σ))
      (lines : List Text) (s : TransferSummary × σ), (∀ line ∈ lines, Unrecognised kind fromStr line → Previews fromStr line) →
        importLines kind fromStr handle lines s ≠ .panicked := by
  refine ⟨fun line unrecognised => importLine_warned unrecognised, ?_⟩
  intro σ handle lines s
  induction lines generalizing s with
  | nil => exact fun _ => nofun
  | cons line lines ih =>
    intro each
    obtain ⟨first, others⟩ := forall_mem_cons.mp each
    rw [importLines]
    split
    · exact ih s others
    · split
      · exact ih _ others
      · exact nofun
      · exact nofun
    · exact ih _ others
    · exact nofun
    case h_5 turn =>
      have ended := @importLine_turn kind fromStr line
      rw [turn] at ended
      exact absurd (first ended.1) ended.2

/-- A JSON string whose letters take two bytes each, behind a quote of one. -/
def accents : Text := '"' :: replicate 40 'é' ++ ['"']

theorem import_lines_panic : ¬ ∀ (kind : ImportKind) (fromStr : Text → Except Text Value) (line : Text),
    Unrecognised kind fromStr line → importLine kind fromStr line ≠ .panicked := by
  intro claimed
  refine claimed .Redis (fun _ => .ok (.String (replicate 40 'é'))) accents (fun record read => ?_) ?_
  · obtain rfl := Except.ok.inj read
    rfl
  · rfl

end Ramag.ImportLines
