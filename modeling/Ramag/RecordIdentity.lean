import Mathlib.Data.Char
import Mathlib.Data.List.Lex
import Mathlib.Data.List.Sort
import Mathlib.Data.Prod.Lex
import Ramag.TableDesign

/-!
# The identity of the records of a table

A repeated synchronisation finds the record it wrote before by the primary key
of its table, or by a unique index that has no null (`selectSqlRecordIdentity`).
Which one it takes does not depend on the order of the columns and the indexes
(`identity_selected`). An index that names a column twice is still a candidate,
and where it is the first of them the selection fails (`repeated_column_refused`).
-/

namespace Ramag.RecordIdentity
open Strings Domain List
open TableDesign (Column)

structure Index where
  name : Text
  unique : Bool
  primary : Bool
  columns : List Text

inductive SqlIdentityKind
  | PrimaryKey
  | UniqueIndex (name : Text)
  deriving DecidableEq

structure SqlRecordIdentity where
  kind : SqlIdentityKind
  columns : List Text
  deriving DecidableEq

/-- Of two columns with one name, the map keeps the last. -/
def columnsByName (columns : List Column) (name : Text) : Option Column :=
  columns.reverse.find? (·.name = name)

def validateNames (index : Index) (columns : Text → Option Column) (seen : List Text) : List Text → Result Unit
  | [] => .ok ()
  | name :: rest =>
    if columns name = none then .error (.InvalidConfig ("索引 " ++ index.name ++ " 引用了不存在的列 " ++ name))
    else if name ∈ seen then .error (.InvalidConfig ("索引 " ++ index.name ++ " 重复引用列 " ++ name))
    else validateNames index columns (name :: seen) rest

def validateIdentityColumns (index : Index) (columns : Text → Option Column) : Result Unit :=
  validateNames index columns [] index.columns

def primaryIndexes (indexes : List Index) : List Index :=
  indexes.filter fun index => index.primary && index.columns ≠ []

def isCandidate (columns : Text → Option Column) (index : Index) : Bool :=
  index.unique && !index.primary && index.columns ≠ [] &&
    index.columns.all fun name => (columns name).any fun column => !column.nullable

/-- Few columns come first, and then the name decides. -/
def rank (index : Index) : Nat ×ₗ Text := toLex (index.columns.length, index.name)

def candidates (columns : Text → Option Column) (indexes : List Index) : List Index :=
  (indexes.filter (isCandidate columns)).insertionSort fun left right => rank left ≤ rank right

def selectSqlRecordIdentity (columns : List Column) (indexes : List Index) : Result SqlRecordIdentity :=
  match primaryIndexes indexes with
  | _ :: _ :: _ => .error (.InvalidConfig "表元数据包含多个主键，无法确定记录身份")
  | [index] => do
    validateIdentityColumns index (columnsByName columns)
    .ok { kind := .PrimaryKey, columns := index.columns }
  | [] =>
    match candidates (columnsByName columns) indexes with
    | [] => .error (.InvalidConfig "表没有主键或全部列非空的唯一索引，不能安全重复同步")
    | index :: _ => do
      validateIdentityColumns index (columnsByName columns)
      .ok { kind := .UniqueIndex index.name, columns := index.columns }

/-! ### What is to be selected -/

/-- A unique index that finds each record: its columns exist and have no null. -/
structure Eligible (columns : List Column) (index : Index) : Prop where
  unique : index.unique
  secondary : index.primary = false
  nonempty : index.columns ≠ []
  solid : ∀ name ∈ index.columns, ∃ column ∈ columns, column.name = name ∧ column.nullable = false

/-- The only primary key, or the first eligible index of a table without one. -/
inductive Preferred (columns : List Column) (indexes : List Index) (index : Index) : SqlIdentityKind → Prop
  | key (only : primaryIndexes indexes = [index]) : Preferred columns indexes index .PrimaryKey
  | other (none : primaryIndexes indexes = []) (mem : index ∈ indexes) (eligible : Eligible columns index)
      (first : ∀ other ∈ indexes, Eligible columns other → rank index ≤ rank other) :
      Preferred columns indexes index (.UniqueIndex index.name)

variable {columns : List Column} {indexes : List Index} {index : Index}

theorem columnsByName_eq_some (named : (columns.map (·.name)).Nodup) {name : Text} {column : Column} :
    columnsByName columns name = some column ↔ column ∈ columns ∧ column.name = name := by
  constructor
  · intro found
    have same := find?_some found
    exact ⟨mem_reverse.mp (mem_of_find?_eq_some found), of_decide_eq_true same⟩
  rintro ⟨mem, rfl⟩
  cases found : columnsByName columns column.name with
  | none => exact absurd (decide_eq_true rfl) (find?_eq_none.mp found column (mem_reverse.mpr mem))
  | some other =>
    have same := find?_some found
    rw [inj_on_of_nodup_map named (mem_reverse.mp (mem_of_find?_eq_some found)) mem (of_decide_eq_true same)]

theorem columnsByName_ne_none {name : Text} : columnsByName columns name ≠ none ↔ name ∈ columns.map (·.name) := by
  simp [columnsByName, find?_eq_none]

theorem isCandidate_iff (named : (columns.map (·.name)).Nodup) : isCandidate (columnsByName columns) index ↔ Eligible columns index := by
  simp only [isCandidate, Bool.and_eq_true, Bool.not_eq_true', decide_eq_true_eq, all_eq_true, Option.any_eq_true,
    columnsByName_eq_some named]
  constructor
  · rintro ⟨⟨⟨unique, secondary⟩, nonempty⟩, solid⟩
    exact ⟨unique, secondary, nonempty, fun name mem =>
      (solid name mem).imp fun column held => ⟨held.1.1, held.1.2, held.2⟩⟩
  · intro eligible
    refine ⟨⟨⟨eligible.unique, eligible.secondary⟩, eligible.nonempty⟩, fun name mem => ?_⟩
    obtain ⟨column, there, same, solid⟩ := eligible.solid name mem
    exact ⟨column, ⟨there, same⟩, solid⟩

theorem validateNames_ok {byName : Text → Option Column} {seen names : List Text} : validateNames index byName seen names = .ok () ↔
      names.Nodup ∧ (∀ name ∈ names, name ∉ seen) ∧ ∀ name ∈ names, byName name ≠ none := by
  induction names generalizing seen with
  | nil => simp [validateNames]
  | cons name rest ih =>
    rw [validateNames]
    split_ifs with missing again
    · simp [missing]
    · simp [again]
    · rw [ih]
      simp only [nodup_cons, mem_cons, forall_eq_or_imp, not_or]
      grind

theorem candidates_ranked (columns : Text → Option Column) (indexes : List Index) :
    (candidates columns indexes).Pairwise fun left right => rank left ≤ rank right :=
  pairwise_insertionSort _ _

theorem mem_candidates (named : (columns.map (·.name)).Nodup) :
    index ∈ candidates (columnsByName columns) indexes ↔ index ∈ indexes ∧ Eligible columns index := by
  rw [candidates, mem_insertionSort, mem_filter, isCandidate_iff named]

theorem rank_injective (labelled : (indexes.map (·.name)).Nodup) {other : Index} (mem : index ∈ indexes)
    (mem' : other ∈ indexes) (same : rank index = rank other) : index = other :=
  inj_on_of_nodup_map labelled mem mem' (congrArg (fun rank => (ofLex rank).2) same)

/-! ### The order of the columns and the indexes -/

theorem columnsByName_perm (named : (columns.map (·.name)).Nodup) {columns' : List Column} (perm : columns'.Perm columns) :
    columnsByName columns' = columnsByName columns := by
  have named' : (columns'.map (·.name)).Nodup := (perm.map _).nodup_iff.mpr named
  funext name
  ext column
  rw [columnsByName_eq_some named', columnsByName_eq_some named, perm.mem_iff]

theorem candidates_perm (labelled : (indexes.map (·.name)).Nodup) {indexes' : List Index} (perm : indexes'.Perm indexes)
    (byName : Text → Option Column) : candidates byName indexes' = candidates byName indexes := by
  have same : (candidates byName indexes').Perm (candidates byName indexes) :=
    (perm_insertionSort _ _).trans ((perm.filter _).trans (perm_insertionSort _ _).symm)
  refine same.eq_of_pairwise (fun left right mem mem' le le' => ?_) (candidates_ranked _ _) (candidates_ranked _ _)
  rw [candidates, mem_insertionSort] at mem mem'
  exact rank_injective labelled (perm.mem_iff.mp (mem_of_mem_filter mem)) (mem_of_mem_filter mem') (le_antisymm le le')

theorem selectSqlRecordIdentity_perm (named : (columns.map (·.name)).Nodup) (labelled : (indexes.map (·.name)).Nodup)
    {columns' : List Column} {indexes' : List Index} (perm : columns'.Perm columns) (perm' : indexes'.Perm indexes) :
    selectSqlRecordIdentity columns' indexes' = selectSqlRecordIdentity columns indexes := by
  have keys : (primaryIndexes indexes').Perm (primaryIndexes indexes) := perm'.filter _
  rw [selectSqlRecordIdentity, selectSqlRecordIdentity, columnsByName_perm named perm, candidates_perm labelled perm']
  match primaryIndexes indexes', primaryIndexes indexes, keys with
  | [], [], _ => rfl
  | [index], [other], keys => rw [singleton_perm_singleton.mp keys]
  | _ :: _ :: _, _ :: _ :: _, _ => rfl
  | [], _ :: _, keys | _ :: _, [], keys | [_], _ :: _ :: _, keys | _ :: _ :: _, [_], keys => simp at keys

/-! ### The identity that is selected -/

/-- The columns of an identity exist, and each is named once. -/
structure Sound (columns : List Column) (names : List Text) : Prop where
  nonempty : names ≠ []
  distinct : names.Nodup
  known : ∀ name ∈ names, name ∈ columns.map (·.name)

theorem validated_ok (nonempty : index.columns ≠ []) {chosen identity : SqlRecordIdentity} :
    (do validateIdentityColumns index (columnsByName columns); .ok chosen) = .ok identity ↔
      Sound columns index.columns ∧ chosen = identity := by
  have valid : validateIdentityColumns index (columnsByName columns) = .ok () ↔ Sound columns index.columns := by
    rw [validateIdentityColumns, validateNames_ok]
    simp only [columnsByName_ne_none]
    exact ⟨fun ⟨distinct, _, known⟩ => ⟨nonempty, distinct, known⟩, fun sound => ⟨sound.distinct, fun _ _ => not_mem_nil, sound.known⟩⟩
  cases checked : validateIdentityColumns index (columnsByName columns) with
  | error => simp [bind, Except.bind, ← valid, checked]
  | ok => simp [bind, Except.bind, valid.mp checked]

theorem primary_nonempty {rest : List Index} (keys : primaryIndexes indexes = index :: rest) : index.columns ≠ [] := by
  have mem : index ∈ primaryIndexes indexes := by rw [keys]; exact mem_cons_self
  simp only [primaryIndexes, mem_filter, Bool.and_eq_true, decide_eq_true_eq] at mem
  exact mem.2.2

theorem selectSqlRecordIdentity_ok (named : (columns.map (·.name)).Nodup) (labelled : (indexes.map (·.name)).Nodup)
    {identity : SqlRecordIdentity} : selectSqlRecordIdentity columns indexes = .ok identity ↔
      ∃ index, Preferred columns indexes index identity.kind ∧ identity.columns = index.columns ∧ Sound columns index.columns := by
  obtain ⟨kind, names⟩ := identity
  unfold selectSqlRecordIdentity
  split
  case h_1 first second rest keys =>
    refine ⟨nofun, fun ⟨index, preferred, _⟩ => ?_⟩
    cases preferred <;> simp_all
  case h_2 index keys =>
    rw [validated_ok (primary_nonempty keys), SqlRecordIdentity.mk.injEq]
    constructor
    · rintro ⟨sound, rfl, rfl⟩
      exact ⟨index, .key keys, rfl, sound⟩
    · rintro ⟨other, preferred, rfl, sound⟩
      cases preferred <;> simp_all
  case h_3 keys =>
    have ranked := candidates_ranked (columnsByName columns) indexes
    have known : ∀ {index}, index ∈ candidates (columnsByName columns) indexes ↔ index ∈ indexes ∧ Eligible columns index :=
      mem_candidates named
    cases sorted : candidates (columnsByName columns) indexes with
    | nil =>
      rw [sorted] at known
      refine ⟨nofun, fun ⟨index, preferred, _⟩ => ?_⟩
      cases preferred with
      | key only => cases only.symm.trans keys
      | other _ mem eligible _ => cases known.mpr ⟨mem, eligible⟩
    | cons index rest =>
      rw [sorted] at ranked known
      obtain ⟨mem, eligible⟩ := known.mp mem_cons_self
      have first : ∀ other ∈ indexes, Eligible columns other → rank index ≤ rank other := by
        intro other mem' eligible'
        rcases mem_cons.mp (known.mpr ⟨mem', eligible'⟩) with rfl | later
        · exact le_rfl
        · exact rel_of_pairwise_cons ranked later
      rw [validated_ok eligible.nonempty, SqlRecordIdentity.mk.injEq]
      constructor
      · rintro ⟨sound, rfl, rfl⟩
        exact ⟨index, .other keys mem eligible first, rfl, sound⟩
      · rintro ⟨other, preferred, rfl, sound⟩
        cases preferred with
        | key only => cases only.symm.trans keys
        | other _ mem' eligible' first' =>
          cases rank_injective labelled mem mem' (le_antisymm (first other mem' eligible') (first' index mem eligible))
          exact ⟨sound, rfl, rfl⟩

/-- The identity is that of the preferred index, where its columns are sound, and
there is no other. It is the same for all orders of the columns and the indexes. -/
theorem identity_selected {columns : List Column} {indexes : List Index} (named : (columns.map (·.name)).Nodup)
    (labelled : (indexes.map (·.name)).Nodup) : (∀ identity, selectSqlRecordIdentity columns indexes = .ok identity ↔
        ∃ index, Preferred columns indexes index identity.kind ∧ identity.columns = index.columns ∧ Sound columns index.columns) ∧
      ∀ columns' indexes', columns'.Perm columns → indexes'.Perm indexes →
        selectSqlRecordIdentity columns' indexes' = selectSqlRecordIdentity columns indexes :=
  ⟨fun _ => selectSqlRecordIdentity_ok named labelled, fun _ _ => selectSqlRecordIdentity_perm named labelled⟩

def column (name : Text) (nullable : Bool) : Column := { name := name, rawType := "int", nullable := nullable }

theorem identity_selected_swapped :
    selectSqlRecordIdentity [column "b" false, column "a" false] [⟨"j", true, false, ["b"]⟩, ⟨"i", true, false, ["a"]⟩] =
      selectSqlRecordIdentity [column "a" false, column "b" false] [⟨"i", true, false, ["a"]⟩, ⟨"j", true, false, ["b"]⟩] :=
  (identity_selected (by decide) (by decide)).2 _ _ (.swap ..) (.swap ..)

/-- A unique index that names a column twice is refused, though another one would do. -/
theorem repeated_column_refused : (∃ message, selectSqlRecordIdentity [column "a" false, column "b" false]
        [⟨"i", true, false, ["a", "a"]⟩, ⟨"j", true, false, ["a", "b"]⟩] = .error (.InvalidConfig message)) ∧
      selectSqlRecordIdentity [column "a" false, column "b" false] [⟨"i", true, false, ["a"]⟩, ⟨"i", true, false, ["b"]⟩] ≠
        selectSqlRecordIdentity [column "a" false, column "b" false] [⟨"i", true, false, ["b"]⟩, ⟨"i", true, false, ["a"]⟩] ∧
      selectSqlRecordIdentity [column "a" false, column "a" true] [⟨"i", true, false, ["a"]⟩] ≠
        selectSqlRecordIdentity [column "a" true, column "a" false] [⟨"i", true, false, ["a"]⟩] :=
  ⟨⟨_, rfl⟩, by decide, by decide⟩

end Ramag.RecordIdentity
