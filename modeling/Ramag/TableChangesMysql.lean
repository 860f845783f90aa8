import Ramag.TableChangesExact

/-!
MySQL changes a table in one statement, whose clauses name the columns as they
were: each clause finds its column, whatever the others do. What can go wrong is
a comment, since a backslash is an escape there.
-/
namespace Ramag.TableDesign
open Strings Domain List

theorem trim_trim {t : Text} (blank : trim (trim t) = []) : trim t = [] := by
  obtain ⟨gap, split, white⟩ := trimEnd_parts (trimStart t)
  have dark : ∀ c ∈ trimStart t, isWhitespace c = true := by
    rw [split]
    intro c mem
    rcases mem_append.mp mem with kept | dropped
    · exact trim_eq_nil_iff.mp blank c kept
    · exact white c dropped
  have none : trimStart t = [] := by
    cases start : trimStart t with
    | nil => rfl
    | cons c rest =>
      have first := head?_dropWhile_not isWhitespace t
      rw [show t.dropWhile isWhitespace = c :: rest from start] at first
      rw [start] at dark
      simp [dark c mem_cons_self] at first
  rw [trim, none]
  rfl

section

variable {designer : TableDesigner} {field : FieldDraft} {original : Column}

theorem onTable_comment {definition : MysqlDefinition} {comment : Text}
    (literal : definition.commentLiteral = (filled comment).map escapeLiteral) :
    definition.onTable = (readLiteral true (escapeLiteral comment)).map fun read =>
      ⟨definition.name, definition.dataType, definition.nullable, definition.defaultValue.getD [], read,
        definition.autoIncrement, definition.generated⟩ := by
  rw [MysqlDefinition.onTable, literal]
  unfold filled
  split_ifs with none
  · rw [none]
    rfl
  · rfl

/-- The column that MySQL makes is the drafted one exactly when the comment is plain. -/
theorem definition_drafted {definition : MysqlDefinition} (made : mysqlDefinition field field.sql = .ok definition) :
    definition.onTable = some field.drafted ↔ plainComment field.sql.comment = true := by
  obtain ⟨attributes, kept, made⟩ := bind_ok made
  by_cases defaulted : (attributes.generated.isSome && decide (trim field.sql.defaultValue ≠ [])) = true
  · rw [if_pos defaulted] at made
    cases made
  by_cases counted : (attributes.generated.isSome && attributes.autoIncrement) = true
  · rw [if_neg defaulted, if_pos counted] at made
    cases made
  rw [if_neg defaulted, if_neg counted] at made
  cases made
  have attributed : attributes.autoIncrement = field.drafted.autoIncrement ∧ attributes.generated = field.drafted.generated := by
    cases there : field.original with
    | none =>
      rw [there] at kept
      cases kept
      simp [FieldDraft.drafted, there]
    | some original =>
      rw [there, mysqlAttributes] at kept
      split_ifs at kept
      simp only [FieldDraft.drafted, there, Option.map_some, Option.getD_some, Option.bind_some, Column.generated]
      cases expression : original.expression <;> cases storage : original.generatedStorage <;>
        (rw [expression, storage] at kept; cases kept) <;> exact ⟨rfl, rfl⟩
  have default : (if attributes.generated.isSome = true then none else filled field.sql.defaultValue).getD [] =
      field.sql.defaultValue := by
    by_cases generated : attributes.generated.isSome = true
    · have blank : trim field.sql.defaultValue = [] := by simpa [generated] using defaulted
      rw [if_pos generated]
      exact (trim_trim blank).symm
    · rw [if_neg generated, filled_getD]
  rw [onTable_comment rfl, default, attributed.1, attributed.2, ← readLiteral_mysql]
  constructor
  · intro same
    obtain ⟨read, found, same⟩ := Option.map_eq_some_iff.mp same
    have equal : read = field.sql.comment := congrArg TableColumn.comment same
    rw [found, equal]
  · intro same
    rw [same]
    rfl

/-- The clauses of a field. -/
def mysqlPart (field : FieldDraft) : List MysqlClause :=
  if field.deleted then (field.original.map fun original => MysqlClause.Drop original.name).toList
  else match mysqlFieldSql field field.sql with
    | .ok clauses => clauses
    | .error _ => []

/-- What a field that stays has for clauses: none, if nothing was changed. -/
inductive Part (field : FieldDraft) : List MysqlClause → Prop
  | unchanged {original : Column} (there : field.original = some original) (same : fieldChanged field original field.sql = false) :
    Part field []
  | changed {original : Column} {definition : MysqlDefinition} (there : field.original = some original)
    (different : fieldChanged field original field.sql = true) (made : mysqlDefinition field field.sql = .ok definition) :
    Part field [.Change original.name definition]
  | new {definition : MysqlDefinition} (there : field.original = none) (made : mysqlDefinition field field.sql = .ok definition) :
    Part field [.Add definition]

theorem mysqlFieldSql_part {clauses : List MysqlClause} (made : mysqlFieldSql field field.sql = .ok clauses) : Part field clauses := by
  obtain ⟨definition, defined, made⟩ := bind_ok made
  cases there : field.original with
  | none =>
    rw [there] at made
    cases made
    exact .new there defined
  | some original =>
    rw [there] at made
    cases made
    split_ifs with different
    · exact .changed there different defined
    · exact .unchanged there (Bool.eq_false_iff.mpr different)

theorem Part.target {clauses : List MysqlClause} (part : Part field clauses) {clause : MysqlClause} (mem : clause ∈ clauses) :
    clause.target = field.original.map Column.name := by
  cases part with
  | unchanged there same => cases mem
  | changed there different made | new there made =>
    rw [mem_singleton.mp mem, there]
    rfl

theorem collect_mysql (driver : designer.driver = .Mysql) (fields : List FieldDraft) (names : List Text)
    {collection : List Statement × List MysqlClause} (collected : collectStatements designer names fields = .ok collection) :
    collection = ([], fields.flatMap mysqlPart) ∧ (∀ field ∈ fields, field.deleted = false → Part field (mysqlPart field)) ∧
      ((fields.filterMap FieldDraft.edited).map fun column => toAsciiLowercase column.name).Nodup ∧
      ∀ column ∈ fields.filterMap FieldDraft.edited, toAsciiLowercase column.name ∉ names := by
  induction fields generalizing names collection with
  | nil =>
    cases collected
    simp
  | cons field fields ih =>
    by_cases deleted : field.deleted = true
    · obtain ⟨rest, run, rfl⟩ := collect_deleted deleted collected
      obtain ⟨rfl, parts, distinct, fresh⟩ := ih names run
      have gone : (field :: fields).filterMap FieldDraft.edited = fields.filterMap FieldDraft.edited :=
        filterMap_cons_none (by simp [FieldDraft.edited, deleted])
      have part : joined (dropStatements designer field) ([], fields.flatMap mysqlPart) =
          ([], mysqlPart field ++ fields.flatMap mysqlPart) := by
        unfold dropStatements mysqlPart
        cases field.original <;> simp [joined, driver, deleted]
      rw [gone]
      refine ⟨part, fun other mem stays => ?_, distinct, fresh⟩
      rcases mem_cons.mp mem with rfl | mem
      · rw [deleted] at stays
        cases stays
      · exact parts other mem stays
    · have stays : field.deleted = false := Bool.eq_false_iff.mpr deleted
      obtain ⟨made, rest, checked, generated, run, rfl⟩ := collect_stays stays collected
      obtain ⟨rfl, parts, distinct, fresh⟩ := ih _ run
      have there : (field :: fields).filterMap FieldDraft.edited = field.drafted :: fields.filterMap FieldDraft.edited :=
        filterMap_cons_some (by simp [FieldDraft.edited, stays])
      simp only [fieldStatements, driver] at generated
      cases made' : mysqlFieldSql field field.sql with
      | error error =>
        rw [made'] at generated
        cases generated
      | ok clauses =>
        rw [made'] at generated
        cases generated
        have part : mysqlPart field = clauses := by simp [mysqlPart, stays, made']
        rw [there, map_cons, nodup_cons]
        refine ⟨by rw [flatMap_cons, part]; rfl, fun other mem stays => ?_, ⟨fun known => ?_, distinct⟩, fun column mem => ?_⟩
        · rcases mem_cons.mp mem with rfl | mem
          · rw [part]
            exact mysqlFieldSql_part made'
          · exact parts other mem stays
        · obtain ⟨column, mem, same⟩ := mem_map.mp known
          refine fresh column mem ?_
          rw [same]
          exact mem_cons_self
        · rcases mem_cons.mp mem with rfl | mem
          · exact checkField_ok checked
          · exact fun known => fresh column mem (mem_cons_of_mem _ known)

theorem part_target {clause : MysqlClause} (stays : field.deleted = false → Part field (mysqlPart field))
    (mem : clause ∈ mysqlPart field) : clause.target = field.original.map Column.name := by
  by_cases deleted : field.deleted = true
  · rw [mysqlPart, if_pos deleted] at mem
    cases there : field.original with
    | none => simp [there] at mem
    | some original =>
      simp only [there, Option.map_some, Option.toList_some, mem_singleton] at mem
      rw [mem]
      rfl
  · exact (stays (Bool.eq_false_iff.mpr deleted)).target mem

/-! ### The columns that were there -/

/-- The fields of a table of MySQL, with the clauses of those that stay. -/
structure Mysql (fields : List FieldDraft) : Prop where
  parts : ∀ field ∈ fields, field.deleted = false → Part field (mysqlPart field)
  distinct : (fields.filterMap FieldDraft.original).Pairwise fun first second => key .Mysql first.name ≠ key .Mysql second.name

theorem find_part {done fields : List FieldDraft} (mysql : Mysql (done ++ field :: fields)) (there : field.original = some original) :
    ((done ++ field :: fields).flatMap mysqlPart).find?
      (fun clause => clause.target.any fun name => key .Mysql name = key .Mysql original.name) = (mysqlPart field).head? := by
  have split : (done ++ field :: fields).filterMap FieldDraft.original =
      done.filterMap FieldDraft.original ++ original :: fields.filterMap FieldDraft.original := by
    rw [filterMap_append, filterMap_cons_some there]
  have distinct := mysql.distinct
  rw [split, pairwise_append, pairwise_cons] at distinct
  have others : ∀ other ∈ done ++ fields, ∀ clause ∈ mysqlPart other,
      (clause.target.any fun name => decide (key .Mysql name = key .Mysql original.name)) = false := by
    intro other mem clause listed
    have known : other ∈ done ++ field :: fields := by
      simp only [mem_append, mem_cons] at mem ⊢
      tauto
    rw [part_target (mysql.parts other known) listed]
    cases column : other.original with
    | none => rfl
    | some column' =>
      simp only [Option.map_some, Option.any_some, decide_eq_false_iff_not]
      rcases mem_append.mp mem with before | behind
      · exact distinct.2.2 column' (mem_filterMap.mpr ⟨other, before, column⟩) original mem_cons_self
      · exact fun same => distinct.2.1.1 column' (mem_filterMap.mpr ⟨other, behind, column⟩) same.symm
  have quiet : ∀ {part : List FieldDraft}, (∀ other ∈ part, other ∈ done ++ fields) → (part.flatMap mysqlPart).find?
      (fun clause => clause.target.any fun name => decide (key .Mysql name = key .Mysql original.name)) = none := by
    intro part inside
    refine find?_eq_none.mpr fun clause listed => ?_
    obtain ⟨other, mem, listed⟩ := mem_flatMap.mp listed
    simp [others other (inside other mem) clause listed]
  have own : ∀ clause ∈ mysqlPart field, (clause.target.any fun name => decide (key .Mysql name = key .Mysql original.name)) = true := by
    intro clause listed
    rw [part_target (mysql.parts field (by simp)) listed, there]
    simp
  rw [flatMap_append, flatMap_cons, find?_append, find?_append, quiet fun other => mem_append_left _,
    quiet fun other => mem_append_right _, Option.none_or, Option.or_none]
  cases part : mysqlPart field with
  | nil => rfl
  | cons clause rest =>
    rw [part] at own
    simp [own clause mem_cons_self]

theorem unchanged_drafted (there : field.original = some original) (same : fieldChanged field original field.sql = false) :
    original.onTable = field.drafted := by
  simp only [fieldChanged, Bool.or_eq_false_iff, decide_eq_false_iff_not, ne_eq, not_not] at same
  simp [FieldDraft.drafted, Column.onTable, there, same]

/-- What MySQL makes of a column, from the clause that it finds. -/
def changedColumn (clause : Option MysqlClause) (column : TableColumn) (rest : List TableColumn) : Option (List TableColumn) :=
  match clause with
  | some (.Drop _) => some rest
  | some (.Change _ definition) | some (.Add definition) => definition.onTable.map (· :: rest)
  | none => some (column :: rest)

theorem alterColumns_cons (clauses : List MysqlClause) (column : TableColumn) (table : List TableColumn) :
    alterColumns clauses (column :: table) = (alterColumns clauses table).bind
      (changedColumn (clauses.find? fun clause => clause.target.any fun name => key .Mysql name = key .Mysql column.name) column) := by
  rw [alterColumns]
  cases alterColumns clauses table with
  | none => rfl
  | some rest =>
    cases clauses.find? _ with
    | none => rfl
    | some clause => cases clause <;> rfl

theorem changed_deleted (there : field.original = some original) (deleted : field.deleted = true) :
    changedColumn (mysqlPart field).head? original.onTable = some := by
  funext rest
  simp [mysqlPart, deleted, there, changedColumn]

theorem changed_stays (there : field.original = some original) (stays : field.deleted = false) (part : Part field (mysqlPart field)) :
    ∃ result : Option TableColumn, (∀ rest, changedColumn (mysqlPart field).head? original.onTable rest = result.map (· :: rest)) ∧
      (result = some field.drafted ↔ (field.isWritten = true → plainComment field.sql.comment = true)) := by
  generalize mysqlPart field = clauses at part ⊢
  cases part with
  | unchanged there' same =>
    cases there.symm.trans there'
    refine ⟨some original.onTable, fun rest => rfl, ?_⟩
    rw [unchanged_drafted there same]
    simp [FieldDraft.isWritten, there, same]
  | @changed _ definition there' different made =>
    cases there.symm.trans there'
    refine ⟨definition.onTable, fun rest => rfl, ?_⟩
    rw [definition_drafted made]
    simp [FieldDraft.isWritten, stays, there, different]
  | new there' made =>
    rw [there] at there'
    cases there'

theorem alter_exact (done fields : List FieldDraft) (mysql : Mysql (done ++ fields)) :
    (alterColumns ((done ++ fields).flatMap mysqlPart) (originals fields) = some (kept fields) ↔
      ∀ field ∈ fields, field.original.isSome → field.isWritten = true → plainComment field.sql.comment = true) ∧
    ∀ table, alterColumns ((done ++ fields).flatMap mysqlPart) (originals fields) = some table → table.length = (kept fields).length := by
  induction fields generalizing done with
  | nil => simp [originals, kept, alterColumns]
  | cons field fields ih =>
    have again := ih (done ++ [field]) (by simpa using mysql)
    rw [append_assoc, singleton_append] at again
    rw [forall_mem_cons]
    cases there : field.original with
    | none =>
      have opened : originals (field :: fields) = originals fields := by simp [originals, there]
      have same : kept (field :: fields) = kept fields := by simp [kept, there]
      rw [opened, same]
      simpa using again
    | some original =>
      have opened : originals (field :: fields) = original.onTable :: originals fields := by simp [originals, there]
      have found : ((done ++ field :: fields).flatMap mysqlPart).find?
          (fun clause => clause.target.any fun name => key .Mysql name = key .Mysql original.onTable.name) = (mysqlPart field).head? :=
        find_part mysql there
      rw [opened, alterColumns_cons, found]
      generalize alterColumns ((done ++ field :: fields).flatMap mysqlPart) (originals fields) = altered at again ⊢
      by_cases deleted : field.deleted = true
      · rw [changed_deleted there deleted, (kept_deleted deleted).1, Option.bind_fun_some]
        have written : field.isWritten = false := by simp [FieldDraft.isWritten, deleted]
        simpa [written] using again
      have stays : field.deleted = false := Bool.eq_false_iff.mpr deleted
      obtain ⟨result, does, drafted⟩ := changed_stays there stays (mysql.parts field (by simp) stays)
      rw [(kept_change stays there).1, show changedColumn (mysqlPart field).head? original.onTable = fun rest => result.map (· :: rest) from
        funext does]
      rw [← drafted, ← again.1]
      cases altered with
      | none => simp
      | some altered =>
        cases result with
        | none => simp
        | some column =>
          refine ⟨?_, fun table same => ?_⟩
          · simp
          · cases same
            simp [again.2 altered rfl]

theorem addColumns_append (first second : List MysqlClause) :
    addColumns (first ++ second) = (addColumns second).bind fun rest => (addColumns first).map (· ++ rest) := by
  induction first with
  | nil =>
    rw [nil_append]
    cases addColumns second <;> rfl
  | cons clause first ih =>
    cases clause with
    | Drop column | Change column definition => exact ih
    | Add definition =>
      rw [cons_append, addColumns, addColumns, ih]
      cases addColumns second with
      | none => rfl
      | some rest =>
        cases addColumns first with
        | none => rfl
        | some columns =>
          cases definition.onTable <;> rfl

section
variable (fields : List FieldDraft)
include fields

/-- The new columns are what was drafted exactly when their comments are plain. -/
theorem add_exact (parts : ∀ field ∈ fields, field.deleted = false → Part field (mysqlPart field)) :
    (addColumns (fields.flatMap mysqlPart) = some (added fields) ↔
      ∀ field ∈ fields, field.original = none → field.isWritten = true → plainComment field.sql.comment = true) := by
  induction fields with
  | nil => simp [added, addColumns]
  | cons field fields ih =>
    have again := ih fun other mem => parts other (mem_cons_of_mem _ mem)
    rw [flatMap_cons, addColumns_append, forall_mem_cons, ← again]
    generalize addColumns (fields.flatMap mysqlPart) = rest
    by_cases deleted : field.deleted = true
    · have written : field.isWritten = false := by simp [FieldDraft.isWritten, deleted]
      have none : addColumns (mysqlPart field) = some [] := by
        cases there : field.original <;> simp [mysqlPart, deleted, there, addColumns]
      rw [(kept_deleted deleted).2, none]
      cases rest <;> simp [written]
    · have stays : field.deleted = false := Bool.eq_false_iff.mpr deleted
      have part := parts field mem_cons_self stays
      generalize mysqlPart field = clauses at part
      cases part with
      | unchanged there same | changed there different made =>
        rw [(kept_change stays there).2]
        cases rest <;> simp [addColumns, there]
      | @new definition there made =>
        have written : field.isWritten = true := by simp [FieldDraft.isWritten, stays, there]
        rw [(kept_add stays there).2]
        simp only [there, written, forall_const]
        have one : addColumns [.Add definition] = definition.onTable.map ([·]) := rfl
        rw [← definition_drafted made, one]
        cases rest <;> cases definition.onTable <;> simp

theorem kept_perm : (kept fields ++ added fields).Perm (fields.filterMap FieldDraft.edited) := by
  have parts : (fields.filter (fun field => field.original.isSome) ++ fields.filter (fun field => !field.original.isSome)).Perm fields :=
    filter_append_perm _ fields
  have new : (fun field : FieldDraft => field.original.isNone) = fun field => !field.original.isSome := by
    funext field
    cases field.original <;> rfl
  rw [kept, added, new, ← filterMap_append]
  exact parts.filterMap FieldDraft.edited

theorem targets_there (parts : ∀ field ∈ fields, field.deleted = false → Part field (mysqlPart field)) :
    (fields.flatMap mysqlPart).all (fun clause => clause.target.all (hasColumn .Mysql (originals fields))) = true := by
  rw [all_eq_true]
  intro clause listed
  obtain ⟨field, mem, listed⟩ := mem_flatMap.mp listed
  rw [part_target (parts field mem) listed]
  cases there : field.original with
  | none => rfl
  | some original =>
    have known : original.onTable ∈ originals fields := mem_map_of_mem (mem_filterMap.mpr ⟨field, mem, there⟩)
    simp only [Option.map_some, Option.all_some, hasColumn, any_eq_true, decide_eq_true_eq]
    exact ⟨original.onTable, known, rfl⟩

/-- The statement of MySQL makes the drafted table exactly when the comments that are written are plain. -/
theorem mysql_exec (mysql : Mysql fields)
    (distinct : ((fields.filterMap FieldDraft.edited).map fun column => toAsciiLowercase column.name).Nodup) :
    execAlter (originals fields) (fields.flatMap mysqlPart) = some (kept fields ++ added fields) ↔
      ∀ field ∈ fields, field.isWritten = true → plainComment field.sql.comment = true := by
  obtain ⟨altered, same⟩ := alter_exact [] fields mysql
  have added' := add_exact fields mysql.parts
  have cases' : (∀ field ∈ fields, field.isWritten = true → plainComment field.sql.comment = true) ↔
      (∀ field ∈ fields, field.original.isSome → field.isWritten = true → plainComment field.sql.comment = true) ∧
        ∀ field ∈ fields, field.original = none → field.isWritten = true → plainComment field.sql.comment = true := by
    constructor
    · intro plain
      exact ⟨fun field mem _ => plain field mem, fun field mem _ => plain field mem⟩
    rintro ⟨old, new⟩ field mem
    cases there : field.original with
    | none => exact new field mem there
    | some original => exact old field mem (by rw [there]; rfl)
  have own : ((kept fields ++ added fields).map fun column => key .Mysql column.name).Nodup :=
    ((kept_perm fields).map _).nodup_iff.mpr distinct
  rw [cases', ← altered, ← added', execAlter, if_pos (targets_there fields mysql.parts), nil_append]
  cases columns : alterColumns (fields.flatMap mysqlPart) (originals fields) with
  | none => simp
  | some columns =>
    cases others : addColumns (fields.flatMap mysqlPart) with
    | none => simp
    | some others =>
      simp only [Option.bind_eq_bind, Option.bind_some, Option.some.injEq]
      constructor
      · intro result
        split_ifs at result with unique
        exact append_inj (Option.some.inj result) (same _ columns)
      · rintro ⟨rfl, rfl⟩
        exact if_pos own

end

end

theorem changeStatements_ok {designer : TableDesigner} {statements : List Statement} (changed : changeStatements designer = .ok statements) :
    ∃ first clauses, collectStatements designer [] designer.fields = .ok (first, clauses) ∧
      statements = (if clauses = [] then first else first ++ [.Alter clauses]) ∧ statements ≠ [] := by
  obtain ⟨⟨first, clauses⟩, collected, changed⟩ := bind_ok changed
  refine ⟨first, clauses, collected, ?_⟩
  simp only at changed
  by_cases none : (if clauses = [] then first else first ++ [.Alter clauses]) = []
  · rw [if_pos none] at changed
    cases changed
  · rw [if_neg none] at changed
    cases changed
    exact ⟨rfl, none⟩

/-- The statements lead from the table to the drafted one exactly when no column
takes a name that a later field still has, and when MySQL keeps the comments. -/
theorem changes_executable (designer : TableDesigner) (distinct : designer.Distinct) {statements : List Statement}
    (changed : changeStatements designer = .ok statements) :
    exec designer.driver designer.original statements = some designer.edited ↔ Executable designer := by
  obtain ⟨first, clauses, collected, rfl, some'⟩ := changeStatements_ok changed
  rw [Executable]
  by_cases driver : designer.driver = .Mysql
  · obtain ⟨same, parts, unique, -⟩ := collect_mysql driver designer.fields [] collected
    cases same
    have clauses : designer.fields.flatMap mysqlPart ≠ [] := by
      intro none
      rw [if_pos none] at some'
      exact some' rfl
    have own : (designer.fields.filterMap FieldDraft.original).Pairwise fun first second =>
        key .Mysql first.name ≠ key .Mysql second.name := driver ▸ distinct
    rw [if_neg clauses, nil_append, exec_one, if_pos driver]
    exact mysql_exec designer.fields ⟨parts, own⟩ unique
  · have clean : clauses = [] := collect_clauses driver designer.fields [] collected
    have between : Between designer.driver [] designer.fields ([] ++ []) :=
      ⟨fun column mem => (by cases mem), fun column mem => (by cases mem), distinct⟩
    have exact' := collect_exec driver designer.fields [] [] [] collected between
    rw [if_pos clean, if_neg driver]
    simp only [append_nil, nil_append] at exact'
    exact exact'

/-- Two columns that swap their names. -/
def swapped : TableDesigner where
  driver := .Postgres
  schema := "public"
  originalTable := "t"
  fields := [⟨['b'], "int", true, [], [], some ⟨['a'], "int", true, none, false, none, false, none, none, none⟩, false⟩,
      ⟨['a'], "int", true, [], [], some ⟨['b'], "int", true, none, false, none, false, none, none, none⟩, false⟩]
  tableHasRows := none

/-- A column with a new name. -/
def renamed : TableDesigner :=
  { swapped with fields := [⟨['c'], "int", true, [], [], some ⟨['a'], "int", true, none, false, none, false, none, none, none⟩, false⟩] }

theorem changes_executable_renamed :
    exec renamed.driver renamed.original [.RenameColumn ['a'] ['c']] = some renamed.edited ↔ Executable renamed :=
  changes_executable renamed (by simp [TableDesigner.Distinct, renamed]) (by decide)

theorem swap_stuck : ¬ ∀ (designer : TableDesigner) (statements : List Statement), designer.Distinct →
    changeStatements designer = .ok statements → exec designer.driver designer.original statements = some designer.edited := by
  intro sound
  have stuck := sound swapped [.RenameColumn ['a'] ['b'], .RenameColumn ['b'] ['a']]
    (by simp [TableDesigner.Distinct, swapped, key]) (by decide)
  have none : exec swapped.driver swapped.original [.RenameColumn ['a'] ['b'], .RenameColumn ['b'] ['a']] = none := by decide
  rw [none] at stuck
  cases stuck

end Ramag.TableDesign
