import Ramag.TableDesign

/-!
The statements of the table designer lead to the drafted columns exactly when no
column takes a name too early, and when MySQL reads every comment as it was
drafted. A field's statements move the table by one column; the fields behind it
still find the columns that they had.
-/
namespace Ramag.TableDesign
open Strings Domain List

theorem escapeLiteral_cons (c : Char) (t : Text) :
    escapeLiteral (c :: t) = (if c = '\'' then ['\'', '\''] else [c]) ++ escapeLiteral t := rfl

theorem readLiteral_cons {escapes : Bool} {c : Char} (quote : c ≠ '\'') (back : escapes = true → c ≠ '\\') (t : Text) :
    readLiteral escapes (c :: t) = (readLiteral escapes t).map (c :: ·) := by
  have usual : (escapes && decide (c = '\\')) = false := by
    cases escapes with
    | false => rfl
    | true => simpa using back rfl
  cases t with
  | nil | cons d t => simp [readLiteral, quote, usual]

theorem readLiteral_quotes (escapes : Bool) (t : Text) :
    readLiteral escapes ('\'' :: '\'' :: t) = (readLiteral escapes t).map ('\'' :: ·) := rfl

theorem readLiteral_escape (c : Char) (t : Text) : readLiteral true ('\\' :: c :: t) = (readLiteral true t).map (unescape c ++ ·) := rfl

theorem plainComment_cons {c : Char} (back : c ≠ '\\') (t : Text) : plainComment (c :: t) = plainComment t := by
  cases t with
  | nil | cons d t => simp [plainComment, back]

theorem readLiteral_escaped {escapes : Bool} {c : Char} (back : escapes = true → c ≠ '\\') (t : Text) :
    readLiteral escapes (escapeLiteral (c :: t)) = (readLiteral escapes (escapeLiteral t)).map (c :: ·) := by
  rw [escapeLiteral_cons]
  by_cases quote : c = '\''
  · subst quote
    exact readLiteral_quotes escapes _
  · rw [if_neg quote]
    exact readLiteral_cons quote back _

variable (t : Text)

theorem readLiteral_escapeLiteral : readLiteral false (escapeLiteral t) = some t := by
  induction t with
  | nil => rfl
  | cons c t ih =>
    rw [readLiteral_escaped (by intro escapes; cases escapes), ih]
    rfl

theorem readLiteral_quote : readLiteral true ('\'' :: escapeLiteral t) = none := by
  induction t with
  | nil => rfl
  | cons c t ih =>
    rw [escapeLiteral_cons]
    by_cases quote : c = '\''
    · subst quote
      have doubled : readLiteral true ('\'' :: '\'' :: '\'' :: escapeLiteral t) =
          (readLiteral true ('\'' :: escapeLiteral t)).map ('\'' :: ·) := readLiteral_quotes true _
      rw [ih] at doubled
      exact doubled
    · simp [readLiteral, quote]

theorem unescape_wild {c : Char} (wild : c = '%' ∨ c = '_') : unescape c = ['\\', c] := by
  unfold unescape
  rw [if_pos (by simpa using wild)]

theorem unescape_other {c : Char} (other : ¬ (c = '%' ∨ c = '_')) : (unescape c).length = 1 := by
  unfold unescape
  rw [if_neg (by simpa using other)]
  split_ifs <;> rfl

/-- A literal of MySQL never stands for more than was written, and for what was written only if that is plain. -/
theorem readLiteral_short (t : Text) {read : Text} (same : readLiteral true (escapeLiteral t) = some read) :
    read.length ≤ t.length ∧ (read = t → plainComment t = true) := by
  match t with
  | [] =>
    cases same
    exact ⟨Nat.le_refl _, fun _ => rfl⟩
  | c :: t =>
    by_cases back : c = '\\'
    · subst back
      match t with
      | [] => cases same
      | d :: t =>
        by_cases quote : d = '\''
        · subst quote
          have escaped : escapeLiteral ('\\' :: '\'' :: t) = '\\' :: '\'' :: '\'' :: escapeLiteral t := rfl
          rw [escaped, readLiteral_escape, readLiteral_quote] at same
          cases same
        have escaped : escapeLiteral ('\\' :: d :: t) = '\\' :: d :: escapeLiteral t := by simp [escapeLiteral_cons, quote]
        rw [escaped, readLiteral_escape] at same
        obtain ⟨behind, found, rfl⟩ := Option.map_eq_some_iff.mp same
        obtain ⟨short, plain⟩ := readLiteral_short t found
        by_cases wild : d = '%' ∨ d = '_'
        · rw [unescape_wild wild]
          refine ⟨by simpa using short, fun same => ?_⟩
          have tail := plain (by simpa using same)
          simp [plainComment, wild, tail]
        have one := unescape_other wild
        have shorter : (unescape d ++ behind).length < ('\\' :: d :: t).length := by
          simp only [length_append, length_cons]
          omega
        exact ⟨Nat.le_of_lt shorter, fun same => absurd (congrArg List.length same) (Nat.ne_of_lt shorter)⟩
    · rw [readLiteral_escaped fun _ => back] at same
      obtain ⟨behind, found, rfl⟩ := Option.map_eq_some_iff.mp same
      obtain ⟨short, plain⟩ := readLiteral_short t found
      refine ⟨by simpa using short, fun same => ?_⟩
      rw [plainComment_cons back]
      exact plain (List.cons.inj same).2

theorem readLiteral_plain (t : Text) (plain : plainComment t = true) : readLiteral true (escapeLiteral t) = some t := by
  match t with
  | [] => rfl
  | c :: t =>
    by_cases back : c = '\\'
    · subst back
      match t with
      | [] => cases plain
      | d :: t =>
        simp only [plainComment, if_true, Bool.and_eq_true, Bool.or_eq_true, decide_eq_true_eq] at plain
        obtain ⟨wild, tail⟩ := plain
        have quote : d ≠ '\'' := by rcases wild with rfl | rfl <;> decide
        have escaped : escapeLiteral ('\\' :: d :: t) = '\\' :: d :: escapeLiteral t := by simp [escapeLiteral_cons, quote]
        rw [escaped, readLiteral_escape, readLiteral_plain t tail, unescape_wild wild]
        rfl
    · rw [plainComment_cons back] at plain
      rw [readLiteral_escaped fun _ => back, readLiteral_plain t plain]
      rfl

/-- MySQL reads a comment as it was drafted exactly when it is plain. -/
theorem readLiteral_mysql : readLiteral true (escapeLiteral t) = some t ↔ plainComment t = true :=
  ⟨fun same => (readLiteral_short t same).2 rfl, readLiteral_plain t⟩

section Table

variable {driver : DriverKind} {front behind : List TableColumn} {column : TableColumn} {name : Text}

/-- No column of the list has the name. -/
def Free (driver : DriverKind) (table : List TableColumn) (name : Text) : Prop :=
  ∀ column ∈ table, key driver column.name ≠ key driver name

theorem hasColumn_there (same : key driver column.name = key driver name) : hasColumn driver (front ++ column :: behind) name = true := by
  simp [hasColumn, same]

theorem map_free {table : List TableColumn} (free : Free driver table name) (change : TableColumn → TableColumn) :
    (table.map fun column => if key driver column.name = key driver name then change column else column) = table := by
  refine (map_congr_left fun column mem => ?_).trans (map_id table)
  exact if_neg (free column mem)

theorem modify_there (change : TableColumn → TableColumn) (same : key driver column.name = key driver name)
    (before : Free driver front name) (after : Free driver behind name) :
    modify driver (front ++ column :: behind) name change = some (front ++ change column :: behind) := by
  rw [modify, if_pos (hasColumn_there same), map_append, map_cons, map_free before, map_free after, if_pos same]

theorem drop_there (same : key driver column.name = key driver name) (before : Free driver front name) (after : Free driver behind name) :
    execStatement driver (front ++ column :: behind) (.DropColumn name) = some (front ++ behind) := by
  have keeps : ∀ {table : List TableColumn}, Free driver table name →
      (table.filter fun other => key driver other.name ≠ key driver name) = table :=
    fun free => filter_eq_self.mpr fun other mem => by simpa using free other mem
  rw [execStatement, if_pos (hasColumn_there same), filter_append, filter_cons_of_neg (by simpa using same), keeps before, keeps after]

theorem exec_append (first second : List Statement) (table : List TableColumn) :
    exec driver table (first ++ second) = (exec driver table first).bind fun table => exec driver table second := by
  induction first generalizing table with
  | nil => rfl
  | cons statement first ih =>
    rw [cons_append, exec, exec]
    cases execStatement driver table statement with
    | none => rfl
    | some table => exact ih table

theorem exec_one (statement : Statement) (table : List TableColumn) : exec driver table [statement] = execStatement driver table statement := by
  rw [exec]
  cases execStatement driver table statement <;> rfl

theorem rename_there {new : Text} (same : key driver column.name = key driver name) (before : Free driver front name)
    (after : Free driver behind name) : execStatement driver (front ++ column :: behind) (.RenameColumn name new) =
      if hasColumn driver (front ++ behind) new then none else some (front ++ { column with name := new } :: behind) := by
  have others : ((front ++ column :: behind).any fun other =>
      key driver other.name = key driver new && key driver other.name ≠ key driver name) = hasColumn driver (front ++ behind) new := by
    have part : ∀ {table : List TableColumn}, Free driver table name →
        (table.any fun other => key driver other.name = key driver new && key driver other.name ≠ key driver name) =
          table.any fun other => decide (key driver other.name = key driver new) := by
      intro table free
      rw [Bool.eq_iff_iff]
      simp only [any_eq_true, Bool.and_eq_true, decide_eq_true_eq]
      constructor
      · rintro ⟨other, mem, taken, -⟩
        exact ⟨other, mem, taken⟩
      · rintro ⟨other, mem, taken⟩
        exact ⟨other, mem, taken, free other mem⟩
    rw [any_append, any_cons, part before, part after, hasColumn, any_append]
    simp [same]
  rw [execStatement, others, modify_there _ same before after]

end Table

section Sequential

variable {designer : TableDesigner} {field : FieldDraft} {original : Column} {front behind : List TableColumn}

@[simp] theorem filled_getD (text : Text) : (filled text).getD [] = text := by
  unfold filled
  split_ifs with none
  · exact none.symm
  · rfl

variable {driver : DriverKind}

theorem exec_comment (table : List TableColumn) (name comment : Text) :
    execStatement driver table (.Comment name ((filled comment).map escapeLiteral)) =
      modify driver table name fun old => { old with comment } := by
  unfold filled
  split_ifs with none
  · rw [none]
    rfl
  · simp [execStatement, readLiteral_escapeLiteral]

/-- The statements turn a column of a name into another, wherever it stands. -/
def Turns (driver : DriverKind) (name : Text) (column : TableColumn) (statements : List Statement) (after : TableColumn) : Prop :=
  ∀ front behind, Free driver front name → Free driver behind name →
    exec driver (front ++ column :: behind) statements = some (front ++ after :: behind)

variable {name : Text}

theorem Turns.trans {first second third : TableColumn} {statements more : List Statement}
    (turns : Turns driver name first statements second) (turns' : Turns driver name second more third) :
    Turns driver name first (statements ++ more) third := by
  intro front behind before after
  rw [exec_append, turns front behind before after]
  exact turns' front behind before after

theorem turns_unless {column : TableColumn} {same : Prop} [Decidable same]
    {statement : Statement} (change : TableColumn → TableColumn) (named : column.name = name)
    (does : ∀ table, execStatement driver table statement = modify driver table name change)
    (nothing : same → change column = column) : Turns driver name column (if same then [] else [statement]) (change column) := by
  intro front behind before after
  split_ifs with unchanged
  · rw [nothing unchanged]
    rfl
  · rw [exec_one, does, modify_there change (by rw [named]) before after]

/-- The statements of PostgreSQL on a column that has its name. -/
def postgresRest (original : Column) (nullable : Bool) (sql : FieldSql) : List Statement :=
  (if original.rawType = sql.dataType then [] else [.AlterType sql.name sql.dataType]) ++
    (if original.nullable = nullable then [] else [.AlterNull sql.name nullable]) ++
    (if original.defaultValue.getD [] = sql.defaultValue then [] else [.AlterDefault sql.name (filled sql.defaultValue)]) ++
    if original.comment.getD [] = sql.comment then [] else [.Comment sql.name ((filled sql.comment).map escapeLiteral)]

theorem turns_postgres (original : Column) (nullable : Bool) (sql : FieldSql) :
    Turns .Postgres sql.name { original.onTable with name := sql.name } (postgresRest original nullable sql)
      ⟨sql.name, sql.dataType, nullable, sql.defaultValue, sql.comment, original.isAutoIncrement, original.generated⟩ := by
  have typed : Turns .Postgres sql.name { original.onTable with name := sql.name }
      (if original.rawType = sql.dataType then [] else [.AlterType sql.name sql.dataType])
      { original.onTable with name := sql.name, dataType := sql.dataType } :=
    turns_unless (fun old => { old with dataType := sql.dataType }) rfl (fun _ => rfl) fun same => by rw [← same]; rfl
  have nulled : Turns .Postgres sql.name { original.onTable with name := sql.name, dataType := sql.dataType }
      (if original.nullable = nullable then [] else [.AlterNull sql.name nullable])
      { original.onTable with name := sql.name, dataType := sql.dataType, nullable := nullable } :=
    turns_unless (fun old => { old with nullable }) rfl (fun _ => rfl) fun same => by rw [← same]; rfl
  have defaulted : Turns .Postgres sql.name { original.onTable with name := sql.name, dataType := sql.dataType, nullable := nullable }
      (if original.defaultValue.getD [] = sql.defaultValue then [] else [.AlterDefault sql.name (filled sql.defaultValue)])
      { original.onTable with name := sql.name, dataType := sql.dataType, nullable := nullable, default := sql.defaultValue } := by
    refine turns_unless (fun old => { old with default := sql.defaultValue }) rfl (fun table => ?_) fun same => by rw [← same]; rfl
    simp [execStatement]
  have commented : Turns .Postgres sql.name
      { original.onTable with name := sql.name, dataType := sql.dataType, nullable := nullable, default := sql.defaultValue }
      (if original.comment.getD [] = sql.comment then [] else [.Comment sql.name ((filled sql.comment).map escapeLiteral)])
      ⟨sql.name, sql.dataType, nullable, sql.defaultValue, sql.comment, original.isAutoIncrement, original.generated⟩ :=
    turns_unless (fun old => { old with comment := sql.comment }) rfl (fun table => exec_comment table sql.name sql.comment)
      fun same => by rw [← same]; rfl
  exact ((typed.trans nulled).trans defaulted).trans commented

/-- The columns that the fields have before the changes. -/
def originals (fields : List FieldDraft) : List TableColumn := (fields.filterMap FieldDraft.original).map Column.onTable

/-- The columns that stay, as they were drafted. -/
def kept (fields : List FieldDraft) : List TableColumn :=
  (fields.filter fun field => field.original.isSome).filterMap FieldDraft.edited

def added (fields : List FieldDraft) : List TableColumn :=
  (fields.filter fun field => field.original.isNone).filterMap FieldDraft.edited

variable {fields : List FieldDraft}

theorem free_originals : Free driver (originals fields) name ↔
      ∀ later ∈ fields, ∀ original ∈ later.original, key driver original.name ≠ key driver name := by
  simp only [Free, originals, mem_map, mem_filterMap]
  constructor
  · intro free later mem original there
    exact free original.onTable ⟨original, ⟨later, mem, there⟩, rfl⟩
  · rintro free column ⟨original, ⟨later, mem, there⟩, rfl⟩
    exact free later mem original there

theorem key_lower {first second : Text} (same : key driver first = key driver second) :
    toAsciiLowercase first = toAsciiLowercase second := by
  unfold key at same
  split_ifs at same
  · rw [same]
  · exact same

theorem free_append {first second : List TableColumn} :
    Free driver (first ++ second) name ↔ Free driver first name ∧ Free driver second name := by
  simp [Free, or_imp, forall_and]

theorem hasColumn_iff {table : List TableColumn} : hasColumn driver table name = false ↔ Free driver table name := by simp [hasColumn, Free]

/-- The columns of the fields before, and of the fields to come: the first have the
names so far, and the others still have their own. -/
structure Between (driver : DriverKind) (names : List Text) (fields : List FieldDraft) (done : List TableColumn) : Prop where
  named : ∀ column ∈ done, toAsciiLowercase column.name ∈ names
  free : ∀ column ∈ done, Free driver (originals fields) column.name
  distinct : (fields.filterMap FieldDraft.original).Pairwise fun first second => key driver first.name ≠ key driver second.name

variable {names : List Text}

theorem Between.fresh {done : List TableColumn}
    (between : Between driver names fields done) (new : toAsciiLowercase name ∉ names) : Free driver done name := by
  intro column mem same
  have known := between.named column mem
  rw [key_lower same] at known
  exact new known

variable {field : FieldDraft}

section
variable {done : List TableColumn} (between : Between driver names (field :: fields) done)
include between

theorem Between.next {original : Column}
    (there : field.original = some original) :
    originals (field :: fields) = original.onTable :: originals fields ∧ Free driver done original.name ∧
      Free driver (originals fields) original.name ∧ Between driver names fields done := by
  have split : (field :: fields).filterMap FieldDraft.original = original :: fields.filterMap FieldDraft.original :=
    filterMap_cons_some there
  have opened : originals (field :: fields) = original.onTable :: originals fields := by
    rw [originals, split]
    rfl
  have distinct := between.distinct
  rw [split, pairwise_cons] at distinct
  refine ⟨opened, fun column mem same => ?_, fun column mem same => ?_, between.named, fun column mem => ?_, distinct.2⟩
  · have free := between.free column mem
    rw [opened] at free
    exact free original.onTable mem_cons_self same.symm
  · obtain ⟨later, known, rfl⟩ := mem_map.mp mem
    exact distinct.1 later known same.symm
  · have free := between.free column mem
    rw [opened] at free
    exact fun other mem => free other (mem_cons_of_mem _ mem)

theorem Between.nothing (none : field.original = none) :
    originals (field :: fields) = originals fields ∧ Between driver names fields done := by
  have split : (field :: fields).filterMap FieldDraft.original = fields.filterMap FieldDraft.original := filterMap_cons_none none
  have opened : originals (field :: fields) = originals fields := by
    rw [originals, split]
    rfl
  refine ⟨opened, between.named, fun column mem => ?_, split ▸ between.distinct⟩
  rw [← opened]
  exact between.free column mem

end

variable {front behind : List TableColumn}

theorem rename_original {original : Column} (before : Free driver front original.name) (after : Free driver behind original.name) :
    execStatement driver (front ++ original.onTable :: behind) (.RenameColumn original.name name) =
      if hasColumn driver (front ++ behind) name then none else some (front ++ { original.onTable with name := name } :: behind) :=
  rename_there rfl before after

theorem add_postgres (field : FieldDraft) (new : field.original = none) (table : List TableColumn) :
    exec .Postgres table (postgresFieldSql field field.sql) =
      if hasColumn .Postgres table field.sql.name then none else some (table ++ [field.drafted]) := by
  simp only [postgresFieldSql, new]
  rw [exec, execStatement]
  by_cases taken : hasColumn .Postgres table field.sql.name = true
  · rw [if_pos taken, if_pos taken]
    rfl
  rw [if_neg taken, if_neg taken]
  have free : Free .Postgres table field.sql.name := hasColumn_iff.mp (by simpa using taken)
  have commented : Turns .Postgres field.sql.name
      ⟨field.sql.name, field.sql.dataType, field.nullable, field.sql.defaultValue, [], false, none⟩
      (if field.sql.comment = [] then [] else [.Comment field.sql.name (some (escapeLiteral field.sql.comment))])
      ⟨field.sql.name, field.sql.dataType, field.nullable, field.sql.defaultValue, field.sql.comment, false, none⟩ :=
    turns_unless (fun old => { old with comment := field.sql.comment }) rfl
      (fun table => by simp [execStatement, readLiteral_escapeLiteral]) (fun none => by rw [none])
  have done := commented table [] free (fun _ mem => by cases mem)
  simp only [filled_getD, Option.bind_eq_bind, Option.bind_some]
  simp only [FieldDraft.drafted, new]
  exact done

theorem change_postgres {original : Column} (there : field.original = some original)
    (before : Free .Postgres front original.name) (after : Free .Postgres behind original.name) :
    exec .Postgres (front ++ original.onTable :: behind) (postgresFieldSql field field.sql) =
      if hasColumn .Postgres (front ++ behind) field.sql.name then none else some (front ++ field.drafted :: behind) := by
  have split : postgresFieldSql field field.sql =
      (if original.name = field.sql.name then [] else [.RenameColumn original.name field.sql.name]) ++
        postgresRest original field.nullable field.sql := by
    simp [postgresFieldSql, postgresRest, there]
  have drafted : field.drafted = ⟨field.sql.name, field.sql.dataType, field.nullable, field.sql.defaultValue, field.sql.comment,
      original.isAutoIncrement, original.generated⟩ := by
    simp only [FieldDraft.drafted, there]
    rfl
  have turns := turns_postgres original field.nullable field.sql
  rw [split, exec_append, drafted]
  by_cases same : original.name = field.sql.name
  · rw [same] at before after
    rw [if_pos same, if_neg (by simp [hasColumn_iff.mpr (free_append.mpr ⟨before, after⟩)])]
    have kept : original.onTable = { original.onTable with name := field.sql.name } := by rw [← same]; rfl
    rw [kept]
    exact turns front behind before after
  · rw [if_neg same, exec_one, rename_original before after]
    split_ifs with taken
    · rfl
    · obtain ⟨before, after⟩ := free_append.mp (hasColumn_iff.mp (Bool.eq_false_iff.mpr taken))
      exact turns front behind before after

variable {statements : List Statement}

theorem add_sqlite {designer : TableDesigner} (new : field.original = none)
    (made : sqliteFieldSql designer field field.sql = .ok statements) (table : List TableColumn) :
    exec .Sqlite table statements = if hasColumn .Sqlite table field.sql.name then none else some (table ++ [field.drafted]) := by
  unfold sqliteFieldSql at made
  rw [new] at made
  split_ifs at made with comment
  cases made
  rw [exec_one, execStatement, filled_getD]
  have plain : field.sql.comment = [] := by simpa using comment
  simp only [FieldDraft.drafted, new, plain]
  rfl

theorem change_sqlite {designer : TableDesigner} {original : Column}
    (there : field.original = some original) (made : sqliteFieldSql designer field field.sql = .ok statements)
    (before : Free .Sqlite front original.name) (after : Free .Sqlite behind original.name) :
    exec .Sqlite (front ++ original.onTable :: behind) statements =
      if hasColumn .Sqlite (front ++ behind) field.sql.name then none else some (front ++ field.drafted :: behind) := by
  unfold sqliteFieldSql at made
  rw [there] at made
  simp only at made
  by_cases comment : field.sql.comment = []
  swap
  · rw [if_pos comment] at made
    cases made
  by_cases changed : sqliteDefinitionChanged field original field.sql = true
  · rw [if_neg (not_not.mpr comment), if_pos changed] at made
    cases made
  rw [if_neg (not_not.mpr comment), if_neg changed] at made
  cases made
  have drafted : field.drafted = { original.onTable with name := field.sql.name } := by
    simp only [sqliteDefinitionChanged, Bool.or_eq_true, decide_eq_true_eq, ne_eq, not_or, not_not] at changed
    simp only [FieldDraft.drafted, there, Column.onTable]
    simp [changed]
  rw [drafted]
  by_cases same : original.name = field.sql.name
  · rw [same] at before after
    rw [if_pos same, if_neg (by simp [hasColumn_iff.mpr (free_append.mpr ⟨before, after⟩)]), ← same]
    rfl
  · rw [if_neg same, exec_one, rename_original before after]

section
variable (sequential : designer.driver ≠ .Mysql)
include sequential

theorem field_statements {made : List Statement ⊕ List MysqlClause}
    (generated : fieldStatements designer field = .ok made) : ∃ statements, made = .inl statements ∧
      (designer.driver = .Postgres ∧ statements = postgresFieldSql field field.sql ∨
        designer.driver = .Sqlite ∧ sqliteFieldSql designer field field.sql = .ok statements) := by
  cases driver : designer.driver with
  | Mysql => exact absurd driver sequential
  | Postgres =>
    simp only [fieldStatements, driver] at generated
    cases generated
    exact ⟨_, rfl, .inl ⟨rfl, rfl⟩⟩
  | Sqlite =>
    simp only [fieldStatements, driver] at generated
    cases run : sqliteFieldSql designer field field.sql with
    | error error =>
      rw [run] at generated
      cases generated
    | ok statements =>
      rw [run] at generated
      cases generated
      exact ⟨statements, rfl, .inr ⟨rfl, rfl⟩⟩
  | Redis | Mongodb =>
    simp only [fieldStatements, driver] at generated
    cases generated

/-- A new column is put behind the others, unless one of them has its name. -/
theorem field_add (new : field.original = none)
    (generated : fieldStatements designer field = .ok (.inl statements)) (table : List TableColumn) :
    exec designer.driver table statements =
      if hasColumn designer.driver table field.sql.name then none else some (table ++ [field.drafted]) := by
  obtain ⟨_, same, ⟨driver, rfl⟩ | ⟨driver, made⟩⟩ := field_statements sequential generated
  · cases same
    rw [driver]
    exact add_postgres field new table
  · cases same
    rw [driver]
    exact add_sqlite new made table

/-- A column becomes what was drafted, unless another one has its new name. -/
theorem field_change (there : field.original = some original)
    (generated : fieldStatements designer field = .ok (.inl statements))
    (before : Free designer.driver front original.name) (after : Free designer.driver behind original.name) :
    exec designer.driver (front ++ original.onTable :: behind) statements =
      if hasColumn designer.driver (front ++ behind) field.sql.name then none else some (front ++ field.drafted :: behind) := by
  obtain ⟨_, same, ⟨driver, rfl⟩ | ⟨driver, made⟩⟩ := field_statements sequential generated
  · cases same
    rw [driver] at before after ⊢
    exact change_postgres there before after
  · cases same
    rw [driver] at before after ⊢
    exact change_sqlite there made before after

end

/-! ### Every field -/

theorem checkField_ok {sql : FieldSql} (checked : checkField names sql = .ok ()) : toAsciiLowercase sql.name ∉ names := by
  obtain ⟨-, -, rest⟩ := bind_ok checked
  intro known
  rw [if_pos known] at rest
  cases rest

/-- The statements and clauses of a field, in front of the others. -/
def joined (made : List Statement ⊕ List MysqlClause) (rest : List Statement × List MysqlClause) : List Statement × List MysqlClause :=
  match made with
  | .inl first => (first ++ rest.1, rest.2)
  | .inr first => (rest.1, first ++ rest.2)

variable {collection : List Statement × List MysqlClause}

theorem collect_stays (stays : field.deleted = false) (collected : collectStatements designer names (field :: fields) = .ok collection) :
    ∃ made rest, checkField names field.sql = .ok () ∧ fieldStatements designer field = .ok made ∧
      collectStatements designer (toAsciiLowercase field.sql.name :: names) fields = .ok rest ∧ collection = joined made rest := by
  rw [collectStatements, stays] at collected
  obtain ⟨⟨⟩, checked, collected⟩ := bind_ok collected
  obtain ⟨made, generated, collected⟩ := bind_ok collected
  obtain ⟨rest, run, collected⟩ := bind_ok collected
  refine ⟨made, rest, checked, generated, run, ?_⟩
  cases made <;> (cases collected; rfl)

theorem collect_deleted (deleted : field.deleted = true) (collected : collectStatements designer names (field :: fields) = .ok collection) :
    ∃ rest, collectStatements designer names fields = .ok rest ∧ collection = joined (dropStatements designer field) rest := by
  rw [collectStatements, deleted] at collected
  obtain ⟨rest, run, collected⟩ := bind_ok collected
  refine ⟨rest, run, ?_⟩
  cases dropped : dropStatements designer field <;> (rw [dropped] at collected; cases collected; rfl)

/-- The names that the later fields still have, for a field that stays. -/
abbrev Spared (driver : DriverKind) (first later : FieldDraft) : Prop :=
  first.deleted = false → ∀ original ∈ later.original, key driver first.sql.name ≠ key driver original.name

theorem spared_iff (stays : field.deleted = false) :
    (∀ later ∈ fields, Spared driver field later) ↔ Free driver (originals fields) field.sql.name := by
  rw [free_originals]
  constructor
  · intro spared later mem original there
    exact (spared later mem stays original there).symm
  · intro free later mem _ original there
    exact (free later mem original there).symm

theorem kept_deleted (deleted : field.deleted = true) : kept (field :: fields) = kept fields ∧ added (field :: fields) = added fields := by
  cases there : field.original <;> simp [kept, added, FieldDraft.edited, deleted, there]

theorem kept_change (stays : field.deleted = false) (there : field.original = some original) :
    kept (field :: fields) = field.drafted :: kept fields ∧ added (field :: fields) = added fields := by
  simp [kept, added, FieldDraft.edited, stays, there]

theorem kept_add (stays : field.deleted = false) (new : field.original = none) :
    kept (field :: fields) = kept fields ∧ added (field :: fields) = field.drafted :: added fields := by
  simp [kept, added, FieldDraft.edited, stays, new]

theorem Between.done (between : Between driver names fields (front ++ behind)) (free : Free driver (originals fields) field.sql.name) :
    Between driver (toAsciiLowercase field.sql.name :: names) fields (front ++ field.drafted :: behind) := by
  have cases' : ∀ {column}, column ∈ front ++ field.drafted :: behind → column = field.drafted ∨ column ∈ front ++ behind := by
    intro column mem
    simp only [mem_append, mem_cons] at mem ⊢
    tauto
  refine ⟨fun column mem => ?_, fun column mem => ?_, between.distinct⟩
  · rcases cases' mem with rfl | old
    · exact mem_cons_self
    · exact mem_cons_of_mem _ (between.named column old)
  · rcases cases' mem with rfl | old
    · exact free
    · exact between.free column old

section
variable (sequential : designer.driver ≠ .Mysql)
include sequential

theorem dropStatements_sequential (field : FieldDraft) :
    dropStatements designer field = .inl (match field.original with
      | none => []
      | some original => [.DropColumn original.name]) := by
  unfold dropStatements
  cases field.original with
  | none => rfl
  | some original => exact if_neg sequential

theorem collect_clauses (fields : List FieldDraft) (names : List Text)
    (collected : collectStatements designer names fields = .ok collection) : collection.2 = [] := by
  induction fields generalizing names collection with
  | nil =>
    cases collected
    rfl
  | cons field fields ih =>
    by_cases deleted : field.deleted = true
    · obtain ⟨rest, run, rfl⟩ := collect_deleted deleted collected
      rw [dropStatements_sequential sequential]
      have clean : rest.2 = [] := ih names run
      exact clean
    obtain ⟨made, rest, -, generated, run, rfl⟩ := collect_stays (Bool.eq_false_iff.mpr deleted) collected
    obtain ⟨_, rfl, -⟩ := field_statements sequential generated
    have clean : rest.2 = [] := ih _ run
    exact clean

/-- The statements of the fields lead to the drafted columns exactly when every
field that stays spares the names of the later ones. -/
theorem collect_exec (fields : List FieldDraft) (names : List Text) (front back : List TableColumn)
    (collected : collectStatements designer names fields = .ok collection)
    (between : Between designer.driver names fields (front ++ back)) :
    exec designer.driver (front ++ originals fields ++ back) collection.1 =
      some (front ++ kept fields ++ (back ++ added fields)) ↔ fields.Pairwise (Spared designer.driver) := by
  induction fields generalizing names front back collection with
  | nil =>
    cases collected
    simp [exec, originals, kept, added]
  | cons field fields ih =>
    rw [pairwise_cons]
    by_cases deleted : field.deleted = true
    · obtain ⟨rest, run, rfl⟩ := collect_deleted deleted collected
      have spared : ∀ later ∈ fields, Spared designer.driver field later := by
        intro later _ stays
        rw [deleted] at stays
        cases stays
      rw [(kept_deleted deleted).1, (kept_deleted deleted).2, dropStatements_sequential sequential, and_iff_right spared]
      cases there : field.original with
      | none =>
        obtain ⟨opened, between⟩ := between.nothing there
        rw [opened]
        exact ih names front back run between
      | some original =>
        obtain ⟨opened, before, after, between⟩ := between.next there
        obtain ⟨before, behind⟩ := free_append.mp before
        have dropped : execStatement designer.driver (front ++ original.onTable :: (originals fields ++ back)) (.DropColumn original.name) =
            some (front ++ (originals fields ++ back)) :=
          drop_there rfl before (free_append.mpr ⟨after, behind⟩)
        simp only [joined, exec_append, exec_one]
        rw [opened, append_assoc, cons_append, dropped, Option.bind_some, ← append_assoc]
        exact ih names front back run between
    · have stays : field.deleted = false := Bool.eq_false_iff.mpr deleted
      obtain ⟨made, rest, checked, generated, run, rfl⟩ := collect_stays stays collected
      obtain ⟨statements, rfl, -⟩ := field_statements sequential generated
      have fresh := between.fresh (checkField_ok checked)
      obtain ⟨ahead, behind⟩ := free_append.mp fresh
      rw [spared_iff stays]
      simp only [joined, exec_append]
      cases there : field.original with
      | none =>
        obtain ⟨opened, between⟩ := between.nothing there
        have does := field_add sequential there generated (front ++ originals fields ++ back)
        rw [opened, (kept_add stays there).1, (kept_add stays there).2, does]
        by_cases free : Free designer.driver (originals fields) field.sql.name
        · have untaken := hasColumn_iff.mpr (free_append.mpr ⟨free_append.mpr ⟨ahead, free⟩, behind⟩)
          have next : Between designer.driver (toAsciiLowercase field.sql.name :: names) fields (front ++ (back ++ [field.drafted])) := by
            rw [← append_assoc]
            exact Between.done (by simpa using between) free
          have exact' := ih _ front (back ++ [field.drafted]) run next
          rw [untaken, and_iff_right free, ← exact']
          simp
        · have taken : hasColumn designer.driver (front ++ originals fields ++ back) field.sql.name = true := by
            by_contra untaken
            exact free (free_append.mp (free_append.mp (hasColumn_iff.mp (Bool.eq_false_iff.mpr untaken))).1).2
          rw [taken, if_pos rfl]
          exact ⟨fun same => (by cases same), fun both => absurd both.1 free⟩
      | some original =>
        obtain ⟨opened, before, after, between⟩ := between.next there
        obtain ⟨before, last⟩ := free_append.mp before
        have does := field_change sequential there generated before (free_append.mpr ⟨after, last⟩)
        rw [opened, (kept_change stays there).1, (kept_change stays there).2, append_assoc, cons_append, does]
        by_cases free : Free designer.driver (originals fields) field.sql.name
        · have untaken := hasColumn_iff.mpr (free_append.mpr ⟨ahead, free_append.mpr ⟨free, behind⟩⟩)
          have next : Between designer.driver (toAsciiLowercase field.sql.name :: names) fields (front ++ [field.drafted] ++ back) := by
            rw [append_assoc]
            exact between.done free
          have exact' := ih _ (front ++ [field.drafted]) back run next
          rw [untaken, and_iff_right free, ← exact']
          simp
        · have taken : hasColumn designer.driver (front ++ (originals fields ++ back)) field.sql.name = true := by
            by_contra untaken
            exact free (free_append.mp (free_append.mp (hasColumn_iff.mp (Bool.eq_false_iff.mpr untaken))).2).1
          rw [taken, if_pos rfl]
          exact ⟨fun same => (by cases same), fun both => absurd both.1 free⟩

end

end Sequential

end Ramag.TableDesign
