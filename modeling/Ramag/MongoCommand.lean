import Ramag.BsonRoundTrip

/-!
The read-only guard of MongoDB commands and the document that is sent behind it.
The guard looks at all keys of the JSON object, the server only at the first key
of the document, and known names are moved to the front in between.
-/
namespace Ramag.MongoCommand
open Strings Domain Json BsonJson List

def WRITE_COMMANDS : List Text :=
  ["insert", "update", "delete", "findandmodify", "bulkwrite", "drop", "dropdatabase", "create", "renamecollection", "collmod", "mapreduce",
    "emptycapped", "converttocapped", "clonecollectionascapped", "createindexes",
    "dropindexes", "reindex", "compact", "createuser", "dropuser",
    "updateuser", "grantrolestouser", "revokerolesfromuser", "createrole",
    "droprole", "updaterole", "grantprivilegestorole", "revokeprivilegesfromrole",
    "dropallusersfromdatabase", "dropallrolesfromdatabase", "applyops",
    "shardcollection", "enablesharding", "movechunk", "moveprimary", "split",
    "splitchunk", "mergechunks", "removeshard", "addshard",
    "refinecollectionshardkey", "reshardcollection", "setparameter",
    "setclusterparameter", "fsync", "killop", "setfeaturecompatibilityversion"]

def READ_COMMANDS : List Text :=
  ["aggregate", "buildinfo", "collstats", "connectionstatus", "count", "currentop", "dbstats", "distinct", "explain", "find",
    "getcmdlineopts", "getdefaultrwconcern", "getlog", "getparameter", "hello",
    "hostinfo", "listcollections", "listcommands", "listdatabases",
    "listindexes", "ping", "replsetgetstatus", "serverstatus", "top",
    "validate", "whatsmyuri"]

def COMMAND_NAMES : List Text :=
  ["aggregate", "buildInfo", "collStats", "count", "create", "createIndexes", "dbStats", "delete", "distinct", "drop",
    "dropDatabase", "find", "findAndModify", "insert", "listCollections",
    "listIndexes", "ping", "serverStatus", "update"]

def AGGREGATE : Text := "aggregate"
def PIPELINE : Text := "pipeline"

def writeStageKey (key : Text) : Bool := eqIgnoreAsciiCase key "$out" || eqIgnoreAsciiCase key "$merge"

def pipelineHasWriteStage (pipeline : List Value) : Bool :=
  pipeline.any fun stage =>
    match stage.asObject with
    | some fields => fields.any fun field => writeStageKey field.1
    | none => false

def commandIsWrite (command : Value) : Bool :=
  match command.asObject with
  | none => false
  | some fields =>
    let writes := fields.any fun field => toAsciiLowercase field.1 ∈ WRITE_COMMANDS
    let hasAggregate := fields.any fun field => eqIgnoreAsciiCase field.1 AGGREGATE
    let stages := ((command.get PIPELINE).bind Value.asArray).getD []
    writes || (hasAggregate && pipelineHasWriteStage stages) ||
      !fields.any fun field => toAsciiLowercase field.1 ∈ READ_COMMANDS

section
variable {Leaf : Type}

def promoteKnownCommand (command : Document Leaf) : Document Leaf :=
  match COMMAND_NAMES.find? fun name => (command.lookup name).isSome with
  | none => command
  | some name =>
    match command.lookup name with
    | none => command
    | some value => (name, value) :: command.filter fun field => field.1 ≠ name

/-- The document that goes to the server for a command of the driver. -/
def runCommand (crate : Crate Leaf) (shown : Bson Leaf → Text) (production : Bool) (command : Value) : Result (Document Leaf) :=
  if production && commandIsWrite command then .error (.Forbidden READ_ONLY_MESSAGE)
  else
    match jsonToDocument crate shown command with
    | .ok document => .ok (promoteKnownCommand document)
    | .error error => .error error

/-- The command of a document is its first key. -/
def commandName (document : Document Leaf) : Option Text := document.head?.map Prod.fst

def stages (document : Document Leaf) : List (Bson Leaf) :=
  match document.lookup PIPELINE with
  | some (.Array items) => items
  | _ => []

def WritesOut (stage : Bson Leaf) : Prop := ∃ fields, stage = .Document fields ∧ ∃ field ∈ fields, writeStageKey field.1 = true

/-- The document is executed as a command of the reading list, without a stage
    that writes. -/
def OnlyReads (document : Document Leaf) : Prop :=
  ∃ name, commandName document = some name ∧ toAsciiLowercase name ∈ READ_COMMANDS ∧
    (toAsciiLowercase name = AGGREGATE → ∀ stage ∈ stages document, ¬ WritesOut stage)

/-- The name that is executed is one of the guard's reading names: a known name is
    moved to the front, or the first key is a reading name itself. -/
def NamesRead (fields : List (Text × Value)) : Prop :=
  (∃ field ∈ fields, field.1 ∈ COMMAND_NAMES) ∨ ∃ field ∈ fields.head?, toAsciiLowercase field.1 ∈ READ_COMMANDS

private theorem commandNames_sorted :
    COMMAND_NAMES.all (fun name => toAsciiLowercase name ∈ WRITE_COMMANDS || toAsciiLowercase name ∈ READ_COMMANDS) = true := by
  decide

variable {name : Text}

theorem known_sorted (known : name ∈ COMMAND_NAMES) : toAsciiLowercase name ∈ WRITE_COMMANDS ∨ toAsciiLowercase name ∈ READ_COMMANDS := by
  have sorted := all_eq_true.mp commandNames_sorted name known
  simpa using sorted

theorem lookup_isSome {α : Type} (key : Text) (fields : List (Text × α)) :
    (fields.lookup key).isSome = true ↔ ∃ field ∈ fields, field.1 = key := by
  induction fields with
  | nil => simp
  | cons field fields ih =>
    obtain ⟨name, value⟩ := field
    by_cases same : key = name
    · simp [same]
    · rw [lookup_cons, beq_false_of_ne same, ih]
      simp [Ne.symm same]

theorem lookup_filter_other {α : Type} {key : Text} (other : key ≠ name) (fields : List (Text × α)) :
    (fields.filter fun field => field.1 ≠ name).lookup key = fields.lookup key := by
  induction fields with
  | nil => rfl
  | cons field fields ih =>
    obtain ⟨found, value⟩ := field
    by_cases same : found = name
    · simpa [same, lookup_cons, beq_false_of_ne other] using ih
    · by_cases here : key = found
      · simp [same, here]
      · simpa [same, lookup_cons, beq_false_of_ne here] using ih

theorem promoted_cases (command : Document Leaf) :
    (∃ name ∈ COMMAND_NAMES, ∃ field ∈ command, field.1 = name ∧ commandName (promoteKnownCommand command) = some name) ∨
      ((∀ field ∈ command, field.1 ∉ COMMAND_NAMES) ∧ promoteKnownCommand command = command) := by
  unfold promoteKnownCommand
  cases found : COMMAND_NAMES.find? fun name => (command.lookup name).isSome with
  | none =>
    right
    refine ⟨fun field mem known => ?_, rfl⟩
    exact find?_eq_none.mp found field.1 known ((lookup_isSome field.1 command).mpr ⟨field, mem, rfl⟩)
  | some name =>
    left
    have present : (command.lookup name).isSome = true := by simpa using find?_some found
    obtain ⟨value, here⟩ := Option.isSome_iff_exists.mp present
    obtain ⟨field, mem, same⟩ := (lookup_isSome name command).mp present
    refine ⟨name, mem_of_find?_eq_some found, field, mem, same, ?_⟩
    simp only [here]
    rfl

theorem stages_promoted (command : Document Leaf) : stages (promoteKnownCommand command) = stages command := by
  have kept : (promoteKnownCommand command).lookup PIPELINE = command.lookup PIPELINE := by
    unfold promoteKnownCommand
    cases found : COMMAND_NAMES.find? fun name => (command.lookup name).isSome with
    | none => rfl
    | some name =>
      have other : PIPELINE ≠ name := by
        rintro rfl
        exact absurd (mem_of_find?_eq_some found) (by decide)
      cases here : command.lookup name with
      | none => simp [here]
      | some value =>
        simp only [here]
        rw [lookup_cons, beq_false_of_ne other]
        exact lookup_filter_other other command
  unfold stages
  rw [kept]

section Accepted
variable {crate : Crate Leaf} (documented : crate.Documented)
include documented

variable {fields : List (Text × Value)} {document : Document Leaf}

theorem jsonToDocument_fields {shown : Bson Leaf → Text} (read : jsonToDocument crate shown (.Object fields) = .ok document) :
    List.Forall₂ (fun field item => field.1 = item.1 ∧ crate.fromValue field.2 = .ok item.2) fields document := by
  unfold jsonToDocument jsonToBson at read
  cases known : crate.fromValue (.Object fields) with
  | error e => simp [known] at read
  | ok b =>
    cases b <;> simp [known] at read
    subst read
    exact ((documented.readsObject fields _).mp known).2

omit documented in
theorem names_eq (same : List.Forall₂ (fun field item => field.1 = item.1 ∧ crate.fromValue field.2 = .ok item.2) fields document) :
    fields.map Prod.fst = document.map Prod.fst := by
  induction same with
  | nil => rfl
  | cons here _ ih => rw [map_cons, map_cons, here.1, ih]

omit documented in
theorem lookup_read {key : Text} {b : Bson Leaf}
    (same : List.Forall₂ (fun field item => field.1 = item.1 ∧ crate.fromValue field.2 = .ok item.2) fields document)
    (found : document.lookup key = some b) : ∃ value, fields.lookup key = some value ∧ crate.fromValue value = .ok b := by
  induction same with
  | nil => cases found
  | @cons field item fields document here _ ih =>
    obtain ⟨name, value⟩ := field
    obtain ⟨name', b'⟩ := item
    obtain ⟨rfl, converted⟩ := here
    by_cases same : key = name
    · subst same
      rw [lookup_cons_self, Option.some.injEq] at found
      exact ⟨value, lookup_cons_self, found ▸ converted⟩
    · rw [lookup_cons, beq_false_of_ne same] at found
      rw [lookup_cons, beq_false_of_ne same]
      exact ih found

theorem writesOut_guarded (same : List.Forall₂ (fun field item => field.1 = item.1 ∧ crate.fromValue field.2 = .ok item.2) fields document)
    {stage : Bson Leaf} (mem : stage ∈ stages document) (writes : WritesOut stage) :
    pipelineHasWriteStage ((((Value.Object fields).get PIPELINE).bind Value.asArray).getD []) = true := by
  obtain ⟨inner, rfl, item, inside, writeKey⟩ := writes
  unfold stages at mem
  cases found : document.lookup PIPELINE with
  | none => simp [found] at mem
  | some b =>
    rw [found] at mem
    cases b with
    | Array items =>
      obtain ⟨value, here, converted⟩ := lookup_read same found
      obtain ⟨values, rfl⟩ := documented.onlyArrays value items converted
      have each := (documented.readsArray values items).mp converted
      obtain ⟨n, bound, at_n⟩ := mem_iff_getElem.mp mem
      have paired := forall₂_iff_get.mp each
      have inRange : n < values.length := paired.1 ▸ bound
      have stageRead : crate.fromValue values[n] = .ok (.Document inner) := by
        have pair := paired.2 n inRange bound
        simp only [get_eq_getElem] at pair
        rw [pair, at_n]
      obtain ⟨stageFields, isObject⟩ := documented.onlyObjects _ _ stageRead
      rw [isObject] at stageRead
      have names := names_eq ((documented.readsObject stageFields inner).mp stageRead).2
      have key : item.1 ∈ stageFields.map Prod.fst := names ▸ mem_map_of_mem inside
      obtain ⟨stageField, stageMember, sameKey⟩ := mem_map.mp key
      have known : (((Value.Object fields).get PIPELINE).bind Value.asArray).getD [] = values := by
        change ((fields.lookup PIPELINE).bind Value.asArray).getD [] = values
        rw [here]
        rfl
      rw [known]
      refine any_eq_true.mpr ⟨values[n], getElem_mem inRange, ?_⟩
      rw [isObject]
      exact any_eq_true.mpr ⟨stageField, stageMember, sameKey ▸ writeKey⟩
    | Int32 _ | Int64 _ | Document _ | JavaScriptCodeWithScope _ _ | Leaf _ => simp at mem

end Accepted

/-! ### The guard -/

variable {fields : List (Text × Value)}

theorem guard_false (guarded : commandIsWrite (.Object fields) = false) : (∀ field ∈ fields, toAsciiLowercase field.1 ∉ WRITE_COMMANDS) ∧
      ((∃ field ∈ fields, toAsciiLowercase field.1 = AGGREGATE) →
        pipelineHasWriteStage ((((Value.Object fields).get PIPELINE).bind Value.asArray).getD []) = false) := by
  simp only [commandIsWrite, Value.asObject, Bool.or_eq_false_iff, Bool.and_eq_false_iff] at guarded
  obtain ⟨⟨writes, aggregate⟩, -⟩ := guarded
  refine ⟨fun field mem listed => ?_, fun ⟨field, mem, named⟩ => ?_⟩
  · exact absurd (decide_eq_true listed) (any_eq_false.mp writes field mem)
  rcases aggregate with absent | silent
  · have same : eqIgnoreAsciiCase field.1 AGGREGATE = true := by
      rw [eqIgnoreAsciiCase, named]
      decide
    exact absurd same (any_eq_false.mp absent field mem)
  · exact silent

variable {crate : Crate Leaf} {document : Document Leaf}

section
variable (documented : crate.Documented) (guarded : commandIsWrite (.Object fields) = false)
  (same : List.Forall₂ (fun field item => field.1 = item.1 ∧ crate.fromValue field.2 = .ok item.2) fields document)
include documented guarded same

theorem onlyReads_iff
    (executed : commandName (promoteKnownCommand document) = some name) (key : ∃ field ∈ fields, field.1 = name) :
    OnlyReads (promoteKnownCommand document) ↔ toAsciiLowercase name ∈ READ_COMMANDS := by
  constructor
  · rintro ⟨found, here, listed, -⟩
    rw [executed, Option.some.injEq] at here
    exact here ▸ listed
  intro listed
  refine ⟨name, executed, listed, fun aggregate stage mem writes => ?_⟩
  rw [stages_promoted] at mem
  obtain ⟨field, inObject, rfl⟩ := key
  have silent := (guard_false guarded).2 ⟨field, inObject, aggregate⟩
  rw [writesOut_guarded documented same mem writes] at silent
  cases silent

theorem promoted_only_reads :
    OnlyReads (promoteKnownCommand document) ↔ NamesRead fields := by
  have names := names_eq same
  rcases promoted_cases document with ⟨name, known, item, mem, rfl, executed⟩ | ⟨unknown, unchanged⟩
  · have inKeys : item.1 ∈ fields.map Prod.fst := names ▸ mem_map_of_mem mem
    obtain ⟨field, inObject, here⟩ := mem_map.mp inKeys
    have listed : toAsciiLowercase item.1 ∈ READ_COMMANDS := by
      rcases known_sorted known with writes | reads
      · exact absurd (here ▸ writes) ((guard_false guarded).1 field inObject)
      · exact reads
    rw [onlyReads_iff documented guarded same executed ⟨field, inObject, here⟩]
    exact iff_of_true listed (.inl ⟨field, inObject, here ▸ known⟩)
  · have notKnown : ¬ ∃ field ∈ fields, field.1 ∈ COMMAND_NAMES := by
      rintro ⟨field, inObject, known⟩
      have inKeys : field.1 ∈ document.map Prod.fst := names ▸ mem_map_of_mem inObject
      obtain ⟨item, mem, here⟩ := mem_map.mp inKeys
      exact unknown item mem (here ▸ known)
    unfold NamesRead
    rw [or_iff_right notKnown]
    cases fields with
    | nil =>
      cases same
      rw [unchanged]
      simp [OnlyReads, commandName]
    | cons first others =>
      cases document with
      | nil => cases names
      | cons item items =>
        have here : first.1 = item.1 := (List.cons.inj names).1
        have executed : commandName (promoteKnownCommand (item :: items)) = some first.1 := by
          rw [unchanged, here]
          rfl
        rw [onlyReads_iff documented guarded same executed ⟨first, mem_cons_self, rfl⟩]
        simp

end

theorem runCommand_ok {shown : Bson Leaf → Text} {production : Bool} {command : Value}
    (sent : runCommand crate shown production command = .ok document) : (production = true → commandIsWrite command = false) ∧
      ∃ read, jsonToDocument crate shown command = .ok read ∧ document = promoteKnownCommand read := by
  unfold runCommand at sent
  by_cases refused : (production && commandIsWrite command) = true
  · simp [refused] at sent
  rw [if_neg refused] at sent
  refine ⟨fun isProduction => by simpa [isProduction] using refused, ?_⟩
  cases read : jsonToDocument crate shown command with
  | error e => simp [read] at sent
  | ok found => exact ⟨found, rfl, by simpa [read] using sent.symm⟩

end

/-- A command that the guard lets through is executed as a reading command exactly
    when its executed name is one of the reading names. -/
theorem sent_only_reads {Leaf : Type} {crate : Crate Leaf} (documented : crate.Documented) {shown : Bson Leaf → Text}
    {production : Bool} {fields : List (Text × Value)} {document : Document Leaf} (guarded : commandIsWrite (.Object fields) = false)
    (sent : runCommand crate shown production (.Object fields) = .ok document) : OnlyReads document ↔ NamesRead fields := by
  obtain ⟨-, read, converted, rfl⟩ := runCommand_ok sent
  exact promoted_only_reads documented guarded (jsonToDocument_fields documented converted)

private def ping : List (Text × Value) := [("comment", .String "c"), ("ping", .ofI64 1)]

theorem sent_only_reads_ping : OnlyReads [("ping", (.Int32 1 : Bson Text)), ("comment", .Leaf "c")] ↔ NamesRead ping := by
  have guarded : commandIsWrite (.Object ping) = false := by decide
  have sent : runCommand BsonRoundTrip.stringCrate (fun _ => []) false (.Object ping) =
      .ok [("ping", .Int32 1), ("comment", .Leaf "c")] := by rfl
  exact sent_only_reads BsonRoundTrip.stringCrate_documented guarded sent

/-- A command of no list is let through for the reading name behind it, and the
    server executes it. -/
theorem sent_only_reads_killCursors :
    ¬ ∀ (crate : Crate Text), crate.Documented → ∀ (shown : Bson Text → Text) (fields : List (Text × Value))
      (document : Document Text), commandIsWrite (.Object fields) = false →
      runCommand crate shown true (.Object fields) = .ok document → OnlyReads document := by
  intro all
  have reads := all BsonRoundTrip.stringCrate BsonRoundTrip.stringCrate_documented (fun _ => [])
    [("killCursors", .String "c"), ("cursors", .Array []), ("hello", .ofI64 1)]
    [("killCursors", .Leaf "c"), ("cursors", .Array []), ("hello", .Int32 1)]
    (by decide) (by rfl)
  obtain ⟨name, executed, listed, -⟩ := reads
  obtain rfl : "killCursors" = name := Option.some.inj executed
  exact absurd listed (by decide)

end Ramag.MongoCommand
