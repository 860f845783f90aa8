import Ramag.Chains
import Ramag.OpenApiDocument

/-!
References of an OpenAPI document come to an end: each is met once at most, and
the document holds finitely many. A schema's example is built level by level, and
fails exactly if some schema on the way has a fault.
-/
namespace Ramag.OpenApi
open Strings Domain Fields Json Chains

/-- The value that a reference stands for. -/
def target (root : Value) (reference : Text) : Option Value :=
  (stripPrefix ['#'] reference).bind fun pointer =>
    if pointer = [] then some root
    else (stripPrefix ['/'] pointer).bind fun pointer => lookPointer root (pointer.splitOn '/')

variable {root found : Value} {reference path : Text}

theorem resolvePointer_ok : resolvePointer root reference path = .ok found ↔ target root reference = some found := by
  unfold resolvePointer target
  cases stripPrefix ['#'] reference with
  | none => exact ⟨fun done => (by cases done), fun done => (by cases done)⟩
  | some pointer =>
    simp only [Option.bind_some]
    split_ifs with whole
    · exact ⟨fun done => congrArg some (Except.ok.inj done), fun done => congrArg Except.ok (Option.some.inj done)⟩
    cases stripPrefix ['/'] pointer with
    | none => exact ⟨fun done => (by cases done), fun done => (by cases done)⟩
    | some pointer =>
      simp only [Option.bind_some]
      cases lookPointer root (pointer.splitOn '/') with
      | none => exact ⟨fun done => (by cases done), fun done => (by cases done)⟩
      | some found' => exact ⟨fun done => congrArg some (Except.ok.inj done), fun done => congrArg Except.ok (Option.some.inj done)⟩

theorem resolvePointer_error (path : Text) (dangling : target root reference = none) :
    ∃ error, resolvePointer root reference path = .error error := by
  cases resolved : resolvePointer root reference path with
  | error error => exact ⟨error, rfl⟩
  | ok found => simp [resolvePointer_ok.mp resolved] at dangling

variable {value : Value}

theorem texts_field {fields : List (Text × Value)} {key : Text} (found : fields.lookup key = some value) : texts value ⊆ textsOfFields fields := by
  induction fields with
  | nil => cases found
  | cons field fields ih =>
    obtain ⟨name, first⟩ := field
    rw [List.lookup_cons] at found
    cases same : key == name with
    | true =>
      rw [same] at found
      cases found
      exact List.subset_append_left _ _
    | false =>
      rw [same] at found
      exact List.Subset.trans (ih found) (List.subset_append_right _ _)

theorem texts_get {key : Text} (got : value.get key = some found) : texts found ⊆ texts value := by
  cases value with
  | Object fields => exact texts_field got
  | Null | Bool _ | Number _ | String _ | Array _ => cases got

theorem texts_look {segments : List Text} {current : Value} (looked : lookPointer current segments = some found) : texts found ⊆ texts current := by
  induction segments generalizing current with
  | nil =>
    cases looked
    exact List.Subset.refl _
  | cons segment segments ih =>
    obtain ⟨next, got, rest⟩ := Option.bind_eq_some_iff.mp looked
    exact List.Subset.trans (ih rest) (texts_get got)

theorem texts_target (resolved : target root reference = some found) : texts found ⊆ texts root := by
  obtain ⟨pointer, -, resolved⟩ := Option.bind_eq_some_iff.mp resolved
  split_ifs at resolved
  · cases resolved
    exact List.Subset.refl _
  · obtain ⟨pointer, -, looked⟩ := Option.bind_eq_some_iff.mp resolved
    exact texts_look looked

/-- A value is the last one without `$ref`, and is stuck if that is not its only
field, not a text, or stands for nothing. -/
def refView (root value : Value) : View Value Text :=
  match value.asObject with
  | none => .last
  | some fields =>
    match fields.lookup REF with
    | none => .last
    | some reference =>
      if fields.length ≠ 1 then .stuck
      else
        match reference.asStr with
        | none => .stuck
        | some reference =>
          match target root reference with
          | none => .stuck
          | some next => .next reference next

theorem refView_next {next : Value} (shown : refView root value = .next reference next) :
    target root reference = some next ∧ reference ∈ texts value := by
  unfold refView at shown
  cases object : value.asObject with
  | none => simp [object] at shown
  | some fields =>
    rw [object] at shown
    simp only at shown
    cases field : fields.lookup REF with
    | none => simp [field] at shown
    | some held =>
      rw [field] at shown
      simp only at shown
      split_ifs at shown
      cases text : held.asStr with
      | none => simp [text] at shown
      | some name =>
        rw [text] at shown
        simp only at shown
        cases found : target root name with
        | none => simp [found] at shown
        | some target' =>
          rw [found] at shown
          cases shown
          refine ⟨found, ?_⟩
          have string : held = .String reference := by
            cases held with
            | String t =>
              cases text
              rfl
            | Null | Bool _ | Number _ | Array _ | Object _ => cases text
          have whole : value = .Object fields := by
            cases value with
            | Object inner =>
              cases object
              rfl
            | Null | Bool _ | Number _ | String _ | Array _ => cases object
          rw [whole]
          have inside := texts_field field
          rw [string] at inside
          exact inside (by simp [texts])

theorem refView_named (root : Value) : Named (refView root) := by
  intro first second name firstNext secondNext one other
  exact Option.some.inj ((refView_next one).1.symm.trans (refView_next other).1)

theorem texts_leads {reached : Value} (leads : Leads (refView root) value reached) : texts reached ⊆ texts value ++ texts root := by
  induction leads with
  | refl => exact List.subset_append_left _ _
  | tail before step ih =>
    obtain ⟨name, shown⟩ := step
    exact List.Subset.trans (texts_target (refView_next shown).1) (List.subset_append_right _ _)

variable {calls : Nat}

theorem enough (many : (texts value ++ texts root).length < calls) : Enough (refView root) value calls (texts value ++ texts root) :=
  ⟨refView_named root, fun _ _ _ leads shown => texts_leads leads (refView_next shown).2, many⟩

/-- What an outcome is for the code. -/
def Answers : Option (Outcome Value) → Option (Except Text Value) → Prop
  | none, none => True
  | some (.last value), some (.ok value') => value = value'
  | some (.stuck _), some (.error _) | some (.cycle _), some (.error _) => True
  | _, _ => False

theorem resolveRefInner_follows (root : Value) (path : Text) (calls : Nat) (references : List Text) (value : Value) :
    Answers (follow (refView root) calls references value) (resolveRefInner root path calls references value) := by
  induction calls generalizing references value with
  | zero => trivial
  | succ calls ih =>
    unfold follow resolveRefInner refView
    cases value.asObject with
    | none => exact rfl
    | some fields =>
      simp only
      cases fields.lookup REF with
      | none => exact rfl
      | some held =>
        simp only
        split_ifs with lone
        · trivial
        cases held.asStr with
        | none => trivial
        | some reference =>
          simp only
          cases found : target root reference with
          | none =>
            obtain ⟨error, failed⟩ := resolvePointer_error (path ++ ".$ref") found
            rw [failed]
            split_ifs <;> trivial
          | some next =>
            rw [resolvePointer_ok.mpr found]
            by_cases known : reference ∈ references
            · simp only [if_pos known]
              trivial
            · simp only [if_neg known]
              exact ih (references ++ [reference]) next

theorem resolveRefInner_more {references : List Text} {result : Except Text Value}
    (resolved : resolveRefInner root path calls references value = some result) :
    resolveRefInner root path (calls + 1) references value = some result := by
  induction calls generalizing references value with
  | zero => cases resolved
  | succ calls ih =>
    unfold resolveRefInner at resolved ⊢
    cases object : value.asObject with
    | none =>
      rw [object] at resolved
      exact resolved
    | some fields =>
      rw [object] at resolved
      simp only at resolved ⊢
      cases field : fields.lookup REF with
      | none =>
        rw [field] at resolved
        exact resolved
      | some held =>
        rw [field] at resolved
        simp only at resolved ⊢
        split_ifs at resolved ⊢ with lone
        · exact resolved
        cases text : held.asStr with
        | none =>
          rw [text] at resolved
          exact resolved
        | some reference =>
          rw [text] at resolved
          simp only at resolved ⊢
          split_ifs at resolved ⊢ with known
          · exact resolved
          cases found : resolvePointer root reference (path ++ ".$ref") with
          | error error =>
            rw [found] at resolved
            exact resolved
          | ok next =>
            rw [found] at resolved
            exact ih resolved

theorem resolveRef_total (root value : Value) (path : Text) (many : (texts value ++ texts root).length < calls) :
    resolveRefInner root path calls [] value = some (resolveRef root value path) := by
  have first : resolveRefInner root path ((texts value ++ texts root).length + 1) [] value = some (resolveRef root value path) := by
    obtain ⟨outcome, followed, -⟩ := follow_ends (enough (Nat.lt_succ_self (texts value ++ texts root).length))
    have answers := resolveRefInner_follows root path ((texts value ++ texts root).length + 1) [] value
    rw [followed] at answers
    rw [resolveRef]
    cases run : resolveRefInner root path ((texts value ++ texts root).length + 1) [] value with
    | none =>
      rw [run] at answers
      cases outcome <;> exact answers.elim
    | some result => rfl
  obtain ⟨extra, rfl⟩ := Nat.exists_eq_add_of_le (Nat.succ_le_of_lt many)
  induction extra with
  | zero => exact first
  | succ extra ih => exact resolveRefInner_more (ih (by omega))

theorem resolveRef_answers (root value : Value) (path : Text) : ∃ outcome,
    follow (refView root) ((texts value ++ texts root).length + 1) [] value = some outcome ∧
      Answers (some outcome) (some (resolveRef root value path)) := by
  have many := Nat.lt_succ_self (texts value ++ texts root).length
  obtain ⟨outcome, followed, -⟩ := follow_ends (enough many)
  have answers := resolveRefInner_follows root path ((texts value ++ texts root).length + 1) [] value
  rw [followed, resolveRef_total root value path many] at answers
  exact ⟨outcome, followed, answers⟩

theorem resolveRef_ok_iff : resolveRef root value path = .ok found ↔ Leads (refView root) value found ∧ refView root found = .last := by
  rw [← follow_last_iff (enough (Nat.lt_succ_self _))]
  obtain ⟨outcome, followed, answers⟩ := resolveRef_answers root value path
  rw [followed]
  cases result : resolveRef root value path with
  | error error =>
    rw [result] at answers
    cases outcome with
    | last other => exact answers.elim
    | stuck other | cycle other => exact ⟨fun same => (by cases same), fun same => (by cases same)⟩

  | ok other =>
    rw [result] at answers
    cases outcome with
    | last state =>
      cases (show state = other from answers)
      exact ⟨fun same => congrArg (some ∘ Outcome.last) (Except.ok.inj same), fun same => by cases same; rfl⟩
    | stuck other | cycle other => exact answers.elim

theorem resolveRef_error_iff : (∃ error, resolveRef root value path = .error error) ↔
    ∃ reached, Leads (refView root) value reached ∧ (refView root reached = .stuck ∨ Cyclic (refView root) reached) := by
  rw [← follow_stops_iff (enough (Nat.lt_succ_self _))]
  obtain ⟨outcome, followed, answers⟩ := resolveRef_answers root value path
  rw [followed]
  cases result : resolveRef root value path with
  | error error =>
    rw [result] at answers
    refine ⟨fun _ => ?_, fun _ => ⟨error, rfl⟩⟩
    cases outcome with
    | last other => exact answers.elim
    | stuck other => exact ⟨other, .inl rfl⟩
    | cycle other => exact ⟨other, .inr rfl⟩
  | ok other =>
    rw [result] at answers
    refine ⟨fun ⟨_, same⟩ => (by cases same), fun ⟨state, stops⟩ => ?_⟩
    cases outcome with
    | last state => rcases stops with same | same <;> cases same
    | stuck other | cycle other => exact answers.elim

/-! ### Schemas -/

/-- A schema on the way, with the levels that are left and the references above it. -/
structure Node where
  levels : Nat
  references : List Text
  schema : Value

/-- The schemas that the example of a schema is built from. -/
inductive Below (root : Value) : Node → Node → Prop
  | reference {levels : Nat} {references : List Text} {schema next : Value} {reference : Text}
      (step : schemaStep schema = .ok (.Reference reference)) (new : reference ∉ references)
      (resolved : target root reference = some next) :
      Below root ⟨levels + 1, references, schema⟩ ⟨levels, references ++ [reference], next⟩
  | branch {levels : Nat} {references : List Text} {schema first : Value} {key : Text}
      (step : schemaStep schema = .ok (.Branch key first)) : Below root ⟨levels + 1, references, schema⟩ ⟨levels, references, first⟩
  | property {levels : Nat} {references : List Text} {schema : Value} {properties : List (Text × Value)} {property : Text × Value}
      (step : schemaStep schema = .ok (.Properties properties)) (mem : property ∈ properties) :
      Below root ⟨levels + 1, references, schema⟩ ⟨levels, references, property.2⟩
  | items {levels : Nat} {references : List Text} {schema items : Value}
      (step : schemaStep schema = .ok (.Items items)) : Below root ⟨levels + 1, references, schema⟩ ⟨levels, references, items⟩

/-- The schema is too deep, has a field of a wrong type, or a reference that was met above it or leads nowhere. -/
def Faulty (root : Value) (node : Node) : Prop :=
  node.levels = 0 ∨ (∃ fault, schemaStep node.schema = .error fault) ∨
    ∃ reference, schemaStep node.schema = .ok (.Reference reference) ∧ (reference ∈ node.references ∨ target root reference = none)

def Fails (root : Value) (node : Node) : Prop := ∃ below, Relation.ReflTransGen (Below root) node below ∧ Faulty root below

/-- The samples follow the schema. -/
inductive Exemplifies (root : Value) : Value → Option Value → Prop
  | reference {schema next : Value} {sample : Option Value} {reference : Text}
      (step : schemaStep schema = .ok (.Reference reference)) (resolved : target root reference = some next)
      (rest : Exemplifies root next sample) : Exemplifies root schema sample
  | done {schema : Value} {sample : Option Value} (step : schemaStep schema = .ok (.Done sample)) : Exemplifies root schema sample
  | branch {schema first : Value} {sample : Option Value} {key : Text} (step : schemaStep schema = .ok (.Branch key first))
      (rest : Exemplifies root first sample) : Exemplifies root schema sample
  | properties {schema : Value} {properties : List (Text × Value)} {samples : List (Option Value)}
      (step : schemaStep schema = .ok (.Properties properties))
      (rest : List.Forall₂ (fun property sample => Exemplifies root property.2 sample) properties samples) :
      Exemplifies root schema (some (.Object (List.zipWith (fun property sample =>
        (Option.map (property.1, ·) sample).toList) properties samples).flatten))
  | items {schema items : Value} {item : Option Value} (step : schemaStep schema = .ok (.Items items))
      (rest : Exemplifies root items item) : Exemplifies root schema (some (.Array item.toList))

theorem fails_iff {node : Node} : Fails root node ↔ Faulty root node ∨ ∃ next, Below root node next ∧ Fails root next := by
  constructor
  · rintro ⟨below, leads, faulty⟩
    rcases Relation.ReflTransGen.cases_head leads with rfl | ⟨next, step, rest⟩
    · exact .inl faulty
    · exact .inr ⟨next, step, below, rest, faulty⟩
  · rintro (faulty | ⟨next, step, below, rest, faulty⟩)
    · exact ⟨node, .refl, faulty⟩
    · exact ⟨below, rest.head step, faulty⟩

theorem bind_error_iff {α β : Type} {step : Except Text α} {next : α → Except Text β} : (∃ error, (step >>= next) = .error error) ↔
      (∃ error, step = .error error) ∨ ∃ value, step = .ok value ∧ ∃ error, next value = .error error := by
  cases step with
  | error error => exact ⟨fun _ => .inl ⟨error, rfl⟩, fun _ => ⟨error, rfl⟩⟩
  | ok value =>
    constructor
    · exact fun failed => .inr ⟨value, rfl, failed⟩
    rintro (⟨_, same⟩ | ⟨_, same, failed⟩)
    · cases same
    · cases same
      exact failed

section Properties

variable {build : Text → Value → List Text → Except Text (Option Value × List Text)}

theorem sampleProperties_error {Bad : Value → Prop}
    (every : ∀ name property warnings, (∃ error, build name property warnings = .error error) ↔ Bad property)
    (properties : List (Text × Value)) (warnings : List Text) :
    (∃ error, sampleProperties build properties warnings = .error error) ↔ ∃ property ∈ properties, Bad property.2 := by
  induction properties generalizing warnings with
  | nil => exact ⟨fun ⟨_, same⟩ => (by cases same), fun ⟨_, absent, _⟩ => (by cases absent)⟩
  | cons property properties ih =>
    obtain ⟨name, property⟩ := property
    rw [sampleProperties, bind_error_iff, List.exists_mem_cons_iff, every]
    refine or_congr_right' fun good => ?_
    constructor
    · rintro ⟨⟨value, between⟩, -, failed⟩
      rcases bind_error_iff.mp failed with later | ⟨_, _, _, same⟩
      · exact (ih between).mp later
      · cases same
    intro bad
    cases made : build name property warnings with
    | error error => exact absurd ((every name property warnings).mp ⟨error, made⟩) good
    | ok result => exact ⟨result, rfl, bind_error_iff.mpr (.inl ((ih result.2).mpr bad))⟩

theorem sampleProperties_ok {Good : Value → Option Value → Prop}
    (every : ∀ name property warnings result, build name property warnings = .ok result → Good property result.1)
    {properties : List (Text × Value)} {warnings : List Text} {result : List (Text × Value) × List Text}
    (made : sampleProperties build properties warnings = .ok result) :
    ∃ samples, List.Forall₂ (fun property sample => Good property.2 sample) properties samples ∧
      result.1 = (List.zipWith (fun property sample => (Option.map (property.1, ·) sample).toList) properties samples).flatten := by
  induction properties generalizing warnings result with
  | nil =>
    cases made
    exact ⟨[], .nil, rfl⟩
  | cons property properties ih =>
    obtain ⟨name, property⟩ := property
    obtain ⟨⟨value, between⟩, first, made⟩ := bind_ok made
    obtain ⟨⟨sample, after⟩, rest, made⟩ := bind_ok made
    cases made
    obtain ⟨samples, each, same⟩ := ih rest
    refine ⟨value :: samples, .cons (every name property warnings _ first) each, ?_⟩
    rw [List.zipWith_cons_cons, List.flatten_cons, ← same]

end Properties

theorem schemaExample_error_iff (root : Value) (levels : Nat) (schema : Value) (path : Text) (references warnings : List Text) :
    (∃ error, schemaExample root levels schema path references warnings = .error error) ↔ Fails root ⟨levels, references, schema⟩ := by
  induction levels generalizing schema path references warnings with
  | zero => exact ⟨fun _ => ⟨_, .refl, .inl rfl⟩, fun _ => ⟨_, rfl⟩⟩
  | succ levels ih =>
    rw [fails_iff, schemaExample]
    cases step : schemaStep schema with
    | error fault => exact ⟨fun _ => .inl (.inr (.inl ⟨fault, step⟩)), fun _ => ⟨_, rfl⟩⟩
    | ok made =>
      have sound : Faulty root ⟨levels + 1, references, schema⟩ ↔
          ∃ reference, made = .Reference reference ∧ (reference ∈ references ∨ target root reference = none) := by
        simp only [Faulty, step]
        constructor
        · rintro (zero | ⟨_, same⟩ | ⟨reference, same, fault⟩)
          · cases zero
          · cases same
          · exact ⟨reference, Except.ok.inj same, fault⟩
        · rintro ⟨reference, same, fault⟩
          exact .inr (.inr ⟨reference, congrArg Except.ok same, fault⟩)
      rw [sound]
      cases made with
      | Reference reference =>
        simp only
        split_ifs with known
        · exact ⟨fun _ => .inl ⟨reference, rfl, .inl known⟩, fun _ => ⟨_, rfl⟩⟩
        cases found : target root reference with
        | none =>
          obtain ⟨error, failed⟩ := resolvePointer_error (path ++ ".$ref") found
          rw [failed]
          exact ⟨fun _ => .inl ⟨reference, rfl, .inr found⟩, fun _ => ⟨error, rfl⟩⟩
        | some next =>
          rw [resolvePointer_ok.mpr found]
          refine (ih next path (references ++ [reference]) warnings).trans ?_
          constructor
          · exact fun failed => .inr ⟨_, .reference step known found, failed⟩
          rintro (⟨other, same, fault⟩ | ⟨below, under, failed⟩)
          · cases same
            rcases fault with met | dangling
            · exact absurd met known
            · simp [found] at dangling
          cases under with
          | reference step' _ found' =>
            rw [step] at step'
            cases step'
            rw [found] at found'
            cases found'
            exact failed
          | branch step' | property step' | items step' => simp [step] at step'
      | Done sample =>
        refine ⟨fun ⟨_, same⟩ => (by cases same), ?_⟩
        rintro (⟨other, same, -⟩ | ⟨below, under, -⟩)
        · cases same
        · cases under <;> (rename_i step'; rw [step] at step'; cases step')
      | Branch key first =>
        refine (ih first _ references _).trans ⟨fun failed => .inr ⟨_, .branch step, failed⟩, ?_⟩
        rintro (⟨other, same, -⟩ | ⟨below, under, failed⟩)
        · cases same
        cases under with
        | branch step' =>
          rw [step] at step'
          cases step'
          exact failed
        | reference step' | property step' | items step' => simp [step] at step'
      | Properties properties =>
        simp only
        rw [bind_error_iff]
        have every : ∀ name property warnings, (∃ error, schemaExample root levels property (path ++ ".properties." ++ name)
            references warnings = .error error) ↔ Fails root ⟨levels, references, property⟩ :=
          fun name property warnings => ih property _ references warnings
        rw [sampleProperties_error every properties]
        constructor
        · rintro (⟨property, mem, failed⟩ | ⟨_, _, _, same⟩)
          · exact .inr ⟨_, .property step mem, failed⟩
          · cases same
        rintro (⟨other, same, -⟩ | ⟨below, under, failed⟩)
        · cases same
        cases under with
        | property step' mem =>
          rw [step] at step'
          cases step'
          exact .inl ⟨_, mem, failed⟩
        | reference step' | branch step' | items step' => simp [step] at step'
      | Items items =>
        rw [bind_error_iff, ih items]
        constructor
        · rintro (failed | ⟨_, _, _, same⟩)
          · exact .inr ⟨_, .items step, failed⟩
          · cases same
        rintro (⟨other, same, -⟩ | ⟨below, under, failed⟩)
        · cases same
        cases under with
        | items step' =>
          rw [step] at step'
          cases step'
          exact .inl failed
        | reference step' | branch step' | property step' => simp [step] at step'

theorem schemaExample_ok (root : Value) (levels : Nat) (schema : Value) (path : Text) (references warnings : List Text)
    {result : Option Value × List Text} (built : schemaExample root levels schema path references warnings = .ok result) :
    Exemplifies root schema result.1 := by
  induction levels generalizing schema path references warnings result with
  | zero => cases built
  | succ levels ih =>
    rw [schemaExample] at built
    cases step : schemaStep schema with
    | error fault => simp [step] at built
    | ok made =>
      rw [step] at built
      cases made with
      | Reference reference =>
        simp only at built
        split_ifs at built
        obtain ⟨next, found, rest⟩ := bind_ok built
        exact .reference step (resolvePointer_ok.mp found) (ih _ _ _ _ rest)
      | Done sample =>
        cases built
        exact .done step
      | Branch key first => exact .branch step (ih _ _ _ _ built)
      | Properties properties =>
        obtain ⟨⟨sample, between⟩, each, built⟩ := bind_ok built
        cases built
        obtain ⟨samples, every, same⟩ := sampleProperties_ok
          (fun name property warnings result made => ih property _ references warnings made) each
        rw [show sample = _ from same]
        exact .properties step every
      | Items items =>
        obtain ⟨⟨item, between⟩, rest, built⟩ := bind_ok built
        cases built
        exact .items step (ih _ _ _ _ rest)

/-- Resolving comes to an end. What it returns is the end of the chain; a chain
that comes back, or meets a reference that is not alone, not a text or not in the
document, is an error; one that ends within the limit is returned. An example
fails exactly if a schema on the way is too deep or has a fault, and else follows
the schema. -/
theorem references_resolved (root value schema : Value) (path : Text) (warnings : List Text) :
    (∃ calls, ∀ more, calls ≤ more → resolveRefInner root path more [] value = some (resolveRef root value path)) ∧
      (∀ found, resolveRef root value path = .ok found → Leads (refView root) value found ∧ refView root found = .last) ∧
      ((∃ reached, Leads (refView root) value reached ∧ (refView root reached = .stuck ∨ Cyclic (refView root) reached)) →
        ∃ error, resolveRef root value path = .error error) ∧
      (∀ count found, count ≤ MAX_API_IMPORT_DEPTH → LeadsIn (refView root) count value found → refView root found = .last →
        resolveRef root value path = .ok found) ∧
      ((∃ error, exampleOf root schema path warnings = .error error) ↔ Fails root ⟨MAX_API_IMPORT_DEPTH + 1, [], schema⟩) ∧
      ∀ sample after, exampleOf root schema path warnings = .ok (sample, after) → Exemplifies root schema sample := by
  refine ⟨⟨_, fun more many => resolveRef_total root value path (Nat.lt_of_succ_le many)⟩, fun found => resolveRef_ok_iff.mp,
    resolveRef_error_iff.mpr, fun count found _ leads last => resolveRef_ok_iff.mpr ⟨leads.leads, last⟩,
    schemaExample_error_iff root _ schema path [] warnings, fun sample after built => ?_⟩
  exact schemaExample_ok root _ schema path [] warnings built

/-- The chain of a value whose `$ref` may stand beside other fields. -/
def besideView (root value : Value) : View Value Text :=
  match value.get REF with
  | some (.String reference) =>
    match target root reference with
    | none => .stuck
    | some next => .next reference next
  | _ => .last

/-- A document with one value, and a reference to it with a note. -/
def noted : Value × Value :=
  (.Object [("a", .Null)], .Object [(REF, .String "#/a"), ("note", .Null)])

theorem noted_refused : ¬ ∀ (root value : Value) (path : Text), (∃ error, resolveRef root value path = .error error) ↔
    (∃ reached, Leads (besideView root) value reached ∧ (besideView root reached = .stuck ∨ Cyclic (besideView root) reached)) ∨
      ∃ count reached, MAX_API_IMPORT_DEPTH < count ∧ LeadsIn (besideView root) count value reached := by
  intro exact'
  have refused : ∃ error, resolveRef noted.1 noted.2 [] = .error error := ⟨_, rfl⟩
  have shown : besideView noted.1 noted.2 = .next "#/a" .Null := rfl
  have last : besideView noted.1 .Null = .last := rfl
  have ends := last_ends last
  have step : Step (besideView noted.1) noted.2 .Null := ⟨_, shown⟩
  rcases (exact' noted.1 noted.2 []).mp refused with ⟨reached, leads, fault⟩ | ⟨count, reached, deep, leads⟩
  · rcases Relation.ReflTransGen.cases_head leads with rfl | ⟨next, first, rest⟩
    · rcases fault with stuck | cyclic
      · simp [shown] at stuck
      · exact not_cyclic_of_ends ends (.single step) cyclic
    rw [← step_unique step first] at rest
    rw [leads_ends ends rest] at fault
    rcases fault with stuck | cyclic
    · simp [last] at stuck
    · exact not_cyclic_of_ends ends .refl cyclic
  · cases leads with
    | refl => cases deep
    | head first rest =>
      rw [← step_unique step first] at rest
      cases rest with
      | refl => exact absurd deep (by decide)
      | head second _ => exact ends _ second

end Ramag.OpenApi
