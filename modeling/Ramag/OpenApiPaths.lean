import Ramag.OpenApiReferences
import Ramag.OpenApiDocument
import Mathlib.Data.List.Find

/-!
Path parameters of an OpenAPI operation. The path of the request is the one with
every slot filled exactly if what is filled in leaves no pair of braces behind
and no two parameters differ only in the case of letters.
-/
namespace Ramag.OpenApi
open Strings Domain Fields Json Slots
open List hiding beq_eq_decide
open scoped List

/-! ### What the document declares -/

def parametersIn (value : Option Value) : List Value := (value.bind Value.asArray).getD []

/-- A path parameter of this name is declared. -/
def Declares (root : Value) (value : Option Value) (name : Text) : Prop :=
  ∃ raw ∈ parametersIn value, ∃ fields, resolveRef root raw [] = .ok (.Object fields) ∧
    fields.lookup "in".toList = some (.String PATH) ∧ fields.lookup "name".toList = some (.String name)

/-- The value of a path parameter is its sample, and a reference to a variable if it has none. -/
def SampledFrom (json : Value → Text) (root : Value) (value : Option Value) (parameter : ParameterDefinition) : Prop :=
  ∃ raw ∈ parametersIn value, ∃ fields path schema warnings sample after, resolveRef root raw path = .ok (.Object fields) ∧
    fields.lookup "in".toList = some (.String PATH) ∧ fields.lookup "name".toList = some (.String parameter.name) ∧
    parameterSchema root fields path = .ok schema ∧ exampleValue root fields schema path warnings = .ok (sample, after) ∧
    parameter.value = some ((sample.map (valueToText json)).getD (variableReference parameter.name))

variable {root : Value} {path : Text}

theorem resolveRef_path {value found : Value} (other : Text) (resolved : resolveRef root value path = .ok found) :
    resolveRef root value other = .ok found := resolveRef_ok_iff.mpr (resolveRef_ok_iff.mp resolved)

variable {json : Value → Text}

variable {value : Option Value} {parameter : ParameterDefinition}

theorem SampledFrom.declares (sampled : SampledFrom json root value parameter) : Declares root value parameter.name := by
  obtain ⟨raw, mem, fields, path, schema, warnings, sample, after, resolved, location, name, -⟩ := sampled
  exact ⟨raw, mem, fields, resolveRef_path [] resolved, location, name⟩

variable {fields : List (Text × Value)}

theorem requiredString_ok {key text : Text} (read : requiredString fields key path = .ok text) : fields.lookup key = some (.String text) := by
  unfold requiredString at read
  cases found : fields.lookup key with
  | none => simp [found] at read
  | some value =>
    rw [found] at read
    cases value with
    | String held =>
      simp only [Value.asStr] at read
      by_cases blank : trim held = []
      · simp [if_pos blank] at read
      · rw [if_neg blank] at read
        rw [Except.ok.inj read]
    | Null | Bool _ | Number _ | Array _ | Object _ => cases read

theorem requiredObject_ok {value : Value} (read : requiredObject value path = .ok fields) : value = .Object fields := by
  cases value with
  | Object held => rw [Except.ok.inj read]
  | Null | Bool _ | Number _ | String _ | Array _ => cases read

variable {parser after : Parser}

theorem parameterValue_needed {name : Text} {sample : Option Value} {value : Option Text}
    (made : parameterValue json name path true sample parser = .ok (value, after)) :
    value = some ((sample.map (valueToText json)).getD (variableReference name)) := by
  cases sample with
  | some sample =>
    cases made
    rfl
  | none =>
    obtain ⟨between, -, made⟩ := bind_ok made
    cases made
    rfl

theorem parseParameter_sampled {raw : Value} {definition : ParameterDefinition} (mem : raw ∈ parametersIn value)
    (parsed : parseParameter json root raw path parser = .ok (some definition, after)) (location : definition.location = PATH) :
    SampledFrom json root value definition := by
  obtain ⟨parameter, resolved, parsed⟩ := bind_ok parsed
  obtain ⟨fields, object, parsed⟩ := bind_ok parsed
  obtain ⟨name, named, parsed⟩ := bind_ok parsed
  obtain ⟨_, -, parsed⟩ := bind_ok parsed
  obtain ⟨place, placed, parsed⟩ := bind_ok parsed
  by_cases unknown : place ∉ [PATH, "query", "header", "cookie"]
  · rw [if_pos unknown] at parsed
    cases parsed
  rw [if_neg unknown] at parsed
  obtain ⟨required, -, parsed⟩ := bind_ok parsed
  by_cases missing : place = PATH ∧ required.getD false = false
  · rw [if_pos missing] at parsed
    cases parsed
  rw [if_neg missing] at parsed
  split_ifs at parsed with content
  · cases parsed
  simp only [bind_ok_iff] at parsed
  obtain ⟨schema, schemed, ⟨sample, warnings⟩, sampled, ⟨made, parser'⟩, valued, parsed⟩ := parsed
  cases parsed
  cases (show place = PATH from location)
  cases requiredObject_ok object
  exact ⟨raw, mem, fields, path, schema, _, sample, warnings, resolved, requiredString_ok placed, requiredString_ok named, schemed,
    sampled, parameterValue_needed valued⟩

variable {definitions : List ParameterDefinition}

theorem parseEach_sampled {index : Nat} {raws : List Value} (members : ∀ raw ∈ raws, raw ∈ parametersIn value)
    (parsed : parseEach json root path index raws parser = .ok (definitions, after)) :
    ∀ definition ∈ definitions, definition.location = PATH → SampledFrom json root value definition := by
  induction raws generalizing index parser definitions with
  | nil =>
    cases parsed
    intro definition absent
    cases absent
  | cons raw raws ih =>
    obtain ⟨⟨first, between⟩, one, parsed⟩ := bind_ok parsed
    obtain ⟨⟨others, last⟩, rest, parsed⟩ := bind_ok parsed
    cases parsed
    intro definition mem location
    rcases mem_append.mp mem with here | later
    · rw [Option.mem_toList.mp here] at one
      exact parseParameter_sampled (members raw mem_cons_self) one location
    · exact ih (fun other held => members other (mem_cons_of_mem raw held)) rest definition later location

theorem parseParameters_sampled (parsed : parseParameters json root value path parser = .ok (definitions, after)) :
    ∀ definition ∈ definitions, definition.location = PATH → SampledFrom json root value definition := by
  cases value with
  | none =>
    cases parsed
    intro definition absent
    cases absent
  | some value =>
    cases value with
    | Array raws =>
      simp only [parseParameters, Value.asArray] at parsed
      by_cases many : raws.length > MAX_API_PARAMETER_COUNT
      · rw [if_pos many] at parsed
        cases parsed
      · rw [if_neg many] at parsed
        exact parseEach_sampled (fun _ mem => mem) parsed
    | Null | Bool _ | Number _ | String _ | Object _ => cases parsed

section Merging

variable {parameter : ParameterDefinition} {merged : List ParameterDefinition}

theorem mergeInto_find (key : Text × Text) : (mergeInto parameter merged).find? (·.key = key) =
    if parameter.key = key then some parameter else merged.find? (·.key = key) := by
  induction merged with
  | nil => by_cases same : parameter.key = key <;> simp [mergeInto]
  | cons existing merged ih =>
    rw [mergeInto]
    by_cases here : existing.key = parameter.key
    · rw [if_pos here]
      by_cases same : parameter.key = key
      · simp [same]
      · have other : existing.key ≠ key := here ▸ same
        simp [same, other]
    · rw [if_neg here]
      by_cases first : existing.key = key
      · have other : parameter.key ≠ key := fun same => here (first.trans same.symm)
        simp [first, other]
      · rw [find?_cons_of_neg (by simpa using first), find?_cons_of_neg (by simpa using first), ih]

theorem mergeInto_key {key : Text × Text} :
    key ∈ (mergeInto parameter merged).map ParameterDefinition.key ↔ key = parameter.key ∨ key ∈ merged.map ParameterDefinition.key := by
  induction merged with
  | nil => simp [mergeInto]
  | cons existing merged ih =>
    rw [mergeInto]
    split_ifs with here
    · rw [map_cons, map_cons, mem_cons, mem_cons, here]
      tauto
    · rw [map_cons, map_cons, mem_cons, mem_cons, ih]
      tauto

theorem mergeInto_nodup (distinct : (merged.map ParameterDefinition.key).Nodup) :
    ((mergeInto parameter merged).map ParameterDefinition.key).Nodup := by
  induction merged with
  | nil => simp [mergeInto]
  | cons existing merged ih =>
    obtain ⟨fresh, rest⟩ := nodup_cons.mp distinct
    rw [mergeInto]
    split_ifs with here
    · rw [map_cons, ← here]
      exact distinct
    rw [map_cons, nodup_cons]
    refine ⟨fun mem => ?_, ih rest⟩
    rcases mergeInto_key.mp mem with same | held
    · exact here same
    · exact fresh held

variable {other : ParameterDefinition}

theorem mergeInto_mem (mem : other ∈ mergeInto parameter merged) : other = parameter ∨ other ∈ merged := by
  induction merged with
  | nil => exact .inl (mem_singleton.mp mem)
  | cons existing merged ih =>
    rw [mergeInto] at mem
    split_ifs at mem with here
    · rcases mem_cons.mp mem with same | held
      · exact .inl same
      · exact .inr (mem_cons_of_mem _ held)
    · rcases mem_cons.mp mem with same | held
      · exact .inr (same ▸ mem_cons_self)
      · exact (ih held).imp_right (mem_cons_of_mem _)

theorem mergeAll_concat (parameters : List ParameterDefinition) (parameter : ParameterDefinition) :
    mergeAll (parameters ++ [parameter]) = mergeInto parameter (mergeAll parameters) := by
  rw [mergeAll, foldl_append]
  rfl

theorem mergeAll_find (parameters : List ParameterDefinition) (key : Text × Text) :
    (mergeAll parameters).find? (·.key = key) = parameters.reverse.find? (·.key = key) := by
  induction parameters using reverseRecOn with
  | nil => rfl
  | append_singleton parameters parameter ih =>
    rw [mergeAll_concat, mergeInto_find, reverse_append, reverse_singleton, singleton_append, find?_cons]
    by_cases same : parameter.key = key
    · simp [same]
    · simpa [same] using ih

theorem mergeAll_nodup (parameters : List ParameterDefinition) : ((mergeAll parameters).map ParameterDefinition.key).Nodup := by
  induction parameters using reverseRecOn with
  | nil => exact nodup_nil
  | append_singleton parameters parameter ih =>
    rw [mergeAll_concat]
    exact mergeInto_nodup ih

theorem mergeAll_mem {parameters : List ParameterDefinition} (mem : other ∈ mergeAll parameters) : other ∈ parameters := by
  induction parameters using reverseRecOn with
  | nil => cases mem
  | append_singleton parameters parameter ih =>
    rw [mergeAll_concat] at mem
    rcases mergeInto_mem mem with same | held
    · exact mem_append_right _ (mem_singleton.mpr same)
    · exact mem_append_left _ (ih held)

end Merging

def valuesOf (parameters : List ParameterDefinition) : List (Text × Text) :=
  (pathParametersOf parameters).map fun parameter => (parameter.name, parameter.value.getD [])

def replaceAll (values : List (Text × Text)) (t : Text) : Text :=
  values.foldl (fun t value => replaceText (slotText value.1) value.2 t) t

variable {parameters : List ParameterDefinition}

variable {rawPath result : Text}

theorem replaceEach_ok {start : Text} :
    replaceEach rawPath path parameters start = .ok result ↔ (∀ parameter ∈ parameters, slotText parameter.name <:+: rawPath) ∧
      result = replaceAll (parameters.map fun parameter => (parameter.name, parameter.value.getD [])) start := by
  induction parameters generalizing start with
  | nil =>
    constructor
    · intro done
      exact ⟨fun _ absent => (by cases absent), (Except.ok.inj done).symm⟩
    · rintro ⟨-, rfl⟩
      rfl
  | cons parameter parameters ih =>
    rw [replaceEach]
    split_ifs with inside
    · rw [ih, forall_mem_cons]
      exact and_congr_left fun _ => ⟨fun rest => ⟨inside, rest⟩, And.right⟩
    · exact ⟨fun failed => (by cases failed), fun ⟨every, _⟩ => absurd (every parameter mem_cons_self) inside⟩

theorem applyPathParameters_ok : applyPathParameters rawPath parameters path = .ok result ↔
      ((∀ parameter ∈ pathParametersOf parameters, slotText parameter.name <:+: rawPath) ∧ result = replaceAll (valuesOf parameters) rawPath) ∧
        hasPair result = false ∧ (pathParametersOf parameters = [] → '\x7b' ∉ rawPath) := by
  rw [applyPathParameters, bind_ok_iff]
  simp only [replaceEach_ok]
  constructor
  · rintro ⟨replaced, every, done⟩
    by_cases pair : hasPair replaced = true
    · rw [if_pos pair] at done
      cases done
    rw [if_neg pair] at done
    by_cases bare : pathParametersOf parameters = [] ∧ '\x7b' ∈ rawPath
    · rw [if_pos bare] at done
      cases done
    · rw [if_neg bare] at done
      cases done
      exact ⟨every, Bool.eq_false_iff.mpr pair, fun none brace => bare ⟨none, brace⟩⟩
  · rintro ⟨every, pair, bare⟩
    refine ⟨result, every, ?_⟩
    rw [if_neg (Bool.eq_false_iff.mp pair), if_neg fun held => bare held.1 held.2]

/-- The last definition of a path parameter. -/
def lastOf (parameters : List ParameterDefinition) (name : Text) : Option ParameterDefinition :=
  parameters.reverse.find? fun parameter => parameter.location = PATH ∧ parameter.name = name

/-- The value that a slot is to be filled with. -/
def valueOf (parameters : List ParameterDefinition) (name : Text) : Text :=
  ((lastOf parameters name).bind ParameterDefinition.value).getD []

/-- The path with every slot filled, once and independently of the others. -/
def expectedPath (rawPath : Text) (parameters : List ParameterDefinition) : Text := filled (valueOf parameters) (scan none rawPath)

theorem lookup_filtered {α β γ : Type} [BEq β] [LawfulBEq β] (keep : α → Bool) (name : α → β) (value : α → γ) (items : List α)
    (wanted : β) : ((items.filter keep).map fun item => (name item, value item)).lookup wanted =
      (items.find? fun item => keep item && name item == wanted).map value := by
  induction items with
  | nil => rfl
  | cons item items ih =>
    cases kept : keep item with
    | false => simp [kept, ih]
    | true =>
      rw [filter_cons_of_pos kept, map_cons, lookup_cons, find?_cons, kept, Bool.true_and, BEq.comm]
      cases name item == wanted with
      | true => rfl
      | false => exact ih

/-- Two path parameters whose names are the same but for the case of letters are one. -/
def Distinct (parameters : List ParameterDefinition) : Prop :=
  ∀ one ∈ parameters, ∀ other ∈ parameters, one.location = PATH → other.location = PATH →
    toAsciiLowercase one.name = toAsciiLowercase other.name → one.name = other.name

theorem valuesOf_lookup (distinct : Distinct parameters) (mem : parameter ∈ parameters) (location : parameter.location = PATH) :
    (valuesOf (mergeAll parameters)).lookup parameter.name = some (valueOf parameters parameter.name) := by
  have named : ∀ other ∈ parameters, decide (other.location = PATH ∧ other.name = parameter.name) =
      decide (other.key = (PATH, toAsciiLowercase parameter.name)) := by
    intro other held
    refine decide_eq_decide.mpr ⟨fun ⟨place, name⟩ => by rw [ParameterDefinition.key, place, name], fun same => ?_⟩
    obtain ⟨place, name⟩ := Prod.mk.inj same
    exact ⟨place, distinct other held parameter mem place location name⟩
  have last : lastOf parameters parameter.name = (mergeAll parameters).find? (·.key = (PATH, toAsciiLowercase parameter.name)) := by
    rw [mergeAll_find, lastOf]
    exact find?_congr fun other held => named other (mem_reverse.mp held)
  have found : (lastOf parameters parameter.name).isSome = true := by
    rw [lastOf, find?_isSome]
    exact ⟨parameter, mem_reverse.mpr mem, by simp [location]⟩
  have merged : (mergeAll parameters).find? (fun other => decide (other.location = PATH) && other.name == parameter.name) =
      lastOf parameters parameter.name := by
    rw [last]
    refine find?_congr fun other held => ?_
    rw [← named other (mergeAll_mem held), Bool.decide_and, beq_eq_decide]
  obtain ⟨kept, kept'⟩ := Option.isSome_iff_exists.mp found
  rw [valuesOf, pathParametersOf, lookup_filtered, merged, valueOf, kept']
  rfl

theorem slots_replaced (names : ∀ parameter ∈ pathParametersOf parameters, IsName parameter.name)
    (applied : applyPathParameters rawPath parameters path = .ok result) {name : Text} (slot : name ∈ slots rawPath) :
    ∃ parameter ∈ pathParametersOf parameters, parameter.name = name := by
  by_contra absent
  obtain ⟨⟨-, rfl⟩, clear, -⟩ := applyPathParameters_ok.mp applied
  have stays : slotText name <:+: replaceAll (valuesOf parameters) rawPath := by
    refine replaceAll_keeps (fun value mem => ?_) (slots_names slot) (fun value mem same => ?_) (slot_inside slot)
    · obtain ⟨parameter, held, rfl⟩ := mem_map.mp mem
      exact names parameter held
    · obtain ⟨parameter, held, rfl⟩ := mem_map.mp mem
      exact absent ⟨parameter, held, same⟩
  simp [hasPair_slot stays] at clear

theorem joinServerAndPath_rooted (server : Option Text) : ∃ base, ∀ path, path.head? = some '/' → joinServerAndPath server path = base ++ path := by
  unfold joinServerAndPath
  cases server.filter (· ≠ []) with
  | none => exact ⟨[], fun path _ => rfl⟩
  | some server =>
    by_cases slash : server.getLast? = some '/'
    · exact ⟨server.rdropWhile (· = '/'), fun path rooted => by simp [slash, rooted]⟩
    · exact ⟨server, fun path rooted => by simp [slash, rooted]⟩

theorem replaceAll_rooted (values : List (Text × Text)) {t : Text} (rooted : t.head? = some '/') : (replaceAll values t).head? = some '/' := by
  induction values generalizing t with
  | nil => exact rooted
  | cons value values ih =>
    refine ih ?_
    cases t with
    | nil => cases rooted
    | cons c t =>
      cases Option.some.inj rooted
      rfl

theorem expectedPath_rooted (parameters : List ParameterDefinition) (rooted : rawPath.head? = some '/') :
    (expectedPath rawPath parameters).head? = some '/' := by
  cases rawPath with
  | nil => cases rooted
  | cons c rawPath =>
    cases Option.some.inj rooted
    rfl

theorem operationUrl_ok {server : Option Text} {url : Text} : operationUrl server rawPath parameters path = .ok url ↔
      ∃ result, applyPathParameters rawPath parameters path = .ok result ∧ url = joinServerAndPath server result ∧ validateUrl url = .ok () := by
  rw [operationUrl, bind_ok_iff]
  refine exists_congr fun result => and_congr_right fun _ => ?_
  simp only
  cases checked : validateUrl (joinServerAndPath server result) with
  | error error =>
    refine ⟨fun failed => (by cases failed), ?_⟩
    rintro ⟨rfl, accepted⟩
    simp [checked] at accepted
  | ok _ =>
    constructor
    · intro done
      cases Except.ok.inj done
      exact ⟨rfl, checked⟩
    · rintro ⟨rfl, -⟩
      rfl

/-- When the parameters of an operation can be put into its path. -/
structure PathFits (server : Option Text) (rawPath : Text) (parameters : List ParameterDefinition) : Prop where
  described : ∀ name ∈ slots rawPath, ∃ parameter ∈ parameters, parameter.location = PATH ∧ parameter.name = name
  distinct : Distinct parameters
  clear : hasPair (expectedPath rawPath parameters) = false
  bare : slots rawPath = [] → '\x7b' ∉ rawPath
  accepted : validateUrl (joinServerAndPath server (expectedPath rawPath parameters)) = .ok ()

theorem mem_pathParameters : parameter ∈ pathParametersOf parameters ↔ parameter ∈ parameters ∧ parameter.location = PATH := by
  simp [pathParametersOf]

theorem operationUrl_fits {server : Option Text} (rooted : rawPath.head? = some '/')
    (inPath : ∀ parameter ∈ parameters, parameter.location = PATH → parameter.name ∈ slots rawPath) :
    operationUrl server rawPath (mergeAll parameters) path = .ok (joinServerAndPath server (expectedPath rawPath parameters)) ↔
      PathFits server rawPath parameters := by
  have merged : ∀ parameter ∈ pathParametersOf (mergeAll parameters), parameter ∈ parameters ∧ parameter.location = PATH := by
    intro parameter mem
    obtain ⟨held, location⟩ := mem_pathParameters.mp mem
    exact ⟨mergeAll_mem held, location⟩
  have slotted : ∀ parameter ∈ pathParametersOf (mergeAll parameters), parameter.name ∈ slots rawPath :=
    fun parameter mem => inPath parameter (merged parameter mem).1 (merged parameter mem).2
  constructor
  · intro imported
    obtain ⟨result, applied, same, accepted⟩ := operationUrl_ok.mp imported
    have replaced : ∀ name ∈ slots rawPath, ∃ parameter ∈ pathParametersOf (mergeAll parameters), parameter.name = name :=
      fun name slot => slots_replaced (fun parameter mem => slots_names (slotted parameter mem)) applied slot
    obtain ⟨⟨-, whole⟩, clear, bare⟩ := applyPathParameters_ok.mp applied
    have filled : result = expectedPath rawPath parameters := by
      obtain ⟨base, joined⟩ := joinServerAndPath_rooted server
      rw [joined _ (expectedPath_rooted parameters rooted), joined _ (whole ▸ replaceAll_rooted _ rooted)] at same
      exact (append_cancel_left same).symm
    constructor
    case described =>
      intro name slot
      obtain ⟨parameter, mem, named⟩ := replaced name slot
      exact ⟨parameter, (merged parameter mem).1, (merged parameter mem).2, named⟩
    case distinct =>
      intro one oneHeld other otherHeld onePath otherPath same
      obtain ⟨kept, keptIn, keptName⟩ := replaced one.name (inPath one oneHeld onePath)
      obtain ⟨kept', keptIn', keptName'⟩ := replaced other.name (inPath other otherHeld otherPath)
      obtain ⟨held, location⟩ := mem_pathParameters.mp keptIn
      obtain ⟨held', location'⟩ := mem_pathParameters.mp keptIn'
      have key : kept.key = kept'.key := by rw [ParameterDefinition.key, ParameterDefinition.key, location, location', keptName, keptName', same]
      rw [← keptName, ← keptName', inj_on_of_nodup_map (mergeAll_nodup parameters) held held' key]
    case clear => exact filled ▸ clear
    case bare =>
      intro none
      refine bare (eq_nil_iff_forall_not_mem.mpr fun parameter mem => ?_)
      have slot := slotted parameter mem
      simp [none] at slot
    case accepted => exact accepted
  · rintro ⟨described, distinct, clear, bare, accepted⟩
    refine operationUrl_ok.mpr ⟨expectedPath rawPath parameters, applyPathParameters_ok.mpr ⟨⟨?_, ?_⟩, clear, ?_⟩, rfl, accepted⟩
    · exact fun parameter mem => slot_inside (slotted parameter mem)
    · refine (replaceAll_filled (fun value mem => ?_) (fun name slot => ?_) clear).symm
      · obtain ⟨parameter, held, rfl⟩ := mem_map.mp mem
        exact slots_names (slotted parameter held)
      · obtain ⟨parameter, held, location, rfl⟩ := described name slot
        exact valuesOf_lookup distinct held location
    · intro none
      refine bare (eq_nil_iff_forall_not_mem.mpr fun name slot => ?_)
      obtain ⟨parameter, held, location, rfl⟩ := described name slot
      have found := valuesOf_lookup distinct held location
      simp [valuesOf, none] at found

theorem mergeParameters_ok {pathParameters operationParameters parameters : List ParameterDefinition}
    (merged : mergeParameters pathParameters operationParameters = .ok parameters) :
    parameters = mergeAll (pathParameters ++ operationParameters) := by
  rw [mergeParameters] at merged
  split_ifs at merged
  exact (Except.ok.inj merged).symm

/-- Where the slots of a path are its declared parameters, the URL of the request is the path with
    every slot filled exactly if the values fit. -/
theorem path_parameters_filled {json : Value → Text} {root : Value} {pathValue operationValue : Option Value}
    {pathPath operationPath path rawPath : Text} {server : Option Text} {before between other after : Parser}
    {pathParameters operationParameters parameters : List ParameterDefinition} (rooted : rawPath.head? = some '/')
    (ofPath : parseParameters json root pathValue pathPath before = .ok (pathParameters, between))
    (ofOperation : parseParameters json root operationValue operationPath other = .ok (operationParameters, after))
    (merged : mergeParameters pathParameters operationParameters = .ok parameters)
    (declared : ∀ name, name ∈ slots rawPath ↔ Declares root pathValue name ∨ Declares root operationValue name) :
    (∀ parameter ∈ pathParameters, parameter.location = PATH → SampledFrom json root pathValue parameter) ∧
      (∀ parameter ∈ operationParameters, parameter.location = PATH → SampledFrom json root operationValue parameter) ∧
      (operationUrl server rawPath parameters path =
          .ok (joinServerAndPath server (expectedPath rawPath (pathParameters ++ operationParameters))) ↔
        PathFits server rawPath (pathParameters ++ operationParameters)) := by
  have pathSampled := parseParameters_sampled ofPath
  have operationSampled := parseParameters_sampled ofOperation
  refine ⟨pathSampled, operationSampled, ?_⟩
  rw [mergeParameters_ok merged]
  refine operationUrl_fits rooted fun parameter mem location => ?_
  rw [declared]
  rcases mem_append.mp mem with held | held
  · exact .inl (pathSampled parameter held location).declares
  · exact .inr (operationSampled parameter held location).declares

section Users

def USERS : Text := "/users/{id}"

/-- A path parameter, with a sample or without one. -/
def idParameter (sample : Option Text) : Value :=
  .Object ([("name".toList, .String "id".toList), ("in".toList, .String PATH), ("required".toList, .Bool true)] ++
    (sample.map fun text => ("example".toList, Value.String text)).toList)

theorem idParameter_declared (sample : Option Text) (name : Text) :
    name ∈ slots USERS ↔ Declares .Null none name ∨ Declares .Null (some (.Array [idParameter sample])) name := by
  have slot : slots USERS = ["id".toList] := by decide +kernel
  have resolved : resolveRef .Null (idParameter sample) [] = .ok (idParameter sample) := by cases sample <;> rfl
  rw [slot, mem_singleton]
  constructor
  · rintro rfl
    exact .inr ⟨idParameter sample, mem_singleton_self _, _, resolved, rfl, rfl⟩
  rintro (⟨raw, absent, -⟩ | ⟨raw, mem, fields, found, -, named⟩)
  · cases absent
  cases mem_singleton.mp mem
  rw [resolved] at found
  cases Except.ok.inj found
  cases named
  rfl

def emptyParser : Parser := ⟨[], [], []⟩

def users : Text := "http://api"

def sampledId : ParameterDefinition := ⟨"id", PATH, some "42", false⟩

theorem sample_imported : operationUrl (some users) USERS [sampledId] [] = .ok "http://api/users/42".toList := by
  have nothing : parseParameters (fun _ => []) .Null none [] emptyParser = .ok ([], emptyParser) := rfl
  have parsed : parseParameters (fun _ => []) .Null (some (.Array [idParameter (some "42".toList)])) [] emptyParser =
      .ok ([sampledId], emptyParser) := rfl
  have merged : mergeParameters [] [sampledId] = .ok [sampledId] := rfl
  have rooted : USERS.head? = some '/' := rfl
  have distinct : Distinct [sampledId] := by
    intro one mem other mem' _ _ _
    rw [mem_singleton.mp mem, mem_singleton.mp mem']
  have fits : PathFits (some users) USERS ([] ++ [sampledId]) :=
    ⟨by decide +kernel, distinct, by decide +kernel, by decide +kernel, by decide +kernel⟩
  exact (path_parameters_filled rooted nothing parsed merged (idParameter_declared (some "42".toList))).2.2.mpr fits

/-- A path parameter without a sample is not imported: the reference to its variable is taken for a slot. -/
theorem unsampled_refused : ¬ ∀ (json : Value → Text) (root : Value) (pathValue operationValue : Option Value)
    (pathPath operationPath path rawPath : Text) (server : Option Text) (before between other after : Parser)
    (pathParameters operationParameters parameters : List ParameterDefinition), rawPath.head? = some '/' →
    parseParameters json root pathValue pathPath before = .ok (pathParameters, between) →
    parseParameters json root operationValue operationPath other = .ok (operationParameters, after) →
    mergeParameters pathParameters operationParameters = .ok parameters →
    (∀ name, name ∈ slots rawPath ↔ Declares root pathValue name ∨ Declares root operationValue name) → operationUrl server rawPath parameters path =
      .ok (joinServerAndPath server (expectedPath rawPath (pathParameters ++ operationParameters))) := by
  intro every
  have imported := every (fun _ => []) .Null none (some (.Array [idParameter none])) [] [] [] USERS (some users) emptyParser _ emptyParser _ [] _ _
    rfl rfl rfl rfl (idParameter_declared none)
  revert imported
  decide +kernel

end Users

end Ramag.OpenApi
