import Ramag.ApiChecks
import Ramag.Json
import Ramag.Slots

/-!
The parts of the OpenAPI import that read references and schemas: pointers into
the document, the value that a reference stands for, and the example that is
built from a schema.
-/
namespace Ramag.OpenApi
open Strings Domain Fields Json Slots

def MAX_API_IMPORT_DEPTH : Nat := 64
def MAX_API_IMPORT_WARNINGS : Nat := 128

def formatError (path message : Text) : Text := "导入字段 " ++ path ++ "：" ++ message

def unescapeSegment (segment : Text) : Text := replaceText "~0" ['~'] (replaceText "~1" ['/'] segment)

/-- Pointers lead through objects only. -/
def lookPointer (current : Value) : List Text → Option Value
  | [] => some current
  | segment :: segments => (current.get (unescapeSegment segment)).bind (lookPointer · segments)

def resolvePointer (root : Value) (reference path : Text) : Except Text Value :=
  match stripPrefix ['#'] reference with
  | none => .error (formatError path "只支持本地 $ref")
  | some pointer =>
    if pointer = [] then .ok root
    else
      match stripPrefix ['/'] pointer with
      | none => .error (formatError path "本地 $ref 必须使用 JSON Pointer")
      | some pointer =>
        match lookPointer root (pointer.splitOn '/') with
        | some target => .ok target
        | none => .error (formatError path "$ref 目标不存在")

mutual

/-- The strings in a value, where every reference of it is. -/
def texts : Value → List Text
  | .String text => [text]
  | .Array items => textsOfItems items
  | .Object fields => textsOfFields fields
  | .Null | .Bool _ | .Number _ => []

def textsOfItems : List Value → List Text
  | [] => []
  | item :: items => texts item ++ textsOfItems items

def textsOfFields : List (Text × Value) → List Text
  | [] => []
  | (_, value) :: fields => texts value ++ textsOfFields fields

end

def REF : Text := "$ref"

/-- The recursion of `resolve_ref`, for a number of calls; there is no result if they are not enough. -/
def resolveRefInner (root : Value) (path : Text) : Nat → List Text → Value → Option (Except Text Value)
  | 0, _, _ => none
  | calls + 1, references, value =>
    match value.asObject with
    | none => some (.ok value)
    | some fields =>
      match fields.lookup REF with
      | none => some (.ok value)
      | some reference =>
        if fields.length ≠ 1 then some (.error (formatError path "$ref 不能与其它字段混用"))
        else
          match reference.asStr with
          | none => some (.error (formatError (path ++ ".$ref") "必须是字符串"))
          | some reference =>
            if reference ∈ references then some (.error (formatError path "$ref 存在循环引用"))
            else
              match resolvePointer root reference (path ++ ".$ref") with
              | .error error => some (.error error)
              | .ok target => resolveRefInner root path calls (references ++ [reference]) target

/-- As many calls as the document and the value have strings are always enough. -/
def resolveRef (root value : Value) (path : Text) : Except Text Value :=
  (resolveRefInner root path ((texts value ++ texts root).length + 1) [] value).getD (.error [])

/-! ### Schemas -/

def warn (warnings : List Text) (path message : Text) : List Text :=
  if warnings.length < MAX_API_IMPORT_WARNINGS then warnings ++ [path ++ ": " ++ message] else warnings

/-- What the example of a schema is built from. -/
inductive SchemaStep
  | Reference (reference : Text)
  | Done (sample : Option Value)
  | Branch (key : Text) (first : Value)
  | Properties (properties : List (Text × Value))
  | Items (items : Value)

/-- A field of a fault below the path, and the message. -/
abbrev Fault := Text × Text

/-- The first item of an array that may be missing. -/
def firstOf (fields : List (Text × Value)) (key : Text) : Except Fault (Option Value) :=
  match fields.lookup key with
  | none => .ok none
  | some value =>
    match value.asArray with
    | none => .error ('.' :: key, "必须是数组")
    | some items => .ok items.head?

def typeStep (fields : List (Text × Value)) : Except Fault SchemaStep :=
  let schemaType := (fields.lookup "type".toList).bind Value.asStr
  match if schemaType = some "object".toList ∨ schemaType = none then fields.lookup "properties".toList else none with
  | some properties =>
    match properties.asObject with
    | none => .error (".properties".toList, "必须是对象".toList)
    | some properties => .ok (.Properties properties)
  | none =>
    if schemaType = some "array".toList then
      match fields.lookup "items".toList with
      | none => .ok (.Done (some (.Array [])))
      | some items => .ok (.Items items)
    else if schemaType = some "string".toList then .ok (.Done (some (.String [])))
    else if schemaType = some "integer".toList ∨ schemaType = some "number".toList then .ok (.Done (some (.Number (.PosInt 0))))
    else if schemaType = some "boolean".toList then .ok (.Done (some (.Bool false)))
    else if schemaType = some "null".toList then .ok (.Done (some .Null))
    else .ok (.Done none)

def schemaStep (value : Value) : Except Fault SchemaStep :=
  match value.get REF with
  | some reference =>
    match reference.asStr with
    | none => .error (".$ref", "必须是字符串")
    | some reference => .ok (.Reference reference)
  | none =>
    match value.asObject with
    | none => .error ([], "必须是对象")
    | some fields =>
      match (fields.lookup "example".toList).or (fields.lookup "default".toList) with
      | some sample => .ok (.Done (some sample))
      | none => do
        match ← firstOf fields "enum" with
        | some sample => .ok (.Done (some sample))
        | none =>
          match ← firstOf fields "oneOf" with
          | some first => .ok (.Branch "oneOf" first)
          | none =>
            match ← firstOf fields "anyOf" with
            | some first => .ok (.Branch "anyOf" first)
            | none => typeStep fields

/-- The fields of a schema that are not mapped; one with an example or a default is not looked at. -/
def schemaWarnings (value : Value) (path : Text) (warnings : List Text) : List Text :=
  match value.get REF, (value.get "example".toList).or (value.get "default".toList) with
  | none, none =>
    ["allOf".toList, "not".toList, "discriminator".toList].foldl (fun warnings field =>
      if (value.get field).isSome then warn warnings (path ++ '.' :: field) "Schema 字段未完整映射，示例生成将忽略该字段".toList
      else warnings) warnings
  | _, _ => warnings

/-- The samples of the properties; one without a sample is left out. -/
def sampleProperties (build : Text → Value → List Text → Except Text (Option Value × List Text)) :
    List (Text × Value) → List Text → Except Text (List (Text × Value) × List Text)
  | [], warnings => .ok ([], warnings)
  | (name, property) :: properties, warnings => do
    let (value, warnings) ← build name property warnings
    let (sample, warnings) ← sampleProperties build properties warnings
    .ok ((value.map (name, ·)).toList ++ sample, warnings)

/-- `schema_example`, where the depth counts down from the limit. -/
def schemaExample (root : Value) : Nat → Value → Text → List Text → List Text → Except Text (Option Value × List Text)
  | 0, _, path, _, _ => .error (formatError path "Schema 嵌套深度超过限制")
  | levels + 1, value, path, references, warnings =>
    match schemaStep value with
    | .error (field, message) => .error (formatError (path ++ field) message)
    | .ok (.Reference reference) =>
      if reference ∈ references then .error (formatError path "Schema $ref 存在循环引用")
      else do
        let target ← resolvePointer root reference (path ++ ".$ref")
        schemaExample root levels target path (references ++ [reference]) warnings
    | .ok (.Done sample) => .ok (sample, schemaWarnings value path warnings)
    | .ok (.Branch key first) =>
      schemaExample root levels first (path ++ '.' :: key ++ "[0]") references
        (warn (schemaWarnings value path warnings) (path ++ '.' :: key) "仅使用第一个 Schema 分支生成示例")
    | .ok (.Properties properties) => do
      let (sample, warnings) ← sampleProperties (fun name property => schemaExample root levels property
        (path ++ ".properties." ++ name) references) properties (schemaWarnings value path warnings)
      .ok (some (.Object sample), warnings)
    | .ok (.Items items) => do
      let (item, warnings) ← schemaExample root levels items (path ++ ".items") references (schemaWarnings value path warnings)
      .ok (some (.Array item.toList), warnings)

/-- Depths 0 to the limit are allowed. -/
def exampleOf (root schema : Value) (path : Text) (warnings : List Text) : Except Text (Option Value × List Text) :=
  schemaExample root (MAX_API_IMPORT_DEPTH + 1) schema path [] warnings

/-! ### The URL of an operation -/

open ApiChecks

def MAX_API_ENVIRONMENT_VARIABLES : Nat := 256
def MAX_API_PARAMETER_COUNT : Nat := 128
def MAX_API_PARAMETER_NAME_BYTES : Nat := 1024
def MAX_API_URL_TEMPLATE_BYTES : Nat := 8 * 1024

structure ParameterDefinition where
  name : Text
  location : Text
  value : Option Text
  sensitive : Bool

/-- What reading parameters changes of the parser. -/
structure Parser where
  environmentVariables : List (Text × Text)
  sensitiveVariableRefs : List Text
  warnings : List Text

def Parser.warn (parser : Parser) (path message : Text) : Parser := { parser with warnings := OpenApi.warn parser.warnings path message }

def requiredObject (value : Value) (path : Text) : Except Text (List (Text × Value)) :=
  match value.asObject with
  | some fields => .ok fields
  | none => .error (formatError path "必须是对象")

variable (fields : List (Text × Value))

def requiredString (key path : Text) : Except Text Text :=
  match fields.lookup key with
  | none => .error (formatError (path ++ '.' :: key) "字段缺失")
  | some value =>
    match value.asStr with
    | none => .error (formatError (path ++ '.' :: key) "必须是字符串")
    | some text => if trim text = [] then .error (formatError (path ++ '.' :: key) "不能为空") else .ok text

def optionalBool (key path : Text) : Except Text (Option Bool) :=
  match fields.lookup key with
  | none | some .Null => .ok none
  | some (.Bool value) => .ok (some value)
  | some _ => .error (formatError (path ++ '.' :: key) "必须是布尔值")

def validateOpenapiName (name path : Text) : Except Text Unit :=
  if trim name = [] then .error (formatError path "名称不能为空")
  else if byteLen name > MAX_API_PARAMETER_NAME_BYTES then .error (formatError path "名称超过长度上限")
  else if name.any fun c => isWhitespace c || isControl c || c == ':' then .error (formatError path "名称包含空白、控制字符或 ':'")
  else .ok ()

def isSensitiveName (name : Text) : Bool :=
  ["authorization".toList, "token".toList, "password".toList, "secret".toList, "api-key".toList, "apikey".toList].any
    fun needle => decide (needle <:+: toAsciiLowercase name)

/-- The first value of a variable stays. -/
def ensureVariable (parser : Parser) (name value path : Text) (sensitive : Bool) : Except Text Parser := do
  validateOpenapiName name path
  let parser ← match parser.environmentVariables.lookup name with
    | some existing => .ok (if existing ≠ value then parser.warn path "同名环境变量已有不同默认值，保留先出现的值" else parser)
    | none =>
      if parser.environmentVariables.length ≥ MAX_API_ENVIRONMENT_VARIABLES then .error (formatError path "环境变量数量超过上限")
      else .ok { parser with environmentVariables := parser.environmentVariables ++ [(name, value)] }
  .ok (if sensitive && !parser.sensitiveVariableRefs.contains name then
    { parser with sensitiveVariableRefs := parser.sensitiveVariableRefs ++ [name] } else parser)

/-- Examples without a value are passed. -/
def firstNamedExample (root : Value) (path : Text) : List (Text × Value) → List Text → Except Text (Option Value × List Text)
  | [], warnings => .ok (none, warnings)
  | (name, raw) :: examples, warnings => do
    let examplePath := path ++ '.' :: name
    let example' ← resolveRef root raw examplePath
    let fields ← requiredObject example' examplePath
    match fields.lookup "value".toList with
    | some value => .ok (some value, warnings)
    | none =>
      firstNamedExample root path examples
        (if (fields.lookup "externalValue".toList).isSome then warn warnings examplePath "externalValue 未读取".toList else warnings)

def namedExample (root : Value) (fields : List (Text × Value)) (path : Text) (warnings : List Text) : Except Text (Option Value × List Text) :=
  match fields.lookup "examples".toList with
  | none => .ok (none, warnings)
  | some value => do
    let examples ← requiredObject value (path ++ ".examples")
    firstNamedExample root (path ++ ".examples") examples warnings

def exampleValue (root : Value) (fields : List (Text × Value)) (schema : Option Value) (path : Text) (warnings : List Text) :
    Except Text (Option Value × List Text) :=
  match fields.lookup "example".toList with
  | some value => .ok (some value, warnings)
  | none => do
    let (named, warnings) ← namedExample root fields path warnings
    match named, schema with
    | some value, _ => .ok (some value, warnings)
    | none, none => .ok (none, warnings)
    | none, some schema => exampleOf root schema (path ++ ".schema") warnings

variable (json : Value → Text)

/-- A text stands for itself, `json` is the serializer. -/
def valueToText : Value → Text
  | .String text => text
  | value => json value

/-! ### Parameters -/

def PATH : Text := "path"

/-- The template that stands for a variable. -/
def variableReference (name : Text) : Text := "\x7b\x7b" ++ name ++ "\x7d\x7d"

def parameterSchema (root : Value) (fields : List (Text × Value)) (path : Text) : Except Text (Option Value) :=
  match fields.lookup "schema".toList with
  | none => .ok none
  | some value => (resolveRef root value (path ++ ".schema")).map some

/-- The value of a parameter: its sample, or a new variable for one that is required. -/
def parameterValue (name path : Text) (needed : Bool) (sample : Option Value) (parser : Parser) : Except Text (Option Text × Parser) :=
  match sample with
  | some value => .ok (some (valueToText json value), parser)
  | none =>
    if needed then do
      let parser ← ensureVariable parser name [] path (isSensitiveName name)
      .ok (some (variableReference name), parser)
    else .ok (none, parser)

def warnOptions (path : Text) (parser : Parser) : Parser :=
  ["style".toList, "explode".toList, "allowReserved".toList, "allowEmptyValue".toList].foldl (fun parser field =>
    if (fields.lookup field).isSome then parser.warn (path ++ '.' :: field) "参数序列化选项未映射，使用工作台默认序列化".toList
    else parser) parser

/-- One parameter; there is no definition for one that is described by its content. -/
def parseParameter (root raw : Value) (path : Text) (parser : Parser) :
    Except Text (Option ParameterDefinition × Parser) := do
  let parameter ← resolveRef root raw path
  let fields ← requiredObject parameter path
  let name ← requiredString fields "name" path
  validateOpenapiName name (path ++ ".name")
  let location ← requiredString fields "in" path
  if location ∉ [PATH, "query", "header", "cookie"] then
    .error (formatError (path ++ ".in") "只支持 path、query、header 和 cookie")
  else
    let required := (← optionalBool fields "required" path).getD false
    if location = PATH ∧ required = false then .error (formatError (path ++ ".required") "Path 参数必须是 true")
    else if (fields.lookup "content".toList).isSome then
      .ok (none, parser.warn (path ++ ".content") "参数 content 未映射，已跳过该参数")
    else
      let parser := warnOptions fields path parser
      let schema ← parameterSchema root fields path
      let (sample, warnings) ← exampleValue root fields schema path parser.warnings
      let (value, parser) ← parameterValue json name path (location == PATH || required) sample { parser with warnings }
      .ok (some ⟨name, location, value, isSensitiveName name⟩, parser)

def parseEach (json : Value → Text) (root : Value) (path : Text) : Nat → List Value → Parser → Except Text (List ParameterDefinition × Parser)
  | _, [], parser => .ok ([], parser)
  | index, raw :: raws, parser => do
    let (definition, parser) ← parseParameter json root raw (path ++ '[' :: natText index ++ [']']) parser
    let (definitions, parser) ← parseEach json root path (index + 1) raws parser
    .ok (definition.toList ++ definitions, parser)

def parseParameters (root : Value) (value : Option Value) (path : Text) (parser : Parser) :
    Except Text (List ParameterDefinition × Parser) :=
  match value with
  | none => .ok ([], parser)
  | some value =>
    match value.asArray with
    | none => .error (formatError path "必须是数组")
    | some raws =>
      if raws.length > MAX_API_PARAMETER_COUNT then .error (formatError path "参数数量超过上限")
      else parseEach json root path 0 raws parser

/-- Names are compared without the case of letters. -/
def ParameterDefinition.key (parameter : ParameterDefinition) : Text × Text := (parameter.location, toAsciiLowercase parameter.name)

/-- The first of its key is replaced where it stands. -/
def mergeInto (parameter : ParameterDefinition) : List ParameterDefinition → List ParameterDefinition
  | [] => [parameter]
  | existing :: merged => if existing.key = parameter.key then parameter :: merged else existing :: mergeInto parameter merged

def mergeAll (parameters : List ParameterDefinition) : List ParameterDefinition :=
  parameters.foldl (fun merged parameter => mergeInto parameter merged) []

def mergeParameters (pathParameters operationParameters : List ParameterDefinition) : Except Text (List ParameterDefinition) :=
  let merged := mergeAll (pathParameters ++ operationParameters)
  if merged.length > MAX_API_PARAMETER_COUNT then .error (formatError "$.paths" "合并后的参数数量超过上限") else .ok merged

def replaceEach (rawPath path : Text) : List ParameterDefinition → Text → Except Text Text
  | [], result => .ok result
  | parameter :: parameters, result =>
    if slotText parameter.name <:+: rawPath then
      replaceEach rawPath path parameters (replaceText (slotText parameter.name) (parameter.value.getD []) result)
    else .error (formatError path "Path 参数未出现在 Path 模板中")

def pathParametersOf (parameters : List ParameterDefinition) : List ParameterDefinition := parameters.filter (·.location = PATH)

def applyPathParameters (rawPath : Text) (parameters : List ParameterDefinition) (path : Text) : Except Text Text := do
  let result ← replaceEach rawPath path (pathParametersOf parameters) rawPath
  if hasPair result then .error (formatError path "Path 模板包含未声明的参数")
  else if pathParametersOf parameters = [] ∧ '\x7b' ∈ rawPath then .error (formatError path "Path 模板包含未声明的参数")
  else .ok result

def joinServerAndPath (server : Option Text) (path : Text) : Text :=
  match server.filter (· ≠ []) with
  | none => path
  | some server =>
    if server.getLast? = some '/' ∧ path.head? = some '/' then server.rdropWhile (· = '/') ++ path
    else if server.getLast? ≠ some '/' ∧ path.head? ≠ some '/' then server ++ '/' :: path
    else server ++ path

/-- The check of the URL when the record is validated. -/
def validateUrl (url : Text) : Except Text Unit := validateRequiredText "HTTP URL 模板" url MAX_API_URL_TEMPLATE_BYTES

/-- What `parse_operation` does for the URL of the request. -/
def operationUrl (server : Option Text) (rawPath : Text) (parameters : List ParameterDefinition) (operationPath : Text) : Except Text Text := do
  let path ← applyPathParameters rawPath parameters operationPath
  let url := joinServerAndPath server path
  (validateUrl url).mapError (formatError operationPath)
  .ok url

end Ramag.OpenApi
