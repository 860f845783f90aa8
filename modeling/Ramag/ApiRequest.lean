import Ramag.ApiChecks
import Ramag.Fields

/-!
HTTP requests of the API workspace: the templates, which the application and the
HTTP driver expand by the same scan, with checks of their own on the name, and
what is stored of a request, its checks and its expanded copy.
-/
namespace Ramag.ApiRequest
open Strings Domain Fields List

def MAX_API_VARIABLE_NAME_BYTES : Nat := 256

def OPEN : Text := ['\x7b', '\x7b']
def CLOSE : Text := ['\x7d', '\x7d']

/-- The scan for placeholders, for a number of them; one takes four characters at least. -/
def expandPieces {ε : Type} (value : Text → Except ε Text) (unclosed : ε) : Nat → Text → Except ε Text
  | 0, t => .ok t
  | steps + 1, t =>
    match splitOnceText OPEN t with
    | none => .ok t
    | some (gap, behind) =>
      match splitOnceText CLOSE behind with
      | none => .error unclosed
      | some (name, rest) => do
        let value' ← value (trim name)
        let output ← expandPieces value unclosed steps rest
        .ok (gap ++ value' ++ output)

def variableOf (variables' : List (Text × Text)) (name : Text) : Except Text Text :=
  match variables'.lookup name with
  | some value => .ok value
  | none => .error ("缺少 API 环境变量：" ++ name)

def withinBytes (label : Text) (limit : Nat) (output : Text) : Except Text Text :=
  if byteLen output > limit then .error (label ++ "展开后超过 " ++ natText limit ++ " bytes 上限") else .ok output

/-- Templates in the application. -/
def resolveTemplate (template : Text) (variables' : List (Text × Text)) (label : Text) (limit : Nat) : Except Text Text := do
  let output ← expandPieces (fun name =>
    if name = [] ∨ byteLen name > MAX_API_VARIABLE_NAME_BYTES then .error (label ++ "变量名无效") else variableOf variables' name)
    (label ++ "变量占位符未闭合") template.length template
  withinBytes label limit output

/-- Templates in the driver. -/
def expandTemplate (template : Text) (variables' : List (Text × Text)) (label : Text) (limit : Nat) : Result Text :=
  (do
    let output ← expandPieces (fun name => if name = [] then .error (label ++ "变量名不能为空") else variableOf variables' name)
      (label ++ "变量占位符未闭合") template.length template
    withinBytes label limit output).mapError .InvalidConfig

section Pair

variable {c d : Char}

theorem splitOnceText_cons (x : Char) (t : Text) : splitOnceText [c, d] (x :: t) =
    if [c, d].isPrefixOf (x :: t) = true then some ([], (x :: t).drop 2) else (splitOnceText [c, d] t).map fun parts => (x :: parts.1, parts.2) := by
  rw [splitOnceText, findText]
  split_ifs with here
  · rfl
  · rw [splitOnceText, Option.map_map, Option.map_map]
    refine congrFun (congrArg Option.map (funext fun i => ?_)) _
    simp

theorem splitOnceText_pair {t front back : Text} :
    splitOnceText [c, d] t = some (front, back) ↔ t = front ++ [c, d] ++ back ∧ ¬ [c, d] <:+: front ++ [c] := by
  induction t generalizing front with
  | nil => simp [splitOnceText, findText]
  | cons x t ih =>
    rw [splitOnceText_cons]
    split_ifs with here
    · have met := isPrefixOf_iff_prefix.mp here
      constructor
      · intro cut
        cases cut
        obtain ⟨rest, same⟩ := met
        refine ⟨by rw [← same]; rfl, fun inside => ?_⟩
        have short := inside.length_le
        simp at short
      · rintro ⟨whole, first⟩
        cases front with
        | nil =>
          rw [whole]
          rfl
        | cons y front =>
          have long : [c, d].length ≤ (y :: front ++ [c]).length := by simp
          have begins : y :: front ++ [c] <+: x :: t := ⟨d :: back, by rw [whole]; simp⟩
          exact absurd (prefix_of_prefix_length_le met begins long).isInfix first
    · rw [Option.map_eq_some_iff]
      constructor
      · rintro ⟨⟨front', back'⟩, cut, same⟩
        cases same
        obtain ⟨whole, first⟩ := ih.mp cut
        refine ⟨by rw [whole]; rfl, fun inside => ?_⟩
        rcases infix_cons_iff.mp inside with begins | later
        · have begins' : x :: (front' ++ [c]) <+: x :: t := ⟨d :: back', by rw [whole]; simp⟩
          exact here ( isPrefixOf_iff_prefix.mpr (begins.trans begins'))
        · exact first later
      · rintro ⟨whole, first⟩
        cases front with
        | nil => exact absurd ( isPrefixOf_iff_prefix.mpr ⟨back, by rw [whole]; simp⟩) here
        | cons y front =>
          obtain ⟨rfl, rest⟩ := List.cons.inj whole
          exact ⟨(front, back), ih.mpr ⟨rest, fun inside => first (infix_cons inside)⟩, rfl⟩

theorem splitOnceText_absent {t : Text} : splitOnceText [c, d] t = none ↔ ¬ [c, d] <:+: t := by
  induction t with
  | nil => simp [splitOnceText, findText]
  | cons x t ih =>
    rw [splitOnceText_cons, infix_cons_iff, ← isPrefixOf_iff_prefix]
    by_cases here : [c, d].isPrefixOf (x :: t) = true
    · simp [here]
    · rw [if_neg here, Option.map_eq_none_iff, ih]
      simp [here]

end Pair

/-! ### Expansion -/

/-- The text that a template stands for: each placeholder is replaced by its value, once, and what
    is around the placeholders is copied. -/
inductive Expands (value : Text → Option Text) : Text → Text → Prop
  | plain {t : Text} : ¬ OPEN <:+: t → Expands value t t
  | placeholder {gap name rest value' output : Text} : ¬ OPEN <:+: gap ++ ['\x7b'] → ¬ CLOSE <:+: name ++ ['\x7d'] →
      value (trim name) = some value' → Expands value rest output →
      Expands value (gap ++ OPEN ++ (name ++ CLOSE ++ rest)) (gap ++ value' ++ output)

/-- No placeholder begins in the text. -/
def Plain (t : Text) : Prop := ¬ OPEN <:+: t

instance (t : Text) : Decidable (Plain t) := inferInstanceAs (Decidable (¬ _))

theorem cut_open {t gap behind : Text} :
    splitOnceText OPEN t = some (gap, behind) ↔ t = gap ++ OPEN ++ behind ∧ ¬ OPEN <:+: gap ++ ['\x7b'] := splitOnceText_pair

theorem cut_close {t name rest : Text} :
    splitOnceText CLOSE t = some (name, rest) ↔ t = name ++ CLOSE ++ rest ∧ ¬ CLOSE <:+: name ++ ['\x7d'] := splitOnceText_pair

theorem cut_plain {t : Text} : splitOnceText OPEN t = none ↔ Plain t := splitOnceText_absent

theorem expands_plain {value : Text → Option Text} {t output : Text} (plain : Plain t) : Expands value t output ↔ output = t := by
  constructor
  · intro expands
    cases expands with
    | plain => rfl
    | placeholder => exact absurd ⟨_, _, rfl⟩ plain
  · rintro rfl
    exact .plain plain

theorem expands_cut {value : Text → Option Text} {t gap behind output : Text} (opened : splitOnceText OPEN t = some (gap, behind)) :
    Expands value t output ↔ ∃ name rest value' output', splitOnceText CLOSE behind = some (name, rest) ∧ value (trim name) = some value' ∧
      Expands value rest output' ∧ output = gap ++ value' ++ output' := by
  constructor
  · intro expands
    cases expands with
    | plain absent =>
      rw [cut_plain.mpr absent] at opened
      cases opened
    | @placeholder gap' name rest value' output' first shut known more =>
      rw [cut_open.mpr ⟨rfl, first⟩] at opened
      cases opened
      exact ⟨name, rest, value', output', cut_close.mpr ⟨rfl, shut⟩, known, more, rfl⟩
  · rintro ⟨name, rest, value', output', closed, known, more, rfl⟩
    obtain ⟨rfl, first⟩ := cut_open.mp opened
    obtain ⟨rfl, shut⟩ := cut_close.mp closed
    exact .placeholder first shut known more

theorem expandPieces_ok {ε : Type} {value : Text → Except ε Text} {unclosed : ε} {steps : Nat} {t output : Text} (enough : t.length ≤ steps) :
    expandPieces value unclosed steps t = .ok output ↔ Expands (fun name => (value name).toOption) t output := by
  induction steps generalizing t output with
  | zero =>
    cases length_eq_zero_iff.mp (Nat.le_zero.mp enough)
    rw [expandPieces, expands_plain (by decide)]
    exact ⟨fun done => (Except.ok.inj done).symm, fun same => congrArg Except.ok same.symm⟩
  | succ steps ih =>
    rw [expandPieces]
    cases opened : splitOnceText OPEN t with
    | none =>
      rw [expands_plain (cut_plain.mp opened)]
      exact ⟨fun done => (Except.ok.inj done).symm, fun same => congrArg Except.ok same.symm⟩
    | some parts =>
      obtain ⟨gap, behind⟩ := parts
      rw [expands_cut opened]
      simp only
      cases closed : splitOnceText CLOSE behind with
      | none =>
        refine ⟨fun failed => (by cases failed), ?_⟩
        rintro ⟨name, rest, value', output', cut, -⟩
        cases cut
      | some parts =>
        obtain ⟨name, rest⟩ := parts
        have shorter : rest.length ≤ steps := by
          obtain ⟨rfl, -⟩ := cut_open.mp opened
          obtain ⟨rfl, -⟩ := cut_close.mp closed
          have pair : OPEN.length = 2 := rfl
          simp only [length_append] at enough
          omega
        simp only [bind_ok_iff, ih shorter]
        constructor
        · rintro ⟨value', known, output', more, done⟩
          cases done
          exact ⟨name, rest, value', output', rfl, by rw [known]; rfl, more, rfl⟩
        rintro ⟨_, _, value', output', cut, known, more, rfl⟩
        cases cut
        cases found : value (trim name) with
        | error error =>
          rw [found] at known
          cases known
        | ok found' =>
          rw [found] at known
          cases known
          exact ⟨value', rfl, output', more, rfl⟩

/-! ### Requests -/

open ApiChecks

def MAX_API_PARAMETER_COUNT : Nat := 128
def MAX_API_PARAMETER_NAME_BYTES : Nat := 1024
def MAX_API_PARAMETER_VALUE_BYTES : Nat := 64 * 1024
def MAX_API_HTTP_METHOD_BYTES : Nat := 32
def MAX_API_URL_TEMPLATE_BYTES : Nat := 8 * 1024
def MAX_API_REQUEST_BODY_BYTES : Nat := 4 * 1024 * 1024
def MAX_API_TIMEOUT_MILLIS : Nat := 5 * 60 * 1000
def MAX_API_TLS_PATH_BYTES : Nat := 32 * 1024
def MAX_API_PROXY_URL_BYTES : Nat := 8 * 1024
def MAX_API_PROXY_CREDENTIAL_BYTES : Nat := 8 * 1024
def MAX_API_OAUTH2_URL_BYTES : Nat := 8 * 1024
def MAX_API_OAUTH2_SCOPE_BYTES : Nat := 8 * 1024
def MAX_API_MULTIPART_PARTS : Nat := 64
def MAX_API_MULTIPART_PATH_BYTES : Nat := 32 * 1024
def MAX_API_MULTIPART_FILE_NAME_BYTES : Nat := 1024

structure ApiParameter where
  name : Text
  value : Text
  sensitive : Bool
  deriving DecidableEq

inductive ApiMultipartValue
  | Text (value : Text)
  | File (path : Text) (fileName : Option Text)
  deriving DecidableEq

structure ApiMultipartPart where
  name : Text
  value : ApiMultipartValue
  contentType : Option Text
  sensitive : Bool
  deriving DecidableEq

inductive ApiBodyMode
  | Text
  | Multipart
  deriving DecidableEq

structure ApiBody where
  mode : ApiBodyMode
  contentType : Option Text
  value : Text
  multipart : List ApiMultipartPart
  deriving DecidableEq

def ApiBody.ofText (value : Text) (contentType : Option Text) : ApiBody := ⟨.Text, contentType, value, []⟩
def ApiBody.ofParts (parts : List ApiMultipartPart) : ApiBody := ⟨.Multipart, none, [], parts⟩

structure ApiOAuth2Config where
  tokenUrl : Text
  clientId : Text
  clientSecret : Text
  scope : Option Text
  deriving DecidableEq

inductive ApiKeyLocation
  | Header
  | Query
  deriving DecidableEq

inductive ApiAuth
  | None
  | Basic (username password : Text)
  | Bearer (token : Text)
  | OAuth2 (config : ApiOAuth2Config)
  | ApiKey (name value : Text) (location : ApiKeyLocation)
  deriving DecidableEq

inductive ApiTlsVerify
  | None
  | Ca
  | Full
  deriving DecidableEq

structure ApiTlsConfig where
  verify : ApiTlsVerify := .Full
  caCertPath : Option Text := none
  clientCertPath : Option Text := none
  clientKeyPath : Option Text := none
  deriving DecidableEq

structure ApiProxyConfig where
  url : Option Text := none
  username : Option Text := none
  password : Option Text := none
  deriving DecidableEq

structure HttpRequestSpec where
  method : Text
  urlTemplate : Text
  query : List ApiParameter := []
  headers : List ApiParameter := []
  auth : ApiAuth := .None
  body : Option ApiBody := none
  tls : ApiTlsConfig := {}
  proxy : ApiProxyConfig := {}
  timeoutMillis : Nat := 30000
  deriving DecidableEq

/-- What the URL parser tells of a text that it takes. -/
structure Url where
  scheme : Text
  username : Text
  password : Option Text
  host : Option Text
  port : Option Nat
  path : Text
  query : Option Text
  fragment : Option Text

/-! ### The checks -/

section Checks

variable (parse : Text → Option Url)

def ApiParameter.validate (label : Text) (parameter : ApiParameter) : Except Text Unit := do
  validateProtocolName label parameter.name MAX_API_PARAMETER_NAME_BYTES
  validateText (label ++ "值") parameter.value MAX_API_PARAMETER_VALUE_BYTES false

def validateEach (label : Text) (rejectDuplicates : Bool) : List Text → List ApiParameter → Except Text Unit
  | _, [] => .ok ()
  | names, parameter :: parameters => do
    parameter.validate label
    if rejectDuplicates = true ∧ toAsciiLowercase parameter.name ∈ names then .error (label ++ "名称重复：" ++ parameter.name)
    else validateEach label rejectDuplicates (toAsciiLowercase parameter.name :: names) parameters

def validateParameters (label : Text) (parameters : List ApiParameter) (rejectDuplicates : Bool) : Except Text Unit :=
  if parameters.length > MAX_API_PARAMETER_COUNT then
    .error (label ++ "数量超过 " ++ natText MAX_API_PARAMETER_COUNT ++ " 个上限")
  else validateEach label rejectDuplicates [] parameters

/-- A template is not parsed before it is expanded. -/
def checkTokenUrl (tokenUrl : Text) : Except Text Unit :=
  if OPEN <:+: tokenUrl then .ok ()
  else match parse tokenUrl with
  | none => .error "OAuth2 Token URL 无效"
  | some url =>
    if url.scheme ∉ ["http".toList, "https".toList] then .error "OAuth2 Token URL 只支持 http 或 https scheme".toList
    else if url.host = none ∨ url.username ≠ [] ∨ url.password ≠ none ∨ url.query ≠ none ∨ url.fragment ≠ none then
      .error "OAuth2 Token URL 必须包含有效主机且不能包含认证、查询参数或片段"
    else .ok ()

def ApiOAuth2Config.validate (config : ApiOAuth2Config) : Except Text Unit := do
  validateRequiredText "OAuth2 Token URL" config.tokenUrl MAX_API_OAUTH2_URL_BYTES
  checkTokenUrl parse config.tokenUrl
  validateRequiredText "OAuth2 Client ID" config.clientId MAX_API_PARAMETER_VALUE_BYTES
  validateRequiredText "OAuth2 Client Secret" config.clientSecret MAX_API_PARAMETER_VALUE_BYTES
  match config.scope with
  | none => .ok ()
  | some scope => if trim scope = [] then .ok () else validateText "OAuth2 Scope" scope MAX_API_OAUTH2_SCOPE_BYTES true

def ApiAuth.validate : ApiAuth → Except Text Unit
  | .None => .ok ()
  | .Basic username password => do
    validateText "Basic 用户名" username MAX_API_PARAMETER_VALUE_BYTES false
    validateText "Basic 密码" password MAX_API_PARAMETER_VALUE_BYTES false
  | .Bearer token => validateText "Bearer Token" token MAX_API_PARAMETER_VALUE_BYTES false
  | .OAuth2 config => config.validate parse
  | .ApiKey name value _ => do
    validateProtocolName "API Key 名称" name MAX_API_PARAMETER_NAME_BYTES
    validateText "API Key 值" value MAX_API_PARAMETER_VALUE_BYTES false

def ApiMultipartPart.validateValue (part : ApiMultipartPart) : Except Text Unit :=
  match part.value with
  | .Text value => validateText "Multipart 文本字段值" value MAX_API_PARAMETER_VALUE_BYTES false
  | .File path fileName => do
    validateRequiredText "Multipart 文件路径" path MAX_API_MULTIPART_PATH_BYTES
    match fileName with
    | none => .ok ()
    | some fileName => validateRequiredText "Multipart 文件名" fileName MAX_API_MULTIPART_FILE_NAME_BYTES

def ApiMultipartPart.validate (part : ApiMultipartPart) : Except Text Unit := do
  validateRequiredText "Multipart 字段名称" part.name MAX_API_PARAMETER_NAME_BYTES
  part.validateValue
  match part.contentType with
  | none => .ok ()
  | some contentType => validateRequiredText "Multipart Content-Type" contentType MAX_API_PARAMETER_VALUE_BYTES

def validateContentType : Option Text → Except Text Unit
  | none => .ok ()
  | some contentType => validateRequiredText "请求 Content-Type" contentType MAX_API_PARAMETER_NAME_BYTES

/-- The text fields together. -/
def textBytes (parts : List ApiMultipartPart) : Nat :=
  (parts.map fun part => match part.value with
    | .Text value => byteLen value
    | .File _ _ => 0).sum

def ApiBody.validate (body : ApiBody) : Except Text Unit :=
  match body.mode with
  | .Text =>
    if body.multipart ≠ [] then .error "普通请求正文不能包含 Multipart 字段"
    else do
      validateContentType body.contentType
      validateText "请求正文" body.value MAX_API_REQUEST_BODY_BYTES false
  | .Multipart =>
    if body.value ≠ [] ∨ body.contentType ≠ none then .error "Multipart 请求正文不能同时设置普通正文或固定 Content-Type"
    else if body.multipart = [] then .error "Multipart 请求至少需要一个字段"
    else if body.multipart.length > MAX_API_MULTIPART_PARTS then
      .error ("Multipart 字段数量超过 " ++ natText MAX_API_MULTIPART_PARTS ++ " 个上限")
    else do
      body.multipart.forM ApiMultipartPart.validate
      if textBytes body.multipart > MAX_API_REQUEST_BODY_BYTES then
        .error ("Multipart 文本字段总大小超过 " ++ natText MAX_API_REQUEST_BODY_BYTES ++ " bytes 上限")
      else .ok ()

def ApiTlsConfig.validate (tls : ApiTlsConfig) : Except Text Unit := do
  [("CA 证书路径".toList, tls.caCertPath), ("客户端证书路径".toList, tls.clientCertPath), ("客户端密钥路径".toList, tls.clientKeyPath)].forM
    fun (label, path) => match path with
      | none => .ok ()
      | some path => validateText label path MAX_API_TLS_PATH_BYTES true
  if tls.clientCertPath.isSome ≠ tls.clientKeyPath.isSome then .error "客户端证书和客户端密钥必须同时配置".toList
  else if tls.verify = .Ca ∧ tls.caCertPath = none then .error "TLS verify=ca 必须配置 CA 证书路径".toList
  else if (tls.clientCertPath.isSome ∨ tls.clientKeyPath.isSome) ∧ tls.verify = .None then
    .error "客户端证书认证不能关闭服务端证书校验".toList
  else .ok ()

def validateProxyUrl (url : Text) : Except Text Unit :=
  match parse url with
  | none => .error "代理 URL 无效"
  | some parsed =>
    if parsed.scheme ≠ "http" then .error "代理 URL 只支持 http scheme"
    else if parsed.username ≠ [] ∨ parsed.password ≠ none then .error "代理认证信息必须单独配置，不能写入代理 URL"
    else if parsed.host = none ∨ parsed.port = none then .error "代理 URL 必须包含有效主机和端口"
    else if parsed.path ≠ ['/'] ∨ parsed.query ≠ none ∨ parsed.fragment ≠ none then .error "代理 URL 不能包含路径、查询参数或片段"
    else .ok ()

def validateCredential (label : Text) : Option Text → Except Text Unit
  | none => .ok ()
  | some value => validateText label value MAX_API_PROXY_CREDENTIAL_BYTES true

def ApiProxyConfig.validate (proxy : ApiProxyConfig) : Except Text Unit :=
  match proxy.url with
  | none => if proxy.username.isSome ∨ proxy.password.isSome then .error "代理用户名和密码必须在配置代理地址后使用" else .ok ()
  | some url => do
    validateRequiredText "代理 URL" url MAX_API_PROXY_URL_BYTES
    if proxy.username.isSome ≠ proxy.password.isSome then .error "代理用户名和密码必须同时配置"
    else do
      validateCredential "代理用户名" proxy.username
      validateCredential "代理密码" proxy.password
      if OPEN <:+: url then .ok () else validateProxyUrl parse url

def ApiProxyConfig.validateResolved (proxy : ApiProxyConfig) : Except Text Unit := do
  proxy.validate parse
  match proxy.url with
  | none => .ok ()
  | some url => validateProxyUrl parse url

def validateTimeout (timeoutMillis : Nat) : Except Text Unit :=
  if timeoutMillis = 0 ∨ timeoutMillis > MAX_API_TIMEOUT_MILLIS then
    .error ("API 超时必须为 1 - " ++ natText MAX_API_TIMEOUT_MILLIS ++ " 毫秒")
  else .ok ()

def validateBody (spec : HttpRequestSpec) : Except Text Unit :=
  match spec.body with
  | none => .ok ()
  | some body => do
    body.validate
    if body.mode = .Multipart ∧ spec.headers.any (fun header => eqIgnoreAsciiCase header.name "content-type") then
      .error "Multipart 请求不能手动设置 Content-Type；驱动需要生成 boundary"
    else .ok ()

def validateMethod (method : Text) : Except Text Unit := do
  validateProtocolName "HTTP 方法" method MAX_API_HTTP_METHOD_BYTES
  if method.any Char.isLower then .error "HTTP 方法必须使用大写 ASCII 字符" else .ok ()

def HttpRequestSpec.validate (spec : HttpRequestSpec) : Except Text Unit := do
  validateMethod spec.method
  validateRequiredText "HTTP URL 模板" spec.urlTemplate MAX_API_URL_TEMPLATE_BYTES
  validateParameters "HTTP 查询参数" spec.query false
  validateParameters "HTTP Headers" spec.headers true
  spec.auth.validate parse
  validateBody spec
  spec.tls.validate
  spec.proxy.validate parse
  validateTimeout spec.timeoutMillis

end Checks

/-- How a template with its label and limit is expanded. -/
abbrev Expander := Text → Text → Nat → Result Text

/-- The expansion of the application. -/
def expand (variables' : List (Text × Text)) : Expander := fun template label limit =>
  (resolveTemplate template variables' label limit).mapError .InvalidConfig

section Copies

variable (parse : Text → Option Url) (expand : Expander)

def expandOption (label : Text) (limit : Nat) : Option Text → Result (Option Text)
  | none => .ok none
  | some template => (expand template label limit).map some

/-- The application and the driver expand a proxy alike. -/
def resolveProxyConfig (proxy : ApiProxyConfig) : Result ApiProxyConfig := do
  let url ← expandOption expand "代理 URL" MAX_API_PROXY_URL_BYTES proxy.url
  let username ← expandOption expand "代理用户名" MAX_API_PROXY_CREDENTIAL_BYTES proxy.username
  let password ← expandOption expand "代理密码" MAX_API_PROXY_CREDENTIAL_BYTES proxy.password
  (ApiProxyConfig.validateResolved parse ⟨url, username, password⟩).mapError .InvalidConfig
  .ok ⟨url, username, password⟩

def copyParameter (label : Text) (parameter : ApiParameter) : Result ApiParameter := do
  let name ← expand parameter.name label MAX_API_PARAMETER_NAME_BYTES
  let value ← expand parameter.value label MAX_API_PARAMETER_VALUE_BYTES
  .ok ⟨name, value, parameter.sensitive⟩

/-- The fields of an OAuth2 configuration, which the application and the driver expand alike. -/
def expandOauth2Config (config : ApiOAuth2Config) : Result ApiOAuth2Config := do
  let tokenUrl ← expand config.tokenUrl "OAuth2 Token URL" MAX_API_OAUTH2_URL_BYTES
  let clientId ← expand config.clientId "OAuth2 Client ID" MAX_API_PARAMETER_VALUE_BYTES
  let clientSecret ← expand config.clientSecret "OAuth2 Client Secret" MAX_API_PARAMETER_VALUE_BYTES
  let scope ← expandOption expand "OAuth2 Scope" MAX_API_OAUTH2_SCOPE_BYTES config.scope
  .ok ⟨tokenUrl, clientId, clientSecret, scope⟩

def resolveAuth : ApiAuth → Result ApiAuth
  | .None => .ok .None
  | .Basic username password => do
    let username ← expand username "Basic 用户名" MAX_API_PARAMETER_VALUE_BYTES
    let password ← expand password "Basic 密码" MAX_API_PARAMETER_VALUE_BYTES
    .ok (.Basic username password)
  | .Bearer token => do
    let token ← expand token "Bearer Token" MAX_API_PARAMETER_VALUE_BYTES
    .ok (.Bearer token)
  | .OAuth2 config => do
    let config ← expandOauth2Config expand config
    .ok (.OAuth2 config)
  | .ApiKey name value location => do
    let name ← expand name "API Key 名称" MAX_API_PARAMETER_NAME_BYTES
    let value ← expand value "API Key 值" MAX_API_PARAMETER_VALUE_BYTES
    .ok (.ApiKey name value location)

def resolvePartValue : ApiMultipartValue → Result ApiMultipartValue
  | .Text value => do
    let value ← expand value "Multipart 文本字段值" MAX_API_PARAMETER_VALUE_BYTES
    .ok (.Text value)
  | .File path fileName => do
    let path ← expand path "Multipart 文件路径" MAX_API_MULTIPART_PATH_BYTES
    let fileName ← expandOption expand "Multipart 文件名" MAX_API_MULTIPART_FILE_NAME_BYTES fileName
    .ok (.File path fileName)

def resolvePart (part : ApiMultipartPart) : Result ApiMultipartPart := do
  let name ← expand part.name "Multipart 字段名称" MAX_API_PARAMETER_NAME_BYTES
  let contentType ← expandOption expand "Multipart Content-Type" MAX_API_PARAMETER_VALUE_BYTES part.contentType
  let value ← resolvePartValue expand part.value
  .ok ⟨name, value, contentType, part.sensitive⟩

def resolveBody (body : ApiBody) : Result ApiBody :=
  match body.mode with
  | .Text => do
    let value ← expand body.value "HTTP 请求正文" MAX_API_REQUEST_BODY_BYTES
    let contentType ← expandOption expand "HTTP Content-Type" MAX_API_PARAMETER_VALUE_BYTES body.contentType
    .ok (.ofText value contentType)
  | .Multipart => do
    let parts ← body.multipart.mapM (resolvePart expand)
    .ok (.ofParts parts)

def resolveOptionalBody : Option ApiBody → Result (Option ApiBody)
  | none => .ok none
  | some body => (resolveBody expand body).map some

end Copies

def resolveHttpRequest (parse : Text → Option Url) (spec : HttpRequestSpec) (variables' : List (Text × Text)) :
    Result HttpRequestSpec := do
  let proxy ← resolveProxyConfig parse (expand variables') spec.proxy
  let urlTemplate ← expand variables' spec.urlTemplate "HTTP URL 模板" MAX_API_URL_TEMPLATE_BYTES
  let query ← spec.query.mapM (copyParameter (expand variables') "HTTP 查询参数")
  let headers ← spec.headers.mapM (copyParameter (expand variables') "HTTP Headers")
  let auth ← resolveAuth (expand variables') spec.auth
  let body ← resolveOptionalBody (expand variables') spec.body
  let resolved := { spec with proxy, urlTemplate, query, headers, auth, body }
  (resolved.validate parse).mapError .InvalidConfig
  .ok resolved

end Ramag.ApiRequest
