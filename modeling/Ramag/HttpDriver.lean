import Ramag.ApiRequest
import Ramag.Guards

/-!
The HTTP driver: a request is put together from the stored fields, which it
expands with the variables that it is handed, and is sent. What lies outside of
the program (the URL parser, the client, the token endpoint, files) is a parameter.
-/
namespace Ramag.HttpDriver
open Strings Domain ApiRequest

def MAX_API_MULTIPART_TOTAL_BYTES : Nat := 32 * 1024 * 1024

/-- A name, a value and whether it is to be hidden. -/
abbrev ExpandedParameter := Text × Text × Bool

inductive SentContent
  | Text (value : Text)
  | File (bytes : List UInt8) (fileName : Text)
  deriving DecidableEq

structure SentPart where
  name : Text
  contentType : Option Text
  content : SentContent
  deriving DecidableEq

inductive SentBody
  | Empty
  | Text (value : Text) (contentType : Option Text)
  | Multipart (parts : List SentPart)
  deriving DecidableEq

/-- A request on the wire. -/
structure Sent where
  method : Text
  url : Text
  query : List ExpandedParameter
  headers : List ExpandedParameter
  body : SentBody
  tls : ApiTlsConfig
  proxy : ApiProxyConfig
  timeoutMillis : Nat
  deriving DecidableEq

/-- What the driver relies on. -/
structure Transport where
  parse : Text → Option Url
  buildClient : ApiTlsConfig → ApiProxyConfig → Result Unit
  isMethod : Text → Bool
  isHeaderName : Text → Bool
  isHeaderValue : Text → Bool
  isMime : Text → Bool
  /-- The token that the endpoint gives, or the stored one unless a new one is asked for. -/
  accessToken : Bool → ApiOAuth2Config → ApiTlsConfig → ApiProxyConfig → Nat → Result Text
  base64 : Text → Text
  readFile : Text → Result (List UInt8)
  fileName : Text → Option Text
  status : Sent → Nat

def refuse {α : Type} (message : Text) : Result α := .error (.InvalidConfig message)

variable (transport : Transport) (expand : Expander)

def clientFor (tls : ApiTlsConfig) (proxy : ApiProxyConfig) : Result Unit :=
  if tls = {} ∧ proxy = {} then .ok () else transport.buildClient tls proxy

def checkMethod (method : Text) : Result Unit :=
  if transport.isMethod method then .ok () else refuse "HTTP 方法无效"

def checkUrl (url : Text) : Result Unit :=
  match transport.parse url with
  | none => refuse "HTTP URL 模板无效"
  | some parsed =>
    if parsed.scheme ∉ ["http".toList, "https".toList] then refuse "HTTP URL 只支持 http 或 https scheme".toList
    else if parsed.username ≠ [] ∨ parsed.password ≠ none then refuse "HTTP URL 不能包含用户名或密码"
    else .ok ()

def expandParameter (label : Text) (parameter : ApiParameter) : Result ExpandedParameter := do
  let name ← expand parameter.name label MAX_API_PARAMETER_VALUE_BYTES
  let value ← expand parameter.value label MAX_API_PARAMETER_VALUE_BYTES
  .ok (name, value, parameter.sensitive)

variable (headers : List ExpandedParameter)

def hasHeader (name : Text) : Bool := headers.any fun header => eqIgnoreAsciiCase header.1 name

def checkAuthorization (auth : ApiAuth) (headers : List ExpandedParameter) : Result Unit :=
  if auth ≠ .None ∧ hasHeader headers "authorization" then refuse "HTTP Header 不能与认证配置同时设置 authorization"
  else .ok ()

def resolveOauth2Config (config : ApiOAuth2Config) : Result ApiOAuth2Config := do
  let config ← expandOauth2Config expand config
  (config.validate transport.parse).mapError .InvalidConfig
  .ok config

variable (spec : HttpRequestSpec)

/-- An OAuth2 configuration is exchanged for its token. -/
def bearerAuth (proxy : ApiProxyConfig) (forceRefresh : Bool) : Result ApiAuth :=
  match spec.auth with
  | .OAuth2 config => do
    let config ← resolveOauth2Config transport expand config
    let token ← transport.accessToken forceRefresh config spec.tls proxy spec.timeoutMillis
    .ok (.Bearer token)
  | auth => .ok auth

/-- The parameters that the authentication adds to the query and to the headers. -/
def applyAuth : ApiAuth → Result (List ExpandedParameter × List ExpandedParameter)
  | .None => .ok ([], [])
  | .Basic username password => do
    let username ← expand username "Basic 用户名" MAX_API_PARAMETER_VALUE_BYTES
    let password ← expand password "Basic 密码" MAX_API_PARAMETER_VALUE_BYTES
    .ok ([], [("authorization", "Basic " ++ transport.base64 (username ++ ':' :: password), true)])
  | .Bearer token => do
    let token ← expand token "Bearer Token" MAX_API_PARAMETER_VALUE_BYTES
    .ok ([], [("authorization", "Bearer " ++ token, true)])
  | .OAuth2 _ => refuse "OAuth2 令牌必须由驱动在发送前生成"
  | .ApiKey name value location => do
    let name ← expand name "API Key 名称" MAX_API_PARAMETER_VALUE_BYTES
    let value ← expand value "API Key 值" MAX_API_PARAMETER_VALUE_BYTES
    match location with
    | .Header => .ok ([], [(name, value, true)])
    | .Query => .ok ([(name, value, true)], [])

def checkHeaders : Result Unit :=
  headers.forM fun header =>
    if transport.isHeaderName header.1 = false then refuse "HTTP Header 名称无效"
    else if transport.isHeaderValue header.2.1 = false then refuse "HTTP Header 值无效"
    else .ok ()

/-- A content type is not expanded again, and left out where a header gives it. -/
def bodyContentType : Option Text → Result (Option Text)
  | none => .ok none
  | some contentType =>
    if hasHeader headers "content-type" then .ok none
    else if transport.isHeaderValue contentType then .ok (some contentType)
    else refuse "HTTP Content-Type 无效"

def addMultipartBytes (current added : Nat) : Result Nat :=
  if current + added > MAX_API_MULTIPART_TOTAL_BYTES then
    refuse ("Multipart 正文数据超过 " ++ natText MAX_API_MULTIPART_TOTAL_BYTES ++ " bytes 上限")
  else .ok (current + added)

def partContent (total : Nat) : ApiMultipartValue → Result (SentContent × Nat)
  | .Text value => do
    let value ← expand value "Multipart 文本字段值" MAX_API_PARAMETER_VALUE_BYTES
    let total ← addMultipartBytes total (byteLen value)
    .ok (.Text value, total)
  | .File path fileName => do
    let path ← expand path "Multipart 文件路径" MAX_API_MULTIPART_PATH_BYTES
    let bytes ← transport.readFile path
    let total ← addMultipartBytes total bytes.length
    let fileName ← expandOption expand "Multipart 文件名" MAX_API_MULTIPART_FILE_NAME_BYTES fileName
    .ok (.File bytes ((fileName.or (transport.fileName path)).getD "file"), total)

def checkMime : Option Text → Result Unit
  | none => .ok ()
  | some contentType => if transport.isMime contentType then .ok () else refuse "Multipart Content-Type 无效"

def multipartForm : Nat → List ApiMultipartPart → Result (List SentPart)
  | _, [] => .ok []
  | total, part :: parts => do
    let name ← expand part.name "Multipart 字段名称" MAX_API_PARAMETER_NAME_BYTES
    let contentType ← expandOption expand "Multipart Content-Type" MAX_API_PARAMETER_VALUE_BYTES part.contentType
    let (content, total) ← partContent transport expand total part.value
    checkMime transport contentType
    let sent ← multipartForm total parts
    .ok (⟨name, contentType, content⟩ :: sent)

def sentBody : Option ApiBody → Result SentBody
  | none => .ok .Empty
  | some body =>
    match body.mode with
    | .Text => do
      let value ← expand body.value "HTTP 请求正文" MAX_API_REQUEST_BODY_BYTES
      let contentType ← bodyContentType transport headers body.contentType
      .ok (.Text value contentType)
    | .Multipart => do
      let parts ← multipartForm transport expand 0 body.multipart
      .ok (.Multipart parts)

/-- `execute_once` up to the response: what is sent. -/
def executeOnce (forceRefresh : Bool) : Result Sent := do
  let proxy ← resolveProxyConfig transport.parse expand spec.proxy
  clientFor transport spec.tls proxy
  checkMethod transport spec.method
  let url ← expand spec.urlTemplate "HTTP URL 模板" MAX_API_URL_TEMPLATE_BYTES
  checkUrl transport url
  let query ← spec.query.mapM (expandParameter expand "HTTP 查询参数")
  let headers ← spec.headers.mapM (expandParameter expand "HTTP Headers")
  checkAuthorization spec.auth headers
  let auth ← bearerAuth transport expand spec proxy forceRefresh
  let (inQuery, inHeaders) ← applyAuth transport expand auth
  checkHeaders transport (headers ++ inHeaders)
  let body ← sentBody transport expand (headers ++ inHeaders) spec.body
  .ok ⟨spec.method, url, query ++ inQuery, headers ++ inHeaders, body, spec.tls, proxy, spec.timeoutMillis⟩

def isOAuth2 : ApiAuth → Bool
  | .OAuth2 _ => true
  | .None | .Basic _ _ | .Bearer _ | .ApiKey _ _ _ => false

/-- The requests that one execution sends: after an answer 401 a second one with a new token. -/
def execute : List Sent :=
  match spec.validate transport.parse, executeOnce transport expand spec false with
  | .ok _, .ok sent =>
    sent :: if transport.status sent = 401 ∧ isOAuth2 spec.auth then (executeOnce transport expand spec true).toOption.toList else []
  | _, _ => []

/-- The driver's expansion with the variables that it is handed. -/
def driverExpand (variables' : List (Text × Text)) : Expander := fun template label limit => expandTemplate template variables' label limit

/-- The requests of `execute_record`: the application expands the request and hands the driver no variables. -/
def executeRecord (variables' : List (Text × Text)) : List Sent :=
  match spec.validate transport.parse, resolveHttpRequest transport.parse spec variables' with
  | .ok _, .ok resolved => execute transport (driverExpand []) resolved
  | _, _ => []

/-! ### What the driver sends of an expanded request -/

open ApiChecks Guards

/-- Texts are handed on as they are, within their limits. -/
def copy : Expander := fun template label limit => (withinBytes label limit template).mapError .InvalidConfig

theorem mapError_ok_iff {ε δ α : Type} {step : Except ε α} {f : ε → δ} {value : α} : step.mapError f = .ok value ↔ step = .ok value :=
  ⟨mapError_ok, fun done => by rw [done]; rfl⟩

theorem withinBytes_ok {label output result : Text} {limit : Nat} :
    withinBytes label limit output = .ok result ↔ result = output ∧ byteLen output ≤ limit := by
  unfold withinBytes
  split_ifs with long
  · exact ⟨fun failed => (by cases failed), fun ⟨_, short⟩ => absurd long (Nat.not_lt.mpr short)⟩
  · exact ⟨fun done => ⟨(Except.ok.inj done).symm, Nat.not_lt.mp long⟩, fun ⟨same, _⟩ => congrArg Except.ok same.symm⟩

theorem copy_ok {template label result : Text} {limit : Nat} : copy template label limit = .ok result ↔
    result = template ∧ byteLen template ≤ limit := by
  rw [copy, mapError_ok_iff, withinBytes_ok]

theorem expands_nothing {t output : Text} : Expands (fun _ => none) t output ↔ Plain t ∧ output = t := by
  constructor
  · intro expands
    cases expands with
    | plain plain => exact ⟨plain, rfl⟩
    | placeholder _ _ known => cases known
  · rintro ⟨plain, rfl⟩
    exact .plain plain

theorem driverExpand_guarded (template label : Text) (limit : Nat) :
    Guarded (driverExpand [] template label limit) (copy template label limit) (Plain template) := by
  intro result
  have unknown : (fun name : Text => ((if name = [] then .error (label ++ "变量名不能为空") else variableOf [] name :
      Except Text Text)).toOption) = fun _ => none := by
    funext name
    split_ifs <;> rfl
  rw [driverExpand, expandTemplate, mapError_ok_iff, bind_ok_iff, copy_ok]
  simp only [expandPieces_ok (Nat.le_refl _), unknown, expands_nothing, withinBytes_ok]
  constructor
  · rintro ⟨output, ⟨plain, rfl⟩, rfl, short⟩
    exact ⟨⟨rfl, short⟩, plain⟩
  · rintro ⟨⟨rfl, short⟩, plain⟩
    exact ⟨result, ⟨plain, rfl⟩, rfl, short⟩

/-! ### The fields that the driver expands -/

def AllPlain (texts : List Text) : Prop := ∀ t ∈ texts, Plain t

instance (texts : List Text) : Decidable (AllPlain texts) := inferInstanceAs (Decidable (∀ t ∈ texts, Plain t))

theorem allPlain_nil : AllPlain [] ↔ True := by simp [AllPlain]
theorem allPlain_cons {t : Text} {texts : List Text} : AllPlain (t :: texts) ↔ Plain t ∧ AllPlain texts := List.forall_mem_cons
theorem allPlain_flatMap {α : Type} {texts : α → List Text} {items : List α} :
    AllPlain (items.flatMap texts) ↔ ∀ item ∈ items, AllPlain (texts item) := List.forall_mem_flatMap
theorem allPlain_append {first second : List Text} : AllPlain (first ++ second) ↔ AllPlain first ∧ AllPlain second := List.forall_mem_append

def proxyTexts (proxy : ApiProxyConfig) : List Text := proxy.url.toList ++ (proxy.username.toList ++ proxy.password.toList)
def parameterTexts (parameter : ApiParameter) : List Text := [parameter.name, parameter.value]
def configTexts (config : ApiOAuth2Config) : List Text := config.tokenUrl :: config.clientId :: config.clientSecret :: config.scope.toList

def contentTexts : ApiMultipartValue → List Text
  | .Text value => [value]
  | .File path fileName => path :: fileName.toList

def partTexts (part : ApiMultipartPart) : List Text := part.name :: (part.contentType.toList ++ contentTexts part.value)

/-- The content type of a body of text is not among them. -/
def bodyTexts : Option ApiBody → List Text
  | none => []
  | some body =>
    match body.mode with
    | .Text => [body.value]
    | .Multipart => body.multipart.flatMap partTexts

/-- What is exchanged for a token. -/
def exchangeTexts : ApiAuth → List Text
  | .OAuth2 config => configTexts config
  | .None | .Basic _ _ | .Bearer _ | .ApiKey _ _ _ => []

/-- What the authentication puts into the request, a token among it. -/
def authTexts (transport : Transport) (spec : HttpRequestSpec) (forceRefresh : Bool) : List Text :=
  match spec.auth with
  | .None => []
  | .Basic username password => [username, password]
  | .Bearer token => [token]
  | .ApiKey name value _ => [name, value]
  | .OAuth2 config => (transport.accessToken forceRefresh config spec.tls spec.proxy spec.timeoutMillis).toOption.toList

/-- The texts that the driver expands to send a request. -/
def sentTexts (transport : Transport) (spec : HttpRequestSpec) (forceRefresh : Bool) : List Text :=
  proxyTexts spec.proxy ++ (spec.urlTemplate :: (spec.query.flatMap parameterTexts ++ (spec.headers.flatMap parameterTexts ++
    (exchangeTexts spec.auth ++ (authTexts transport spec forceRefresh ++ bodyTexts spec.body)))))

section Driver

variable {transport : Transport}

theorem expandOption_guarded (label : Text) (limit : Nat) (template : Option Text) :
    Guarded (expandOption (driverExpand []) label limit template) (expandOption copy label limit template) (AllPlain template.toList) := by
  cases template with
  | none => exact (Guarded.same _).weaken allPlain_nil
  | some template => exact ((driverExpand_guarded template label limit).map some).weaken (by simp [AllPlain])

theorem expandOption_copy {label : Text} {limit : Nat} {template result : Option Text}
    (done : expandOption copy label limit template = .ok result) : result = template := by
  cases template with
  | none => exact (Except.ok.inj done).symm
  | some template =>
    rw [expandOption] at done
    cases copied : copy template label limit with
    | error error =>
      rw [copied] at done
      cases done
    | ok same =>
      rw [copied] at done
      rw [← Except.ok.inj done, (copy_ok.mp copied).1]

theorem resolveProxyConfig_guarded (parse : Text → Option Url) (proxy : ApiProxyConfig) :
    Guarded (resolveProxyConfig parse (driverExpand []) proxy) (resolveProxyConfig parse copy proxy) (AllPlain (proxyTexts proxy)) := by
  refine ((expandOption_guarded _ _ _).bind fun url _ => (expandOption_guarded _ _ _).bind fun username _ =>
    (expandOption_guarded _ _ _).bind fun password _ => Guarded.same _).weaken ?_
  rw [proxyTexts, allPlain_append, allPlain_append, and_true]

theorem resolveProxyConfig_copy {parse : Text → Option Url} {proxy result : ApiProxyConfig}
    (done : resolveProxyConfig parse copy proxy = .ok result) : result = proxy := by
  obtain ⟨url, url', done⟩ := bind_ok done
  obtain ⟨username, username', done⟩ := bind_ok done
  obtain ⟨password, password', done⟩ := bind_ok done
  obtain ⟨_, -, done⟩ := bind_ok done
  cases done
  rw [expandOption_copy url', expandOption_copy username', expandOption_copy password']

theorem expandParameter_guarded (label : Text) (parameter : ApiParameter) :
    Guarded (expandParameter (driverExpand []) label parameter) (expandParameter copy label parameter) (AllPlain (parameterTexts parameter)) := by
  refine ((driverExpand_guarded _ _ _).bind fun name _ => (driverExpand_guarded _ _ _).bind fun value _ => Guarded.same _).weaken ?_
  rw [parameterTexts, allPlain_cons, allPlain_cons, allPlain_nil]

theorem parameters_guarded (label : Text) (parameters : List ApiParameter) :
    Guarded (parameters.mapM (expandParameter (driverExpand []) label)) (parameters.mapM (expandParameter copy label))
      (AllPlain (parameters.flatMap parameterTexts)) :=
  (Guarded.mapM (expandParameter_guarded label) parameters).weaken allPlain_flatMap

theorem resolveOauth2Config_guarded (config : ApiOAuth2Config) :
    Guarded (resolveOauth2Config transport (driverExpand []) config) (resolveOauth2Config transport copy config) (AllPlain (configTexts config)) := by
  refine (((driverExpand_guarded _ _ _).bind fun tokenUrl _ => (driverExpand_guarded _ _ _).bind fun clientId _ =>
    (driverExpand_guarded _ _ _).bind fun clientSecret _ => (expandOption_guarded _ _ _).bind fun scope _ => Guarded.same _).bind
    fun config _ => Guarded.same _).weaken ?_
  rw [configTexts, allPlain_cons, allPlain_cons, allPlain_cons, and_true, and_true]

theorem resolveOauth2Config_copy {config result : ApiOAuth2Config} (done : resolveOauth2Config transport copy config = .ok result) :
    result = config := by
  obtain ⟨expanded, copied, done⟩ := bind_ok done
  obtain ⟨_, -, done⟩ := bind_ok done
  cases done
  obtain ⟨tokenUrl, tokenUrl', copied⟩ := bind_ok copied
  obtain ⟨clientId, clientId', copied⟩ := bind_ok copied
  obtain ⟨clientSecret, clientSecret', copied⟩ := bind_ok copied
  obtain ⟨scope, scope', copied⟩ := bind_ok copied
  cases copied
  rw [(copy_ok.mp tokenUrl').1, (copy_ok.mp clientId').1, (copy_ok.mp clientSecret').1, expandOption_copy scope']

theorem bearerAuth_guarded (spec : HttpRequestSpec) (forceRefresh : Bool) :
    Guarded (bearerAuth transport (driverExpand []) spec spec.proxy forceRefresh) (bearerAuth transport copy spec spec.proxy forceRefresh)
      (AllPlain (exchangeTexts spec.auth)) := by
  unfold bearerAuth exchangeTexts
  cases spec.auth with
  | OAuth2 config => exact ((resolveOauth2Config_guarded config).bind fun config' _ => Guarded.same _).weaken (iff_of_eq (and_true _).symm)
  | None | Basic _ _ | Bearer _ | ApiKey _ _ _ => exact (Guarded.same _).weaken allPlain_nil

theorem applyAuth_guarded {spec : HttpRequestSpec} {forceRefresh : Bool} {auth : ApiAuth}
    (given : bearerAuth transport copy spec spec.proxy forceRefresh = .ok auth) :
    Guarded (applyAuth transport (driverExpand []) auth) (applyAuth transport copy auth) (AllPlain (authTexts transport spec forceRefresh)) := by
  have bearer : ∀ token, Guarded (applyAuth transport (driverExpand []) (.Bearer token)) (applyAuth transport copy (.Bearer token))
      (AllPlain [token]) := fun token =>
    ((driverExpand_guarded _ _ _).bind fun name _ => Guarded.same _).weaken (allPlain_cons.trans (and_congr_right fun _ => allPlain_nil))
  unfold bearerAuth at given
  unfold authTexts
  cases held : spec.auth with
  | OAuth2 config =>
    rw [held] at given
    simp only [bind_ok_iff] at given
    obtain ⟨config', resolved, token, issued, given⟩ := given
    cases given
    rw [resolveOauth2Config_copy resolved] at issued
    simp only [issued]
    exact bearer token
  | None =>
    rw [held] at given
    cases given
    exact (Guarded.same _).weaken allPlain_nil
  | Basic username password | ApiKey name value location =>
    rw [held] at given
    cases given
    refine ((driverExpand_guarded _ _ _).bind fun name _ => (driverExpand_guarded _ _ _).bind fun value _ => Guarded.same _).weaken ?_
    rw [allPlain_cons, allPlain_cons, allPlain_nil]
  | Bearer token =>
    rw [held] at given
    cases given
    exact bearer token

theorem partContent_guarded (total : Nat) (value : ApiMultipartValue) :
    Guarded (partContent transport (driverExpand []) total value) (partContent transport copy total value) (AllPlain (contentTexts value)) := by
  cases value with
  | Text value =>
    refine ((driverExpand_guarded _ _ _).bind fun value _ => Guarded.same _).weaken ?_
    rw [contentTexts, allPlain_cons, allPlain_nil]
  | File path fileName =>
    refine ((driverExpand_guarded _ _ _).bind fun path _ => (Guarded.same _).bind fun bytes _ => (Guarded.same _).bind fun total _ =>
      (expandOption_guarded _ _ _).bind fun fileName _ => Guarded.same _).weaken ?_
    rw [contentTexts, allPlain_cons, true_and, true_and, and_true]

theorem multipartForm_guarded (total : Nat) (parts : List ApiMultipartPart) :
    Guarded (multipartForm transport (driverExpand []) total parts) (multipartForm transport copy total parts)
      (AllPlain (parts.flatMap partTexts)) := by
  induction parts generalizing total with
  | nil => exact (Guarded.same _).weaken allPlain_nil
  | cons part parts ih =>
    refine ((driverExpand_guarded _ _ _).bind fun name _ => (expandOption_guarded _ _ _).bind fun contentType _ =>
      (partContent_guarded total part.value).bind fun content _ => (Guarded.same _).bind fun _ _ =>
        (ih content.2).bind fun sent _ => Guarded.same _).weaken ?_
    rw [List.flatMap_cons, allPlain_append, partTexts, allPlain_cons, allPlain_append, true_and, and_true, and_assoc, and_assoc]

theorem sentBody_guarded (headers : List ExpandedParameter) (body : Option ApiBody) :
    Guarded (sentBody transport (driverExpand []) headers body) (sentBody transport copy headers body) (AllPlain (bodyTexts body)) := by
  cases body with
  | none => exact (Guarded.same _).weaken allPlain_nil
  | some body =>
    obtain ⟨mode, contentType, value, parts⟩ := body
    cases mode with
    | Text =>
      refine ((driverExpand_guarded _ _ _).bind fun value _ => Guarded.same _).weaken ?_
      exact allPlain_cons.trans (and_congr_right fun _ => allPlain_nil)
    | Multipart => exact ((multipartForm_guarded 0 parts).bind fun parts _ => Guarded.same _).weaken (iff_of_eq (and_true _).symm)

/-- The driver sends what copying sends, unless a placeholder can be read in one of the texts. -/
theorem executeOnce_guarded (spec : HttpRequestSpec) (forceRefresh : Bool) :
    Guarded (executeOnce transport (driverExpand []) spec forceRefresh) (executeOnce transport copy spec forceRefresh)
      (AllPlain (sentTexts transport spec forceRefresh)) := by
  rw [sentTexts, allPlain_append]
  refine (resolveProxyConfig_guarded transport.parse spec.proxy).bind fun proxy same => ?_
  cases resolveProxyConfig_copy same
  refine ((Guarded.same _).bind fun _ _ => (Guarded.same _).bind fun _ _ => (driverExpand_guarded _ _ _).bind fun url _ =>
    (Guarded.same _).bind fun _ _ => (parameters_guarded _ _).bind fun query _ => (parameters_guarded _ _).bind fun headers _ =>
      (Guarded.same _).bind fun _ _ => (bearerAuth_guarded spec forceRefresh).bind fun auth given => (applyAuth_guarded given).bind fun added _ =>
        (Guarded.same _).bind fun _ _ => (sentBody_guarded _ spec.body).bind fun body _ => Guarded.same _).weaken ?_
  rw [allPlain_cons, allPlain_append, allPlain_append, allPlain_append, allPlain_append]
  simp

/-- A sending that copying gets to. -/
def Attempted (transport : Transport) (spec : HttpRequestSpec) (forceRefresh : Bool) : Prop :=
  ∃ sent, executeOnce transport copy spec false = .ok sent ∧ (forceRefresh = true →
    transport.status sent = 401 ∧ isOAuth2 spec.auth = true ∧ ∃ again, executeOnce transport copy spec true = .ok again)

theorem execute_same {spec : HttpRequestSpec} (valid : spec.validate transport.parse = .ok ()) :
    execute transport (driverExpand []) spec = execute transport copy spec ↔
      ∀ forceRefresh, Attempted transport spec forceRefresh → AllPlain (sentTexts transport spec forceRefresh) := by
  have guarded : ∀ forceRefresh, Guarded (executeOnce transport (driverExpand []) spec forceRefresh)
      (executeOnce transport copy spec forceRefresh) (AllPlain (sentTexts transport spec forceRefresh)) := executeOnce_guarded spec
  rw [execute, execute, valid]
  have strict : ∀ forceRefresh, (executeOnce transport (driverExpand []) spec forceRefresh).toOption =
      if AllPlain (sentTexts transport spec forceRefresh) then (executeOnce transport copy spec forceRefresh).toOption else none :=
    fun forceRefresh => (guarded forceRefresh).toOption
  cases first : executeOnce transport copy spec false with
  | error error =>
    have none : ∀ sent, executeOnce transport (driverExpand []) spec false ≠ .ok sent := by
      intro sent done
      rw [((guarded false sent).mp done).1] at first
      cases first
    constructor
    · rintro - forceRefresh ⟨sent, done, -⟩
      rw [first] at done
      cases done
    intro _
    cases done : executeOnce transport (driverExpand []) spec false with
    | error _ => rfl
    | ok sent => exact absurd done (none sent)
  | ok sent =>
    by_cases plain : AllPlain (sentTexts transport spec false)
    · have sentToo : executeOnce transport (driverExpand []) spec false = .ok sent := (guarded false sent).mpr ⟨first, plain⟩
      rw [sentToo]
      simp only [List.cons.injEq, true_and]
      split_ifs with retried
      · rw [strict true]
        cases second : executeOnce transport copy spec true with
        | error error =>
          refine iff_of_true (by split_ifs <;> rfl) fun forceRefresh attempted => ?_
          cases forceRefresh with
          | false => exact plain
          | true =>
            obtain ⟨_, _, again⟩ := attempted
            obtain ⟨other, done⟩ := (again rfl).2.2
            rw [second] at done
            cases done
        | ok again =>
          split_ifs with plainAgain
          · refine iff_of_true rfl fun forceRefresh _ => ?_
            cases forceRefresh with
            | false => exact plain
            | true => exact plainAgain
          · exact iff_of_false (fun same => (by cases same))
              fun every => plainAgain (every true ⟨sent, first, fun _ => ⟨retried.1, retried.2, again, second⟩⟩)
      · refine iff_of_true rfl fun forceRefresh attempted => ?_
        obtain ⟨other, same, again⟩ := attempted
        cases forceRefresh with
        | false => exact plain
        | true =>
          rw [first] at same
          cases same
          exact absurd ⟨(again rfl).1, (again rfl).2.1⟩ retried
    · have failed : ∃ error, executeOnce transport (driverExpand []) spec false = .error error := by
        cases done : executeOnce transport (driverExpand []) spec false with
        | error error => exact ⟨error, rfl⟩
        | ok other => exact absurd ((guarded false other).mp done).2 plain
      obtain ⟨error, failed⟩ := failed
      rw [failed]
      refine iff_of_false (fun same => (by cases same)) fun every => plain (every false ⟨sent, first, fun absent => (by cases absent)⟩)

end Driver

end Ramag.HttpDriver
