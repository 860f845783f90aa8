import Ramag.HttpDriver

/-!
The expanded copy of a request has every templated field expanded once, and is on
the wire as it is when it is copied; the driver copies it unless a placeholder
can be read in it.
-/
namespace Ramag.HttpDriver
open Strings Domain ApiChecks ApiRequest

section Copies

variable (value : Text → Option Text)

def ParameterExpands (parameter resolved : ApiParameter) : Prop :=
  Expands value parameter.name resolved.name ∧ Expands value parameter.value resolved.value ∧ resolved.sensitive = parameter.sensitive

inductive ContentExpands : ApiMultipartValue → ApiMultipartValue → Prop
  | text {template result : Text} : Expands value template result → ContentExpands (.Text template) (.Text result)
  | file {path path' : Text} {fileName fileName' : Option Text} : Expands value path path' → Option.Rel (Expands value) fileName fileName' →
      ContentExpands (.File path fileName) (.File path' fileName')

structure PartExpands (part resolved : ApiMultipartPart) : Prop where
  name : Expands value part.name resolved.name
  contentType : Option.Rel (Expands value) part.contentType resolved.contentType
  content : ContentExpands value part.value resolved.value
  sensitive : resolved.sensitive = part.sensitive

inductive BodyExpands : ApiBody → ApiBody → Prop
  | text {template result : Text} {contentType contentType' : Option Text} {parts : List ApiMultipartPart} :
      Expands value template result → Option.Rel (Expands value) contentType contentType' →
      BodyExpands ⟨.Text, contentType, template, parts⟩ (.ofText result contentType')
  | multipart {template : Text} {contentType : Option Text} {parts resolved : List ApiMultipartPart} :
      List.Forall₂ (PartExpands value) parts resolved → BodyExpands ⟨.Multipart, contentType, template, parts⟩ (.ofParts resolved)

structure ConfigExpands (config resolved : ApiOAuth2Config) : Prop where
  tokenUrl : Expands value config.tokenUrl resolved.tokenUrl
  clientId : Expands value config.clientId resolved.clientId
  clientSecret : Expands value config.clientSecret resolved.clientSecret
  scope : Option.Rel (Expands value) config.scope resolved.scope

inductive AuthExpands : ApiAuth → ApiAuth → Prop
  | none : AuthExpands .None .None
  | basic {username password username' password' : Text} : Expands value username username' → Expands value password password' →
      AuthExpands (.Basic username password) (.Basic username' password')
  | bearer {token token' : Text} : Expands value token token' → AuthExpands (.Bearer token) (.Bearer token')
  | oauth2 {config config' : ApiOAuth2Config} : ConfigExpands value config config' → AuthExpands (.OAuth2 config) (.OAuth2 config')
  | apiKey {name name' key key' : Text} {location : ApiKeyLocation} : Expands value name name' → Expands value key key' →
      AuthExpands (.ApiKey name key location) (.ApiKey name' key' location)

structure ProxyExpands (proxy resolved : ApiProxyConfig) : Prop where
  url : Option.Rel (Expands value) proxy.url resolved.url
  username : Option.Rel (Expands value) proxy.username resolved.username
  password : Option.Rel (Expands value) proxy.password resolved.password

/-- Every templated field of a request is expanded once, the others stay. -/
structure OnceExpanded (spec resolved : HttpRequestSpec) : Prop where
  method : resolved.method = spec.method
  url : Expands value spec.urlTemplate resolved.urlTemplate
  query : List.Forall₂ (ParameterExpands value) spec.query resolved.query
  headers : List.Forall₂ (ParameterExpands value) spec.headers resolved.headers
  auth : AuthExpands value spec.auth resolved.auth
  body : Option.Rel (BodyExpands value) spec.body resolved.body
  tls : resolved.tls = spec.tls
  proxy : ProxyExpands value spec.proxy resolved.proxy
  timeoutMillis : resolved.timeoutMillis = spec.timeoutMillis

end Copies

def valueIn (variables' : List (Text × Text)) (name : Text) : Option Text := variables'.lookup name

/-- The names that an environment's check lets pass. -/
def Named (variables' : List (Text × Text)) : Prop :=
  ∀ variable' ∈ variables', validateProtocolName "API Environment 变量名" variable'.1 MAX_API_VARIABLE_NAME_BYTES = .ok ()

section Resolve

variable {variables' : List (Text × Text)} (named : Named variables')
include named

theorem named_checked {name value : Text} (known : valueIn variables' name = some value) :
    ¬ (name = [] ∨ byteLen name > MAX_API_VARIABLE_NAME_BYTES) := by
  obtain ⟨before, behind, whole, -⟩ := List.lookup_eq_some_iff.mp known
  have mem : (name, value) ∈ variables' := whole ▸ List.mem_append_right _ List.mem_cons_self
  obtain ⟨_, required, -⟩ := bind_ok (named _ mem)
  unfold validateRequiredText at required
  by_cases blank : trim name = []
  · rw [if_pos blank] at required
    cases required
  rw [if_neg blank] at required
  unfold validateText at required
  rintro (empty | long)
  · rw [empty] at blank
    exact blank rfl
  · rw [if_pos long] at required
    cases required

variable {label : Text} {limit : Nat}

theorem resolveTemplate_ok {template output : Text} : resolveTemplate template variables' label limit = .ok output ↔
    Expands (valueIn variables') template output ∧ byteLen output ≤ limit := by
  have value : (fun name : Text => (if name = [] ∨ byteLen name > MAX_API_VARIABLE_NAME_BYTES then .error (label ++ "变量名无效")
      else variableOf variables' name : Except Text Text).toOption) = valueIn variables' := by
    funext name
    cases known : valueIn variables' name with
    | none =>
      split_ifs
      · rfl
      · rw [variableOf, show variables'.lookup name = none from known]
        rfl
    | some value =>
      rw [if_neg (named_checked named known), variableOf, show variables'.lookup name = some value from known]
      rfl
  rw [resolveTemplate, bind_ok_iff]
  simp only [expandPieces_ok (Nat.le_refl _), value, withinBytes_ok]
  constructor
  · rintro ⟨_, expands, rfl, short⟩
    exact ⟨expands, short⟩
  · rintro ⟨expands, short⟩
    exact ⟨output, expands, rfl, short⟩

theorem expand_ok {template output : Text} (done : ApiRequest.expand variables' template label limit = .ok output) :
    Expands (valueIn variables') template output := ((resolveTemplate_ok named).mp (mapError_ok done)).1

theorem expandOption_ok {template output : Option Text}
    (done : expandOption (ApiRequest.expand variables') label limit template = .ok output) :
    Option.Rel (Expands (valueIn variables')) template output := by
  cases template with
  | none =>
    cases done
    exact .none
  | some template =>
    rw [expandOption] at done
    cases expanded : ApiRequest.expand variables' template label limit with
    | error error =>
      rw [expanded] at done
      cases done
    | ok result =>
      rw [expanded] at done
      cases done
      exact .some (expand_ok named expanded)

theorem copyParameter_ok {parameter resolved : ApiParameter}
    (done : copyParameter (ApiRequest.expand variables') label parameter = .ok resolved) : ParameterExpands (valueIn variables') parameter resolved := by
  obtain ⟨name, name', done⟩ := bind_ok done
  obtain ⟨value, value', done⟩ := bind_ok done
  cases done
  exact ⟨expand_ok named name', expand_ok named value', rfl⟩

theorem parameters_ok {parameters resolved : List ApiParameter}
    (done : parameters.mapM (copyParameter (ApiRequest.expand variables') label) = .ok resolved) :
    List.Forall₂ (ParameterExpands (valueIn variables')) parameters resolved :=
  (mapM_ok_iff.mp done).imp fun _ _ each => copyParameter_ok named each

theorem resolvePart_ok {part resolved : ApiMultipartPart} (done : resolvePart (ApiRequest.expand variables') part = .ok resolved) :
    PartExpands (valueIn variables') part resolved := by
  obtain ⟨name, name', done⟩ := bind_ok done
  obtain ⟨contentType, contentType', done⟩ := bind_ok done
  obtain ⟨content, content', done⟩ := bind_ok done
  cases done
  refine ⟨expand_ok named name', expandOption_ok named contentType', ?_, rfl⟩
  cases held : part.value with
  | Text value =>
    rw [held] at content'
    obtain ⟨value', expanded, done⟩ := bind_ok content'
    cases done
    exact .text (expand_ok named expanded)
  | File path fileName =>
    rw [held] at content'
    obtain ⟨path', expanded, done⟩ := bind_ok content'
    obtain ⟨fileName', expanded', done⟩ := bind_ok done
    cases done
    exact .file (expand_ok named expanded) (expandOption_ok named expanded')

theorem resolveBody_ok {body resolved : ApiBody} (done : resolveBody (ApiRequest.expand variables') body = .ok resolved) :
    BodyExpands (valueIn variables') body resolved := by
  obtain ⟨mode, contentType, value, parts⟩ := body
  cases mode with
  | Text =>
    obtain ⟨value', expanded, done⟩ := bind_ok done
    obtain ⟨contentType', expanded', done⟩ := bind_ok done
    cases done
    exact .text (expand_ok named expanded) (expandOption_ok named expanded')
  | Multipart =>
    obtain ⟨parts', expanded, done⟩ := bind_ok done
    cases done
    exact .multipart ((mapM_ok_iff.mp expanded).imp fun _ _ each => resolvePart_ok named each)

theorem resolveOptionalBody_ok {body resolved : Option ApiBody}
    (done : resolveOptionalBody (ApiRequest.expand variables') body = .ok resolved) :
    Option.Rel (BodyExpands (valueIn variables')) body resolved := by
  cases body with
  | none =>
    cases done
    exact .none
  | some body =>
    rw [resolveOptionalBody] at done
    cases expanded : resolveBody (ApiRequest.expand variables') body with
    | error error =>
      rw [expanded] at done
      cases done
    | ok result =>
      rw [expanded] at done
      cases done
      exact .some (resolveBody_ok named expanded)

theorem resolveAuth_ok {auth resolved : ApiAuth} (done : resolveAuth (ApiRequest.expand variables') auth = .ok resolved) :
    AuthExpands (valueIn variables') auth resolved := by
  cases auth with
  | None =>
    cases done
    exact .none
  | Basic username password =>
    obtain ⟨_, first, done⟩ := bind_ok done
    obtain ⟨_, second, done⟩ := bind_ok done
    cases done
    exact .basic (expand_ok named first) (expand_ok named second)
  | Bearer token =>
    obtain ⟨_, first, done⟩ := bind_ok done
    cases done
    exact .bearer (expand_ok named first)
  | OAuth2 config =>
    obtain ⟨_, copied, done⟩ := bind_ok done
    cases done
    obtain ⟨_, tokenUrl, copied⟩ := bind_ok copied
    obtain ⟨_, clientId, copied⟩ := bind_ok copied
    obtain ⟨_, clientSecret, copied⟩ := bind_ok copied
    obtain ⟨_, scope, copied⟩ := bind_ok copied
    cases copied
    exact .oauth2 ⟨expand_ok named tokenUrl, expand_ok named clientId, expand_ok named clientSecret, expandOption_ok named scope⟩
  | ApiKey name value location =>
    obtain ⟨_, first, done⟩ := bind_ok done
    obtain ⟨_, second, done⟩ := bind_ok done
    cases done
    exact .apiKey (expand_ok named first) (expand_ok named second)

theorem resolveHttpRequest_ok {parse : Text → Option Url} {spec resolved : HttpRequestSpec}
    (done : resolveHttpRequest parse spec variables' = .ok resolved) :
    OnceExpanded (valueIn variables') spec resolved ∧ resolved.validate parse = .ok () := by
  obtain ⟨proxy, proxied, done⟩ := bind_ok done
  obtain ⟨url, located, done⟩ := bind_ok done
  obtain ⟨query, asked, done⟩ := bind_ok done
  obtain ⟨headers, headed, done⟩ := bind_ok done
  obtain ⟨auth, allowed, done⟩ := bind_ok done
  obtain ⟨body, bodied, done⟩ := bind_ok done
  obtain ⟨_, valid, done⟩ := bind_ok done
  cases done
  refine ⟨?_, mapError_ok valid⟩
  obtain ⟨_, proxyUrl, proxied⟩ := bind_ok proxied
  obtain ⟨_, username, proxied⟩ := bind_ok proxied
  obtain ⟨_, password, proxied⟩ := bind_ok proxied
  obtain ⟨_, -, proxied⟩ := bind_ok proxied
  cases proxied
  constructor
  case method | tls | timeoutMillis => rfl
  case url => exact expand_ok named located
  case query => exact parameters_ok named asked
  case headers => exact parameters_ok named headed
  case auth => exact resolveAuth_ok named allowed
  case body => exact resolveOptionalBody_ok named bodied
  case proxy => exact ⟨expandOption_ok named proxyUrl, expandOption_ok named username, expandOption_ok named password⟩

end Resolve

/-! ### Requests without placeholders -/

def authFields : ApiAuth → List Text
  | .None => []
  | .Basic username password => [username, password]
  | .Bearer token => [token]
  | .OAuth2 config => configTexts config
  | .ApiKey name value _ => [name, value]

def bodyFields : Option ApiBody → List Text
  | none => []
  | some body => body.value :: (body.contentType.toList ++ body.multipart.flatMap partTexts)

/-- Every templated field of a request. -/
def recordTexts (spec : HttpRequestSpec) : List Text :=
  proxyTexts spec.proxy ++ (spec.urlTemplate :: (spec.query.flatMap parameterTexts ++ (spec.headers.flatMap parameterTexts ++
    (authFields spec.auth ++ bodyFields spec.body))))

theorem forall₂_same {α : Type} {relation : α → α → Prop} {items results : List α} (related : List.Forall₂ relation items results)
    (each : ∀ item ∈ items, ∀ result, relation item result → result = item) : results = items := by
  induction related with
  | nil => rfl
  | cons first _ ih => rw [each _ List.mem_cons_self _ first, ih fun item mem => each item (List.mem_cons_of_mem _ mem)]

section Unchanged

variable {value : Text → Option Text}

theorem option_same {template result : Option Text} (plain : AllPlain template.toList)
    (expands : Option.Rel (Expands value) template result) : result = template := by
  cases expands with
  | none => rfl
  | some expands => rw [(expands_plain (plain _ (List.mem_singleton_self _))).mp expands]

theorem parameters_same {parameters resolved : List ApiParameter} (plain : AllPlain (parameters.flatMap parameterTexts))
    (expands : List.Forall₂ (ParameterExpands value) parameters resolved) : resolved = parameters := by
  refine forall₂_same expands fun parameter mem result each => ?_
  obtain ⟨name, value', sensitive⟩ := each
  obtain ⟨plainName, plainValue⟩ := allPlain_cons.mp (allPlain_flatMap.mp plain parameter mem)
  obtain ⟨resultName, resultValue, resultSensitive⟩ := result
  cases (expands_plain plainName).mp name
  cases (expands_plain (allPlain_cons.mp plainValue).1).mp value'
  cases sensitive
  rfl

theorem part_same {part resolved : ApiMultipartPart} (plain : AllPlain (partTexts part)) (expands : PartExpands value part resolved) :
    resolved = part := by
  obtain ⟨name, contentType, content, sensitive⟩ := expands
  obtain ⟨partName, partContent, partType, partSensitive⟩ := part
  obtain ⟨resultName, resultContent, resultType, resultSensitive⟩ := resolved
  obtain ⟨plainName, plain⟩ := allPlain_cons.mp plain
  obtain ⟨plainType, plainContent⟩ := allPlain_append.mp plain
  cases (expands_plain plainName).mp name
  cases option_same plainType contentType
  cases sensitive
  cases content with
  | text expands =>
    cases (expands_plain (allPlain_cons.mp plainContent).1).mp expands
    rfl
  | file path fileName =>
    obtain ⟨plainPath, plainFile⟩ := allPlain_cons.mp plainContent
    cases (expands_plain plainPath).mp path
    cases option_same plainFile fileName
    rfl

variable {spec : HttpRequestSpec}

theorem validateBody_shape (valid : validateBody spec = .ok ()) {body : ApiBody} (held : spec.body = some body) :
    body = match body.mode with
      | .Text => .ofText body.value body.contentType
      | .Multipart => .ofParts body.multipart := by
  unfold validateBody at valid
  rw [held] at valid
  obtain ⟨mode, contentType, value, parts⟩ := body
  cases mode with
  | Text =>
    by_cases mixed : parts ≠ []
    · simp only [ApiBody.validate, if_pos mixed] at valid
      cases valid
    · rw [not_not.mp mixed]
      rfl
  | Multipart =>
    by_cases mixed : value ≠ [] ∨ contentType ≠ none
    · simp only [ApiBody.validate, if_pos mixed] at valid
      cases valid
    · rw [not_or, not_not, not_not] at mixed
      rw [mixed.1, mixed.2]
      rfl

theorem body_same (valid : validateBody spec = .ok ()) {resolved : Option ApiBody} (plain : AllPlain (bodyFields spec.body))
    (expands : Option.Rel (BodyExpands value) spec.body resolved) : resolved = spec.body := by
  cases held : spec.body with
  | none =>
    rw [held] at expands
    cases expands
    rfl
  | some body =>
    have shape := validateBody_shape valid held
    rw [held] at expands plain
    cases expands with
    | some expands =>
      obtain ⟨plainValue, plain⟩ := allPlain_cons.mp plain
      obtain ⟨plainType, plainParts⟩ := allPlain_append.mp plain
      cases expands with
      | text expanded typed =>
        rw [(expands_plain plainValue).mp expanded, option_same plainType typed]
        exact congrArg some shape.symm
      | multipart parts =>
        rw [forall₂_same parts fun part mem result => part_same (allPlain_flatMap.mp plainParts part mem)]
        exact congrArg some shape.symm

theorem auth_same {auth resolved : ApiAuth} (plain : AllPlain (authFields auth))
    (expands : AuthExpands value auth resolved) : resolved = auth := by
  cases expands with
  | none => rfl
  | basic first second | apiKey first second =>
    obtain ⟨plain, rest⟩ := allPlain_cons.mp plain
    rw [(expands_plain plain).mp first, (expands_plain (allPlain_cons.mp rest).1).mp second]
  | bearer first => rw [(expands_plain (allPlain_cons.mp plain).1).mp first]
  | @oauth2 config config' expands =>
    obtain ⟨tokenUrl, clientId, clientSecret, scope⟩ := expands
    obtain ⟨plainUrl, plain⟩ := allPlain_cons.mp plain
    obtain ⟨plainId, plain⟩ := allPlain_cons.mp plain
    obtain ⟨plainSecret, plainScope⟩ := allPlain_cons.mp plain
    obtain ⟨_, _, _, _⟩ := config
    cases (expands_plain plainUrl).mp tokenUrl
    cases (expands_plain plainId).mp clientId
    cases (expands_plain plainSecret).mp clientSecret
    cases option_same plainScope scope
    rfl

theorem proxy_same {proxy resolved : ApiProxyConfig} (plain : AllPlain (proxyTexts proxy)) (expands : ProxyExpands value proxy resolved) :
    resolved = proxy := by
  obtain ⟨plainUrl, plain⟩ := allPlain_append.mp plain
  obtain ⟨plainUsername, plainPassword⟩ := allPlain_append.mp plain
  show (⟨resolved.url, resolved.username, resolved.password⟩ : ApiProxyConfig) = proxy
  rw [option_same plainUrl expands.url, option_same plainUsername expands.username, option_same plainPassword expands.password]

theorem OnceExpanded.same {parse : Text → Option Url} {resolved : HttpRequestSpec} (expanded : OnceExpanded value spec resolved)
    (valid : spec.validate parse = .ok ()) (plain : AllPlain (recordTexts spec)) : resolved = spec := by
  obtain ⟨_, -, valid⟩ := bind_ok valid
  obtain ⟨_, -, valid⟩ := bind_ok valid
  obtain ⟨_, -, valid⟩ := bind_ok valid
  obtain ⟨_, -, valid⟩ := bind_ok valid
  obtain ⟨_, -, valid⟩ := bind_ok valid
  obtain ⟨_, bodyValid, -⟩ := bind_ok valid
  obtain ⟨plainProxy, plain⟩ := allPlain_append.mp plain
  obtain ⟨plainUrl, plain⟩ := allPlain_cons.mp plain
  obtain ⟨plainQuery, plain⟩ := allPlain_append.mp plain
  obtain ⟨plainHeaders, plain⟩ := allPlain_append.mp plain
  obtain ⟨plainAuth, plainBody⟩ := allPlain_append.mp plain
  show (⟨resolved.method, resolved.urlTemplate, resolved.query, resolved.headers, resolved.auth, resolved.body, resolved.tls, resolved.proxy,
    resolved.timeoutMillis⟩ : HttpRequestSpec) = spec
  rw [expanded.method, (expands_plain plainUrl).mp expanded.url, parameters_same plainQuery expanded.query,
    parameters_same plainHeaders expanded.headers, auth_same plainAuth expanded.auth, body_same bodyValid plainBody expanded.body, expanded.tls,
    proxy_same plainProxy expanded.proxy, expanded.timeoutMillis]

end Unchanged

def carried (parameter : ApiParameter) : ExpandedParameter := (parameter.name, parameter.value, parameter.sensitive)

section Carried

variable (transport : Transport)

/-- The content of a part: its text, or the file at its path. -/
inductive ContentCarried : ApiMultipartValue → SentContent → Prop
  | text {value : Text} : ContentCarried (.Text value) (.Text value)
  | file {path : Text} {fileName : Option Text} {bytes : List UInt8} : transport.readFile path = .ok bytes →
      ContentCarried (.File path fileName) (.File bytes ((fileName.or (transport.fileName path)).getD "file"))

structure PartCarried (part : ApiMultipartPart) (sent : SentPart) : Prop where
  name : sent.name = part.name
  contentType : sent.contentType = part.contentType
  content : ContentCarried transport part.value sent.content

inductive BodyCarried : Option ApiBody → SentBody → Prop
  | empty : BodyCarried none .Empty
  | text {value : Text} {contentType sentType : Option Text} {parts : List ApiMultipartPart} : sentType = none ∨ sentType = contentType →
      BodyCarried (some ⟨.Text, contentType, value, parts⟩) (.Text value sentType)
  | multipart {value : Text} {contentType : Option Text} {parts : List ApiMultipartPart} {sent : List SentPart} :
      List.Forall₂ (PartCarried transport) parts sent → BodyCarried (some ⟨.Multipart, contentType, value, parts⟩) (.Multipart sent)

/-- The fields of a request are on the wire as they are, with what the authentication adds behind them. -/
structure Carries (spec : HttpRequestSpec) (forceRefresh : Bool) (sent : Sent) : Prop where
  method : sent.method = spec.method
  url : sent.url = spec.urlTemplate
  parameters : ∃ auth added, bearerAuth transport copy spec spec.proxy forceRefresh = .ok auth ∧ applyAuth transport copy auth = .ok added ∧
    sent.query = spec.query.map carried ++ added.1 ∧ sent.headers = spec.headers.map carried ++ added.2
  body : BodyCarried transport spec.body sent.body
  tls : sent.tls = spec.tls
  proxy : sent.proxy = spec.proxy
  timeoutMillis : sent.timeoutMillis = spec.timeoutMillis

variable {transport}

theorem parameters_carried {label : Text} {parameters : List ApiParameter} {results : List ExpandedParameter}
    (done : parameters.mapM (expandParameter copy label) = .ok results) : results = parameters.map carried := by
  have each := mapM_ok_iff.mp done
  induction each with
  | nil => rfl
  | @cons parameter result _ _ first _ ih =>
    obtain ⟨name, copied, first⟩ := bind_ok first
    obtain ⟨value, copied', first⟩ := bind_ok first
    cases first
    rw [ih (mapM_ok_iff.mpr ‹_›), (copy_ok.mp copied).1, (copy_ok.mp copied').1]
    rfl

theorem partContent_carried {total after : Nat} {value : ApiMultipartValue} {content : SentContent}
    (done : partContent transport copy total value = .ok (content, after)) : ContentCarried transport value content := by
  cases value with
  | Text value =>
    obtain ⟨value', copied, done⟩ := bind_ok done
    obtain ⟨_, -, done⟩ := bind_ok done
    cases done
    cases (copy_ok.mp copied).1
    exact .text
  | File path fileName =>
    obtain ⟨path', copied, done⟩ := bind_ok done
    obtain ⟨bytes, read, done⟩ := bind_ok done
    obtain ⟨_, -, done⟩ := bind_ok done
    obtain ⟨fileName', copied', done⟩ := bind_ok done
    cases done
    cases (copy_ok.mp copied).1
    cases expandOption_copy copied'
    exact .file read

theorem multipartForm_carried {total : Nat} {parts : List ApiMultipartPart} {sent : List SentPart}
    (done : multipartForm transport copy total parts = .ok sent) : List.Forall₂ (PartCarried transport) parts sent := by
  induction parts generalizing total sent with
  | nil =>
    cases done
    exact .nil
  | cons part parts ih =>
    obtain ⟨name, named, done⟩ := bind_ok done
    obtain ⟨contentType, typed, done⟩ := bind_ok done
    obtain ⟨⟨content, after⟩, filled, done⟩ := bind_ok done
    obtain ⟨_, -, done⟩ := bind_ok done
    obtain ⟨rest, others, done⟩ := bind_ok done
    cases done
    exact .cons ⟨(copy_ok.mp named).1, expandOption_copy typed, partContent_carried filled⟩ (ih others)

variable {headers : List ExpandedParameter}

theorem bodyContentType_ok {contentType sentType : Option Text}
    (done : bodyContentType transport headers contentType = .ok sentType) : sentType = none ∨ sentType = contentType := by
  cases contentType with
  | none => exact .inl (Except.ok.inj done).symm
  | some contentType =>
    rw [bodyContentType] at done
    by_cases given : hasHeader headers "content-type" = true
    · rw [if_pos given] at done
      exact .inl (Except.ok.inj done).symm
    rw [if_neg given] at done
    split_ifs at done with held
    · exact .inr (Except.ok.inj done).symm
    · cases done

theorem sentBody_carried {body : Option ApiBody} {sent : SentBody}
    (done : sentBody transport copy headers body = .ok sent) : BodyCarried transport body sent := by
  cases body with
  | none =>
    cases done
    exact .empty
  | some body =>
    obtain ⟨mode, contentType, value, parts⟩ := body
    cases mode with
    | Text =>
      obtain ⟨value', copied, done⟩ := bind_ok done
      obtain ⟨sentType, typed, done⟩ := bind_ok done
      cases done
      cases (copy_ok.mp copied).1
      exact .text (bodyContentType_ok typed)
    | Multipart =>
      obtain ⟨sent', formed, done⟩ := bind_ok done
      cases done
      exact .multipart (multipartForm_carried formed)

theorem executeOnce_carries {spec : HttpRequestSpec} {forceRefresh : Bool} {sent : Sent}
    (done : executeOnce transport copy spec forceRefresh = .ok sent) : Carries transport spec forceRefresh sent := by
  obtain ⟨proxy, proxied, done⟩ := bind_ok done
  cases resolveProxyConfig_copy proxied
  simp only [bind_ok_iff] at done
  obtain ⟨_, -, _, -, url, located, _, -, query, asked, headers, headed, _, -, auth, given, added, applied, _, -, body, formed,
    done⟩ := done
  cases done
  constructor
  case method | tls | proxy | timeoutMillis => rfl
  case url => exact (copy_ok.mp located).1
  case parameters => exact ⟨auth, added, given, applied, by rw [parameters_carried asked], by rw [parameters_carried headed]⟩
  case body => exact sentBody_carried formed

end Carried

/-- The requests that the expanded copy is sent as. -/
def sentOnce (transport : Transport) (spec : HttpRequestSpec) (variables' : List (Text × Text)) : List Sent :=
  match spec.validate transport.parse, resolveHttpRequest transport.parse spec variables' with
  | .ok _, .ok resolved => execute transport copy resolved
  | _, _ => []

/-- No placeholder can be read in the expanded copy of a request or in its token. -/
def Undisturbed (transport : Transport) (spec : HttpRequestSpec) (variables' : List (Text × Text)) : Prop :=
  spec.validate transport.parse = .ok () → ∀ resolved, resolveHttpRequest transport.parse spec variables' = .ok resolved →
    ∀ forceRefresh, Attempted transport resolved forceRefresh → AllPlain (sentTexts transport resolved forceRefresh)

/-- Templates are expanded in a single pass, and every field of a request is expanded once by the
    application; the requests sent are those of the expanded copy exactly if no placeholder can be
    read in it. -/
theorem sent_expanded_once (transport : Transport) {variables' : List (Text × Text)} (named : Named variables') (spec : HttpRequestSpec) :
    (∀ template label limit output, resolveTemplate template variables' label limit = .ok output ↔
      Expands (valueIn variables') template output ∧ byteLen output ≤ limit) ∧
    (∀ resolved, resolveHttpRequest transport.parse spec variables' = .ok resolved → OnceExpanded (valueIn variables') spec resolved ∧
      (spec.validate transport.parse = .ok () → AllPlain (recordTexts spec) → resolved = spec)) ∧
    (∀ resolved forceRefresh sent, executeOnce transport copy resolved forceRefresh = .ok sent → Carries transport resolved forceRefresh sent) ∧
    (executeRecord transport spec variables' = sentOnce transport spec variables' ↔ Undisturbed transport spec variables') := by
  refine ⟨fun template label limit output => resolveTemplate_ok named, fun resolved done => ?_,
    fun resolved forceRefresh sent done => executeOnce_carries done, ?_⟩
  · have expanded := (resolveHttpRequest_ok named done).1
    exact ⟨expanded, fun valid plain => expanded.same valid plain⟩
  rw [executeRecord, sentOnce, Undisturbed]
  cases valid : spec.validate transport.parse with
  | error error => exact iff_of_true rfl fun absent => (by cases absent)
  | ok _ =>
    cases done : resolveHttpRequest transport.parse spec variables' with
    | error error => exact iff_of_true rfl fun _ resolved absent => (by cases absent)
    | ok resolved =>
      simp only
      rw [execute_same (resolveHttpRequest_ok named done).2]
      constructor
      · rintro plain - other same
        cases same
        exact plain
      · exact fun plain => plain trivial resolved rfl

section Note

def HOME : Text := "http://api/"

/-- A transport for one address, without files and tokens. -/
def homeTransport : Transport where
  parse t := if t = HOME then some ⟨"http", [], none, some "api", some 80, ['/'], none, none⟩ else none
  buildClient _ _ := .ok ()
  isMethod method := method.all Char.isUpper
  isHeaderName name := name.all fun c => c.isAlphanum || c == '-'
  isHeaderValue value := value.all fun c => 32 ≤ c.toNat && c.toNat < 127
  isMime _ := false
  accessToken _ _ _ _ _ := refuse []
  base64 t := t
  readFile _ := refuse []
  fileName _ := none
  status _ := 200

def noteRequest (value : Text) : HttpRequestSpec :=
  { method := "GET", urlTemplate := HOME, headers := [⟨"X-Note", value, false⟩] }

def noteVariable (value : Text) : List (Text × Text) := [("note", value)]

theorem note_named (value : Text) : Named (noteVariable value) := by
  intro variable' mem
  have checked : validateProtocolName "API Environment 变量名" "note" MAX_API_VARIABLE_NAME_BYTES = .ok () := by decide +kernel
  rw [List.mem_singleton.mp mem]
  exact checked

def noteTemplate : Text := "\x7b\x7bnote\x7d\x7d"

theorem sent_expanded_once_note : executeRecord homeTransport (noteRequest noteTemplate) (noteVariable "hi") =
    sentOnce homeTransport (noteRequest noteTemplate) (noteVariable "hi") := by
  refine (sent_expanded_once homeTransport (note_named "hi") (noteRequest noteTemplate)).2.2.2.mpr ?_
  intro _ resolved done
  have copied : resolveHttpRequest homeTransport.parse (noteRequest noteTemplate) (noteVariable "hi") = .ok (noteRequest "hi") := by
    decide +kernel
  rw [copied] at done
  cases done
  intro forceRefresh _
  cases forceRefresh <;> decide +kernel

/-- A value that looks like a placeholder is not sent. -/
theorem note_refused : ¬ ∀ (transport : Transport) (variables' : List (Text × Text)), Named variables' → ∀ spec,
    executeRecord transport spec variables' = sentOnce transport spec variables' := by
  intro every
  have same := every homeTransport (noteVariable "\x7b\x7bx\x7d\x7d") (note_named _) (noteRequest noteTemplate)
  revert same
  decide +kernel

end Note

end Ramag.HttpDriver
