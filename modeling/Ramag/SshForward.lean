import Ramag.Fields

/-!
The port forwards of a session: their checks, the argument of OpenSSH that they
are written as, and the parser of such arguments.
-/
namespace Ramag.SshForward
open Strings Domain Fields

def MAX_SSH_FORWARD_ADDRESS_BYTES : Nat := 256

inductive SshPortForwardDirection
  | Local
  | Remote
  | Dynamic
  deriving DecidableEq

inductive SshPortForward
  | Local (bindAddress : Option Text) (listenPort : UInt16) (targetHost : Text) (targetPort : UInt16)
  | Remote (bindAddress : Option Text) (listenPort : UInt16) (targetHost : Text) (targetPort : UInt16)
  | Dynamic (bindAddress : Option Text) (listenPort : UInt16)
  deriving DecidableEq

def validateForwardComponent (label value : Text) : Except Text Unit :=
  if value = [] then .error (label ++ "不能为空")
  else if byteLen value > MAX_SSH_FORWARD_ADDRESS_BYTES then
    .error (label ++ "不能超过 " ++ natText MAX_SSH_FORWARD_ADDRESS_BYTES ++ " 字节")
  else if value.any fun c => isControl c || isWhitespace c then .error (label ++ "不能包含空白或控制字符")
  else .ok ()

def validateForwardBindAddress : Option Text → Except Text Unit
  | none => .ok ()
  | some address => do
    validateForwardComponent "监听地址" address
    if address.head? = some '[' || address.getLast? = some ']' then .error "监听地址不要包含 IPv6 方括号" else .ok ()

def validateForwardHost (label host : Text) : Except Text Unit := do
  validateForwardComponent label host
  if host.head? = some '-' || host.head? = some '[' || host.getLast? = some ']' then .error (label ++ "格式无效") else .ok ()

def validateForwardPort (label : Text) (port : UInt16) : Except Text Unit :=
  if port = 0 then .error (label ++ "必须在 1 - 65535 之间") else .ok ()

namespace SshPortForward

def direction : SshPortForward → SshPortForwardDirection
  | .Local .. => .Local
  | .Remote .. => .Remote
  | .Dynamic .. => .Dynamic

def validate : SshPortForward → Except Text Unit
  | .Local bindAddress listenPort targetHost targetPort | .Remote bindAddress listenPort targetHost targetPort => do
    validateForwardBindAddress bindAddress
    validateForwardPort "监听端口" listenPort
    validateForwardHost "目标主机" targetHost
    validateForwardPort "目标端口" targetPort
  | .Dynamic bindAddress listenPort => do
    validateForwardBindAddress bindAddress
    validateForwardPort "监听端口" listenPort

end SshPortForward

def portText (port : UInt16) : Text := natText port.toNat

/-- A host and a port, where a host with colons stands in brackets. -/
def formatHostPort (host : Text) (port : UInt16) : Text :=
  if ':' ∈ host then ['['] ++ host ++ [']', ':'] ++ portText port else host ++ [':'] ++ portText port

def formatListenEndpoint (bindAddress : Option Text) (port : UInt16) : Text :=
  match bindAddress with
  | some address => formatHostPort address port
  | none => portText port

def SshPortForward.openSshArgument (forward : SshPortForward) : Except Text Text := do
  forward.validate
  match forward with
  | .Local bindAddress listenPort targetHost targetPort | .Remote bindAddress listenPort targetHost targetPort =>
    .ok (formatListenEndpoint bindAddress listenPort ++ [':'] ++ formatHostPort targetHost targetPort)
  | .Dynamic bindAddress listenPort => .ok (formatListenEndpoint bindAddress listenPort)

/-! ### Parsing -/

/-- The number of values of a `u16`. -/
def U16_VALUES : Nat := 2 ^ 16

def parsesAsPort (text : Text) : Bool := (parseUnsigned U16_VALUES text).toBool

/-- A port that is not zero. -/
def parsePort (message text : Text) : Except Text UInt16 :=
  match parseUnsigned U16_VALUES text with
  | .ok port => if port > 0 then .ok (UInt16.ofNat port) else .error message
  | .error _ => .error message

variable (value : Text)

/-- The address, and the text from its port on. -/
def parseBindAddress : Except Text (Option Text × Text) :=
  match stripPrefix ['['] value with
  | some value =>
    match splitOnce ']' value with
    | none => .error "SSH 端口转发监听地址缺少 ]"
    | some (address, behind) =>
      match stripPrefix [':'] behind with
      | none => .error "SSH IPv6 监听地址必须使用 [地址]:端口"
      | some remainder => .ok (some address, remainder)
  | none =>
    match splitOnce ':' value with
    | some (first, remainder) => if parsesAsPort first then .ok (none, value) else .ok (some first, remainder)
    | none => .ok (none, value)

/-- The text of the port, and what is behind it. -/
def cutPort (portValue : Text) : Text × Option Text :=
  match splitOnce ':' portValue with
  | some (port, remainder) => (port, some remainder)
  | none => (portValue, none)

def parseListenEndpoint (requireRemainder : Bool) : Except Text (Option Text × UInt16 × Option Text) := do
  let (bindAddress, portValue) ← parseBindAddress value
  let (portText, remainder) := cutPort portValue
  let listenPort ← parsePort "SSH 监听端口必须在 1 - 65535 之间" portText
  if requireRemainder && remainder.all (· = []) then .error "SSH 端口转发缺少目标地址"
  else if !requireRemainder && remainder.isSome then .error "SSH 动态转发只能包含监听地址和监听端口"
  else .ok (bindAddress, listenPort, remainder)

/-- The host, and the text of the port. -/
def cutHostPort : Except Text (Text × Text) :=
  match stripPrefix ['['] value with
  | some value =>
    match splitOnce ']' value with
    | none => .error "SSH 端口转发目标地址缺少 ]"
    | some (host, behind) =>
      match stripPrefix [':'] behind with
      | none => .error "SSH IPv6 目标地址必须使用 [地址]:端口"
      | some port => .ok (host, port)
  | none =>
    match rsplitOnce ':' value with
    | none => .error "SSH 端口转发缺少目标端口"
    | some (host, port) => if ':' ∈ host then .error "SSH IPv6 目标地址必须使用 [地址]:端口" else .ok (host, port)

def parseHostPort : Except Text (Text × UInt16) := do
  let (host, portText) ← cutHostPort value
  let targetPort ← parsePort "SSH 目标端口必须在 1 - 65535 之间" portText
  validateForwardHost "目标主机" host
  .ok (host, targetPort)

/-- The host and the port that a local or remote forward goes to. -/
def parseTarget (message : Text) (remainder : Option Text) : Except Text (Text × UInt16) :=
  match remainder with
  | none => .error message
  | some remainder => parseHostPort remainder

variable (direction : SshPortForwardDirection)

/-- The forward of a direction, from what follows the port to listen on. -/
def makeForward (bindAddress : Option Text) (listenPort : UInt16) (remainder : Option Text) : Except Text SshPortForward :=
  match direction with
  | .Local => do
    let (targetHost, targetPort) ← parseTarget "SSH 本地转发必须包含目标主机和目标端口" remainder
    .ok (.Local bindAddress listenPort targetHost targetPort)
  | .Remote => do
    let (targetHost, targetPort) ← parseTarget "SSH 远程转发必须包含目标主机和目标端口" remainder
    .ok (.Remote bindAddress listenPort targetHost targetPort)
  | .Dynamic => .ok (.Dynamic bindAddress listenPort)

def SshPortForward.parseOpenSshArgument (value : Text) : Except Text SshPortForward :=
  if value = [] then .error "SSH 端口转发参数不能为空"
  else do
    let (bindAddress, listenPort, remainder) ← parseListenEndpoint value (direction ≠ .Dynamic)
    let forwarding ← makeForward direction bindAddress listenPort remainder
    forwarding.validate
    .ok forwarding

/-- The first field, between brackets or up to the next colon, and what is behind the colon. -/
def readField (text : Text) : Option (Text × Option Text) :=
  match stripPrefix ['['] text with
  | some text =>
    match splitOnce ']' text with
    | none => none
    | some (field, []) => some (field, none)
    | some (field, ':' :: rest) => some (field, some rest)
    | some (_, _) => none
  | none =>
    match splitOnce ':' text with
    | some (field, rest) => some (field, some rest)
    | none => some (text, none)

/-- At most so many fields. -/
def readFields : Nat → Text → Option (List Text)
  | 0, _ => none
  | count + 1, text =>
    match readField text with
    | none => none
    | some (field, none) => some [field]
    | some (field, some rest) => (readFields count rest).map (field :: ·)

/-- The parts of a forward. -/
structure Parts where
  bindAddress : Option Text
  listenPort : Nat
  target : Option (Text × Nat)

def readPort (text : Text) : Option Nat := (parseUnsigned U16_VALUES text).toOption

/-- The fields are, from the last one on, the port and the host of the target, the port to
    listen on and the address; a dynamic forward has no target. -/
def openSshReading (argument : Text) : Option Parts :=
  match direction, readFields 4 argument with
  | .Dynamic, some [port] => (readPort port).map fun port => ⟨none, port, none⟩
  | .Dynamic, some [address, port] => (readPort port).map fun port => ⟨some address, port, none⟩
  | .Local, some [port, host, hostPort] | .Remote, some [port, host, hostPort] =>
    (readPort port).bind fun port => (readPort hostPort).map fun hostPort => ⟨none, port, some (host, hostPort)⟩
  | .Local, some [address, port, host, hostPort] | .Remote, some [address, port, host, hostPort] =>
    (readPort port).bind fun port => (readPort hostPort).map fun hostPort => ⟨some address, port, some (host, hostPort)⟩
  | _, _ => none

def SshPortForward.parts : SshPortForward → Parts
  | .Local bindAddress listenPort targetHost targetPort | .Remote bindAddress listenPort targetHost targetPort =>
    ⟨bindAddress, listenPort.toNat, some (targetHost, targetPort.toNat)⟩
  | .Dynamic bindAddress listenPort => ⟨bindAddress, listenPort.toNat, none⟩

/-! ### When an argument is read back -/

open List

variable {port : UInt16}

theorem portText_digit {c : Char} (mem : c ∈ portText port) : c.isDigit = true := natText_isDigit mem

theorem portText_free {sep : Char} (other : sep.isDigit = false) : sep ∉ portText port := by
  intro mem
  simp [portText_digit mem] at other

theorem parseUnsigned_portText (port : UInt16) : parseUnsigned U16_VALUES (portText port) = .ok port.toNat :=
  parseUnsigned_natText port.toNat_lt

theorem parsesAsPort_portText (port : UInt16) : parsesAsPort (portText port) = true := by
  rw [parsesAsPort, parseUnsigned_portText]
  rfl

theorem parsePort_portText (message : Text) (held : port ≠ 0) : parsePort message (portText port) = .ok port := by
  have positive : port.toNat > 0 := by
    by_contra zero
    exact held (UInt16.toNat_inj.mp (by simpa using zero))
  rw [parsePort, parseUnsigned_portText]
  simp [positive]

variable {text : Text}

theorem parsesAsPort_colon (colon : ':' ∈ text) : parsesAsPort text = false := by
  rw [parsesAsPort]
  cases read : parseUnsigned U16_VALUES text with
  | error error => rfl
  | ok port =>
    rcases parseUnsigned_digits read colon with same | digit
    · cases same
    · cases digit

/-- A host can be told from what stands around it. -/
def HostOk (host : Text) : Prop := ':' ∈ host → ']' ∉ host

/-- An address can be told from the port. -/
def AddressOk (address : Text) : Prop := HostOk address ∧ parsesAsPort address = false

instance (host : Text) : Decidable (HostOk host) := inferInstanceAs (Decidable (_ → _))
instance (address : Text) : Decidable (AddressOk address) := inferInstanceAs (Decidable (_ ∧ _))

variable {address host behind : Text} {port : UInt16}

theorem stripPrefix_cons (c : Char) (text : Text) : stripPrefix [c] (c :: text) = some text := stripPrefix_append [c] text

theorem stripPrefix_bracket (other : text.head? ≠ some '[') : stripPrefix ['['] text = none := by
  cases text with
  | nil => rfl
  | cons c text =>
    have apart : '[' ≠ c := fun same => other (by rw [same]; rfl)
    simp [stripPrefix, apart]

theorem stripPrefix_host (held : host ≠ []) (noBracket : host.head? ≠ some '[') (rest : Text) : stripPrefix ['[']
    (host ++ rest) = none := by
  refine stripPrefix_bracket ?_
  cases host with
  | nil => exact absurd rfl held
  | cons c host => exact noBracket

theorem stripPrefix_port (port : UInt16) (rest : Text) : stripPrefix ['['] (portText port ++ rest) = none := by
  refine stripPrefix_host (natText_ne_nil _) (fun bracket => ?_) rest
  have digit := portText_digit (List.mem_of_head? bracket)
  cases digit

theorem formatHostPort_colon (colon : ':' ∈ host) (behind : Text) :
    formatHostPort host port ++ behind = '[' :: (host ++ ']' :: ':' :: (portText port ++ behind)) := by
  simp [formatHostPort, colon]

theorem formatHostPort_plain (plain : ':' ∉ host) (behind : Text) :
    formatHostPort host port ++ behind = host ++ ':' :: (portText port ++ behind) := by
  simp [formatHostPort, plain]

theorem parseBindAddress_host (held : address ≠ []) (noBracket : address.head? ≠ some '[') {rest : Text} :
    parseBindAddress (formatHostPort address port ++ behind) = .ok (some address, rest) ↔
      AddressOk address ∧ rest = portText port ++ behind := by
  by_cases colon : ':' ∈ address
  · have notPort := parsesAsPort_colon colon
    rw [formatHostPort_colon colon, parseBindAddress, stripPrefix_cons]
    by_cases free : ']' ∈ address
    · constructor
      · intro read
        cases split : splitOnce ']' (address ++ ']' :: ':' :: (portText port ++ behind)) with
        | none => simp [split] at read
        | some parts =>
          obtain ⟨front, after⟩ := parts
          simp only [split] at read
          cases behindBracket : stripPrefix [':'] after with
          | none => simp [behindBracket] at read
          | some remainder =>
            simp only [behindBracket, Except.ok.injEq, Prod.mk.injEq, Option.some.injEq] at read
            exact absurd free (read.1 ▸ (splitOnce_some split).1)
      · rintro ⟨⟨fine, -⟩, -⟩
        exact absurd free (fine colon)
    · simp only [splitOnce_part free, stripPrefix_cons]
      simp [AddressOk, HostOk, free, notPort, eq_comm]
  · rw [formatHostPort_plain colon, parseBindAddress, stripPrefix_host held noBracket, splitOnce_part colon]
    cases number : parsesAsPort address with
    | true => simp [AddressOk, number]
    | false => simp [AddressOk, HostOk, colon, number, eq_comm]

theorem parseBindAddress_port (behind : Text) (start : behind = [] ∨ behind.head? = some ':') :
    parseBindAddress (portText port ++ behind) = .ok (none, portText port ++ behind) := by
  have digits : ':' ∉ portText port := portText_free rfl
  rw [parseBindAddress, stripPrefix_port]
  cases behind with
  | nil => rw [append_nil, splitOnce_free digits]
  | cons c behind =>
    have colon : c = ':' := by simpa using start
    subst colon
    rw [splitOnce_part digits]
    simp [parsesAsPort_portText]

/-- What is behind a port. -/
def behindPort : Option Text → Text
  | none => []
  | some remainder => ':' :: remainder

theorem cutPort_port (remainder : Option Text) : cutPort (portText port ++ behindPort remainder) = (portText port, remainder) := by
  have digits : ':' ∉ portText port := portText_free rfl
  cases remainder with
  | none => rw [behindPort, append_nil, cutPort, splitOnce_free digits]
  | some remainder => rw [behindPort, cutPort, splitOnce_part digits]

theorem cutHostPort_host (held : host ≠ []) (noBracket : host.head? ≠ some '[') {text : Text} :
    cutHostPort (formatHostPort host port) = .ok (host, text) ↔ HostOk host ∧ text = portText port := by
  by_cases colon : ':' ∈ host
  · have whole : formatHostPort host port = '[' :: (host ++ ']' :: ':' :: portText port) := by
      simpa using formatHostPort_colon colon []
    rw [whole, cutHostPort, stripPrefix_cons]
    by_cases free : ']' ∈ host
    · constructor
      · intro read
        cases split : splitOnce ']' (host ++ ']' :: ':' :: portText port) with
        | none => simp [split] at read
        | some parts =>
          obtain ⟨front, after⟩ := parts
          simp only [split] at read
          cases behindBracket : stripPrefix [':'] after with
          | none => simp [behindBracket] at read
          | some remainder =>
            simp only [behindBracket, Except.ok.injEq, Prod.mk.injEq] at read
            exact absurd free (read.1 ▸ (splitOnce_some split).1)
      · rintro ⟨fine, -⟩
        exact absurd free (fine colon)
    · simp only [splitOnce_part free, stripPrefix_cons]
      simp [HostOk, free, eq_comm]
  · have whole : formatHostPort host port = host ++ ':' :: portText port := by
      simpa using formatHostPort_plain colon []
    rw [whole, cutHostPort, stripPrefix_host held noBracket, rsplitOnce_part host (portText_free rfl)]
    simp [HostOk, colon, eq_comm]

/-! ### Valid forwards -/

variable {label : Text}

theorem component_held {value : Text} (valid : validateForwardComponent label value = .ok ()) : value ≠ [] := by
  rintro rfl
  cases valid

theorem validateForwardHost_ok (valid : validateForwardHost label host = .ok ()) : host ≠ [] ∧ host.head? ≠ some '[' := by
  obtain ⟨⟨⟩, component, rest⟩ := bind_ok valid
  refine ⟨component_held component, fun bracket => ?_⟩
  simp [bracket] at rest

theorem validateForwardBindAddress_ok (valid : validateForwardBindAddress (some address) = .ok ()) :
    address ≠ [] ∧ address.head? ≠ some '[' := by
  obtain ⟨⟨⟩, component, rest⟩ := bind_ok valid
  refine ⟨component_held component, fun bracket => ?_⟩
  simp [bracket] at rest

theorem validateForwardPort_ok (valid : validateForwardPort label port = .ok ()) : port ≠ 0 := by
  rintro rfl
  cases valid

theorem parseHostPort_host (valid : validateForwardHost "目标主机" host = .ok ()) (held : port ≠ 0) :
    parseHostPort (formatHostPort host port) = .ok (host, port) ↔ HostOk host := by
  obtain ⟨filled, noBracket⟩ := validateForwardHost_ok valid
  constructor
  · intro read
    obtain ⟨⟨front, text⟩, cut, rest⟩ := bind_ok read
    obtain ⟨number, -, rest⟩ := bind_ok rest
    obtain ⟨⟨⟩, -, same⟩ := bind_ok rest
    cases same
    exact ((cutHostPort_host filled noBracket).mp cut).1
  · intro fine
    have cut : cutHostPort (formatHostPort host port) = .ok (host, portText port) := (cutHostPort_host filled noBracket).mpr ⟨fine, rfl⟩
    rw [parseHostPort, bind_ok_iff]
    refine ⟨_, cut, bind_ok_iff.mpr ⟨port, parsePort_portText _ held, bind_ok_iff.mpr ⟨(), valid, rfl⟩⟩⟩

/-- An address can be told from the port, if there is one. -/
def BindOk (bindAddress : Option Text) : Prop := ∀ address ∈ bindAddress, AddressOk address

instance (bindAddress : Option Text) : Decidable (BindOk bindAddress) :=
  match bindAddress with
  | none => isTrue nofun
  | some address => decidable_of_iff (AddressOk address) (by simp [BindOk])

variable {bindAddress : Option Text} {remainder : Option Text}

variable {rest : Text}

theorem parseBindAddress_listen (valid : validateForwardBindAddress bindAddress = .ok ()) :
    parseBindAddress (formatListenEndpoint bindAddress port ++ behindPort remainder) = .ok (bindAddress, rest) ↔
      BindOk bindAddress ∧ rest = portText port ++ behindPort remainder := by
  cases bindAddress with
  | none =>
    have start : behindPort remainder = [] ∨ (behindPort remainder).head? = some ':' := by
      cases remainder with
      | none => exact .inl rfl
      | some remainder => exact .inr rfl
    rw [formatListenEndpoint, parseBindAddress_port _ start]
    simp [BindOk, eq_comm]
  | some address =>
    obtain ⟨held, noBracket⟩ := validateForwardBindAddress_ok valid
    rw [formatListenEndpoint, parseBindAddress_host held noBracket]
    simp [BindOk]

/-- The remainder fits the direction. -/
def Fits (remainder : Option Text) (requireRemainder : Bool) : Prop :=
  if requireRemainder then ∃ text, remainder = some text ∧ text ≠ [] else remainder = none

theorem parseListenEndpoint_listen (valid : validateForwardBindAddress bindAddress = .ok ()) (held : port ≠ 0) {requireRemainder : Bool}
    (fits : Fits remainder requireRemainder) {listenPort : UInt16} {rest : Option Text} :
    parseListenEndpoint (formatListenEndpoint bindAddress port ++ behindPort remainder) requireRemainder =
        .ok (bindAddress, listenPort, rest) ↔ BindOk bindAddress ∧ listenPort = port ∧ rest = remainder := by
  constructor
  · intro read
    obtain ⟨⟨address, portValue⟩, parsed, after⟩ := bind_ok read
    cases cut : cutPort portValue with
    | mk text found =>
      simp only [cut] at after
      obtain ⟨number, portRead, after⟩ := bind_ok after
      split_ifs at after
      cases after
      obtain ⟨fine, rfl⟩ := (parseBindAddress_listen valid).mp parsed
      rw [cutPort_port] at cut
      cases cut
      rw [parsePort_portText _ held] at portRead
      cases portRead
      exact ⟨fine, rfl, rfl⟩
  · rintro ⟨fine, rfl, rfl⟩
    refine bind_ok_iff.mpr ⟨_, (parseBindAddress_listen valid).mpr ⟨fine, rfl⟩, ?_⟩
    simp only [cutPort_port]
    refine bind_ok_iff.mpr ⟨listenPort, parsePort_portText _ held, ?_⟩
    cases requireRemainder with
    | true =>
      obtain ⟨text, rfl, filled⟩ := fits
      simp [filled]
    | false =>
      cases fits
      rfl

theorem formatHostPort_ne_nil (host : Text) (port : UInt16) : formatHostPort host port ≠ [] := by
  unfold formatHostPort
  split_ifs <;> simp

theorem listen_ne_nil (bindAddress : Option Text) (port : UInt16) : formatListenEndpoint bindAddress port ≠ [] := by
  cases bindAddress with
  | none => exact natText_ne_nil _
  | some address => exact formatHostPort_ne_nil address port

theorem parse_ends {targetPort : UInt16} (bindValid : validateForwardBindAddress bindAddress = .ok ()) (listens : port ≠ 0)
    (hostValid : validateForwardHost "目标主机" host = .ok ()) (held : targetPort ≠ 0) (message : Text) (rest : Option Text) :
    parseListenEndpoint (formatListenEndpoint bindAddress port ++ [':'] ++ formatHostPort host targetPort) true =
        .ok (bindAddress, port, rest) ∧ parseTarget message rest = .ok (host, targetPort) ↔
      (BindOk bindAddress ∧ HostOk host) ∧ rest = some (formatHostPort host targetPort) := by
  have fits : Fits (some (formatHostPort host targetPort)) true := ⟨_, rfl, formatHostPort_ne_nil host targetPort⟩
  have listen : parseListenEndpoint (formatListenEndpoint bindAddress port ++ behindPort (some (formatHostPort host targetPort)))
      true = .ok (bindAddress, port, rest) ↔ _ := parseListenEndpoint_listen bindValid listens fits
  have target := parseHostPort_host hostValid held
  rw [append_assoc]
  constructor
  · rintro ⟨ends, parsed⟩
    obtain ⟨fine, -, rfl⟩ := listen.mp ends
    exact ⟨⟨fine, target.mp parsed⟩, rfl⟩
  · rintro ⟨⟨fine, clear⟩, rfl⟩
    exact ⟨listen.mpr ⟨fine, rfl, rfl⟩, target.mpr clear⟩

namespace SshPortForward

/-- The argument has one reading. -/
def Unambiguous (forward : SshPortForward) : Prop :=
  BindOk forward.parts.bindAddress ∧ ∀ target ∈ forward.parts.target, HostOk target.1

variable {forward : SshPortForward} {argument : Text}

/-- An argument is read back exactly when it has one reading. -/
theorem parse_argument (written : forward.openSshArgument = .ok argument) :
    parseOpenSshArgument forward.direction argument = .ok forward ↔ forward.Unambiguous := by
  obtain ⟨⟨⟩, valid, text⟩ := bind_ok written
  cases forward with
  | Local bindAddress listenPort targetHost targetPort | Remote bindAddress listenPort targetHost targetPort =>
    obtain ⟨⟨⟩, bindValid, rest⟩ := bind_ok valid
    obtain ⟨⟨⟩, listens, rest⟩ := bind_ok rest
    obtain ⟨⟨⟩, hostValid, held⟩ := bind_ok rest
    have ends := parse_ends bindValid (validateForwardPort_ok listens) hostValid (validateForwardPort_ok held)
    cases text
    have filled : formatListenEndpoint bindAddress listenPort ++ [':'] ++ formatHostPort targetHost targetPort ≠ [] := by simp
    simp only [parseOpenSshArgument, if_neg filled]
    constructor
    · intro parsed
      simp only [bind_ok_iff] at parsed
      obtain ⟨⟨address, number, remainder⟩, listen, forwarding, made, ⟨⟩, -, same⟩ := parsed
      cases same
      obtain ⟨⟨found, foundPort⟩, target, same⟩ := bind_ok made
      cases same
      have fine := ((ends _ _).mp ⟨listen, target⟩).1
      simpa [Unambiguous, parts] using fine
    · intro fine
      obtain ⟨listen, target⟩ := (ends _ _).mpr ⟨by simpa [Unambiguous, parts] using fine, rfl⟩
      refine bind_ok_iff.mpr ⟨_, listen, bind_ok_iff.mpr ⟨_, bind_ok_iff.mpr ⟨_, target, rfl⟩, ?_⟩⟩
      exact bind_ok_iff.mpr ⟨(), valid, rfl⟩
  | Dynamic bindAddress listenPort =>
    cases text
    obtain ⟨⟨⟩, bindValid, portValid⟩ := bind_ok valid
    have listen : ∀ rest, parseListenEndpoint (formatListenEndpoint bindAddress listenPort ++ behindPort none) false =
        .ok (bindAddress, listenPort, rest) ↔ BindOk bindAddress ∧ listenPort = listenPort ∧ rest = none :=
      fun rest => parseListenEndpoint_listen bindValid (validateForwardPort_ok portValid) (show Fits none false from rfl)
    rw [behindPort, append_nil] at listen
    simp only [parseOpenSshArgument, if_neg (listen_ne_nil bindAddress listenPort)]
    constructor
    · intro parsed
      simp only [bind_ok_iff] at parsed
      obtain ⟨⟨address, number, remainder⟩, ends, forwarding, made, ⟨⟩, -, same⟩ := parsed
      cases same
      cases made
      exact ⟨((listen _).mp ends).1, nofun⟩
    · rintro ⟨fine, -⟩
      refine bind_ok_iff.mpr ⟨_, (listen none).mpr ⟨fine, rfl, rfl⟩, bind_ok_iff.mpr ⟨_, rfl, ?_⟩⟩
      exact bind_ok_iff.mpr ⟨(), valid, rfl⟩

end SshPortForward

theorem readField_host (held : host ≠ []) (noBracket : host.head? ≠ some '[') (fine : HostOk host) (behind : Text) :
    readField (formatHostPort host port ++ behind) = some (host, some (portText port ++ behind)) := by
  by_cases colon : ':' ∈ host
  · rw [formatHostPort_colon colon, readField, stripPrefix_cons]
    simp [splitOnce_part (fine colon)]
  · rw [formatHostPort_plain colon, readField, stripPrefix_host held noBracket]
    simp [splitOnce_part colon]

theorem readField_port (remainder : Option Text) : readField (portText port ++ behindPort remainder) = some (portText port, remainder) := by
  have digits : ':' ∉ portText port := portText_free rfl
  rw [readField, stripPrefix_port]
  cases remainder with
  | none => simp [behindPort, splitOnce_free digits]
  | some remainder => simp [behindPort, splitOnce_part digits]

theorem readPort_portText (port : UInt16) : readPort (portText port) = some port.toNat := by
  rw [readPort, parseUnsigned_portText]
  rfl

variable {count : Nat}

theorem readFields_some {field : Text} (first : readField text = some (field, some rest)) :
    readFields (count + 1) text = (readFields count rest).map (field :: ·) := by
  rw [readFields, first]

theorem readFields_last : readFields (count + 1) (portText port) = some [portText port] := by
  have last : readField (portText port ++ behindPort none) = some (portText port, none) := readField_port none
  rw [behindPort, append_nil] at last
  rw [readFields, last]

theorem readFields_listen (valid : validateForwardBindAddress bindAddress = .ok ()) (fine : BindOk bindAddress) :
    readFields 4 (formatListenEndpoint bindAddress port) = some (bindAddress.toList ++ [portText port]) := by
  cases bindAddress with
  | none => exact readFields_last
  | some address =>
    obtain ⟨held, noBracket⟩ := validateForwardBindAddress_ok valid
    have first : readField (formatHostPort address port ++ []) = some (address, some (portText port ++ [])) :=
      readField_host held noBracket (fine address rfl).1 []
    rw [append_nil, append_nil] at first
    rw [formatListenEndpoint, readFields_some first, readFields_last]
    rfl

theorem readFields_host (valid : validateForwardHost label host = .ok ()) (fine : HostOk host) :
    readFields (count + 2) (formatHostPort host port) = some [host, portText port] := by
  obtain ⟨held, noBracket⟩ := validateForwardHost_ok valid
  have first : readField (formatHostPort host port ++ []) = some (host, some (portText port ++ [])) := readField_host held noBracket fine []
  rw [append_nil, append_nil] at first
  rw [readFields_some first, readFields_last]
  rfl

theorem readFields_target {targetPort : UInt16} (valid : validateForwardBindAddress bindAddress = .ok ())
    (fine : BindOk bindAddress) (hostValid : validateForwardHost label host = .ok ()) (hostFine : HostOk host) :
    readFields 4 (formatListenEndpoint bindAddress port ++ [':'] ++ formatHostPort host targetPort) =
      some (bindAddress.toList ++ [portText port, host, portText targetPort]) := by
  have second : readField (portText port ++ ':' :: formatHostPort host targetPort) =
      some (portText port, some (formatHostPort host targetPort)) := readField_port (some (formatHostPort host targetPort))
  rw [append_assoc, singleton_append]
  cases bindAddress with
  | none =>
    rw [formatListenEndpoint, readFields_some second, readFields_host hostValid hostFine]
    rfl
  | some address =>
    obtain ⟨held, noBracket⟩ := validateForwardBindAddress_ok valid
    rw [formatListenEndpoint, readFields_some (readField_host held noBracket (fine address rfl).1 _), readFields_some second,
      readFields_host hostValid hostFine]
    rfl

namespace SshPortForward

variable {forward : SshPortForward} {argument : Text}

theorem openSshReading_argument (written : forward.openSshArgument = .ok argument) (fine : forward.Unambiguous) :
    openSshReading forward.direction argument = some forward.parts := by
  obtain ⟨⟨⟩, valid, text⟩ := bind_ok written
  obtain ⟨bindFine, targetFine⟩ := fine
  cases forward with
  | Local bindAddress listenPort targetHost targetPort | Remote bindAddress listenPort targetHost targetPort =>
    obtain ⟨⟨⟩, bindValid, rest⟩ := bind_ok valid
    obtain ⟨⟨⟩, -, rest⟩ := bind_ok rest
    obtain ⟨⟨⟩, hostValid, -⟩ := bind_ok rest
    have hostFine : HostOk targetHost := targetFine _ rfl
    cases text
    unfold openSshReading
    rw [readFields_target bindValid bindFine hostValid hostFine]
    cases bindAddress with
    | none | some address => simp [readPort_portText, direction, parts]

  | Dynamic bindAddress listenPort =>
    obtain ⟨⟨⟩, bindValid, -⟩ := bind_ok valid
    cases text
    unfold openSshReading
    rw [readFields_listen bindValid bindFine]
    cases bindAddress with
    | none | some address => simp [readPort_portText, direction, parts]

end SshPortForward

/-- The address that stands in brackets. -/
def bracketedAddress (text : Text) : Option Text :=
  (stripPrefix ['['] text).bind fun text => (splitOnce ']' text).map Prod.fst

/-- An address that was parsed can be told from the port unless it is a number in brackets. -/
theorem bindOk_parsed (parsed : parseBindAddress text = .ok (bindAddress, rest)) :
    BindOk bindAddress ↔ ∀ address ∈ bracketedAddress text, parsesAsPort address = false := by
  unfold parseBindAddress at parsed
  unfold bracketedAddress
  cases bracket : stripPrefix ['['] text with
  | none =>
    simp only [bracket] at parsed
    refine ⟨fun _ => nofun, fun _ => ?_⟩
    cases split : splitOnce ':' text with
    | none =>
      simp only [split, Except.ok.injEq, Prod.mk.injEq] at parsed
      exact parsed.1 ▸ nofun
    | some cut =>
      obtain ⟨first, remainder⟩ := cut
      simp only [split] at parsed
      cases number : parsesAsPort first with
      | true =>
        simp only [number, if_true, Except.ok.injEq, Prod.mk.injEq] at parsed
        exact parsed.1 ▸ nofun
      | false =>
        simp only [number, Bool.false_eq_true, if_false, Except.ok.injEq, Prod.mk.injEq] at parsed
        rintro address mem
        rw [← parsed.1] at mem
        cases mem
        exact ⟨fun colon => absurd colon (splitOnce_some split).1, number⟩
  | some inner =>
    simp only [bracket] at parsed
    cases split : splitOnce ']' inner with
    | none => simp [split] at parsed
    | some cut =>
      obtain ⟨address, behind⟩ := cut
      simp only [split] at parsed
      cases colon : stripPrefix [':'] behind with
      | none => simp [colon] at parsed
      | some remainder =>
        simp only [colon, Except.ok.injEq, Prod.mk.injEq] at parsed
        obtain ⟨rfl, -⟩ := parsed
        have clear : HostOk address := fun _ => (splitOnce_some split).1
        simp [BindOk, AddressOk, clear, split]

theorem hostOk_cut {portText : Text} (cut : cutHostPort text = .ok (host, portText)) : HostOk host := by
  unfold cutHostPort at cut
  cases bracket : stripPrefix ['['] text with
  | some inner =>
    simp only [bracket] at cut
    cases split : splitOnce ']' inner with
    | none => simp [split] at cut
    | some parts =>
      obtain ⟨front, behind⟩ := parts
      simp only [split] at cut
      cases colon : stripPrefix [':'] behind with
      | none => simp [colon] at cut
      | some remainder =>
        simp only [colon, Except.ok.injEq, Prod.mk.injEq] at cut
        exact fun _ => cut.1 ▸ (splitOnce_some split).1
  | none =>
    simp only [bracket] at cut
    cases split : rsplitOnce ':' text with
    | none => simp [split] at cut
    | some parts =>
      simp only [split] at cut
      split_ifs at cut with colon
      simp only [Except.ok.injEq, Prod.mk.injEq] at cut
      exact fun there => absurd (cut.1 ▸ there) colon

theorem hostOk_parsed {message : Text} {remainder : Option Text} (parsed : parseTarget message remainder = .ok (host, port)) :
    HostOk host := by
  cases remainder with
  | none => cases parsed
  | some remainder =>
    obtain ⟨⟨front, text⟩, cut, rest⟩ := bind_ok parsed
    obtain ⟨number, -, rest⟩ := bind_ok rest
    obtain ⟨⟨⟩, -, same⟩ := bind_ok rest
    cases same
    exact hostOk_cut cut

namespace SshPortForward

variable {direction : SshPortForwardDirection} {bindAddress : Option Text} {listenPort : UInt16} {remainder : Option Text}
  {forward : SshPortForward} {text : Text}

theorem makeForward_ok (made : makeForward direction bindAddress listenPort remainder = .ok forward) :
    forward.direction = direction ∧ forward.parts.bindAddress = bindAddress ∧ ∀ target ∈ forward.parts.target, HostOk target.1 := by
  cases direction with
  | Local | Remote =>
    obtain ⟨⟨host, port⟩, target, same⟩ := bind_ok made
    cases same
    refine ⟨rfl, rfl, fun target' mem => ?_⟩
    cases mem
    exact hostOk_parsed target
  | Dynamic =>
    cases made
    exact ⟨rfl, rfl, nofun⟩

theorem parse_ok (parsed : parseOpenSshArgument direction text = .ok forward) : forward.direction = direction ∧ forward.validate = .ok () ∧
      (forward.Unambiguous ↔ ∀ address ∈ bracketedAddress text, parsesAsPort address = false) := by
  unfold parseOpenSshArgument at parsed
  split_ifs at parsed
  simp only [bind_ok_iff] at parsed
  obtain ⟨⟨bindAddress, listenPort, remainder⟩, listen, made, making, ⟨⟩, valid, same⟩ := parsed
  cases same
  obtain ⟨⟨address, portValue⟩, bound, rest⟩ := bind_ok listen
  obtain ⟨number, -, rest⟩ := bind_ok rest
  split_ifs at rest
  cases rest
  obtain ⟨direct, bindSame, hosts⟩ := makeForward_ok making
  refine ⟨direct, valid, ?_⟩
  rw [← bindOk_parsed bound, Unambiguous, bindSame]
  exact ⟨And.left, fun fine => ⟨fine, hosts⟩⟩

theorem argument_of_valid (valid : forward.validate = .ok ()) : ∃ argument, forward.openSshArgument = .ok argument := by
  cases forward <;> exact ⟨_, bind_ok_iff.mpr ⟨(), valid, rfl⟩⟩

end SshPortForward

open SshPortForward

/-- A valid forward is read back from its argument, as OpenSSH reads it, exactly when its address is no
    number and neither it nor its host holds a bracket next to a colon; what parses is, exactly when it
    has no number in brackets. -/
theorem forward_round_trip (forward : SshPortForward) (direction : SshPortForwardDirection) (text : Text) :
    (∀ argument, forward.openSshArgument = .ok argument → (parseOpenSshArgument forward.direction argument = .ok forward ∧
        openSshReading forward.direction argument = some forward.parts ↔ forward.Unambiguous)) ∧
    ∀ parsed, parseOpenSshArgument direction text = .ok parsed →
      ((∃ argument, parsed.openSshArgument = .ok argument ∧ parseOpenSshArgument direction argument = .ok parsed) ↔
        ∀ address ∈ bracketedAddress text, parsesAsPort address = false) := by
  refine ⟨fun argument written => ?_, fun _ parsed => ?_⟩
  · rw [← parse_argument written]
    exact ⟨And.left, fun back => ⟨back, openSshReading_argument written ((parse_argument written).mp back)⟩⟩
  obtain ⟨rfl, valid, clear⟩ := parse_ok parsed
  obtain ⟨argument, written⟩ := argument_of_valid valid
  rw [← clear, ← parse_argument written]
  constructor
  · rintro ⟨other, same, back⟩
    rw [written] at same
    cases same
    exact back
  · intro back
    exact ⟨argument, written, back⟩

def tunnel (bindAddress : Option Text) : SshPortForward := .Local bindAddress 22 "db" 80

theorem forward_round_trip_host : parseOpenSshArgument .Local "[::1]:22:db:80" = .ok (tunnel (some "::1")) ∧
      ∃ argument, (tunnel (some "::1")).openSshArgument = .ok argument ∧
        parseOpenSshArgument .Local argument = .ok (tunnel (some "::1")) := by
  have fine : (tunnel (some "::1")).Unambiguous := by
    refine ⟨show BindOk (some "::1") by decide, ?_⟩
    rintro target ⟨⟩
    decide
  have both := forward_round_trip (tunnel (some "::1")) .Local "[::1]:22:db:80"
  have parsed := ((both.1 "[::1]:22:db:80" (by decide)).mpr fine).1
  exact ⟨parsed, (both.2 _ parsed).mpr (by decide)⟩

/-- A number as address is read as the port. -/
theorem number_misread : ¬ ∀ forward argument, forward.openSshArgument = .ok argument →
    parseOpenSshArgument forward.direction argument = .ok forward := by
  intro law
  have written : (tunnel (some "8080")).openSshArgument = .ok "8080:22:db:80" := by decide
  have misread := law _ _ written
  revert misread
  decide

end Ramag.SshForward
