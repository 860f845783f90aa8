import Mathlib
import Ramag.ConnectionRepo
import Ramag.Utf8Decoding

/-!
Connection URIs: the one that the form is filled with, which leaves out the
password, and the parser of the ones that are pasted.
-/
namespace Ramag.ConnectionUri
open Strings Domain Fields ByteTexts Utf8Decoding
open ConnectionRepo (ConnectionConfig)

def MAX_URI_BYTES : Nat := 256 * 1024

structure UriParts where
  driverId : Text
  host : Text
  port : Option Nat
  username : Text
  password : Text
  database : Option Text
  authSource : Option Text
  tls : Bool
  deriving DecidableEq

/-- A digit of `X` in a format string. -/
def hexDigit (n : Nat) : Char := (Nat.digitChar n).toUpper

/-- A byte as it is, if it may stand for itself, and else escaped. -/
def encodeByte (kept : Char → Bool) (byte : UInt8) : Text :=
  if kept (Char.ofNat byte.toNat) then [Char.ofNat byte.toNat]
  else ['%', hexDigit (byte.toNat / 16), hexDigit (byte.toNat % 16)]

def isUnreserved (c : Char) : Bool := c.isAlphanum || "-._~".toList.contains c

def isPathChar (c : Char) : Bool := c.isAlphanum || "-._~/ :".toList.contains c && c ≠ ' '

def percentEncode (value : Text) : Text := (asBytes value).flatMap (encodeByte isUnreserved)

def percentEncodePath (value : Text) : Text := (asBytes value).flatMap (encodeByte isPathChar)

def hexValue (byte : UInt8) : Option UInt8 :=
  if 48 ≤ byte && byte ≤ 57 then some (byte - 48)
  else if 97 ≤ byte && byte ≤ 102 then some (byte - 97 + 10)
  else if 65 ≤ byte && byte ≤ 70 then some (byte - 65 + 10)
  else none

/-- The loop of `percent_decode`; a percent sign begins a character, so what is left is a text. -/
def decodeBytes : List UInt8 → Except Text (List UInt8)
  | [] => .ok []
  | byte :: bytes =>
    if byte = 37 then
      match bytes with
      | high :: low :: rest =>
        match hexValue high, hexValue low with
        | some highValue, some lowValue => (decodeBytes rest).map ((highValue <<< 4 ||| lowValue) :: ·)
        | _, _ => .error ("百分号编码无效：%" ++ [Char.ofNat high.toNat, Char.ofNat low.toNat])
      | _ => .error ("百分号编码不完整：" ++ (decode (byte :: bytes)).getD [])
    else (decodeBytes bytes).map (byte :: ·)

def percentDecode (s : Text) : Except Text Text := do
  let bytes ← decodeBytes (asBytes s)
  match decode bytes with
  | some text => .ok text
  | none => .error ("百分号解码结果不是有效 UTF-8：" ++ utf8Error bytes)

def scheme : DriverKind → Bool → Text
  | .Redis, true => "rediss"
  | .Mysql, _ => "mysql"
  | .Postgres, _ => "postgres"
  | .Sqlite, _ => "sqlite"
  | .Redis, false => "redis"
  | .Mongodb, _ => "mongodb"

/-- The second byte is a colon, which is so only behind a character of one byte. -/
def isColonSecond : Text → Bool
  | first :: ':' :: _ => first.toNat < 128
  | _ => false

/-- A letter of ASCII and a colon. -/
def isDrive : Text → Bool
  | letter :: ':' :: _ => letter.isAlpha
  | _ => false

def sqliteUri (path : Text) : Text :=
  if path = ":memory:" then "sqlite::memory:"
  else
    let path := replaceChar '\\' ['/'] path
    let encoded := percentEncodePath path
    if path.head? = some '/' then "sqlite://" ++ encoded
    else if isColonSecond path then "sqlite:///" ++ encoded
    else "sqlite://" ++ encoded

variable (config : ConnectionConfig)

/-- The user name in front of the host. -/
def userPart : Text :=
  if config.username = [] then [] else percentEncode config.username ++ ['@']

def hostPart : Text :=
  if ':' ∈ config.host ∧ config.host.head? ≠ some '[' then '[' :: config.host ++ [']'] else config.host

def databasePart : Text :=
  match config.database with
  | some database => if database = [] then [] else '/' :: percentEncode database
  | none => []

def queryItems : List Text :=
  (if config.tls ∧ config.driver ≠ .Redis then ["tls=true".toList] else []) ++
    match config.driver, config.authSource with
    | .Mongodb, some authSource => if authSource = [] then [] else ["authSource=" ++ percentEncode authSource]
    | _, _ => []

def queryPart : Text :=
  if queryItems config = [] then [] else '?' :: ['&'].intercalate (queryItems config)

def connectionUriWithoutPassword : Text :=
  if config.driver = .Sqlite then sqliteUri config.host
  else
    scheme config.driver config.tls ++ "://" ++ (userPart config ++ (hostPart config ++ ':' :: natText config.port.val ++
      databasePart config ++ queryPart config))

/-! ### Parsing -/

def parsePort (raw : Text) : Except Text Nat :=
  match parseUnsigned (2 ^ 16) raw with
  | .ok port => if port = 0 then .error "端口须为 1 - 65535" else .ok port
  | .error _ => .error ("端口不是有效数字：" ++ raw)

def parseHostPort (hostport : Text) : Except Text (Text × Option Nat) :=
  match hostport with
  | '[' :: bracketed =>
    match splitOnce ']' bracketed with
    | none => .error "IPv6 主机缺少右方括号 ]"
    | some (host, suffix) =>
      if host = [] then .error "URI 缺少主机地址"
      else
        match suffix with
        | [] => .ok (host, none)
        | ':' :: port => (parsePort port).map fun port => (host, some port)
        | _ => .error "IPv6 主机右方括号后只能跟 :port"
  | _ =>
    if hostport.count ':' > 1 then .error "IPv6 地址须使用方括号，例如 mongodb://[::1]:27017"
    else
      match rsplitOnce ':' hostport with
      | some (host, port) => (parsePort port).map fun port => (host, some port)
      | none => .ok (hostport, none)

def parseSslMode (value : Text) : Except Text Bool :=
  let mode := replaceChar '_' ['-'] (toAsciiLowercase value)
  if ["disable", "disabled", "allow", "prefer", "preferred"].any (·.toList = mode) then .ok false
  else if ["require", "required", "verify-ca", "verify-full", "verify-identity"].any (·.toList = mode) then .ok true
  else .error ("URI 参数 sslmode 值不支持：" ++ mode)

variable (driverId : Text)

/-- One pair of the query, with the values so far of TLS and of `authSource`. -/
def readPair (tls : Bool) (authSource : Option Text) (pair : Text) : Except Text (Bool × Option Text) :=
  let (k, v) := (splitOnce '=' pair).getD (pair, [])
  let key := toAsciiLowercase k
  if key = "tls" ∨ key = "ssl" then
    if toAsciiLowercase v = "true" then .ok (true, authSource)
    else if toAsciiLowercase v = "false" then .ok (false, authSource)
    else .error ("URI 参数「" ++ k ++ "」须为 true 或 false")
  else if (key = "sslmode" ∨ key = "ssl-mode") ∧ (driverId = "mysql" ∨ driverId = "postgres") then
    (parseSslMode v).map (·, authSource)
  else if key = "authsource" ∧ driverId = "mongodb" then
    (percentDecode v).map fun v => (tls, if v = [] then authSource else some v)
  else if ["replicaset", "readpreference", "directconnection", "loadbalanced"].any (·.toList = key) ∧ driverId = "mongodb" then
    .error ("URI 参数「" ++ k ++ "」影响连接拓扑，本表单不支持；请移除后重试（将单主机直连）")
  else .ok (tls, authSource)

def readPairs (driverId : Text) : Bool → Option Text → List Text → Except Text (Bool × Option Text)
  | tls, authSource, [] => .ok (tls, authSource)
  | tls, authSource, pair :: pairs => do
    let (tls, authSource) ← readPair driverId tls authSource pair
    readPairs driverId tls authSource pairs

def parseQuery (tls : Bool) : Option Text → Except Text (Bool × Option Text)
  | none => .ok (tls, none)
  | some query => readPairs driverId tls none (query.splitOn '&')

def parseDatabase : Option Text → Except Text (Option Text)
  | none => .ok none
  | some raw => (percentDecode raw).map fun database => if database = [] then none else some database

def parseUserinfo : Option Text → Except Text (Text × Text)
  | none => .ok ([], [])
  | some userinfo =>
    match splitOnce ':' userinfo with
    | some (name, pass) => do
      let name ← percentDecode name
      let pass ← percentDecode pass
      .ok (name, pass)
    | none => (percentDecode userinfo).map (·, [])

/-- The number of a Redis database is checked at once. -/
def checkDatabase (database : Option Text) : Except Text Unit :=
  match database with
  | some db =>
    if driverId = "redis" ∧ (parseUnsigned (2 ^ 8) db).toBool = false then
      .error ("Redis URI 的库号须为 0 - 255 的数字：" ++ db)
    else .ok ()
  | none => .ok ()

/-- The text in front of a separator, and the one behind it. -/
def cutAt (sep : Char) (t : Text) : Text × Option Text :=
  match splitOnce sep t with
  | some (front, back) => (front, some back)
  | none => (t, none)

/-- The text in front of the last separator, and the one behind it. -/
def cutAtLast (sep : Char) (t : Text) : Option Text × Text :=
  match rsplitOnce sep t with
  | some (front, back) => (some front, back)
  | none => (none, t)

def checkHostport (hostport : Text) : Except Text Unit :=
  if ',' ∈ hostport then .error "URI 含多个主机（副本集拓扑），本表单仅支持单主机直连；请填写要直连的那台节点" else .ok ()

def checkHost (host : Text) : Except Text Unit := if host = [] then .error "URI 缺少主机地址" else .ok ()

/-- The text behind the scheme. -/
def parseRest (tls : Bool) (rest : Text) : Except Text UriParts := do
  checkHost rest
  let (main, query) := cutAt '?' rest
  let (authority, database) := cutAt '/' main
  let database ← parseDatabase database
  let (userinfo, hostport) := cutAtLast '@' authority
  let (username, password) ← parseUserinfo userinfo
  checkHostport hostport
  let (host, port) ← parseHostPort hostport
  checkHost host
  checkDatabase driverId database
  let (tls, authSource) ← parseQuery driverId tls query
  .ok { driverId, host, port, username, password, database, authSource, tls }

def parseSqliteUri (raw : Text) : Except Text UriParts :=
  match (stripPrefix "sqlite://" raw).or (stripPrefix "sqlite:" raw) with
  | none => .error "SQLite URI 须以 sqlite:// 开头"
  | some path =>
    if path = [] then .error "SQLite URI 缺少数据库文件路径"
    else if '?' ∈ path then .error "SQLite URI 暂不支持查询参数，请只填写数据库文件路径"
    else do
      let path ← percentDecode path
      let path := if path.head? = some '/' ∧ isDrive path.tail then path.tail else path
      if path = [] then .error "SQLite URI 缺少数据库文件路径"
      else .ok ⟨"sqlite", path, none, [], [], none, none, false⟩

/-- The driver of a scheme, and whether it is one with TLS. -/
def schemes : List (Text × Text × Bool) :=
  [("mysql", "mysql://", false), ("postgres", "postgres://", false), ("postgres", "postgresql://", false), ("redis", "redis://", false),
    ("redis", "rediss://", true), ("mongodb", "mongodb://", false)]

def parseConnectionUri (raw : Text) : Except Text UriParts :=
  if byteLen raw > MAX_URI_BYTES then
    .error ("URI 过长：" ++ natText (byteLen raw) ++ " bytes，最多 " ++ natText MAX_URI_BYTES ++ " bytes")
  else
    let raw := trim raw
    if "sqlite:".toList.isPrefixOf raw then parseSqliteUri raw
    else if "mongodb+srv://".toList.isPrefixOf raw then
      .error "mongodb+srv 需 DNS SRV 解析，暂不支持；请改用标准 mongodb:// 地址"
    else
      match schemes.findSome? fun (driver, scheme, tls) => (stripPrefix scheme raw).map (driver, tls, ·) with
      | some (driverId, tls, rest) => parseRest driverId tls rest
      | none => .error "URI 须以 mysql:// / postgres:// / sqlite:// / redis://（rediss://）/ mongodb:// 开头"

/-- The parts that the parser would find if it read the connection back. -/
def uriParts : UriParts where
  driverId := match config.driver with
    | .Mysql => "mysql"
    | .Postgres => "postgres"
    | .Sqlite => "sqlite"
    | .Redis => "redis"
    | .Mongodb => "mongodb"
  host := if config.driver = .Sqlite then replaceChar '\\' ['/'] config.host else config.host
  port := if config.driver = .Sqlite then none else some config.port.val
  username := config.username
  password := []
  database := config.database
  authSource := config.authSource
  tls := config.tls

/-- A path that is no drive behind a slash, and whose second byte is no colon unless it is a drive. -/
def isWritablePath (path : Text) : Bool :=
  path = ":memory:" || if path.head? = some '/' then !isDrive path.tail else !isColonSecond path || isDrive path

/-- The host does not hold what the parser cuts at, and is not in brackets. -/
def isWritableHost (host : Text) : Bool :=
  !host.any ("/?@,".toList.contains ·) && host.head? ≠ some '[' && !(host.contains ':' && host.contains ']')

def Writable : Prop :=
  if config.driver = .Sqlite then isWritablePath (replaceChar '\\' ['/'] config.host) = true
  else isWritableHost config.host = true ∧ config.database ≠ some [] ∧
    (config.driver = .Redis → ∀ database ∈ config.database, (parseUnsigned (2 ^ 8) database).toBool = true) ∧
    if config.driver = .Mongodb then config.authSource ≠ some [] else config.authSource = none

/-! ### When the URI is read back -/

open List

/-- A character that stands for itself is ASCII and no percent sign. -/
def Plain (kept : Char → Bool) : Prop := ∀ c, kept c = true → c.toNat < 128 ∧ c ≠ '%'

theorem each_char {P : Char → Prop} [DecidablePred P] {t : Text} (checked : t.all (fun c => decide (P c)) = true) : ∀ c ∈ t, P c := by
  simpa using checked

variable {c : Char}

theorem isAlphanum_plain (alphanum : c.isAlphanum = true) : c.toNat < 128 ∧ c ≠ '%' := by
  simp only [Char.isAlphanum, Bool.or_eq_true] at alphanum
  refine ⟨?_, fun same => ?_⟩
  · rcases alphanum with letter | digit
    · have range := alpha_range letter
      omega
    · have range := digit_range digit
      omega
  · subst same
    revert alphanum
    decide

theorem plain_unreserved : Plain isUnreserved := by
  intro c kept
  have marks : ∀ c ∈ "-._~".toList, c.toNat < 128 ∧ c ≠ '%' := each_char (by decide)
  rcases Bool.or_eq_true_iff.mp kept with alphanum | mark
  · exact isAlphanum_plain alphanum
  · exact marks c (contains_iff_mem.mp mark)

theorem plain_path : Plain isPathChar := by
  intro c kept
  have marks : ∀ c ∈ "-._~/ :".toList, c.toNat < 128 ∧ c ≠ '%' := each_char (by decide)
  rcases Bool.or_eq_true_iff.mp kept with alphanum | mark
  · exact isAlphanum_plain alphanum
  · exact marks c (contains_iff_mem.mp (Bool.and_eq_true_iff.mp mark).1)

theorem hexDigit_small : ∀ n < 16, (hexDigit n).toNat < 128 := by decide

theorem hexValue_hexDigit : ∀ n < 16, hexValue (hexDigit n).toNat.toUInt8 = some n.toUInt8 := by decide

theorem halves (byte : UInt8) : (byte.toNat / 16).toUInt8 <<< 4 ||| (byte.toNat % 16).toUInt8 = byte := by
  have all : ∀ n < 256, ((n / 16).toUInt8 <<< (4 : UInt8) ||| (n % 16).toUInt8 : UInt8) = n.toUInt8 := by decide +kernel
  rw [all byte.toNat byte.toNat_lt]
  exact UInt8.ofNat_toNat

theorem decodeBytes_plain {byte : UInt8} (other : byte ≠ 37) (bytes : List UInt8) :
    decodeBytes (byte :: bytes) = (decodeBytes bytes).map (byte :: ·) := by
  conv_lhs => unfold decodeBytes
  rw [if_neg other]

variable {kept : Char → Bool}

theorem decode_encodeByte (plain : Plain kept) (byte : UInt8) (rest : List UInt8) :
    decodeBytes (asBytes (encodeByte kept byte) ++ rest) = (decodeBytes rest).map (byte :: ·) := by
  have small : byte.toNat < 256 := byte.toNat_lt
  unfold encodeByte
  split_ifs with stays
  · have valid : byte.toNat.isValidChar := .inl (by omega)
    have value : (Char.ofNat byte.toNat).toNat = byte.toNat := by simp [Char.ofNat, valid, Char.ofNatAux]
    obtain ⟨ascii, percent⟩ := plain _ stays
    have other : byte ≠ 37 := by
      rintro rfl
      exact percent rfl
    rw [asBytes_cons, utf8_ascii ascii, value, asBytes_nil, append_nil, singleton_append,
      show byte.toNat.toUInt8 = byte from UInt8.ofNat_toNat]
    exact decodeBytes_plain other rest
  · have high : byte.toNat / 16 < 16 := by omega
    have low : byte.toNat % 16 < 16 := by omega
    have bytes : asBytes ['%', hexDigit (byte.toNat / 16), hexDigit (byte.toNat % 16)] =
        [37, (hexDigit (byte.toNat / 16)).toNat.toUInt8, (hexDigit (byte.toNat % 16)).toNat.toUInt8] := by
      rw [asBytes_cons, asBytes_cons, asBytes_cons, utf8_ascii (by decide), utf8_ascii (hexDigit_small _ high),
        utf8_ascii (hexDigit_small _ low)]
      rfl
    rw [bytes]
    simp [decodeBytes, hexValue_hexDigit _ high, hexValue_hexDigit _ low, halves]

theorem percentDecode_encoded (plain : Plain kept) (value : Text) :
    percentDecode ((asBytes value).flatMap (encodeByte kept)) = .ok value := by
  have bytes : ∀ bytes : List UInt8, decodeBytes (asBytes (bytes.flatMap (encodeByte kept))) = .ok bytes := by
    intro bytes
    induction bytes with
    | nil => rfl
    | cons byte bytes ih =>
      rw [flatMap_cons, asBytes_append, decode_encodeByte plain, ih]
      rfl
  rw [percentDecode, bytes]
  show (match decode (asBytes value) with
    | some text => Except.ok text
    | none => _) = _
  rw [decode_asBytes]

theorem mem_encodedByte {byte : UInt8} (mem : c ∈ encodeByte kept byte) : kept c = true ∨ c = '%' ∨ c ∈ "0123456789ABCDEF".toList := by
  have digit : ∀ n < 16, hexDigit n ∈ "0123456789ABCDEF".toList := by decide
  have small : byte.toNat < 256 := byte.toNat_lt
  unfold encodeByte at mem
  split_ifs at mem with stays
  · rw [mem_singleton.mp mem]
    exact .inl stays
  simp only [mem_cons, not_mem_nil, or_false] at mem
  rcases mem with rfl | rfl | rfl
  · exact .inr (.inl rfl)
  · exact .inr (.inr (digit _ (by omega)))
  · exact .inr (.inr (digit _ (by omega)))

theorem mem_encoded {value : Text} (mem : c ∈ (asBytes value).flatMap (encodeByte kept)) :
    kept c = true ∨ c = '%' ∨ c ∈ "0123456789ABCDEF".toList := by
  obtain ⟨byte, -, mem⟩ := mem_flatMap.mp mem
  exact mem_encodedByte mem

theorem digits_ascii : ∀ c ∈ "0123456789ABCDEF".toList, c.toNat < 128 := each_char (by decide)

theorem encoded_length (plain : Plain kept) (value : Text) : byteLen ((asBytes value).flatMap (encodeByte kept)) ≤ 3 * byteLen value := by
  have one : ∀ byte, byteLen (encodeByte kept byte) ≤ 3 := by
    intro byte
    have ascii : ∀ c ∈ encodeByte kept byte, c.toNat < 128 := by
      intro c mem
      rcases mem_encodedByte mem with stays | rfl | digit
      · exact (plain c stays).1
      · decide
      · exact digits_ascii c digit
    rw [← asBytes_length, asBytes_ascii ascii, length_map, encodeByte]
    split_ifs
    · simp
    · exact Nat.le_refl 3
  have bytes : ∀ bytes : List UInt8, byteLen (bytes.flatMap (encodeByte kept)) ≤ 3 * bytes.length := by
    intro bytes
    induction bytes with
    | nil => rfl
    | cons byte bytes ih =>
      have first := one byte
      rw [flatMap_cons, byteLen_append, length_cons]
      omega
  rw [← asBytes_length value]
  exact bytes _

theorem natText_free {n : Nat} {sep : Char} (other : sep.isDigit = false) : sep ∉ natText n := by
  intro mem
  rw [natText_isDigit mem] at other
  cases other

theorem parsePort_natText {port : Fin (2 ^ 16)} (used : port ≠ 0) : parsePort (natText port.val) = .ok port.val := by
  rw [parsePort, parseUnsigned_natText port.isLt]
  exact if_neg fun zero => used (Fin.ext zero)

theorem parseHostPort_bracket {bracketed host : Text} {port : Option Nat} (parsed : parseHostPort ('[' :: bracketed) = .ok (host, port)) :
    ']' ∉ host ∧ ∃ suffix, bracketed = host ++ ']' :: suffix := by
  rw [parseHostPort] at parsed
  cases cut : splitOnce ']' bracketed with
  | none =>
    rw [cut] at parsed
    cases parsed
  | some parts =>
    obtain ⟨inside, suffix⟩ := parts
    rw [cut] at parsed
    simp only at parsed
    obtain ⟨free, whole⟩ := splitOnce_some cut
    have same : inside = host := by
      split_ifs at parsed
      split at parsed
      · cases parsed
        rfl
      · rename_i port'
        cases read : parsePort port' <;> rw [read] at parsed <;> cases parsed
        rfl
      · cases parsed
    exact ⟨same ▸ free, suffix, same ▸ whole⟩

theorem parseHostPort_mem {hostport host : Text} {port : Option Nat} (parsed : parseHostPort hostport = .ok (host, port)) :
    ∀ c ∈ host, c ∈ hostport := by
  by_cases bracket : ∃ bracketed, hostport = '[' :: bracketed
  · obtain ⟨bracketed, rfl⟩ := bracket
    obtain ⟨-, suffix, rfl⟩ := parseHostPort_bracket parsed
    exact fun c mem => mem_cons_of_mem _ (mem_append_left _ mem)
  rw [parseHostPort] at parsed
  · split_ifs at parsed
    cases cut : rsplitOnce ':' hostport with
    | none =>
      rw [cut] at parsed
      cases parsed
      exact fun c mem => mem
    | some parts =>
      obtain ⟨front, port'⟩ := parts
      rw [cut] at parsed
      simp only at parsed
      obtain ⟨-, whole⟩ := rsplitOnce_some cut
      have same : host = front := by
        cases read : parsePort port' <;> rw [read] at parsed <;> cases parsed
        rfl
      intro c mem
      rw [whole, ← same]
      exact mem_append_left _ mem
  · exact fun bracketed same => bracket ⟨bracketed, same⟩

section Config

variable {config : ConnectionConfig}

theorem parseHostPort_written (held : config.host ≠ []) (used : config.port ≠ 0) (open' : config.host.head? ≠ some '[')
    (closed : ¬ (':' ∈ config.host ∧ ']' ∈ config.host)) :
    parseHostPort (hostPart config ++ ':' :: natText config.port.val) = .ok (config.host, some config.port.val) := by
  unfold hostPart
  by_cases colon : ':' ∈ config.host
  · have free : ']' ∉ config.host := fun close => closed ⟨colon, close⟩
    rw [if_pos ⟨colon, open'⟩]
    have shape : '[' :: config.host ++ [']'] ++ ':' :: natText config.port.val =
        '[' :: (config.host ++ ']' :: (':' :: natText config.port.val)) := by simp
    rw [shape, parseHostPort, splitOnce_part free]
    simp only [if_neg held, parsePort_natText used]
    rfl
  · rw [if_neg fun both => colon both.1]
    have digits : ':' ∉ natText config.port.val := natText_free (by decide)
    have one : (config.host ++ ':' :: natText config.port.val).count ':' = 1 := by
      rw [count_append, count_cons_self, count_eq_zero.mpr colon, count_eq_zero.mpr digits]
    rw [parseHostPort]
    · rw [one, if_neg (by decide), rsplitOnce_part config.host digits]
      simp only [parsePort_natText used]
      rfl
    intro bracketed same
    cases host : config.host with
    | nil => exact held host
    | cons c rest =>
      rw [host] at same open'
      exact open' (congrArg some (List.cons.inj same).1)

theorem writable_of_parsed {read : Option Nat}
    (parsed : parseHostPort (hostPart config ++ ':' :: natText config.port.val) = .ok (config.host, read)) :
    config.host.head? ≠ some '[' ∧ ¬ (':' ∈ config.host ∧ ']' ∈ config.host) := by
  have digits : ']' ∉ natText config.port.val := natText_free (by decide)
  have open' : config.host.head? ≠ some '[' := by
    intro bracket
    unfold hostPart at parsed
    rw [if_neg fun both => both.2 bracket] at parsed
    cases host : config.host with
    | nil =>
      rw [host] at bracket
      cases bracket
    | cons c rest =>
      rw [host] at bracket parsed
      cases bracket
      obtain ⟨free, suffix, whole⟩ := parseHostPort_bracket parsed
      have close : ']' ∈ rest ++ ':' :: natText config.port.val := by
        rw [show rest ++ ':' :: natText config.port.val = '[' :: rest ++ ']' :: suffix from whole]
        simp
      simp only [mem_append, mem_cons, not_or] at close free
      rcases close with inside | same | digit
      · exact free.2 inside
      · cases same
      · exact digits digit
  refine ⟨open', fun both => ?_⟩
  unfold hostPart at parsed
  rw [if_pos ⟨both.1, open'⟩] at parsed
  exact (parseHostPort_bracket parsed).1 both.2

variable {sep : Char} {t : Text}

theorem free_of_splitOnce (uncut : splitOnce sep t = none) : sep ∉ t := by
  intro mem
  obtain ⟨front, back, rfl, free⟩ := eq_append_cons_of_mem mem
  rw [splitOnce_part free] at uncut
  cases uncut

theorem cutAt_front (sep : Char) (t : Text) : sep ∉ (cutAt sep t).1 ∧ ∀ c ∈ (cutAt sep t).1, c ∈ t := by
  unfold cutAt
  cases cut : splitOnce sep t with
  | none => exact ⟨free_of_splitOnce cut, fun c mem => mem⟩
  | some parts =>
    obtain ⟨free, whole⟩ := splitOnce_some cut
    exact ⟨free, fun c mem => whole ▸ mem_append_left _ mem⟩

theorem cutAtLast_back (sep : Char) (t : Text) : sep ∉ (cutAtLast sep t).2 ∧ ∀ c ∈ (cutAtLast sep t).2, c ∈ t := by
  unfold cutAtLast
  cases cut : rsplitOnce sep t with
  | none =>
    have uncut : splitOnce sep t.reverse = none := by simpa [rsplitOnce] using cut
    exact ⟨fun mem => free_of_splitOnce uncut (mem_reverse.mpr mem), fun c mem => mem⟩
  | some parts =>
    obtain ⟨free, whole⟩ := rsplitOnce_some cut
    refine ⟨free, fun c mem => ?_⟩
    rw [whole]
    exact mem_append_right _ (mem_cons_of_mem _ mem)

theorem checkHostport_ok {hostport : Text} (checked : checkHostport hostport = .ok ()) : ',' ∉ hostport := by
  intro mem
  rw [checkHostport, if_pos mem] at checked
  cases checked

theorem parseRest_host {driverId rest : Text} {tls : Bool} {parts : UriParts} (parsed : parseRest driverId tls rest = .ok parts) :
    ∀ c ∈ parts.host, c ∉ "/?@,".toList := by
  obtain ⟨⟨⟩, -, parsed⟩ := bind_ok parsed
  obtain ⟨database, -, parsed⟩ := bind_ok parsed
  obtain ⟨⟨username, password⟩, -, parsed⟩ := bind_ok parsed
  obtain ⟨⟨⟩, single, parsed⟩ := bind_ok parsed
  obtain ⟨⟨host, port⟩, hosted, parsed⟩ := bind_ok parsed
  obtain ⟨⟨⟩, -, parsed⟩ := bind_ok parsed
  obtain ⟨⟨⟩, -, parsed⟩ := bind_ok parsed
  obtain ⟨⟨tls', authSource⟩, -, parsed⟩ := bind_ok parsed
  cases parsed
  have comma : ',' ∉ (cutAtLast '@' (cutAt '/' (cutAt '?' rest).1).1).2 := checkHostport_ok single
  obtain ⟨question, -⟩ := cutAt_front '?' rest
  obtain ⟨slash, inMain⟩ := cutAt_front '/' (cutAt '?' rest).1
  obtain ⟨at', inAuthority⟩ := cutAtLast_back '@' (cutAt '/' (cutAt '?' rest).1).1
  intro c mem mark
  have inHostport := parseHostPort_mem hosted c mem
  have cases' : ∀ c ∈ "/?@,".toList, c = '/' ∨ c = '?' ∨ c = '@' ∨ c = ',' := each_char (by decide)
  rcases cases' c mark with rfl | rfl | rfl | rfl
  · exact slash (inAuthority _ inHostport)
  · exact question (inMain _ (inAuthority _ inHostport))
  · exact at' inHostport
  · exact comma inHostport

/-! ### What is written -/

theorem encoded_free (other : isUnreserved sep = false) (escape : sep ≠ '%') (value : Text) : sep ∉ percentEncode value := by
  have digits : ∀ c ∈ "0123456789ABCDEF".toList, isUnreserved c = true := each_char (by decide)
  intro mem
  rcases mem_encoded mem with kept | same | digit
  · rw [other] at kept
    cases kept
  · exact escape same
  · rw [digits sep digit] at other
    cases other

/-- The host and the port, behind the user name. -/
def authorityPart (config : ConnectionConfig) : Text := userPart config ++ (hostPart config ++ ':' :: natText config.port.val)

section
variable (bracket : sep ≠ '[' ∧ sep ≠ ']')
include bracket

theorem hostPart_free (free : sep ∉ config.host) : sep ∉ hostPart config := by
  unfold hostPart
  split_ifs
  · simp [bracket.1, bracket.2, free]
  · exact free

theorem hostport_free (digit : sep.isDigit = false) (colon : sep ≠ ':')
    (free : sep ∉ config.host) : sep ∉ hostPart config ++ ':' :: natText config.port.val := by
  simp only [mem_append, mem_cons, not_or]
  exact ⟨hostPart_free bracket free, colon, natText_free digit⟩

theorem authority_free (other : isUnreserved sep = false) (escape : sep ≠ '%')
    (at' : sep ≠ '@') (colon : sep ≠ ':') (free : sep ∉ config.host) : sep ∉ authorityPart config := by
  have digit : sep.isDigit = false := by
    simp only [isUnreserved, Char.isAlphanum, Bool.or_eq_false_iff] at other
    exact other.1.2
  refine fun mem => (mem_append.mp mem).elim (fun user => ?_) (hostport_free bracket digit colon free)
  unfold userPart at user
  split_ifs at user
  · cases user
  · rcases mem_append.mp user with name | last
    · exact encoded_free other escape _ name
    · exact at' (mem_singleton.mp last)

end

/-- The host holds nothing that the parser cuts at. -/
def Uncut (host : Text) : Prop := ∀ c ∈ host, c ∉ "/?@,".toList

theorem Uncut.free {host : Text} (uncut : Uncut host) (mark : sep ∈ "/?@,".toList) : sep ∉ host :=
  fun mem => uncut sep mem mark

/-- A text that is not left out. -/
def written (value : Option Text) : Option Text := value.filter (· ≠ [])

theorem cutAt_query (free : '?' ∉ t) (items : List Text) : cutAt '?' (t ++ if items = [] then [] else '?' :: ['&'].intercalate items) =
      (t, if items = [] then none else some (['&'].intercalate items)) := by
  unfold cutAt
  split_ifs with none
  · rw [append_nil, splitOnce_free free]
  · rw [splitOnce_part free]

theorem databasePart_written (config : ConnectionConfig) :
    databasePart config = ((written config.database).map fun database => '/' :: percentEncode database).getD [] := by
  unfold databasePart written
  cases config.database with
  | none => rfl
  | some database => by_cases held : database = [] <;> simp [held, Option.filter]

theorem parse_database (config : ConnectionConfig) (free : '/' ∉ t) : ∃ raw, cutAt '/' (t ++ databasePart config) = (t, raw) ∧
    parseDatabase raw = .ok (written config.database) := by
  rw [databasePart_written]
  cases kept : written config.database with
  | none =>
    refine ⟨none, ?_, rfl⟩
    simp [cutAt, splitOnce_free free]
  | some database =>
    refine ⟨some (percentEncode database), ?_, ?_⟩
    · simp [cutAt, splitOnce_part free]
    · have held : database ≠ [] := by simpa using (Option.filter_eq_some_iff.mp kept).2
      rw [parseDatabase, percentEncode, percentDecode_encoded plain_unreserved]
      simp [Except.map, if_neg held]

theorem parse_userinfo (config : ConnectionConfig) (free : '@' ∉ t) : ∃ userinfo, cutAtLast '@' (userPart config ++ t) = (userinfo, t) ∧
    parseUserinfo userinfo = .ok (config.username, []) := by
  unfold userPart
  split_ifs with anonymous
  · rw [anonymous]
    refine ⟨none, ?_, rfl⟩
    simp [cutAtLast, rsplitOnce_free free]
  refine ⟨some (percentEncode config.username), ?_, ?_⟩
  · rw [append_assoc, singleton_append, cutAtLast, rsplitOnce_part _ free]
  · rw [parseUserinfo, splitOnce_free (encoded_free (by decide) (by decide) config.username), percentEncode,
      percentDecode_encoded plain_unreserved]
    rfl

theorem readPair_tls (driverId : Text) (tls : Bool) (authSource : Option Text) :
    readPair driverId tls authSource "tls=true" = .ok (true, authSource) := rfl

theorem readPair_authSource (tls : Bool) {value : Text} (held : value ≠ []) :
    readPair "mongodb".toList tls none ("authSource=".toList ++ percentEncode value) = .ok (tls, some value) := by
  have name : '=' ∉ "authSource".toList := by decide
  have cut : splitOnce '=' ("authSource=".toList ++ percentEncode value) = some ("authSource".toList, percentEncode value) :=
    splitOnce_part name (percentEncode value)
  have source : ¬ (toAsciiLowercase "authSource".toList = "tls".toList ∨ toAsciiLowercase "authSource".toList = "ssl".toList) ∧
      ¬ ((toAsciiLowercase "authSource".toList = "sslmode".toList ∨ toAsciiLowercase "authSource".toList = "ssl-mode".toList) ∧
        ("mongodb".toList = "mysql".toList ∨ "mongodb".toList = "postgres".toList)) ∧
      (toAsciiLowercase "authSource".toList = "authsource".toList ∧ "mongodb".toList = "mongodb".toList) := by decide
  have decoded : percentDecode (percentEncode value) = .ok value := percentDecode_encoded plain_unreserved value
  unfold readPair
  rw [cut, Option.getD_some]
  show (if _ then _ else if _ then _ else if _ then (percentDecode (percentEncode value)).map _ else _) = _
  rw [if_neg source.1, if_neg source.2.1, if_pos source.2.2, decoded]
  show Except.ok (tls, if value = [] then none else some value) = _
  rw [if_neg held]

theorem splitOn_joined {items : List Text} (held : items ≠ []) (free : ∀ item ∈ items, sep ∉ item) :
    ([sep].intercalate items).splitOn sep = items := by
  have plain : ∀ item ∈ items, ∀ c ∈ item, (c == sep) = false := by
    intro item mem c inside
    simp only [beq_eq_false_iff_ne]
    rintro rfl
    exact free item mem inside
  clear free
  induction items with
  | nil => exact absurd rfl held
  | cons item items ih =>
    rw [forall_mem_cons] at plain
    cases items with
    | nil =>
      rw [show [sep].intercalate [item] = item by simp]
      exact splitOnP_eq_singleton plain.1
    | cons next items =>
      have cut : ([sep].intercalate (item :: next :: items)).splitOn sep = item :: ([sep].intercalate (next :: items)).splitOn sep := by
        exact splitOnP_append_cons_of_forall_mem plain.1 sep (beq_self_eq_true sep) _
      rw [cut, ih (cons_ne_nil _ _) plain.2]

theorem parseQuery_items (driverId : Text) (tls : Bool) {items : List Text} (free : ∀ item ∈ items, '&' ∉ item) :
    parseQuery driverId tls (if items = [] then none else some (['&'].intercalate items)) = readPairs driverId tls none items := by
  split_ifs with none
  · rw [none]
    rfl
  · rw [parseQuery, splitOn_joined none free]

/-- The scheme says whether Redis uses TLS. -/
def schemeTls (config : ConnectionConfig) : Bool := config.driver = .Redis && config.tls

theorem queryItems_written (config : ConnectionConfig) : queryItems config =
    (if config.tls ∧ config.driver ≠ .Redis then ["tls=true".toList] else []) ++
      if config.driver = .Mongodb then ((written config.authSource).map fun source => "authSource=" ++ percentEncode source).toList
      else [] := by
  unfold queryItems written
  congr 1
  cases config.driver with
  | Mongodb =>
    cases config.authSource with
    | none => rfl
    | some source => by_cases held : source = [] <;> simp [held, Option.filter]
  | Mysql | Postgres | Sqlite | Redis => cases config.authSource <;> rfl

theorem parse_query (config : ConnectionConfig) : parseQuery (uriParts config).driverId (schemeTls config)
      (if queryItems config = [] then none else some (['&'].intercalate (queryItems config))) =
      .ok (config.tls, if config.driver = .Mongodb then written config.authSource else none) := by
  have free : ∀ item ∈ queryItems config, '&' ∉ item := by
    intro item mem
    rw [queryItems_written] at mem
    rcases mem_append.mp mem with flag | source
    · split_ifs at flag
      · rw [mem_singleton.mp flag]
        decide
      · cases flag
    split_ifs at source
    · simp only [Option.mem_toList, Option.map_eq_some_iff] at source
      obtain ⟨value, -, rfl⟩ := source
      simp only [mem_append, not_or]
      exact ⟨by decide, encoded_free (by decide) (by decide) value⟩
    · cases source
  rw [parseQuery_items _ _ free, queryItems_written]
  have flag : ∀ items, readPairs (uriParts config).driverId (schemeTls config) none
      ((if config.tls ∧ config.driver ≠ .Redis then ["tls=true".toList] else []) ++ items) =
      readPairs (uriParts config).driverId config.tls none items := by
    intro items
    by_cases flagged : config.tls = true ∧ config.driver ≠ .Redis
    · rw [if_pos flagged, singleton_append, readPairs, readPair_tls, flagged.1]
      rfl
    have same : schemeTls config = config.tls := by
      unfold schemeTls
      by_cases tls : config.tls = true
      · have redis : config.driver = .Redis := by
          by_contra other
          exact flagged ⟨tls, other⟩
        simp [redis]
      · simp [Bool.eq_false_iff.mpr tls]
    rw [if_neg flagged, same]
    rfl
  rw [flag]
  split_ifs with mongodb
  · have id : (uriParts config).driverId = "mongodb".toList := by simp [uriParts, mongodb]
    cases source : written config.authSource with
    | none => rfl
    | some value =>
      have held : value ≠ [] := by simpa using (Option.filter_eq_some_iff.mp source).2
      rw [id, Option.map_some, Option.toList_some, readPairs, readPair_authSource _ held]
      rfl
  · rfl

/-- The text behind the scheme. -/
def restPart (config : ConnectionConfig) : Text :=
  userPart config ++ (hostPart config ++ ':' :: natText config.port.val ++ databasePart config ++ queryPart config)

theorem parseRest_written (uncut : Uncut config.host) :
    parseRest (uriParts config).driverId (schemeTls config) (restPart config) = (do
      let (host, port) ← parseHostPort (hostPart config ++ ':' :: natText config.port.val)
      checkHost host
      checkDatabase (uriParts config).driverId (written config.database)
      .ok { driverId := (uriParts config).driverId, host := host, port := port, username := config.username, password := []
            database := written config.database
            authSource := if config.driver = .Mongodb then written config.authSource else none
            tls := config.tls }) := by
  have shape : restPart config = authorityPart config ++ databasePart config ++
      if queryItems config = [] then [] else '?' :: ['&'].intercalate (queryItems config) := by
    simp [restPart, authorityPart, queryPart]
  have slash : '/' ∉ authorityPart config :=
    authority_free (by decide) (by decide) (by decide) (by decide) (by decide) (uncut.free (by decide))
  have question : '?' ∉ authorityPart config ++ databasePart config := by
    refine fun mem => (mem_append.mp mem).elim
      (authority_free (by decide) (by decide) (by decide) (by decide) (by decide) (uncut.free (by decide))) fun database => ?_
    rw [databasePart_written] at database
    cases kept : written config.database with
    | none =>
      rw [kept] at database
      cases database
    | some value =>
      rw [kept] at database
      rcases mem_cons.mp database with same | encoded
      · cases same
      · exact encoded_free (by decide) (by decide) value encoded
  have at' : '@' ∉ hostPart config ++ ':' :: natText config.port.val :=
    hostport_free (by decide) (by decide) (by decide) (uncut.free (by decide))
  have comma : ',' ∉ hostPart config ++ ':' :: natText config.port.val :=
    hostport_free (by decide) (by decide) (by decide) (uncut.free (by decide))
  obtain ⟨raw, cutDatabase, database⟩ := parse_database config slash
  obtain ⟨userinfo, cutUser, user⟩ := parse_userinfo config at'
  have held : checkHost (restPart config) = .ok () := by
    refine if_neg fun none => ?_
    have colon : ':' ∈ restPart config := by simp [restPart]
    rw [none] at colon
    cases colon
  have single : checkHostport (hostPart config ++ ':' :: natText config.port.val) = .ok () := if_neg comma
  unfold parseRest
  rw [held, shape, cutAt_query question]
  simp only [bind, Except.bind]
  rw [cutDatabase]
  rw [database]
  simp only
  rw [show authorityPart config = userPart config ++ (hostPart config ++ ':' :: natText config.port.val) from rfl, cutUser]
  simp only
  rw [user]
  simp only
  rw [single]
  rw [parse_query]

theorem written_same {value : Option Text} : written value = value ↔ value ≠ some [] := by
  cases value with
  | none => simp [written]
  | some value => by_cases held : value = [] <;> simp [written]

theorem isWritableHost_iff {host : Text} :
    isWritableHost host = true ↔ Uncut host ∧ host.head? ≠ some '[' ∧ ¬ (':' ∈ host ∧ ']' ∈ host) := by
  have uncut : (!host.any fun c => "/?@,".toList.contains c) = true ↔ Uncut host := by simp [Uncut]
  rw [isWritableHost, Bool.and_eq_true, Bool.and_eq_true, uncut, decide_eq_true_eq, Bool.not_eq_true', ← Bool.not_eq_true,
    Bool.and_eq_true, contains_iff_mem, contains_iff_mem, and_assoc]

theorem checkDatabase_ok {driverId : Text} {database : Option Text} : checkDatabase driverId database = .ok () ↔
    (driverId = "redis" → ∀ db ∈ database, (parseUnsigned (2 ^ 8) db).toBool = true) := by
  cases database with
  | none => exact ⟨fun _ _ _ absent => (by cases absent), fun _ => rfl⟩
  | some db =>
    have every : (∀ number ∈ some db, (parseUnsigned (2 ^ 8) number).toBool = true) ↔ (parseUnsigned (2 ^ 8) db).toBool = true :=
      ⟨fun all => all db rfl, fun one number same => Option.some.inj same ▸ one⟩
    rw [every, checkDatabase]
    split_ifs with refused
    · rw [refused.2]
      exact ⟨fun same => (by cases same), fun numbered => absurd (numbered refused.1) Bool.false_ne_true⟩
    · exact ⟨fun _ redis => Bool.not_eq_false _ ▸ fun wrong => refused ⟨redis, wrong⟩, fun _ => rfl⟩

theorem driverId_redis : (uriParts config).driverId = "redis" ↔ config.driver = .Redis := by
  simp only [uriParts]
  cases config.driver <;> decide

/-- A connection to a server is read back exactly when it is writable. -/
theorem rest_round_trip (server : config.driver ≠ .Sqlite) (held : config.host ≠ []) (used : config.port ≠ 0) :
    parseRest (uriParts config).driverId (schemeTls config) (restPart config) = .ok (uriParts config) ↔ Writable config := by
  have host : (uriParts config).host = config.host := if_neg server
  rw [Writable, if_neg server, isWritableHost_iff]
  constructor
  · intro parsed
    have uncut : Uncut config.host := host ▸ parseRest_host parsed
    rw [parseRest_written uncut] at parsed
    simp only [bind_ok_iff] at parsed
    obtain ⟨⟨host', port'⟩, hosted, ⟨⟩, -, ⟨⟩, numbered, parsed⟩ := parsed
    have same := Except.ok.inj parsed
    have named : host' = config.host := (congrArg UriParts.host same).trans host
    have database : written config.database = config.database := congrArg UriParts.database same
    have source : (if config.driver = .Mongodb then written config.authSource else none) = config.authSource :=
      congrArg UriParts.authSource same
    rw [named] at hosted
    rw [database, checkDatabase_ok, driverId_redis] at numbered
    refine ⟨⟨uncut, writable_of_parsed hosted⟩, written_same.mp database, numbered, ?_⟩
    split_ifs at source ⊢
    · exact written_same.mp source
    · exact source.symm
  · rintro ⟨⟨uncut, open', closed⟩, database, numbered, source⟩
    have numbers : checkDatabase (uriParts config).driverId (written config.database) = .ok () := by
      rw [written_same.mpr database, checkDatabase_ok, driverId_redis]
      exact numbered
    have sources : (if config.driver = .Mongodb then written config.authSource else none) = config.authSource := by
      split_ifs at source ⊢
      · exact written_same.mpr source
      · exact source.symm
    rw [parseRest_written uncut, parseHostPort_written held used open' closed, numbers, sources, written_same.mpr database]
    have checked : checkHost config.host = .ok () := if_neg held
    show (checkHost config.host >>= fun _ => _) = _
    rw [checked]
    simp only [uriParts, if_neg server]
    rfl

end Config

end Ramag.ConnectionUri
