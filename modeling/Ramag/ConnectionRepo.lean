import Mathlib.Data.List.Sort
import Ramag.BoundedJson
import Ramag.SshRemotePath
import Ramag.Uuids

/-!
The store of the connections: what is checked of one, the records they are kept
as, and the transactions that save, list and delete them. The database may
refuse any of its steps; a transaction that is not committed changes nothing.
-/
namespace Ramag.ConnectionRepo
open Strings Domain BoundedJson OrderedTables Uuids
open SshRemotePath (validateProtocolText validateSingleLine)

def MAX_CONNECTION_NAME_BYTES : Nat := 256
def MAX_CONNECTION_HOST_BYTES : Nat := 1024
def MAX_CONNECTION_PASSWORD_BYTES : Nat := 64 * 1024
def MAX_CONNECTION_REMARK_BYTES : Nat := 16 * 1024
def MAX_CONNECTION_ENVIRONMENT_BYTES : Nat := 64
def MAX_CONNECTION_PATH_BYTES : Nat := 32 * 1024
def MAX_CONNECTION_SSH_TARGET_BYTES : Nat := 4 * 1024
def MAX_CONNECTION_CONFIGS : Nat := 2048
def MAX_CONNECTION_RECORD_BYTES : Nat := 1024 * 1024
def MAX_CONNECTION_LIST_BYTES : Nat := 64 * 1024 * 1024

/-! ### Connections -/

instance neZero_ports : NeZero (2 ^ 16) := inferInstance

inductive TlsVerify
  | None
  | Ca
  | Full
  deriving DecidableEq

structure ConnectionConfig where
  id : Uuid
  name : Text
  driver : DriverKind
  host : Text
  port : Fin (2 ^ 16)
  username : Text
  password : Text
  database : Option Text
  authSource : Option Text
  remark : Option Text
  environment : Option Text
  production : Bool
  tls : Bool
  tlsVerify : TlsVerify
  caCertPath : Option Text
  sshTarget : Option Text
  sshPort : Option (Fin (2 ^ 16))

/-- A check of a value that may be missing. -/
def validateOptional (check : Text → Except Text Unit) : Option Text → Except Text Unit
  | none => .ok ()
  | some value => check value

def validateOptionalSingleLine (label : Text) (value : Option Text) (maxBytes : Nat) : Except Text Unit :=
  validateOptional (fun value => validateSingleLine label value maxBytes) value

def validateOptionalProtocolText (label : Text) (value : Option Text) (maxBytes : Nat) : Except Text Unit :=
  validateOptional (fun value => validateProtocolText label value maxBytes) value

variable (config : ConnectionConfig)

/-- What an SQLite connection has no use for. -/
def ConnectionConfig.hasNetworkOptions : Bool :=
  config.username ≠ [] || config.password ≠ [] || config.database.isSome || config.authSource.isSome || config.tls ||
    config.tlsVerify ≠ .Full || config.caCertPath.isSome || config.sshTarget.isSome || config.sshPort.isSome

def validateHost : Except Text Unit :=
  if trim config.host = [] then
    .error (if config.driver = .Sqlite then "SQLite 数据库文件路径不能为空" else "主机地址不能为空")
  else if config.driver = .Sqlite then
    validateSingleLine "SQLite 数据库文件路径" config.host MAX_CONNECTION_PATH_BYTES
  else validateSingleLine "主机地址" config.host MAX_CONNECTION_HOST_BYTES

def validatePort : Except Text Unit :=
  if config.driver = .Sqlite then
    if config.port ≠ 0 then .error "SQLite 不使用端口，端口必须为 0" else .ok ()
  else if config.port = 0 then .error "端口必须是 1 - 65535"
  else .ok ()

def validate : Except Text Unit := do
  if trim config.name = [] then .error "连接名称不能为空"
  else
    validateSingleLine "连接名称" config.name MAX_CONNECTION_NAME_BYTES
    validateHost config
    validatePort config
    if config.driver = .Sqlite && config.hasNetworkOptions then
      .error "SQLite 连接不支持用户名、密码、数据库名、认证库、TLS 或 SSH 参数"
    else
      validateProtocolText "用户名" config.username MAX_CONNECTION_IDENTIFIER_BYTES
      validateProtocolText "密码" config.password MAX_CONNECTION_PASSWORD_BYTES
      validateOptionalProtocolText "数据库名" config.database MAX_CONNECTION_IDENTIFIER_BYTES
      validateOptionalProtocolText "认证库" config.authSource MAX_CONNECTION_IDENTIFIER_BYTES
      validateOptionalProtocolText "备注" config.remark MAX_CONNECTION_REMARK_BYTES
      validateOptionalSingleLine "环境标签" config.environment MAX_CONNECTION_ENVIRONMENT_BYTES
      validateOptionalSingleLine "CA 证书路径" config.caCertPath MAX_CONNECTION_PATH_BYTES
      validateOptionalSingleLine "SSH 跳板目标" config.sshTarget MAX_CONNECTION_SSH_TARGET_BYTES
      if config.sshPort = some 0 then .error "SSH 端口必须是 1 - 65535" else .ok ()

/-- A connection with its password as it is stored. -/
structure EncryptedConnection where
  id : Uuid
  name : Text
  driver : DriverKind
  host : Text
  port : Fin (2 ^ 16)
  username : Text
  passwordEnc : Text
  database : Option Text
  authSource : Option Text
  remark : Option Text
  environment : Option Text
  production : Bool
  tls : Bool
  tlsVerify : TlsVerify
  caCertPath : Option Text
  sshTarget : Option Text
  sshPort : Option (Fin (2 ^ 16))

/-- How connections are written: the cipher of the passwords, which takes a nonce and is undone, and the JSON
    records, which are read back as they were. -/
structure Codec (Nonce ρ : Type) where
  encrypt : Nonce → Text → Result Text
  decrypt : Text → Result Text
  toJson : EncryptedConnection → ρ
  fromJson : ρ → Except Text EncryptedConnection
  len : ρ → Nat
  decrypts : ∀ nonce plain hex, encrypt nonce plain = .ok hex → decrypt hex = .ok plain
  parses : ∀ encrypted, fromJson (toJson encrypted) = .ok encrypted

variable {Nonce ρ : Type} (codec : Codec Nonce ρ)

def fromPlain (nonce : Nonce) (plain : ConnectionConfig) : Result EncryptedConnection := do
  (validate plain).mapError .InvalidConfig
  let passwordEnc ← codec.encrypt nonce plain.password
  .ok { id := plain.id, name := plain.name, driver := plain.driver, host := plain.host, port := plain.port
        username := plain.username, passwordEnc, database := plain.database, authSource := plain.authSource
        remark := plain.remark, environment := plain.environment, production := plain.production, tls := plain.tls
        tlsVerify := plain.tlsVerify, caCertPath := plain.caCertPath, sshTarget := plain.sshTarget, sshPort := plain.sshPort }

def intoPlain (encrypted : EncryptedConnection) : Result ConnectionConfig := do
  let password ← codec.decrypt encrypted.passwordEnc
  let plain : ConnectionConfig :=
    { id := encrypted.id, name := encrypted.name, driver := encrypted.driver, host := encrypted.host
      port := encrypted.port, username := encrypted.username, password, database := encrypted.database
      authSource := encrypted.authSource, remark := encrypted.remark, environment := encrypted.environment
      production := encrypted.production, tls := encrypted.tls, tlsVerify := encrypted.tlsVerify
      caCertPath := encrypted.caCertPath, sshTarget := encrypted.sshTarget, sshPort := encrypted.sshPort }
  (validate plain).mapError fun error => .Storage ("解密后的连接配置无效：" ++ error)
  .ok plain

def decodeConnection (key : Text) (value : ρ) : Result ConnectionConfig := do
  ensureLen (codec.len value) MAX_CONNECTION_RECORD_BYTES ("连接记录 " ++ key)
  let encrypted ← (codec.fromJson value).mapError fun error => .Storage ("反序列化连接 " ++ key ++ " 失败：" ++ error)
  intoPlain codec encrypted

/-- A record within its limit. -/
def serializeRecord (encrypted : EncryptedConnection) : Result ρ :=
  if codec.len (codec.toJson encrypted) > MAX_CONNECTION_RECORD_BYTES then
    .error (.Storage ("连接记录" ++ "序列化超过 " ++ mebibytes MAX_CONNECTION_RECORD_BYTES))
  else .ok (codec.toJson encrypted)

/-- The connections by the texts of their ids. -/
abbrev Store (ρ : Type) := Table Text ρ

/-- The steps of a write that the database refuses, each with its message. -/
structure Faults where
  beginWrite : Option Text := none
  openTable : Option Text := none
  iterate : Option Text := none
  entry : Nat → Option Text := fun _ => none
  write : Nat → Option Text := fun _ => none
  commit : Option Text := none

def refuse (label : Text) : Option Text → Result Unit
  | none => .ok ()
  | some error => .error (.Storage (label ++ error))

/-- A write transaction: the table that it leaves, when it comes to its commit. -/
def inWrite (faults : Faults) (body : Store ρ → Result (Store ρ)) (store : Store ρ) : Result Unit × Store ρ :=
  let done := do
    refuse "启动写事务失败：" faults.beginWrite
    refuse "打开表失败：" faults.openTable
    let next ← body store
    refuse "提交事务失败：" faults.commit
    .ok next
  match done with
  | .ok next => (.ok (), next)
  | .error error => (.error error, store)

/-- The loop that makes the records of a batch. -/
def prepare (nonces : Uuid → Nonce) (batchIds : List Text) : List ConnectionConfig → Result (List (Text × ρ))
  | [] => .ok []
  | config :: configs => do
    let id := config.id.text
    if id ∈ batchIds then .error (.InvalidConfig ("批量保存包含重复连接 ID：" ++ id))
    else
      let encrypted ← fromPlain codec (nonces config.id) config
      let json ← serializeRecord codec encrypted
      let prepared ← prepare nonces (id :: batchIds) configs
      .ok ((id, json) :: prepared)

/-- How many records the store holds, and of how many bytes. -/
def countEntries (faults : Faults) (index itemCount totalBytes : Nat) : List (Text × ρ) → Result (Nat × Nat)
  | [] => .ok (itemCount, totalBytes)
  | (key, value) :: entries => do
    refuse "读取连接记录失败：" (faults.entry index)
    ensureLen (codec.len value) MAX_CONNECTION_RECORD_BYTES ("连接记录 " ++ key)
    let (itemCount, totalBytes) ← nextCollectionBudget itemCount totalBytes (codec.len value) MAX_CONNECTION_CONFIGS
      MAX_CONNECTION_LIST_BYTES "连接列表"
    countEntries faults (index + 1) itemCount totalBytes entries

/-- A sum that is checked at each step. -/
def checkedSum (message : Text) (total : Nat) : List Nat → Result Nat
  | [] => .ok total
  | bytes :: rest => if total + bytes ≥ 2 ^ 64 then .error (.Storage message) else checkedSum message (total + bytes) rest

def insertPrepared (faults : Faults) (index : Nat) (store : Store ρ) : List (Text × ρ) → Result (Store ρ)
  | [] => .ok store
  | (id, json) :: prepared => do
    refuse ("写入连接 " ++ id ++ " 失败：") (faults.write index)
    insertPrepared faults (index + 1) (store.insert id json) prepared

/-- The lengths of the records that the batch replaces. -/
def replacedBytes (prepared : List (Text × ρ)) (store : Store ρ) : List Nat :=
  (store.entries.filter fun entry => decide (entry.1 ∈ prepared.map (·.1))).map fun entry => codec.len entry.2

def writePrepared (faults : Faults) (prepared : List (Text × ρ)) (store : Store ρ) : Result (Store ρ) := do
  refuse "遍历连接记录失败：" faults.iterate
  let (itemCount, totalBytes) ← countEntries codec faults 0 0 0 store.entries
  let replaced := replacedBytes codec prepared store
  let addedCount := prepared.length - replaced.length
  if itemCount + addedCount ≥ 2 ^ 64 then .error (.Storage "连接列表数量溢出")
  else
    let replacedTotal ← checkedSum "连接列表替换数据大小溢出" 0 replaced
    let insertedTotal ← checkedSum "连接列表新增数据大小溢出" 0 (prepared.map fun entry => codec.len entry.2)
    if totalBytes < replacedTotal ∨ totalBytes - replacedTotal + insertedTotal ≥ 2 ^ 64 then
      .error (.Storage "连接列表总数据大小溢出")
    else
      ensureCollectionBudget (itemCount + addedCount) (totalBytes - replacedTotal + insertedTotal) MAX_CONNECTION_CONFIGS
        MAX_CONNECTION_LIST_BYTES "连接列表"
      insertPrepared faults 0 store prepared

variable (nonces : Uuid → Nonce)

def saveMany (configs : List ConnectionConfig) (faults : Faults) (store : Store ρ) : Result Unit × Store ρ :=
  if configs = [] then (.ok (), store)
  else if configs.length > MAX_CONNECTION_CONFIGS then
    (.error (.InvalidConfig ("单次保存连接数量超过 " ++ natText MAX_CONNECTION_CONFIGS ++ " 条上限")), store)
  else
    match prepare codec nonces [] configs with
    | .error error => (.error error, store)
    | .ok prepared => inWrite faults (writePrepared codec faults prepared) store

def save (config : ConnectionConfig) (faults : Faults) (store : Store ρ) : Result Unit × Store ρ :=
  saveMany codec nonces [config] faults store

def delete (id : Text) (faults : Faults) (store : Store ρ) : Result Unit × Store ρ :=
  inWrite faults (fun store => do
    refuse "删除失败：" (faults.write 0)
    .ok (store.remove id)) store

def get (store : Store ρ) (id : Text) : Result (Option ConnectionConfig) :=
  match store.get id with
  | some value => (decodeConnection codec id value).map some
  | none => .ok none

def listEntries (retainedBytes : Nat) (out : List ConnectionConfig) : List (Text × ρ) → Result (List ConnectionConfig)
  | [] => .ok out
  | (key, value) :: entries => do
    let (_, nextBytes) ← nextCollectionBudget out.length retainedBytes (codec.len value) MAX_CONNECTION_CONFIGS
      MAX_CONNECTION_LIST_BYTES "连接列表"
    let config ← decodeConnection codec key value
    listEntries nextBytes (out ++ [config]) entries

def list (store : Store ρ) : Result (List ConnectionConfig) := do
  let out ← listEntries codec 0 [] store.entries
  .ok (out.insertionSort fun a b => a.name ≤ b.name)

/-- The service's `save_many`, with which connections are imported. -/
def importMany (configs : List ConnectionConfig) (faults : Faults) (store : Store ρ) : Result Unit × Store ρ :=
  match configs.forM (m := Result) fun config => (validate config).mapError .InvalidConfig with
  | .error error => (.error error, store)
  | .ok () => saveMany codec nonces configs faults store

end Ramag.ConnectionRepo
