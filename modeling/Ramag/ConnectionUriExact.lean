import Ramag.ConnectionUri

/-!
The URI that is written for a checked connection, read back: it is short enough,
nothing of it is trimmed, and its scheme leads to the parser of its driver.
-/
namespace Ramag.ConnectionUri
open Strings Domain Fields ByteTexts Utf8Decoding List
open ConnectionRepo (ConnectionConfig validate validateOptional validateHost validatePort MAX_CONNECTION_HOST_BYTES MAX_CONNECTION_PATH_BYTES)
open SshRemotePath (validateProtocolText validateSingleLine)

variable {label value : Text} {maxBytes : Nat}

theorem protocolText_ok (checked : validateProtocolText label value maxBytes = .ok ()) : byteLen value ≤ maxBytes := by
  by_contra long
  rw [validateProtocolText, if_pos (Nat.lt_of_not_le long)] at checked
  cases checked

theorem singleLine_ok (checked : validateSingleLine label value maxBytes = .ok ()) : byteLen value ≤ maxBytes := by
  obtain ⟨⟨⟩, short, -⟩ := bind_ok checked
  exact protocolText_ok short

/-- What the checks say of the parts of a URI. -/
structure Checked (config : ConnectionConfig) : Prop where
  held : config.host ≠ []
  host : byteLen config.host ≤ MAX_CONNECTION_PATH_BYTES
  port : config.port = 0 ↔ config.driver = .Sqlite
  username : byteLen config.username ≤ MAX_CONNECTION_IDENTIFIER_BYTES
  database : ∀ database ∈ config.database, byteLen database ≤ MAX_CONNECTION_IDENTIFIER_BYTES
  authSource : ∀ source ∈ config.authSource, byteLen source ≤ MAX_CONNECTION_IDENTIFIER_BYTES
  file : config.driver = .Sqlite → config.username = [] ∧ config.database = none ∧ config.authSource = none ∧ config.tls = false

theorem optional_ok {value : Option Text}
    (checked : validateOptional (fun value => validateProtocolText label value maxBytes) value = .ok ()) :
    ∀ text ∈ value, byteLen text ≤ maxBytes := by
  rintro text rfl
  exact protocolText_ok checked

variable {config : ConnectionConfig}

theorem validatePort_ok (checked : validatePort config = .ok ()) : config.port = 0 ↔ config.driver = .Sqlite := by
  unfold validatePort at checked
  by_cases sqlite : config.driver = .Sqlite
  · rw [if_pos sqlite] at checked
    by_contra other
    rw [if_pos fun zero => other ⟨fun _ => sqlite, fun _ => zero⟩] at checked
    cases checked
  rw [if_neg sqlite] at checked
  by_contra other
  rw [if_pos (by_contra fun used => other ⟨fun zero => absurd zero used, fun file => absurd file sqlite⟩)] at checked
  cases checked

theorem noOptions (network : (decide (config.driver = .Sqlite) && config.hasNetworkOptions) = false)
    (sqlite : config.driver = .Sqlite) : config.username = [] ∧ config.database = none ∧ config.authSource = none ∧ config.tls = false := by
  simp only [sqlite, decide_true, Bool.true_and, ConnectionConfig.hasNetworkOptions, Bool.or_eq_false_iff, decide_eq_false_iff_not,
    ne_eq, not_not, Option.isSome_eq_false_iff, Option.isNone_iff_eq_none] at network
  tauto

theorem validate_checked (valid : validate config = .ok ()) : Checked config := by
  unfold validate at valid
  by_cases blank : trim config.name = []
  · rw [if_pos blank] at valid
    cases valid
  rw [if_neg blank] at valid
  simp only [bind_ok_iff] at valid
  obtain ⟨⟨⟩, -, ⟨⟩, hosted, ⟨⟩, ported, valid⟩ := valid
  by_cases network : (decide (config.driver = .Sqlite) && config.hasNetworkOptions) = true
  · rw [if_pos network] at valid
    cases valid
  rw [if_neg network] at valid
  simp only [bind_ok_iff] at valid
  obtain ⟨⟨⟩, named, ⟨⟩, -, ⟨⟩, database, ⟨⟩, source, -⟩ := valid
  have host : trim config.host ≠ [] ∧ byteLen config.host ≤ MAX_CONNECTION_PATH_BYTES := by
    unfold validateHost at hosted
    by_cases none : trim config.host = []
    · rw [if_pos none] at hosted
      cases hosted
    refine ⟨none, ?_⟩
    split_ifs at hosted
    · exact singleLine_ok hosted
    · exact (singleLine_ok hosted).trans (by decide)
  exact ⟨fun none => host.1 (by rw [none]; rfl), host.2, validatePort_ok ported, protocolText_ok named, optional_ok database,
    optional_ok source, noOptions (Bool.eq_false_iff.mpr network)⟩

variable {t : Text}

theorem trim_span {c : Char} {back : Text} (first : isWhitespace c = false) (held : back ≠ [])
    (dark : ∀ c ∈ back, isWhitespace c = false) : trim (c :: t ++ back) = c :: t ++ back := by
  have start : trimStart (c :: t ++ back) = c :: t ++ back := dropWhile_cons_of_neg (by simp [first])
  rw [trim, start]
  refine rdropWhile_eq_self_iff.mpr fun whole => ?_
  rw [getLast_append_of_ne_nil whole held]
  simp [dark _ (getLast_mem held)]

theorem encoded_dark {kept : Char → Bool} (marks : ∀ c, kept c = true → c.isAlphanum = true ∨ c ∈ "-._~/:".toList) :
    ∀ c ∈ (asBytes value).flatMap (encodeByte kept), isWhitespace c = false := by
  have digits : ∀ c ∈ "0123456789ABCDEF".toList, isWhitespace c = false := each_char (by decide)
  have others : ∀ c ∈ "-._~/:".toList, isWhitespace c = false := each_char (by decide)
  intro c mem
  rcases mem_encoded mem with stays | rfl | digit
  · rcases marks c stays with alphanum | mark
    · exact alphanum_dark alphanum
    · exact others c mark
  · decide
  · exact digits c digit

theorem unreserved_marks (c : Char) (kept : isUnreserved c = true) : c.isAlphanum = true ∨ c ∈ "-._~/:".toList := by
  have marks : ∀ c ∈ "-._~".toList, c ∈ "-._~/:".toList := each_char (by decide)
  exact (Bool.or_eq_true_iff.mp kept).imp_right fun mark => marks c (contains_iff_mem.mp mark)

theorem path_marks (c : Char) (kept : isPathChar c = true) : c.isAlphanum = true ∨ c ∈ "-._~/:".toList := by
  have marks : ∀ c ∈ "-._~/ :".toList, c ≠ ' ' → c ∈ "-._~/:".toList := each_char (by decide)
  refine (Bool.or_eq_true_iff.mp kept).imp_right fun mark => ?_
  obtain ⟨listed, other⟩ := Bool.and_eq_true_iff.mp mark
  exact marks c (contains_iff_mem.mp listed) (by simpa using other)

theorem scheme_leads (server : config.driver ≠ .Sqlite) (rest : Text) :
    "sqlite:".toList.isPrefixOf (scheme config.driver config.tls ++ "://" ++ rest) = false ∧
      "mongodb+srv://".toList.isPrefixOf (scheme config.driver config.tls ++ "://" ++ rest) = false ∧
      schemes.findSome? (fun (id, scheme', tls') =>
        (stripPrefix scheme' (scheme config.driver config.tls ++ "://" ++ rest)).map (id, tls', ·)) =
        some ((uriParts config).driverId, schemeTls config, rest) := by
  simp only [uriParts, schemeTls]
  generalize config.driver = driver at server ⊢
  generalize config.tls = tls
  cases driver with
  | Sqlite => exact absurd rfl server
  | Redis | Mysql | Postgres | Mongodb => cases tls <;> exact ⟨rfl, rfl, rfl⟩

theorem scheme_first (driver : DriverKind) (tls : Bool) : ∃ c t, scheme driver tls = c :: t ∧ isWhitespace c = false := by
  cases driver with
  | Redis => cases tls <;> exact ⟨_, _, rfl, rfl⟩
  | Mysql | Postgres | Sqlite | Mongodb => exact ⟨_, _, rfl, rfl⟩

theorem byteLen_scheme (driver : DriverKind) (tls : Bool) : byteLen (scheme driver tls) ≤ 8 := by
  cases driver with
  | Redis => cases tls <;> decide
  | Mysql | Postgres | Sqlite | Mongodb => exact of_decide_eq_true rfl

theorem joined_cons (sep : Char) (item next : Text) (items : List Text) :
    [sep].intercalate (item :: next :: items) = item ++ sep :: [sep].intercalate (next :: items) := by
  simp

theorem joined_one (sep : Char) (item : Text) : [sep].intercalate [item] = item := by simp

theorem mem_joined {sep c : Char} {items : List Text} (mem : c ∈ [sep].intercalate items) : c = sep ∨ ∃ item ∈ items, c ∈ item := by
  induction items with
  | nil => cases mem
  | cons item items ih =>
    cases items with
    | nil =>
      rw [joined_one] at mem
      exact .inr ⟨item, mem_singleton.mpr rfl, mem⟩
    | cons next items =>
      rcases mem_append.mp mem with first | behind
      · exact .inr ⟨item, mem_cons_self, first⟩
      rcases mem_cons.mp behind with same | later
      · exact .inl same
      · obtain same | ⟨other, listed, inside⟩ := ih later
        · exact .inl same
        · exact .inr ⟨other, mem_cons_of_mem _ listed, inside⟩

theorem byteLen_joined {sep : Char} (one : sep.utf8Size = 1) {bound : Nat} {items : List Text}
    (each : ∀ item ∈ items, byteLen item + 1 ≤ bound) : byteLen ([sep].intercalate items) ≤ items.length * bound := by
  induction items with
  | nil => exact Nat.zero_le _
  | cons item items ih =>
    have first := each item mem_cons_self
    have rest := ih fun other mem => each other (mem_cons_of_mem _ mem)
    rw [length_cons, Nat.succ_mul]
    cases items with
    | nil =>
      rw [joined_one]
      omega
    | cons next items =>
      rw [joined_cons, byteLen_append, byteLen_cons, one]
      omega

section Config

variable {config : ConnectionConfig}

theorem mem_queryItems {item : Text} (mem : item ∈ queryItems config) :
    item = "tls=true" ∨ ∃ source ∈ config.authSource, item = "authSource=" ++ percentEncode source := by
  rw [queryItems_written] at mem
  rcases mem_append.mp mem with flag | source
  · split_ifs at flag
    · exact .inl (mem_singleton.mp flag)
    · cases flag
  split_ifs at source
  · simp only [Option.mem_toList, Option.map_eq_some_iff] at source
    obtain ⟨value, kept, rfl⟩ := source
    exact .inr ⟨value, (Option.filter_eq_some_iff.mp kept).1, rfl⟩
  · cases source

theorem length_queryItems (config : ConnectionConfig) : (queryItems config).length ≤ 2 := by
  rw [queryItems_written, length_append]
  have flag : (if config.tls = true ∧ config.driver ≠ .Redis then ["tls=true".toList] else []).length ≤ 1 := by split_ifs <;> simp
  have source : (if config.driver = .Mongodb then
      ((written config.authSource).map fun source => "authSource=".toList ++ percentEncode source).toList else []).length ≤ 1 := by
    split_ifs
    · cases written config.authSource <;> simp
    · simp
  omega

theorem back_dark : ∀ c ∈ ':' :: natText config.port.val ++ databasePart config ++ queryPart config, isWhitespace c = false := by
  have digits : ∀ c ∈ natText config.port.val, isWhitespace c = false := by
    intro c mem
    refine alphanum_dark ?_
    rw [Char.isAlphanum, natText_isDigit mem, Bool.or_true]
  have encoded : ∀ value, ∀ c ∈ percentEncode value, isWhitespace c = false := fun value => encoded_dark unreserved_marks
  have database : ∀ c ∈ databasePart config, isWhitespace c = false := by
    rw [databasePart_written]
    cases written config.database with
    | none => exact fun c mem => (by cases mem)
    | some value => exact forall_mem_cons.mpr ⟨by decide, encoded value⟩
  have query : ∀ c ∈ queryPart config, isWhitespace c = false := by
    have flag : ∀ c ∈ "tls=true".toList, isWhitespace c = false := each_char (by decide)
    have source : ∀ c ∈ "authSource=".toList, isWhitespace c = false := each_char (by decide)
    unfold queryPart
    split_ifs
    · exact fun c mem => (by cases mem)
    refine forall_mem_cons.mpr ⟨by decide, fun c mem => ?_⟩
    obtain rfl | ⟨item, listed, inside⟩ := mem_joined mem
    · decide
    · obtain rfl | ⟨value, -, rfl⟩ := mem_queryItems listed
      · exact flag c inside
      · exact (mem_append.mp inside).elim (source c) (encoded value c)
  intro c mem
  simp only [cons_append, mem_cons, mem_append] at mem
  rcases mem with rfl | (digit | inDatabase) | inQuery
  · decide
  · exact digits c digit
  · exact database c inDatabase
  · exact query c inQuery

theorem byteLen_rest (checked : Checked config) : byteLen (restPart config) ≤ 100 * 1024 := by
  have encoded : ∀ value, byteLen (percentEncode value) ≤ 3 * byteLen value := fun value => encoded_length plain_unreserved value
  have limit : MAX_CONNECTION_IDENTIFIER_BYTES = 4096 := rfl
  have hostLimit : MAX_CONNECTION_PATH_BYTES = 32768 := rfl
  have user : byteLen (userPart config) ≤ 3 * 4096 + 1 := by
    have name := encoded config.username
    have short := checked.username
    unfold userPart
    split_ifs
    · exact Nat.zero_le _
    · rw [byteLen_append]
      show _ + 1 ≤ _
      omega
  have host : byteLen (hostPart config) ≤ 32768 + 2 := by
    have short := checked.host
    unfold hostPart
    split_ifs
    · rw [byteLen_append, byteLen_cons]
      show 1 + _ + 1 ≤ _
      omega
    · omega
  have port : byteLen (natText config.port.val) ≤ 5 := by
    have ascii : ∀ c ∈ natText config.port.val, c.toNat < 128 := by
      intro c mem
      have range := digit_range (natText_isDigit mem)
      omega
    rw [← asBytes_length, asBytes_ascii ascii, length_map]
    refine (Nat.length_toDigits_le_iff (by decide) (by decide)).mpr ?_
    omega
  have database : byteLen (databasePart config) ≤ 3 * 4096 + 1 := by
    rw [databasePart_written]
    cases kept : written config.database with
    | none => exact Nat.zero_le _
    | some value =>
      have short := checked.database value (Option.filter_eq_some_iff.mp kept).1
      have name := encoded value
      show 1 + _ ≤ _
      omega
  have query : byteLen (queryPart config) ≤ 2 * (3 * 4096 + 12) + 1 := by
    unfold queryPart
    split_ifs
    · exact Nat.zero_le _
    have each : ∀ item ∈ queryItems config, byteLen item + 1 ≤ 3 * 4096 + 12 := by
      intro item listed
      obtain rfl | ⟨value, there, rfl⟩ := mem_queryItems listed
      · decide
      have short := checked.authSource value there
      have name := encoded value
      have source : byteLen "authSource=" = 11 := by decide
      rw [byteLen_append, source]
      omega
    have one : '&'.utf8Size = 1 := by decide
    have joined := byteLen_joined one each
    have two := Nat.mul_le_mul_right (3 * 4096 + 12) (length_queryItems config)
    show 1 + _ ≤ _
    omega
  rw [restPart, byteLen_append, byteLen_append, byteLen_append, byteLen_append, byteLen_cons]
  show _ + (_ + (1 + _) + _ + _) ≤ _
  omega

theorem server_uri (server : config.driver ≠ .Sqlite) :
    connectionUriWithoutPassword config = scheme config.driver config.tls ++ "://" ++ restPart config := if_neg server

theorem trim_uri (server : config.driver ≠ .Sqlite) : trim (connectionUriWithoutPassword config) = connectionUriWithoutPassword config := by
  obtain ⟨c, t, first, dark⟩ := scheme_first config.driver config.tls
  have shape : connectionUriWithoutPassword config = c :: (t ++ "://" ++ userPart config ++ hostPart config) ++
        (':' :: natText config.port.val ++ databasePart config ++ queryPart config) := by
    rw [server_uri server, first]
    simp [restPart]
  rw [shape]
  exact trim_span dark (by simp) back_dark

theorem server_round_trip (server : config.driver ≠ .Sqlite) (checked : Checked config) :
    parseConnectionUri (connectionUriWithoutPassword config) = .ok (uriParts config) ↔ Writable config := by
  obtain ⟨notFile, notSrv, found⟩ := scheme_leads server (restPart config)
  have used : config.port ≠ 0 := fun zero => server (checked.port.mp zero)
  have short : ¬ byteLen (connectionUriWithoutPassword config) > MAX_URI_BYTES := by
    have rest := byteLen_rest checked
    have name := byteLen_scheme config.driver config.tls
    have marks : byteLen "://" = 3 := by decide
    rw [server_uri server, byteLen_append, byteLen_append, marks, MAX_URI_BYTES]
    omega
  rw [← rest_round_trip server checked.held used, parseConnectionUri, if_neg short, trim_uri server, server_uri server]
  simp only [notFile, notSrv, Bool.false_eq_true, if_false, found]

end Config

/-! ### Files -/

/-- A path as the parser takes it, without the slash in front of a drive. -/
def driveless (path : Text) : Text := if path.head? = some '/' ∧ isDrive path.tail then path.tail else path

/-- A path as it is written, with a slash in front of what looks like a drive. -/
def withSlash (path : Text) : Text := if path.head? ≠ some '/' ∧ isColonSecond path then '/' :: path else path

theorem percentEncodePath_slash (path : Text) : percentEncodePath ('/' :: path) = '/' :: percentEncodePath path := by
  have slash : (asBytes ['/']).flatMap (encodeByte isPathChar) = ['/'] := by decide
  show (asBytes (['/'] ++ path)).flatMap _ = ['/'] ++ (asBytes path).flatMap _
  rw [asBytes_append, flatMap_append, slash]

variable {path : Text}

theorem percentEncodePath_ne_nil (held : path ≠ []) : percentEncodePath path ≠ [] := by
  intro none
  have decoded := percentDecode_encoded plain_path path
  rw [show (asBytes path).flatMap (encodeByte isPathChar) = [] from none] at decoded
  exact held (Except.ok.inj decoded).symm

theorem sqliteUri_path (file : path ≠ ":memory:") :
    sqliteUri path = "sqlite://" ++ percentEncodePath (withSlash (replaceChar '\\' ['/'] path)) := by
  have slashes : ∀ t : Text, "sqlite:///" ++ t = "sqlite://" ++ '/' :: t := fun _ => rfl
  unfold sqliteUri withSlash
  rw [if_neg file]
  by_cases slash : (replaceChar '\\' ['/'] path).head? = some '/'
  · rw [if_pos slash, if_neg fun both => both.1 slash]
  rw [if_neg slash]
  by_cases colon : isColonSecond (replaceChar '\\' ['/'] path) = true
  · rw [if_pos colon, if_pos ⟨slash, colon⟩, percentEncodePath_slash, slashes]
  · rw [if_neg colon, if_neg fun both => colon both.2]

theorem isDrive_held (drive : isDrive path = true) : path ≠ [] := by
  rintro rfl
  cases drive

theorem driveless_ne_nil (held : path ≠ []) : driveless path ≠ [] := by
  unfold driveless
  split_ifs with both
  · exact isDrive_held both.2
  · exact held

/-- A path that is written is read without the slash in front of a drive. -/
theorem parse_file (held : path ≠ []) (short : byteLen path ≤ MAX_CONNECTION_PATH_BYTES + 1) :
    parseConnectionUri ("sqlite://" ++ percentEncodePath path) = .ok ⟨"sqlite", driveless path, none, [], [], none, none, false⟩ := by
  have size := encoded_length plain_path path
  have limit : MAX_CONNECTION_PATH_BYTES = 32768 := rfl
  have name : byteLen "sqlite://" = 9 := by decide
  have fits : ¬ byteLen ("sqlite://" ++ percentEncodePath path) > MAX_URI_BYTES := by
    rw [byteLen_append, name, MAX_URI_BYTES, percentEncodePath]
    omega
  have trimmed : trim ("sqlite://" ++ percentEncodePath path) = "sqlite://" ++ percentEncodePath path :=
    trim_span (by decide) (percentEncodePath_ne_nil held) (encoded_dark path_marks)
  have scheme' : "sqlite:".toList.isPrefixOf ("sqlite://" ++ percentEncodePath path) = true := rfl
  have question : '?' ∉ percentEncodePath path := by
    intro mem
    have digits : '?' ∉ "0123456789ABCDEF".toList := by decide
    rcases mem_encoded mem with kept | same | digit
    · cases kept
    · cases same
    · exact digits digit
  rw [parseConnectionUri, if_neg fits, trimmed]
  simp only [scheme', if_true]
  rw [parseSqliteUri, stripPrefix_append, Option.some_or]
  simp only [if_neg (percentEncodePath_ne_nil held), if_neg question]
  rw [percentEncodePath, percentDecode_encoded plain_path]
  exact if_neg (driveless_ne_nil held)

theorem driveless_withSlash (file : path ≠ ":memory:") : driveless (withSlash path) = path ↔ isWritablePath path = true := by
  have longer : ∀ t : Text, t.tail = t → t = [] := by
    intro t same
    cases t with
    | nil => rfl
    | cons c t => exact absurd (congrArg List.length same) (by simp)
  rw [isWritablePath, decide_eq_false file, Bool.false_or]
  by_cases slash : path.head? = some '/'
  · rw [withSlash, if_neg fun both => both.1 slash, driveless, if_pos slash]
    by_cases drive : isDrive path.tail = true
    · rw [if_pos ⟨slash, drive⟩, drive]
      refine ⟨fun same => ?_, fun wrong => (by cases wrong)⟩
      rw [longer path same] at slash
      cases slash
    · rw [if_neg fun both => drive both.2, Bool.eq_false_iff.mpr drive]
      exact ⟨fun _ => rfl, fun _ => rfl⟩
  · rw [if_neg slash]
    by_cases colon : isColonSecond path = true
    · rw [withSlash, if_pos ⟨slash, colon⟩, driveless, colon]
      by_cases drive : isDrive path = true
      · rw [if_pos ⟨rfl, drive⟩, drive]
        exact ⟨fun _ => rfl, fun _ => rfl⟩
      · rw [if_neg fun both => drive both.2, Bool.eq_false_iff.mpr drive]
        exact ⟨fun same => absurd (congrArg List.length same) (by simp), fun wrong => (by cases wrong)⟩
    · rw [withSlash, if_neg fun both => colon both.2, driveless, if_neg fun both => slash both.1, Bool.eq_false_iff.mpr colon]
      exact ⟨fun _ => rfl, fun _ => rfl⟩

theorem replaceChar_free {old : Char} {new : Text} (free : old ∉ t) : replaceChar old new t = t := by
  induction t with
  | nil => rfl
  | cons c t ih =>
    have other : old ≠ c := fun same => free (same ▸ mem_cons_self)
    have rest : old ∉ t := fun mem => free (mem_cons_of_mem c mem)
    show (if c = old then new else [c]) ++ replaceChar old new t = c :: t
    rw [if_neg fun same => other same.symm, ih rest]
    rfl

theorem replaceChar_mem {old : Char} {new : Text} (mem : old ∈ t) : ∀ c ∈ new, c ∈ replaceChar old new t := by
  intro c inside
  exact mem_flatMap.mpr ⟨old, mem, by simpa using inside⟩

theorem byteLen_slashes (path : Text) : byteLen (replaceChar '\\' ['/'] path) = byteLen path := by
  induction path with
  | nil => rfl
  | cons c path ih =>
    show byteLen ((if c = '\\' then ['/'] else [c]) ++ replaceChar '\\' ['/'] path) = _
    rw [byteLen_append, ih, byteLen_cons]
    split_ifs with same
    · rw [same]
      rfl
    · rfl

theorem memory_slashes : replaceChar '\\' ['/'] path = ":memory:" ↔ path = ":memory:" := by
  constructor
  · intro same
    have free : '\\' ∉ path := by
      intro mem
      have slash : '/' ∈ replaceChar '\\' ['/'] path := replaceChar_mem mem '/' mem_cons_self
      rw [same] at slash
      revert slash
      decide
    rwa [replaceChar_free free] at same
  · rintro rfl
    decide

theorem parse_memory : parseConnectionUri (sqliteUri ":memory:") =
    .ok ⟨"sqlite", replaceChar '\\' ['/'] ":memory:", none, [], [], none, none, false⟩ := by decide +kernel

theorem memory_writable : isWritablePath (replaceChar '\\' ['/'] ":memory:") = true := by decide +kernel

theorem file_round_trip (file : config.driver = .Sqlite) (checked : Checked config) :
    parseConnectionUri (connectionUriWithoutPassword config) = .ok (uriParts config) ↔ Writable config := by
  obtain ⟨username, database, authSource, tls⟩ := checked.file file
  have parts : uriParts config = ⟨"sqlite", replaceChar '\\' ['/'] config.host, none, [], [], none, none, false⟩ := by
    simp only [uriParts, file, username, database, authSource, tls, if_true]
  rw [parts, connectionUriWithoutPassword, if_pos file, Writable, if_pos file]
  by_cases memory : config.host = ":memory:"
  · rw [memory]
    exact ⟨fun _ => memory_writable, fun _ => parse_memory⟩
  have other : replaceChar '\\' ['/'] config.host ≠ ":memory:" := fun same => memory (memory_slashes.mp same)
  have held : replaceChar '\\' ['/'] config.host ≠ [] := by
    intro none
    have size := byteLen_slashes config.host
    rw [none] at size
    cases host : config.host with
    | nil => exact checked.held host
    | cons c rest =>
      rw [host, byteLen_cons] at size
      have positive := c.utf8Size_pos
      have zero : byteLen [] = 0 := rfl
      omega
  have bound := checked.host
  rw [← byteLen_slashes] at bound
  rw [sqliteUri_path memory, ← driveless_withSlash other]
  generalize replaceChar '\\' ['/'] config.host = path at held bound
  have written : withSlash path ≠ [] := by
    unfold withSlash
    split_ifs
    · exact cons_ne_nil _ _
    · exact held
  have short : byteLen (withSlash path) ≤ MAX_CONNECTION_PATH_BYTES + 1 := by
    unfold withSlash
    split_ifs
    · show 1 + _ ≤ _
      omega
    · omega
  rw [parse_file written short]
  constructor
  · intro same
    exact congrArg UriParts.host (Except.ok.inj same)
  · intro same
    rw [same]

/-- The URI of a checked connection is read back as the connection exactly when
its host or path is writable, no text of it is empty, and its driver has a use
for what it holds. -/
theorem uri_round_trip (config : ConnectionConfig) (valid : validate config = .ok ()) :
    parseConnectionUri (connectionUriWithoutPassword config) = .ok (uriParts config) ↔ Writable config := by
  by_cases file : config.driver = .Sqlite
  · exact file_round_trip file (validate_checked valid)
  · exact server_round_trip file (validate_checked valid)

/-- An SQLite database with a path. -/
def fileAt (path : Text) : ConnectionConfig where
  id := ⟨0, Uuids.zero_small⟩
  name := "local"
  driver := .Sqlite
  host := path
  port := 0
  username := []
  password := []
  database := none
  authSource := none
  remark := none
  environment := none
  production := false
  tls := false
  tlsVerify := .Full
  caCertPath := none
  sshTarget := none
  sshPort := none

theorem uri_round_trip_file : parseConnectionUri (connectionUriWithoutPassword (fileAt "a.db")) =
    .ok (uriParts (fileAt "a.db")) ↔ Writable (fileAt "a.db") :=
  uri_round_trip (fileAt "a.db") (by decide +kernel)

/-- A directory at the root that is named like a drive becomes one. -/
theorem drive_misread : ¬ ∀ config : ConnectionConfig, validate config = .ok () →
    parseConnectionUri (connectionUriWithoutPassword config) = .ok (uriParts config) := by
  intro sound
  have read := sound (fileAt "/C:/a.db") (by decide +kernel)
  revert read
  decide +kernel

end Ramag.ConnectionUri
