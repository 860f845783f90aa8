import Ramag.Domain

/-!
Remote SFTP paths: which texts are paths of which namespace, and the path of a
child of a directory. The rules do not depend on the client's own system.
-/
namespace Ramag.SshRemotePath
open Strings Domain List

inductive SftpNamespaceKind
  | Posix
  | WindowsDrive
  | Virtual
  | Unknown
  deriving DecidableEq

structure RemotePath where
  canonical : Text
  kind : SftpNamespaceKind
  deriving DecidableEq

def MAX_SSH_PATH_BYTES : Nat := 32 * 1024

def isSlash (c : Char) : Bool := c = '/'

def trimEndSlashes (t : Text) : Text := t.rdropWhile isSlash
def trimSlashes (t : Text) : Text := trimEndSlashes (t.dropWhile isSlash)
def components (t : Text) : List Text := t.splitOnP isSlash

def isWindowsDriveAbsolute : Text → Bool
  | letter :: ':' :: '/' :: _ => letter.isAlpha
  | _ => false

def hasVirtualWindowsDrivePrefix : Text → Bool
  | '/' :: letter :: ':' :: '/' :: _ => letter.isAlpha
  | _ => false

def isVirtualWindowsDriveRoot (value : Text) : Bool := value.length = 4 && hasVirtualWindowsDrivePrefix value

/-- Three bytes of which the last is a slash. -/
def isDriveRoot (value : Text) : Bool := byteLen value = 3 && value.getLast? = some '/'

def inferSftpNamespace (path : Text) : SftpNamespaceKind :=
  if isWindowsDriveAbsolute path then .WindowsDrive
  else if hasVirtualWindowsDrivePrefix path then .Virtual
  else if path.head? = some '/' then .Posix
  else .Unknown

def isWindowsReservedName (value : Text) : Bool :=
  let upper := toAsciiUppercase value
  upper ∈ ["CON".toList, "PRN".toList, "AUX".toList, "NUL".toList] ||
    ["COM".toList, "LPT".toList].any fun device =>
      match stripPrefix device upper with
      | some [digit] => '1' ≤ digit && digit ≤ '9'
      | _ => false

def validateProtocolPath (value : Text) : Except Text Unit :=
  if value = [] then .error "远程路径不能为空"
  else if MAX_SSH_PATH_BYTES < byteLen value then
    .error ("远程路径过长：" ++ natText (byteLen value) ++ " bytes，最多 " ++ natText MAX_SSH_PATH_BYTES ++ " bytes")
  else if value.any isControl then .error "远程路径不能包含控制字符"
  else .ok ()

def separatorInName (c : Char) : Bool := c = '/' || c = '\\'
def windowsForbidden (c : Char) : Bool := c ∈ ['<', '>', ':', '"', '|', '?', '*']

def validateRemoteNameForNamespace (name : Text) (kind : SftpNamespaceKind) : Except Text Unit := do
  validateProtocolPath name
  if name = [] || name = "." || name = ".." || name.any separatorInName then
    .error "远程文件名不能包含路径分隔符或使用 . / .."
  else if kind = .WindowsDrive then
    if name.any windowsForbidden then .error "Windows SFTP 文件名包含系统不允许的字符"
    else if name.getLast? = some ' ' || name.getLast? = some '.' then
      .error "Windows SFTP 文件名不能以空格或点结尾"
    else if isWindowsReservedName (name.takeWhile (· ≠ '.')) then .error "Windows SFTP 文件名使用了保留设备名"
    else .ok ()
  else .ok ()

def validateComponents (value : Text) : Except Text Unit :=
  if (components value).any fun component => component = "." || component = ".." then
    .error "规范远程路径不能包含 . 或 .. 组件"
  else .ok ()

def validatePosixAbsolute (value : Text) : Except Text Unit :=
  if value.head? ≠ some '/' || (1 < byteLen value && (findText "//" value).isSome) || value.any (· = '\\') then
    .error "远程 POSIX 路径必须以单个 '/' 开头"
  else validateComponents (trimSlashes value)

def validateWindowsNames (tail : Text) : Except Text Unit :=
  ((components tail).filter (· ≠ [])).forM fun component => validateRemoteNameForNamespace component .WindowsDrive

def validateVirtualAbsolute (value : Text) : Except Text Unit := do
  validatePosixAbsolute value
  if hasVirtualWindowsDrivePrefix value then validateWindowsNames (value.drop 4) else .ok ()

def validateWindowsDriveAbsolute (value : Text) : Except Text Unit :=
  let tail := value.drop 3
  if !isWindowsDriveAbsolute value then .error "Windows SFTP 路径必须使用 C:/path 形式的盘符绝对路径"
  else if value.any (· = '\\') || "//".toList.isPrefixOf value || "\\\\".toList.isPrefixOf value then
    .error "Windows SFTP 暂不支持 UNC 或设备路径"
  else if (findText "//" tail).isSome then .error "Windows SFTP 规范路径不能包含空组件"
  else do
    validateComponents (trimSlashes tail)
    validateWindowsNames tail

def normalizeTrailingSeparator (value : Text) (kind : SftpNamespaceKind) : Text :=
  if value = "/" || (kind = .WindowsDrive && isDriveRoot value) ||
    (kind = .Virtual && isVirtualWindowsDriveRoot value) then value
  else trimEndSlashes value

def validateAbsolute (value : Text) : SftpNamespaceKind → Except Text Unit
  | .Posix => validatePosixAbsolute value
  | .Virtual => validateVirtualAbsolute value
  | .WindowsDrive => validateWindowsDriveAbsolute value
  | .Unknown => .error "远程路径命名空间尚未识别"

def parseWithNamespace (value : Text) (kind : SftpNamespaceKind) : Except Text RemotePath := do
  validateProtocolPath value
  validateAbsolute value kind
  .ok ⟨normalizeTrailingSeparator value kind, kind⟩

variable (path : RemotePath)

namespace RemotePath

def isRoot : Bool :=
  match path.kind with
  | .Posix => path.canonical = "/"
  | .Virtual => path.canonical = "/" || isVirtualWindowsDriveRoot path.canonical
  | .WindowsDrive => isDriveRoot path.canonical
  | .Unknown => false

/-- Where a name is put behind the directory's own text. -/
def childText (name : Text) : Except Text Text :=
  match path.kind with
  | .Posix => .ok (if path.isRoot then '/' :: name else path.canonical ++ '/' :: name)
  | .Virtual =>
    .ok (if path.canonical = "/" then '/' :: name
      else if path.canonical.getLast? = some '/' then path.canonical ++ name
      else path.canonical ++ '/' :: name)
  | .WindowsDrive => .ok (if path.isRoot then path.canonical ++ name else path.canonical ++ '/' :: name)
  | .Unknown => .error "远程路径命名空间尚未识别"

def joinChild (name : Text) : Except Text RemotePath := do
  let nameNamespace :=
    if path.kind = .Virtual && hasVirtualWindowsDrivePrefix path.canonical then .WindowsDrive else path.kind
  validateRemoteNameForNamespace name nameNamespace
  let value ← path.childText name
  parseWithNamespace value path.kind

end RemotePath

def joinRemotePath (parent name : Text) : Except Text Text := do
  let path ← parseWithNamespace parent (inferSftpNamespace parent)
  let child ← path.joinChild name
  .ok child.canonical

def validateProtocolText (label value : Text) (maxBytes : Nat) : Except Text Unit :=
  if maxBytes < byteLen value then
    .error (label ++ "过长：" ++ natText (byteLen value) ++ " bytes，最多 " ++ natText maxBytes ++ " bytes")
  else if value.any (· = '\x00') then .error (label ++ "不能包含 NUL 字符")
  else .ok ()

def validateRemotePath (path : Text) : Except Text Unit :=
  if path = [] then .error "远程路径不能为空"
  else do
    validateProtocolText "远程路径" path MAX_SSH_PATH_BYTES
    if path.any isControl then .error "远程路径不能包含控制字符" else .ok ()

def validateSingleLine (label value : Text) (maxBytes : Nat) : Except Text Unit := do
  validateProtocolText label value maxBytes
  if value.any isControl then .error (label ++ "不能包含控制字符") else .ok ()

def validateRequiredSingleLine (label value : Text) (maxBytes : Nat) : Except Text Unit :=
  if trim value = [] then .error (label ++ "不能为空") else validateSingleLine label value maxBytes

def validateRemoteName (name : Text) : Except Text Unit := do
  validateRequiredSingleLine "远程文件名" name MAX_SSH_PATH_BYTES
  if name = "." || name = ".." || name.any separatorInName then
    .error "远程文件名不能包含路径分隔符或使用 . / .."
  else .ok ()

example : joinRemotePath "/C:/".toList "a.txt".toList = .ok "/C:/a.txt".toList := by decide

/-! ### What the checks leave -/

/-- A name that is one component of a path. -/
structure IsName (name : Text) : Prop where
  held : name ≠ []
  notHere : name ≠ "."
  notUp : name ≠ ".."
  noSeparator : ∀ c ∈ name, separatorInName c = false

variable {name : Text}

private theorem isName_of_passed (held : name ≠ [])
    (passed : ¬ (name = "." || name = ".." || name.any separatorInName) = true) : IsName name := by
  simp only [Bool.or_eq_true, decide_eq_true_eq, not_or, Bool.not_eq_true] at passed
  exact ⟨held, passed.1.1, passed.1.2, fun c mem => by simpa using any_eq_false.mp passed.2 c mem⟩

theorem validateRemoteName_ok (valid : validateRemoteName name = .ok ()) : IsName name := by
  obtain ⟨⟨⟩, single, valid⟩ := bind_ok_iff.mp valid
  have held : name ≠ [] := by
    rintro rfl
    simp [validateRequiredSingleLine, trim, trimStart, trimEnd] at single
  split_ifs at valid with bad
  exact isName_of_passed held bad

variable {kind : SftpNamespaceKind}

theorem validateRemoteNameForNamespace_ok (valid : validateRemoteNameForNamespace name kind = .ok ()) : IsName name := by
  obtain ⟨⟨⟩, single, valid⟩ := bind_ok_iff.mp valid
  have held : name ≠ [] := by
    rintro rfl
    simp [validateProtocolPath] at single
  split_ifs at valid with bad
  all_goals
    refine isName_of_passed held fun good => bad ?_
    simpa [held] using good

variable {value : Text}

theorem parseWithNamespace_ok {path : RemotePath} (parsed : parseWithNamespace value kind = .ok path) :
    path = ⟨normalizeTrailingSeparator value kind, kind⟩ ∧ validateAbsolute value kind = .ok () := by
  obtain ⟨⟨⟩, -, parsed⟩ := bind_ok_iff.mp parsed
  obtain ⟨⟨⟩, valid, parsed⟩ := bind_ok_iff.mp parsed
  cases parsed
  exact ⟨rfl, valid⟩

theorem getLast_trimEndSlashes (t : Text) : (trimEndSlashes t).getLast? ≠ some '/' := by
  intro last
  have held : trimEndSlashes t ≠ [] := by
    intro nothing
    rw [nothing] at last
    cases last
  have stays := rdropWhile_last_not isSlash t held
  rw [getLast?_eq_some_getLast held, Option.some.injEq] at last
  unfold trimEndSlashes at last
  rw [last] at stays
  exact stays rfl

theorem IsName.last (isName : IsName name) (t : Text) : (t ++ '/' :: name).getLast? ≠ some '/' := by
  have inName : (t ++ '/' :: name).getLast? = name.getLast? := by
    cases name with
    | nil => exact absurd rfl isName.held
    | cons c name => simp [getLast?_cons]
  rw [inName]
  intro last
  exact absurd (isName.noSeparator '/' (mem_of_getLast? last)) (by decide)

theorem trimEndSlashes_name (t : Text) (isName : IsName name) : trimEndSlashes (t ++ '/' :: name) = t ++ '/' :: name := by
  refine rdropWhile_eq_self_iff.mpr fun held slash => isName.last t ?_
  rw [getLast?_eq_some_getLast held]
  simpa [isSlash] using slash

theorem normalize_name (t : Text) (isName : IsName name) (kind : SftpNamespaceKind) :
    normalizeTrailingSeparator (t ++ '/' :: name) kind = t ++ '/' :: name := by
  unfold normalizeTrailingSeparator
  split_ifs
  · rfl
  · exact trimEndSlashes_name t isName

theorem normalize_cases (value : Text) (kind : SftpNamespaceKind) :
    (normalizeTrailingSeparator value kind = value ∧ (value = "/" ∨ kind = .WindowsDrive ∧ isDriveRoot value = true ∨
      kind = .Virtual ∧ isVirtualWindowsDriveRoot value = true)) ∨ normalizeTrailingSeparator value kind = trimEndSlashes value := by
  unfold normalizeTrailingSeparator
  split_ifs with root
  · simp only [Bool.or_eq_true, Bool.and_eq_true, decide_eq_true_eq] at root
    exact .inl ⟨rfl, or_assoc.mp root⟩
  · exact .inr rfl

theorem driveAbsolute_cases (drive : isWindowsDriveAbsolute value = true) : ∃ letter rest, value = letter :: ':' :: '/' :: rest := by
  unfold isWindowsDriveAbsolute at drive
  split at drive
  · exact ⟨_, _, rfl⟩
  · cases drive

theorem virtualRoot_cases (root : isVirtualWindowsDriveRoot value = true) : ∃ letter, value = ['/', letter, ':', '/'] := by
  unfold isVirtualWindowsDriveRoot hasVirtualWindowsDrivePrefix at root
  split at root
  · rename_i letter rest
    have alone : rest = [] ∧ letter.isAlpha = true := by simpa using root
    exact ⟨letter, by rw [alone.1]⟩
  · simp at root

theorem windowsDrive_valid (valid : validateWindowsDriveAbsolute value = .ok ()) : isWindowsDriveAbsolute value = true := by
  by_contra drive
  have refused : (!isWindowsDriveAbsolute value) = true := by simpa using drive
  change (if (!isWindowsDriveAbsolute value) = true then _ else _) = _ at valid
  rw [if_pos refused] at valid
  cases valid

theorem childText_ok {parent : Text} (valid : validateAbsolute parent kind = .ok ())
    (placed : RemotePath.childText ⟨normalizeTrailingSeparator parent kind, kind⟩ name = .ok value) :
    value = trimEndSlashes parent ++ '/' :: name := by
  rcases normalize_cases parent kind with ⟨same, root⟩ | same
  · rw [same] at placed
    rcases root with rfl | ⟨rfl, root⟩ | ⟨rfl, root⟩
    · cases kind with
      | Posix | Virtual => cases placed; rfl
      | WindowsDrive | Unknown => cases valid
    · obtain ⟨letter, rest, rfl⟩ := driveAbsolute_cases (windowsDrive_valid valid)
      simp only [isDriveRoot, Bool.and_eq_true, decide_eq_true_eq, byteLen_cons] at root
      have alone : rest = [] := by
        have room := length_le_byteLen rest
        have first := letter.utf8Size_pos
        have colon : ':'.utf8Size = 1 := rfl
        have slash : '/'.utf8Size = 1 := rfl
        have three := of_decide_eq_true root.1
        exact length_eq_zero_iff.mp (by omega)
      subst alone
      have isRoot : isDriveRoot [letter, ':', '/'] = true := by simpa [isDriveRoot] using root
      have trimmed : trimEndSlashes [letter, ':', '/'] = [letter, ':'] := rfl
      simpa [RemotePath.childText, RemotePath.isRoot, isRoot, trimmed] using placed.symm
    · obtain ⟨letter, rfl⟩ := virtualRoot_cases root
      have trimmed : trimEndSlashes ['/', letter, ':', '/'] = ['/', letter, ':'] := rfl
      simpa [RemotePath.childText, trimmed] using placed.symm
  · rw [same] at placed
    have last := getLast_trimEndSlashes parent
    have notSlash : trimEndSlashes parent ≠ ['/'] := fun slash => last (by rw [slash]; rfl)
    cases kind with
    | Posix => simpa [RemotePath.childText, RemotePath.isRoot, notSlash] using placed.symm
    | Virtual => simpa [RemotePath.childText, last, notSlash] using placed.symm
    | WindowsDrive => simpa [RemotePath.childText, RemotePath.isRoot, isDriveRoot, last] using placed.symm
    | Unknown => cases placed

theorem joinRemotePath_ok {parent path : Text} (joined : joinRemotePath parent name = .ok path) :
    path = trimEndSlashes parent ++ '/' :: name ∧ IsName name := by
  obtain ⟨directory, parsed, joined⟩ := bind_ok_iff.mp joined
  obtain ⟨child, joined, same⟩ := bind_ok_iff.mp joined
  obtain ⟨⟨⟩, named, joined⟩ := bind_ok_iff.mp joined
  obtain ⟨value, placed, joined⟩ := bind_ok_iff.mp joined
  obtain ⟨rfl, valid⟩ := parseWithNamespace_ok parsed
  obtain ⟨rfl, -⟩ := parseWithNamespace_ok joined
  cases same
  have isName := validateRemoteNameForNamespace_ok named
  have inPlace := childText_ok valid placed
  subst inPlace
  exact ⟨normalize_name _ isName _, isName⟩

end Ramag.SshRemotePath
