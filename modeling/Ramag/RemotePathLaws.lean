import Mathlib
import Ramag.SshTransferSafety

/-!
What holds of remote paths: a canonical text is parsed to its path, a child lies
in its directory, the breadcrumbs lead from a root to the path. Three kinds of
input break a law (`remotePath_laws`): a drive path with two slashes behind the
drive is parsed to a path that is none, a virtual path that is a drive without
its slash takes the drive's root for itself, and a child may be too long.
-/
namespace Ramag.RemotePathLaws
open Strings Domain SshRemotePath SshTransfer List

theorem components_slash (before after : Text) : components (before ++ '/' :: after) = components before ++ components after :=
  splitOnP_append_cons before after rfl

theorem components_cons_slash (t : Text) : components ('/' :: t) = [] :: components t :=
  components_slash [] t

variable {t : Text}

theorem components_plain (plain : ∀ c ∈ t, c ≠ '/') : components t = [t] :=
  splitOnP_eq_singleton fun c mem => by simpa [isSlash] using plain c mem

theorem components_ne_nil (t : Text) : components t ≠ [] := splitOnP_ne_nil isSlash t

theorem first_slash (t : Text) : (∀ c ∈ t, c ≠ '/') ∨ ∃ name rest, t = name ++ '/' :: rest ∧ ∀ c ∈ name, c ≠ '/' := by
  induction t with
  | nil => exact .inl (by simp)
  | cons c t ih =>
    by_cases slash : c = '/'
    · exact .inr ⟨[], t, by rw [slash]; rfl, by simp⟩
    rcases ih with plain | ⟨name, rest, rfl, plain⟩
    · refine .inl fun d mem => ?_
      rcases mem_cons.mp mem with rfl | mem
      · exact slash
      · exact plain d mem
    refine .inr ⟨c :: name, rest, rfl, fun d mem => ?_⟩
    rcases mem_cons.mp mem with rfl | mem
    · exact slash
    · exact plain d mem

theorem slash_induction {P : Text → Prop} (last : ∀ t, (∀ c ∈ t, c ≠ '/') → P t)
    (step : ∀ name rest, (∀ c ∈ name, c ≠ '/') → P rest → P (name ++ '/' :: rest)) (t : Text) : P t := by
  induction size : t.length using Nat.strong_induction_on generalizing t with
  | h n ih =>
    rcases first_slash t with plain | ⟨name, rest, rfl, plain⟩
    · exact last t plain
    have shorter : rest.length < n := by
      rw [← size, length_append, length_cons]
      omega
    exact step name rest plain (ih rest.length shorter rest rfl)

variable {letter : Char}

theorem components_drive (alpha : letter.isAlpha = true) (t : Text) :
    components (letter :: ':' :: '/' :: t) = [letter, ':'] :: components t := by
  have ownSlash : letter ≠ '/' := by
    rintro rfl
    cases alpha
  have alone : components [letter, ':'] = [[letter, ':']] := components_plain (by simp [ownSlash])
  have split := components_slash [letter, ':'] t
  rw [alone] at split
  exact split

theorem mem_components {c : Text} (mem : c ∈ components t) : ∀ x ∈ c, x ∈ t ∧ x ≠ '/' := by
  induction t using slash_induction with
  | last t plain =>
    rw [components_plain plain, mem_singleton] at mem
    subst mem
    exact fun x inside => ⟨inside, plain x inside⟩
  | step name rest plain ih =>
    rw [components_slash, components_plain plain, singleton_append, mem_cons] at mem
    rcases mem with rfl | mem
    · exact fun x inside => ⟨mem_append_left _ inside, plain x inside⟩
    · exact fun x inside => ⟨by simp [(ih mem x inside).1], (ih mem x inside).2⟩

theorem mem_components_trim {c : Text} (held : c ≠ []) : c ∈ components (trimSlashes t) ↔ c ∈ components t := by
  have front : ∀ t : Text, c ∈ components (t.dropWhile isSlash) ↔ c ∈ components t := by
    intro t
    induction t with
    | nil => rfl
    | cons x t ih =>
      by_cases slash : x = '/'
      · subst slash
        rw [dropWhile_cons_of_pos rfl, ih, components_cons_slash, mem_cons]
        simp [held]
      · rw [dropWhile_cons_of_neg (by simpa [isSlash] using slash)]
  have back : ∀ t : Text, c ∈ components (trimEndSlashes t) ↔ c ∈ components t := by
    intro t
    induction t using List.reverseRecOn with
    | nil => rfl
    | append_singleton t x ih =>
      by_cases slash : x = '/'
      · subst slash
        rw [trimEndSlashes, rdropWhile_concat_pos _ _ _ rfl]
        change c ∈ components (trimEndSlashes t) ↔ _
        rw [ih, components_slash, mem_append]
        simp [components, held]
      · rw [trimEndSlashes, rdropWhile_concat_neg _ _ _ (by simpa [isSlash] using slash)]
  rw [trimSlashes, back, front]

/-- Whether two slashes stand together. -/
def doubled (t : Text) : Bool := (findText "//" t).isSome

theorem doubled_cons (c : Char) (t : Text) : doubled (c :: t) = ((decide (c = '/') && decide (t.head? = some '/')) || doubled t) := by
  have here : "//".toList.isPrefixOf (c :: t) = (decide (c = '/') && decide (t.head? = some '/')) := by
    cases t with
    | nil => by_cases slash : c = '/' <;> simp [List.isPrefixOf]
    | cons d t => by_cases slash : c = '/' <;> by_cases next : d = '/' <;> simp [List.isPrefixOf, slash, next, Ne.symm]
  unfold doubled
  rw [findText, here]
  split <;> simp_all

theorem doubled_plain {name : Text} (plain : ∀ c ∈ name, c ≠ '/') (t : Text) : doubled (name ++ t) = doubled t := by
  induction name with
  | nil => rfl
  | cons c name ih =>
    rw [cons_append, doubled_cons, ih fun d mem => plain d (mem_cons_of_mem _ mem)]
    simp [plain c mem_cons_self]

/-- Behind a slash: no two slashes stand together when no component but the last
    is empty. -/
theorem doubled_slash (t : Text) : doubled ('/' :: t) = false ↔ ∀ c ∈ (components t).dropLast, c ≠ [] := by
  induction t using slash_induction with
  | last t plain =>
    have first : t.head? ≠ some '/' := fun first => plain '/' (mem_of_head? first) rfl
    have alone : doubled t = false := by
      have empty := doubled_plain plain []
      rw [append_nil] at empty
      exact empty
    simp [doubled_cons, components_plain plain, first, alone]
  | step name rest plain ih =>
    rw [doubled_cons, doubled_plain plain, components_slash, components_plain plain, singleton_append,
      dropLast_cons_of_ne_nil (components_ne_nil rest), forall_mem_cons, ← ih]
    cases name with
    | nil => simp
    | cons c name => simp [plain c mem_cons_self]

theorem refused_ok {condition : Prop} [Decidable condition] {error : Text} {next : Except Text Unit} :
    (if condition then .error error else next) = .ok () ↔ ¬ condition ∧ next = .ok () := by
  split_ifs with bad
  · exact ⟨fun no => (by cases no), fun ⟨good, _⟩ => absurd bad good⟩
  · exact ⟨fun passed => ⟨bad, passed⟩, And.right⟩

/-- What the checks of an absolute path ask of the text below its root. -/
def Named (t : Text) : Prop :=
  (∀ c ∈ (components t).dropLast, c ≠ []) ∧ '\\' ∉ t ∧ ∀ c ∈ components t, c ≠ "." ∧ c ≠ ".."

theorem validateComponents_ok : validateComponents (trimSlashes t) = .ok () ↔ ∀ c ∈ components t, c ≠ "." ∧ c ≠ ".." := by
  have same : ((components (trimSlashes t)).any fun c => decide (c = ".") || decide (c = "..")) = false ↔
      ∀ c ∈ components t, c ≠ "." ∧ c ≠ ".." := by
    simp only [any_eq_false, Bool.or_eq_true, decide_eq_true_eq, not_or]
    constructor <;> intro clean c mem
    · by_cases held : c = []
      · subst held
        exact ⟨by decide, by decide⟩
      · exact clean c ((mem_components_trim held).mpr mem)
    by_cases held : c = []
    · subst held
      exact ⟨by decide, by decide⟩
    · exact clean c ((mem_components_trim held).mp mem)
  unfold validateComponents
  rw [refused_ok, ← same, Bool.not_eq_true]
  exact and_iff_left rfl

theorem posix_ok : validatePosixAbsolute ('/' :: t) = .ok () ↔ Named t := by
  have long : doubled ('/' :: t) = true → 1 < byteLen ('/' :: t) := by
    cases t with
    | nil => simp [doubled, findText]
    | cons c t =>
      have first : '/'.utf8Size = 1 := rfl
      have more := c.utf8Size_pos
      simp only [byteLen_cons, first]
      omega
  have components_root : (∀ c ∈ components ('/' :: t), c ≠ "." ∧ c ≠ "..") ↔
      ∀ c ∈ components t, c ≠ "." ∧ c ≠ ".." := by
    rw [components_cons_slash, forall_mem_cons]
    exact and_iff_right ⟨by decide, by decide⟩
  unfold validatePosixAbsolute Named
  rw [refused_ok, validateComponents_ok, components_root, ← doubled_slash, ← and_assoc]
  refine and_congr_left' ?_
  change ¬ (_ || decide _ && doubled ('/' :: t) || _) = true ↔ _
  cases two : doubled ('/' :: t) with
  | true =>
    rw [decide_eq_true (long two)]
    simp
  | false => simp

variable {value : Text}

theorem posix_slash (valid : validatePosixAbsolute value = .ok ()) : ∃ t, value = '/' :: t := by
  unfold validatePosixAbsolute at valid
  split at valid
  · cases valid
  rename_i good
  cases value with
  | nil => simp at good
  | cons c t =>
    have first : c = '/' := by
      by_contra other
      simp [other] at good
    exact ⟨t, by rw [first]⟩

theorem validateWindowsNames_ok : validateWindowsNames t = .ok () ↔
    ∀ c ∈ components t, c ≠ [] → validateRemoteNameForNamespace c .WindowsDrive = .ok () := by
  have each : ∀ names : List Text, (names.forM fun c => validateRemoteNameForNamespace c .WindowsDrive) = .ok () ↔
      ∀ c ∈ names, validateRemoteNameForNamespace c .WindowsDrive = .ok () := by
    intro names
    induction names with
    | nil => simp [pure, Except.pure]
    | cons c names ih =>
      rw [forall_mem_cons, ← ih]
      change ((validateRemoteNameForNamespace c .WindowsDrive >>= fun _ => names.forM _) = .ok ()) ↔ _
      rw [bind_ok_iff]
      exact ⟨fun ⟨⟨⟩, first, rest⟩ => ⟨first, rest⟩, fun ⟨first, rest⟩ => ⟨(), first, rest⟩⟩
  rw [validateWindowsNames, each]
  simp

theorem drive_ok : validateWindowsDriveAbsolute (letter :: ':' :: '/' :: t) = .ok () ↔
    letter.isAlpha = true ∧ '\\' ∉ t ∧ doubled t = false ∧ (∀ c ∈ components t, c ≠ "." ∧ c ≠ "..") ∧
      ∀ c ∈ components t, c ≠ [] → validateRemoteNameForNamespace c .WindowsDrive = .ok () := by
  unfold validateWindowsDriveAbsolute isWindowsDriveAbsolute
  rw [refused_ok, refused_ok, refused_ok, bind_ok_iff]
  change _ ∧ _ ∧ ¬ doubled t = true ∧ _ ↔ _
  have windows := validateWindowsNames_ok (t := t)
  have plain := validateComponents_ok (t := t)
  constructor
  · rintro ⟨alpha, device, two, ⟨⟩, checked, names⟩
    refine ⟨by simpa using alpha, fun back => device ?_, by simpa using two, plain.mp checked, windows.mp names⟩
    simp [back]
  rintro ⟨alpha, back, two, checked, names⟩
  refine ⟨by simpa using alpha, ?_, by simpa using two, (), plain.mpr checked, windows.mpr names⟩
  have ownBack : letter ≠ '\\' := by rintro rfl; cases alpha
  simp [back, ownBack]

/-! ### Paths by the names below their root -/

def flat (names : List Text) : Text := names.flatMap ('/' :: ·)

/-- The canonical text of the path with these names below its root. -/
def spell (head : Text) (names : List Text) : Text := head ++ if names = [] then ['/'] else flat names

/-- What stands before the slash of a root. -/
inductive HeadOf : SftpNamespaceKind → Text → Prop
  | posix : HeadOf .Posix []
  | top : HeadOf .Virtual []
  | virtualDrive {letter : Char} (alpha : letter.isAlpha = true) : HeadOf .Virtual ['/', letter, ':']
  | drive {letter : Char} (alpha : letter.isAlpha = true) : HeadOf .WindowsDrive [letter, ':']

structure Spelled (kind : SftpNamespaceKind) (head : Text) (names : List Text) : Prop where
  headOf : HeadOf kind head
  isNames : ∀ name ∈ names, IsName name
  shown : ∀ name ∈ names, name.any isControl = false
  windows : head ≠ [] → ∀ name ∈ names, validateRemoteNameForNamespace name .WindowsDrive = .ok ()
  /-- What is below a drive has the drive in its head. -/
  noDrive : kind = .Virtual → head = [] → ∀ letter rest, letter.isAlpha = true → names = [letter, ':'] :: rest → rest = []

@[simp] theorem flat_nil : flat [] = [] := rfl
@[simp] theorem flat_cons (name : Text) (names : List Text) : flat (name :: names) = '/' :: name ++ flat names := rfl
@[simp] theorem flat_append (before after : List Text) : flat (before ++ after) = flat before ++ flat after :=
  flatMap_append

theorem flat_components (t : Text) : flat (components t) = '/' :: t := by
  induction t using slash_induction with
  | last t plain => simp [components_plain plain]
  | step name rest plain ih => simp [components_slash, components_plain plain, ih]

theorem components_flat {names : List Text} (isNames : ∀ name ∈ names, IsName name) (held : names ≠ []) :
    ∃ t, flat names = '/' :: t ∧ components t = names := by
  have whole : ∀ names : List Text, (∀ name ∈ names, IsName name) → components (flat names) = [] :: names := by
    intro names isNames
    induction names with
    | nil => rfl
    | cons name names ih =>
      have plain : ∀ c ∈ name, c ≠ '/' := by
        rintro _ mem rfl
        exact absurd ((isNames name mem_cons_self).noSeparator '/' mem) (by decide)
      have rest := ih fun n mem => isNames n (mem_cons_of_mem _ mem)
      rw [flat_cons, cons_append, components_cons_slash, List.cons.injEq]
      refine ⟨rfl, ?_⟩
      cases names with
      | nil => simp [components_plain plain]
      | cons next names =>
        rw [flat_cons, cons_append, components_cons_slash, List.cons.injEq] at rest
        rw [flat_cons, cons_append, components_slash, components_plain plain, rest.2]
        rfl
  obtain ⟨name, rest, rfl⟩ := exists_cons_of_ne_nil held
  refine ⟨name ++ flat rest, rfl, ?_⟩
  have all := whole _ isNames
  rw [flat_cons, cons_append, components_cons_slash, List.cons.injEq] at all
  exact all.2

theorem trim_flat (head : Text) {names : List Text} (isNames : ∀ name ∈ names, IsName name) (held : names ≠ []) :
    trimEndSlashes (head ++ flat names) = head ++ flat names := by
  obtain ⟨before, name, rfl⟩ := eq_nil_or_concat' names |>.resolve_left held
  have text : head ++ flat (before ++ [name]) = head ++ flat before ++ '/' :: name := by simp
  rw [text]
  exact trimEndSlashes_name _ (isNames name (by simp))

theorem names_of_inner (inner : ∀ c ∈ (components t).dropLast, c ≠ []) :
    t = [] ∨ ∃ names, names ≠ [] ∧ (∀ name ∈ names, name ∈ components t ∧ name ≠ []) ∧
      ('/' :: t = flat names ∨ '/' :: t = flat names ++ ['/']) := by
  obtain ⟨before, final, split⟩ := eq_nil_or_concat' (components t) |>.resolve_left (components_ne_nil t)
  have whole := flat_components t
  rw [split, dropLast_concat] at inner
  by_cases empty : final = []
  · subst empty
    rw [split, flat_append] at whole
    by_cases alone : before = []
    · subst alone
      exact .inl (by simpa using whole.symm)
    · refine .inr ⟨before, alone, fun name mem => ⟨?_, inner name mem⟩, .inr whole.symm⟩
      rw [split]
      exact mem_append_left _ mem
  · refine .inr ⟨components t, components_ne_nil t, fun name mem => ⟨mem, ?_⟩, .inl whole.symm⟩
    rw [split, mem_append, mem_singleton] at mem
    rcases mem with mem | rfl
    · exact inner name mem
    · exact empty

theorem alpha_range (alpha : letter.isAlpha = true) : 65 ≤ letter.toNat ∧ letter.toNat ≤ 122 := by
  simp only [Char.isAlpha, Char.isUpper, Char.isLower, Bool.or_eq_true, Bool.and_eq_true, decide_eq_true_eq,
    ge_iff_le, UInt32.le_iff_toNat_le] at alpha
  have upper : 'A'.val.toNat = 65 ∧ 'Z'.val.toNat = 90 := ⟨rfl, rfl⟩
  have lower : 'a'.val.toNat = 97 ∧ 'z'.val.toNat = 122 := ⟨rfl, rfl⟩
  unfold Char.toNat
  omega

theorem alpha_size (alpha : letter.isAlpha = true) : letter.utf8Size = 1 := by
  rw [Char.utf8Size_eq_one_iff, UInt32.le_iff_toNat_le]
  exact (alpha_range alpha).2.trans (by decide)

theorem alpha_shown (alpha : letter.isAlpha = true) : isControl letter = false := by
  have range := alpha_range alpha
  simp only [isControl, Bool.or_eq_false_iff, Bool.and_eq_false_iff, decide_eq_false_iff_not]
  omega

variable {kind : SftpNamespaceKind}

theorem normalize_root {head : Text} (headOf : HeadOf kind head) : normalizeTrailingSeparator (head ++ ['/']) kind = head ++ ['/'] := by
  cases headOf with
  | posix | top => rfl
  | virtualDrive alpha => simp [normalizeTrailingSeparator, isVirtualWindowsDriveRoot, hasVirtualWindowsDrivePrefix, alpha]
  | @drive letter alpha =>
    have one : letter.utf8Size = 1 := alpha_size alpha
    have colon : ':'.utf8Size = 1 := rfl
    have slash : '/'.utf8Size = 1 := rfl
    have root : isDriveRoot [letter, ':', '/'] = true := by simp [isDriveRoot, one, colon, slash]
    simp [normalizeTrailingSeparator, root]

theorem spelled_of_text {head : Text} (headOf : HeadOf kind head) (inner : ∀ c ∈ (components t).dropLast, c ≠ []) (noBack : '\\' ∉ t)
    (plain : ∀ c ∈ components t, c ≠ "." ∧ c ≠ "..") (shown : t.any isControl = false)
    (windows : head ≠ [] → ∀ c ∈ components t, c ≠ [] → validateRemoteNameForNamespace c .WindowsDrive = .ok ())
    (noDrive : kind = .Virtual → head = [] → hasVirtualWindowsDrivePrefix ('/' :: t) = false) :
    ∃ names, Spelled kind head names ∧ normalizeTrailingSeparator (head ++ '/' :: t) kind = spell head names := by
  rcases names_of_inner inner with rfl | ⟨names, held, part, text⟩
  · exact ⟨[], ⟨headOf, by simp, by simp, by simp, by simp⟩, normalize_root headOf⟩
  have isNames : ∀ name ∈ names, IsName name := by
    intro name mem
    obtain ⟨inText, full⟩ := part name mem
    refine ⟨full, (plain name inText).1, (plain name inText).2, fun c inside => ?_⟩
    obtain ⟨there, notSlash⟩ := mem_components inText c inside
    have notBack : c ≠ '\\' := by
      rintro rfl
      exact noBack there
    simp [separatorInName, notSlash, notBack]
  refine ⟨names, ⟨headOf, isNames, ?_, ?_, ?_⟩, ?_⟩
  · intro name mem
    rw [any_eq_false] at shown ⊢
    exact fun c inside => shown c (mem_components (part name mem).1 c inside).1
  · exact fun isDrive name mem => windows isDrive name (part name mem).1 (part name mem).2
  · rintro rfl rfl letter rest alpha rfl
    have absent := noDrive rfl rfl
    by_contra more
    obtain ⟨next, rest, rfl⟩ := exists_cons_of_ne_nil more
    rcases text with text | text <;> simp [text, hasVirtualWindowsDrivePrefix, alpha] at absent
  · have trimmed : trimEndSlashes (head ++ '/' :: t) = head ++ flat names := by
      rcases text with text | text <;> rw [text]
      · exact trim_flat head isNames held
      · rw [← append_assoc, trimEndSlashes, rdropWhile_concat_pos _ _ _ rfl]
        exact trim_flat head isNames held
    rw [spell, if_neg held, ← trimmed]
    rcases normalize_cases (head ++ '/' :: t) kind with ⟨-, root⟩ | same
    case inr => exact same
    obtain ⟨name, rest, rfl⟩ := exists_cons_of_ne_nil held
    obtain ⟨c, cs, rfl⟩ := exists_cons_of_ne_nil (isNames name mem_cons_self).held
    have longer : 2 ≤ ('/' :: t).length := by rcases text with text | text <;> rw [text] <;> simp
    rcases root with only | ⟨rfl, root⟩ | ⟨rfl, root⟩
    · have size := congrArg List.length only
      have one : "/".toList.length = 1 := rfl
      rw [one, length_append] at size
      omega
    · cases headOf with | @drive letter
      simp only [isDriveRoot, Bool.and_eq_true, decide_eq_true_eq] at root
      have size := length_le_byteLen ([letter, ':'] ++ '/' :: t)
      simp only [length_append, length_cons, length_nil] at size longer
      omega
    · obtain ⟨letter, four⟩ := virtualRoot_cases root
      cases headOf with
      | top =>
        have absent := noDrive rfl rfl
        simp only [isVirtualWindowsDriveRoot, Bool.and_eq_true, nil_append] at root
        simp [root.2] at absent
      | virtualDrive =>
        have size := congrArg List.length four
        simp only [length_append, length_cons, length_nil] at size longer
        omega

theorem shown_of_path (valid : validateProtocolPath value = .ok ()) :
    value ≠ [] ∧ byteLen value ≤ MAX_SSH_PATH_BYTES ∧ value.any isControl = false := by
  unfold validateProtocolPath at valid
  rw [refused_ok, refused_ok, refused_ok] at valid
  exact ⟨valid.1, Nat.not_lt.mp valid.2.1, by simpa using valid.2.2.1⟩

theorem trimEndSlashes_append (before : Text) {c : Char} (plain : c ≠ '/') (t : Text) :
    ∃ rest, trimEndSlashes (before ++ c :: t) = before ++ c :: rest := by
  induction t using List.reverseRecOn with
  | nil =>
    refine ⟨[], ?_⟩
    rw [trimEndSlashes, rdropWhile_concat_neg]
    simpa [isSlash] using plain
  | append_singleton t x ih =>
    have split : before ++ c :: (t ++ [x]) = before ++ c :: t ++ [x] := by simp
    rw [split, trimEndSlashes]
    by_cases slash : x = '/'
    · rw [rdropWhile_concat_pos _ _ _ (by simpa [isSlash] using slash)]
      exact ih
    · rw [rdropWhile_concat_neg _ _ _ (by simpa [isSlash] using slash)]
      exact ⟨t ++ [x], split.symm⟩

theorem slash_tail (letter : Char) (next : t.head? ≠ some '/') :
    isWindowsDriveAbsolute (normalizeTrailingSeparator (letter :: ':' :: '/' :: '/' :: t) .WindowsDrive) = false ∨
      (normalizeTrailingSeparator (letter :: ':' :: '/' :: '/' :: t) .WindowsDrive)[3]? = some '/' := by
  rcases normalize_cases (letter :: ':' :: '/' :: '/' :: t) .WindowsDrive with ⟨same, -⟩ | same
  · rw [same]
    exact .inr rfl
  rw [same]
  cases t with
  | nil => exact .inl rfl
  | cons c t =>
    have plain : c ≠ '/' := fun slash => next (by rw [slash]; rfl)
    obtain ⟨rest, same⟩ := trimEndSlashes_append [letter, ':', '/', '/'] plain t
    exact .inr (congrArg (·[3]?) same)

theorem spelled_of_parse {path : RemotePath} (parsed : parseWithNamespace value kind = .ok path)
    (drive : kind = .WindowsDrive → isWindowsDriveAbsolute path.canonical = true ∧ path.canonical[3]? ≠ some '/') :
    ∃ head names, Spelled kind head names ∧ path = ⟨spell head names, kind⟩ ∧ byteLen (spell head names) ≤ MAX_SSH_PATH_BYTES := by
  have outer := parsed
  obtain ⟨⟨⟩, checked, -⟩ := bind_ok_iff.mp outer
  obtain ⟨-, short, shown⟩ := shown_of_path checked
  obtain ⟨rfl, valid⟩ := parseWithNamespace_ok parsed
  have shorter : byteLen (normalizeTrailingSeparator value kind) ≤ byteLen value := by
    rcases normalize_cases value kind with ⟨same, -⟩ | same <;> rw [same]
    obtain ⟨rest, split⟩ := rdropWhile_prefix isSlash value
    conv_rhs => rw [← split, byteLen_append]
    exact Nat.le_add_right _ _
  suffices found : ∃ head names, Spelled kind head names ∧ normalizeTrailingSeparator value kind = spell head names by
    obtain ⟨head, names, spelled, same⟩ := found
    exact ⟨head, names, spelled, by rw [same], same ▸ shorter.trans short⟩
  cases kind with
  | Posix =>
    obtain ⟨t, rfl⟩ := posix_slash valid
    obtain ⟨inner, noBack, plain⟩ := posix_ok.mp valid
    have rest : t.any isControl = false := (Bool.or_eq_false_iff.mp (any_cons.symm.trans shown)).2
    exact ⟨[], spelled_of_text .posix inner noBack plain rest (fun no => absurd rfl no) (fun no => nomatch no)⟩
  | Virtual =>
    obtain ⟨⟨⟩, absolute, valid⟩ := bind_ok_iff.mp valid
    obtain ⟨t, rfl⟩ := posix_slash absolute
    obtain ⟨inner, noBack, plain⟩ := posix_ok.mp absolute
    have rest : t.any isControl = false := (Bool.or_eq_false_iff.mp (any_cons.symm.trans shown)).2
    by_cases isDrive : hasVirtualWindowsDrivePrefix ('/' :: t) = true
    · rw [if_pos isDrive] at valid
      unfold hasVirtualWindowsDrivePrefix at isDrive
      split at isDrive
      case h_2 => cases isDrive
      rename_i letter t same
      cases same
      rw [components_drive isDrive] at inner plain
      rw [dropLast_cons_of_ne_nil (components_ne_nil t)] at inner
      refine ⟨['/', letter, ':'], spelled_of_text (.virtualDrive isDrive)
        (fun c mem => inner c (mem_cons_of_mem _ mem)) (fun back => noBack (by simp [back]))
        (fun c mem => plain c (mem_cons_of_mem _ mem)) (by simp_all) (fun _ => validateWindowsNames_ok.mp valid)
        (fun _ no => nomatch no)⟩
    · exact ⟨[], spelled_of_text .top inner noBack plain rest (fun no => absurd rfl no)
        (fun _ _ => Bool.not_eq_true _ ▸ isDrive)⟩
  | WindowsDrive =>
    have absolute := windowsDrive_valid valid
    obtain ⟨letter, t, rfl⟩ := driveAbsolute_cases absolute
    obtain ⟨alpha, noBack, single, plain, windows⟩ := drive_ok.mp valid
    have next : t.head? ≠ some '/' := by
      intro first
      obtain ⟨t, rfl⟩ := head?_eq_some_iff.mp first
      have more : t.head? ≠ some '/' := by
        intro again
        rw [doubled_cons] at single
        simp [again] at single
      obtain ⟨isDrive, fourth⟩ := drive rfl
      rcases slash_tail letter more with no | no
      · simp [no] at isDrive
      · exact fourth no
    have inner : doubled ('/' :: t) = false := by
      rw [doubled_cons, single]
      simp [next]
    refine ⟨[letter, ':'], spelled_of_text (.drive alpha) (doubled_slash t |>.mp inner) noBack plain (by simp_all)
      (fun _ => windows) (fun no => nomatch no)⟩
  | Unknown => cases valid

variable {kind : SftpNamespaceKind} {head : Text} {names : List Text} {name : Text}

theorem spell_snoc (head : Text) (names : List Text) (name : Text) : spell head (names ++ [name]) = head ++ flat names ++ '/' :: name := by
  simp [spell]

theorem Spelled.below (spelled : Spelled kind head names) : ∃ t, spell head names = head ++ '/' :: t ∧ Named t ∧
      (components t = names ∨ names = [] ∧ t = []) := by
  by_cases held : names = []
  · subst held
    refine ⟨[], rfl, ⟨by simp [components], by simp, ?_⟩, .inr ⟨rfl, rfl⟩⟩
    intro c mem
    rw [mem_singleton.mp mem]
    exact ⟨by decide, by decide⟩
  · obtain ⟨t, text, same⟩ := components_flat spelled.isNames held
    refine ⟨t, by rw [spell, if_neg held, text], ⟨?_, ?_, ?_⟩, .inl same⟩
    · exact fun c mem => (spelled.isNames c (same ▸ mem_of_mem_dropLast mem)).held
    · intro back
      have inFlat : '\\' ∈ flat names := by rw [text]; exact mem_cons_of_mem _ back
      obtain ⟨name, mem, inside⟩ := mem_flatMap.mp inFlat
      rcases mem_cons.mp inside with no | inside
      · exact absurd no (by decide)
      · exact absurd ((spelled.isNames name mem).noSeparator _ inside) (by decide)
    · exact fun c mem => ⟨(spelled.isNames c (same ▸ mem)).notHere, (spelled.isNames c (same ▸ mem)).notUp⟩

theorem Spelled.shown_spell (spelled : Spelled kind head names) : (spell head names).any isControl = false := by
  have headShown : head.any isControl = false := by
    cases spelled.headOf with
    | posix | top => rfl
    | virtualDrive alpha | drive alpha =>
      simp only [any_cons, alpha_shown alpha]
      rfl
  rw [spell, any_append, headShown, Bool.false_or]
  split
  · rfl
  rw [flat, any_flatMap, any_eq_false]
  intro name mem
  rw [any_cons, spelled.shown name mem]
  decide

theorem Spelled.windows_below (spelled : Spelled kind head names) (drive : head ≠ []) (same : components t = names ∨ names = [] ∧ t = []) :
    ∀ c ∈ components t, c ≠ [] → validateRemoteNameForNamespace c .WindowsDrive = .ok () := by
  intro c mem held
  rcases same with same | ⟨-, rfl⟩
  · exact spelled.windows drive c (same ▸ mem)
  · exact absurd (mem_singleton.mp mem) held

theorem Spelled.noDrivePrefix (spelled : Spelled .Virtual [] names) : hasVirtualWindowsDrivePrefix (spell [] names) = false := by
  obtain ⟨t, text, -, list⟩ := spelled.below
  rw [text]
  by_contra isDrive
  rw [Bool.not_eq_false] at isDrive
  unfold hasVirtualWindowsDrivePrefix at isDrive
  split at isDrive
  case h_2 => cases isDrive
  rename_i letter rest same
  cases same
  rw [components_drive isDrive] at list
  rcases list with rfl | ⟨-, no⟩
  · exact components_ne_nil rest (spelled.noDrive rfl rfl letter _ isDrive rfl)
  · cases no

theorem Spelled.parsed (spelled : Spelled kind head names) (short : byteLen (spell head names) ≤ MAX_SSH_PATH_BYTES) :
    parseWithNamespace (spell head names) kind = .ok ⟨spell head names, kind⟩ := by
  have held : spell head names ≠ [] := by
    obtain ⟨t, text, -⟩ := spelled.below
    rw [text]
    simp
  have protocol : validateProtocolPath (spell head names) = .ok () := by
    unfold validateProtocolPath
    rw [refused_ok, refused_ok, refused_ok]
    exact ⟨held, Nat.not_lt.mpr short, by simp [spelled.shown_spell], rfl⟩
  have same : normalizeTrailingSeparator (spell head names) kind = spell head names := by
    by_cases alone : names = []
    · subst alone
      exact normalize_root spelled.headOf
    · rcases normalize_cases (spell head names) kind with ⟨same, -⟩ | same
      · exact same
      · rw [same, spell, if_neg alone, trim_flat head spelled.isNames alone]
  have absolute : validateAbsolute (spell head names) kind = .ok () := by
    obtain ⟨t, text, named, list⟩ := spelled.below
    rw [text]
    obtain ⟨inner, noBack, plain⟩ := named
    cases headOf : spelled.headOf with
    | posix => exact posix_ok.mpr ⟨inner, noBack, plain⟩
    | top =>
      refine bind_ok_iff.mpr ⟨(), posix_ok.mpr ⟨inner, noBack, plain⟩, ?_⟩
      have noDrive := spelled.noDrivePrefix
      rw [text] at noDrive
      rw [noDrive]
      rfl
    | @virtualDrive letter alpha =>
      have ownBack : letter ≠ '\\' := by
        rintro rfl
        cases alpha
      have named : Named (letter :: ':' :: '/' :: t) := by
        refine ⟨?_, by simp [ownBack.symm, noBack], ?_⟩
        · rw [components_drive alpha, dropLast_cons_of_ne_nil (components_ne_nil t), forall_mem_cons]
          exact ⟨by simp, inner⟩
        · rw [components_drive alpha, forall_mem_cons]
          exact ⟨⟨by simp, by simp⟩, plain⟩
      refine bind_ok_iff.mpr ⟨(), posix_ok.mpr named, ?_⟩
      have isDrive : hasVirtualWindowsDrivePrefix ('/' :: letter :: ':' :: '/' :: t) = true := alpha
      change (if hasVirtualWindowsDrivePrefix ('/' :: letter :: ':' :: '/' :: t) = true then _ else _) = _
      rw [isDrive, if_pos rfl]
      exact validateWindowsNames_ok.mpr (spelled.windows_below (by simp) list)
    | @drive letter alpha =>
      have windows := spelled.windows_below (by simp) list
      have tail : doubled ('/' :: t) = false := (doubled_slash t).mpr inner
      rw [doubled_cons, Bool.or_eq_false_iff] at tail
      exact drive_ok.mpr ⟨alpha, noBack, tail.2, plain, windows⟩
  exact bind_ok_iff.mpr ⟨(), protocol, bind_ok_iff.mpr ⟨(), absolute, by rw [same]⟩⟩

/-! ### Children and breadcrumbs -/

/-- Where a component is put behind the path before it. -/
def crumbText (current : RemotePath) (component : Text) : Text :=
  match current.kind with
  | .Posix => if current.isRoot then '/' :: component else current.canonical ++ '/' :: component
  | .Virtual =>
    if current.canonical.getLast? = some '/' then current.canonical ++ component
    else current.canonical ++ '/' :: component
  | _ => if current.isRoot then current.canonical ++ component else current.canonical ++ '/' :: component

/-- The loop over the components below a root; empty ones are passed over. -/
def crumbs (current : RemotePath) : List Text → List (Text × RemotePath)
  | [] => []
  | component :: rest =>
    if component = [] then crumbs current rest
    else
      let next : RemotePath := ⟨crumbText current component, current.kind⟩
      (component, next) :: crumbs next rest

/-- The labels and paths from the root to the path. The slice of a drive path
    that is shorter than its drive and slash panics. -/
def breadcrumbs (path : RemotePath) : Option (List (Text × RemotePath)) :=
  match path.kind with
  | .Posix =>
    let root : RemotePath := ⟨"/", path.kind⟩
    some (("/", root) :: crumbs root (components (path.canonical.dropWhile isSlash)))
  | .Virtual =>
    let root : RemotePath := ⟨"/", path.kind⟩
    if hasVirtualWindowsDrivePrefix path.canonical then
      let drive : RemotePath := ⟨path.canonical.take 4, path.kind⟩
      some (("/", root) :: ((path.canonical.take 3).drop 1, drive) ::
        crumbs drive (components (path.canonical.drop 4)))
    else some (("/", root) :: crumbs root (components (path.canonical.dropWhile isSlash)))
  | .WindowsDrive =>
    if path.canonical.length < 3 then none
    else
      let root : RemotePath := ⟨path.canonical.take 3, path.kind⟩
      some ((path.canonical.take 3, root) :: crumbs root (components (path.canonical.drop 3)))
  | .Unknown => some []

/-! ### Children, parents, siblings -/

variable {kind : SftpNamespaceKind} {head : Text} {names : List Text} {name : Text} (path : RemotePath)

/-- The namespace by whose rules `join_child` checks a name. -/
def nameRules : SftpNamespaceKind :=
  if path.kind = .Virtual && hasVirtualWindowsDrivePrefix path.canonical then .WindowsDrive else path.kind

theorem Spelled.rules (spelled : Spelled kind head names) (drive : head ≠ []) : nameRules ⟨spell head names, kind⟩ = .WindowsDrive := by
  obtain ⟨t, text, -⟩ := spelled.below
  cases spelled.headOf with
  | posix | top => exact absurd rfl drive
  | virtualDrive alpha => simp [nameRules, text, hasVirtualWindowsDrivePrefix, alpha]
  | drive => rfl

theorem name_shown (valid : validateRemoteNameForNamespace name kind = .ok ()) : name.any isControl = false := by
  obtain ⟨⟨⟩, protocol, -⟩ := bind_ok_iff.mp valid
  exact (shown_of_path protocol).2.2

theorem Spelled.snoc (spelled : Spelled kind head names)
    (valid : validateRemoteNameForNamespace name (nameRules ⟨spell head names, kind⟩) = .ok ())
    (slashed : kind = .Virtual → isVirtualWindowsDriveRoot (spell head names ++ "/") = false) : Spelled kind head (names ++ [name]) := by
  refine ⟨spelled.headOf, ?_, ?_, ?_, ?_⟩
  · simpa [or_imp, forall_and] using ⟨spelled.isNames, validateRemoteNameForNamespace_ok valid⟩
  · intro other mem
    rcases mem_append.mp mem with mem | mem
    · exact spelled.shown other mem
    · rw [mem_singleton.mp mem]
      exact name_shown valid
  · intro drive other mem
    rcases mem_append.mp mem with mem | mem
    · exact spelled.windows drive other mem
    · rw [mem_singleton.mp mem, ← spelled.rules drive]
      exact valid
  · rintro rfl rfl letter rest alpha same
    cases names with
    | nil => exact (List.cons.inj same).2.symm
    | cons first below =>
      obtain ⟨rfl, -⟩ := List.cons.inj same
      obtain rfl := spelled.noDrive rfl rfl letter below alpha rfl
      have root : isVirtualWindowsDriveRoot (spell [] [[letter, ':']] ++ "/") = true := by
        change isVirtualWindowsDriveRoot ['/', letter, ':', '/'] = true
        simpa [isVirtualWindowsDriveRoot, hasVirtualWindowsDrivePrefix] using alpha
      rw [slashed rfl] at root
      cases root

theorem Spelled.trimmed (spelled : Spelled kind head names) : trimEndSlashes (spell head names) = head ++ flat names := by
  by_cases alone : names = []
  · subst alone
    cases spelled.headOf <;> rfl
  · rw [spell, if_neg alone, trim_flat head spelled.isNames alone]

theorem Spelled.joinChild (spelled : Spelled kind head names) (short : byteLen (spell head names) ≤ MAX_SSH_PATH_BYTES)
    (valid : validateRemoteNameForNamespace name (nameRules ⟨spell head names, kind⟩) = .ok ()) :
    RemotePath.joinChild ⟨spell head names, kind⟩ name = parseWithNamespace (spell head (names ++ [name])) kind := by
  obtain ⟨same, absolute⟩ := parseWithNamespace_ok (spelled.parsed short)
  rw [RemotePath.mk.injEq] at same
  have placed : ∃ value, RemotePath.childText ⟨spell head names, kind⟩ name = .ok value := by
    cases spelled.headOf <;> exact ⟨_, rfl⟩
  obtain ⟨value, placed⟩ := placed
  have text : value = spell head (names ++ [name]) := by
    have split := placed
    rw [same.1] at split
    rw [childText_ok absolute split, spelled.trimmed, spell_snoc]
  have named : validateRemoteNameForNamespace name (nameRules ⟨spell head names, kind⟩) = .ok () := valid
  change (validateRemoteNameForNamespace name (nameRules ⟨spell head names, kind⟩) >>= fun _ => _) = _
  rw [named, ← text]
  rw [placed]
  rfl

theorem beforeLastSlash_append {before name : Text} (plain : ∀ c ∈ name, c ≠ '/') : beforeLastSlash (before ++ '/' :: name) = before := by
  have stops : (before ++ '/' :: name).rdropWhile (· ≠ '/') = before ++ ['/'] := by
    rw [List.rdropWhile, reverse_append, reverse_cons, append_assoc, dropWhile_append_of_pos]
    · simp
    · exact fun c mem => decide_eq_true (plain c (mem_reverse.mp mem))
  rw [beforeLastSlash, stops, dropLast_concat]

theorem isRoot_root (headOf : HeadOf kind head) : RemotePath.isRoot ⟨spell head [], kind⟩ = true := by
  cases headOf with
  | posix | top => rfl
  | virtualDrive alpha => simp [RemotePath.isRoot, isVirtualWindowsDriveRoot, hasVirtualWindowsDrivePrefix, spell, alpha]
  | @drive letter alpha =>
    have colon : ':'.utf8Size = 1 := rfl
    have slash : '/'.utf8Size = 1 := rfl
    simp [RemotePath.isRoot, isDriveRoot, spell, alpha_size alpha, colon, slash]

theorem isRoot_last {path : RemotePath} (root : path.isRoot = true) : path.canonical.getLast? = some '/' := by
  obtain ⟨canonical, kind⟩ := path
  unfold RemotePath.isRoot at root
  cases kind with
  | Posix => rw [of_decide_eq_true root]; rfl
  | Virtual =>
    rcases Bool.or_eq_true _ _ |>.mp root with root | root
    · rw [of_decide_eq_true root]
      rfl
    · obtain ⟨letter, same⟩ := virtualRoot_cases root
      rw [same]
      rfl
  | WindowsDrive =>
    simp only [isDriveRoot, Bool.and_eq_true, decide_eq_true_eq] at root
    exact root.2
  | Unknown => cases root

theorem Spelled.plain (spelled : Spelled kind head (names ++ [name])) : ∀ c ∈ name, c ≠ '/' := by
  rintro _ mem rfl
  exact absurd ((spelled.isNames name (by simp)).noSeparator _ mem) (by decide)

theorem Spelled.notRoot (spelled : Spelled kind head (names ++ [name])) :
    RemotePath.isRoot ⟨spell head (names ++ [name]), kind⟩ = false := by
  by_contra root
  have last := isRoot_last (Bool.not_eq_false _ |>.mp root)
  rw [spell_snoc] at last
  exact (spelled.isNames name (by simp)).last _ last

theorem flat_long {names : List Text} (held : names ≠ []) : 1 ≤ byteLen (flat names) := by
  obtain ⟨name, rest, rfl⟩ := exists_cons_of_ne_nil held
  have slash : '/'.utf8Size = 1 := rfl
  rw [flat_cons, cons_append, byteLen_cons]
  omega

theorem Spelled.parent (spelled : Spelled kind head (names ++ [name])) :
    SshTransfer.parent ⟨spell head (names ++ [name]), kind⟩ = ⟨spell head names, kind⟩ := by
  have notRoot := spelled.notRoot
  have notDrive : (decide (kind = .Virtual) && isVirtualWindowsDriveRoot (spell head (names ++ [name]))) = false := by
    cases kind <;> simp_all [RemotePath.isRoot]
  have before : beforeLastSlash (spell head (names ++ [name])) = head ++ flat names := by
    rw [spell_snoc, beforeLastSlash_append spelled.plain]
  have target : spell head names = if names = [] then head ++ ['/'] else head ++ flat names := by
    unfold spell
    split <;> rfl
  have colon : ':'.utf8Size = 1 := rfl
  have slash : '/'.utf8Size = 1 := rfl
  unfold SshTransfer.parent
  simp only [notDrive, notRoot, before, Bool.false_eq_true, if_false, RemotePath.mk.injEq, and_true]
  rw [target]
  by_cases alone : names = []
  · subst alone
    cases spelled.headOf with
    | posix | top => rfl
    | @virtualDrive letter alpha =>
      have size : byteLen (['/', letter, ':'] ++ flat []) = 3 := by simp [alpha_size alpha, colon, slash]
      have isDrive : hasVirtualWindowsDrivePrefix (spell ['/', letter, ':'] ([] ++ [name])) = true := alpha
      simp only [size, isDrive]
      rfl
    | @drive letter alpha =>
      have size : byteLen ([letter, ':'] ++ flat []) = 2 := by simp [alpha_size alpha, colon]
      simp only [size]
      rfl
  · have long := flat_long alone
    rw [if_neg alone]
    cases headOf : spelled.headOf with
    | posix =>
      have size : byteLen ([] ++ flat names) ≠ 0 := Nat.one_le_iff_ne_zero.mp long
      simp only [size, if_false]
    | top =>
      have size : byteLen ([] ++ flat names) ≠ 0 := Nat.one_le_iff_ne_zero.mp long
      simp only [size, if_false, spelled.noDrivePrefix, Bool.and_false, Bool.false_eq_true]
    | @virtualDrive letter alpha =>
      have size : byteLen (['/', letter, ':'] ++ flat names) = 3 + byteLen (flat names) := by
        simp [alpha_size alpha, colon, slash]
        omega
      have other : 3 + byteLen (flat names) ≠ 0 ∧ 3 + byteLen (flat names) ≠ 3 := by omega
      simp only [size, other.1, other.2, if_false, decide_false, Bool.false_and, Bool.false_eq_true]
    | @drive letter alpha =>
      have size : byteLen ([letter, ':'] ++ flat names) = 2 + byteLen (flat names) := by
        simp [alpha_size alpha, colon]
        omega
      have other : 2 + byteLen (flat names) ≠ 2 := by omega
      simp only [size, other, if_false]

theorem Spelled.before {below : List Text} (spelled : Spelled kind head (names ++ below)) : Spelled kind head names := by
  refine ⟨spelled.headOf, ?_, ?_, ?_, ?_⟩
  · exact fun name mem => spelled.isNames name (mem_append_left _ mem)
  · exact fun name mem => spelled.shown name (mem_append_left _ mem)
  · exact fun drive name mem => spelled.windows drive name (mem_append_left _ mem)
  · intro isVirtual top letter rest alpha same
    have none := spelled.noDrive isVirtual top letter (rest ++ below) alpha (by rw [same]; rfl)
    exact (append_eq_nil_iff.mp none).1

theorem Spelled.slashed (spelled : Spelled kind head (names ++ [name])) :
    kind = .Virtual → isVirtualWindowsDriveRoot (spell head names ++ "/") = false := by
  rintro rfl
  by_contra root
  rw [Bool.not_eq_false] at root
  obtain ⟨letter, same⟩ := virtualRoot_cases root
  have alpha : letter.isAlpha = true := by
    rw [same] at root
    simpa [isVirtualWindowsDriveRoot, hasVirtualWindowsDrivePrefix] using root
  have ends : spell head names ++ ['/'] = ['/', letter, ':'] ++ ['/'] := same
  have text := append_cancel_right ends
  obtain ⟨t, split, -, list⟩ := spelled.before.below
  rw [split] at text
  cases headOf : spelled.headOf with
  | top =>
    obtain ⟨-, rfl⟩ := List.cons.inj text
    have ownSlash : letter ≠ '/' := by
      rintro rfl
      cases alpha
    rw [components_plain (by simp [ownSlash])] at list
    rcases list with rfl | ⟨-, no⟩
    · cases spelled.noDrive rfl rfl letter [name] alpha rfl
    · cases no
  | virtualDrive =>
    have size := congrArg List.length text
    simp only [length_append, length_cons, length_nil] at size
    omega

section
variable (spelled : Spelled kind head names) (short : byteLen (spell head names) ≤ MAX_SSH_PATH_BYTES)
include spelled short

theorem Spelled.joined (slashed : kind = .Virtual → isVirtualWindowsDriveRoot (spell head names ++ "/") = false) {child : RemotePath}
    (joined : RemotePath.joinChild ⟨spell head names, kind⟩ name = .ok child) :
    Spelled kind head (names ++ [name]) ∧ child = ⟨spell head (names ++ [name]), kind⟩ := by
  have named : validateRemoteNameForNamespace name (nameRules ⟨spell head names, kind⟩) = .ok () := by
    obtain ⟨⟨⟩, valid, -⟩ := bind_ok_iff.mp joined
    exact valid
  rw [spelled.joinChild short named] at joined
  obtain ⟨rfl, -⟩ := parseWithNamespace_ok joined
  have isName := validateRemoteNameForNamespace_ok named
  rw [spell_snoc, normalize_name _ isName]
  exact ⟨spelled.snoc named slashed, rfl⟩

theorem Spelled.sibling
    {marker unique : Text} {other : RemotePath} (beside : temporarySibling ⟨spell head names, kind⟩ marker unique = .ok other) :
    SshTransfer.parent other = SshTransfer.parent ⟨spell head names, kind⟩ := by
  unfold temporarySibling at beside
  split at beside
  case isTrue => cases beside
  rename_i notRoot
  obtain ⟨⟨⟩, -, beside⟩ := bind_ok_iff.mp beside
  obtain ⟨⟨⟩, -, beside⟩ := bind_ok_iff.mp beside
  simp only at beside
  split at beside
  case isTrue => cases beside
  obtain rfl | ⟨before, name, rfl⟩ := eq_nil_or_concat' names
  · exact absurd (isRoot_root spelled.headOf) notRoot
  have shorter : byteLen (spell head before) ≤ MAX_SSH_PATH_BYTES := by
    refine le_trans ?_ short
    have slash : '/'.utf8Size = 1 := rfl
    unfold spell
    split <;> simp [byteLen_append, slash]
    omega
  rw [spelled.parent] at beside ⊢
  obtain ⟨withSibling, rfl⟩ := spelled.before.joined shorter spelled.slashed beside
  exact withSibling.parent

end

theorem Spelled.crumbText (spelled : Spelled kind head names) (name : Text) :
    RemotePathLaws.crumbText ⟨spell head names, kind⟩ name = spell head (names ++ [name]) := by
  rw [spell_snoc]
  obtain rfl | ⟨before, last, rfl⟩ := eq_nil_or_concat' names
  · have root := isRoot_root spelled.headOf
    cases headOf : spelled.headOf with
    | posix => rfl
    | top => rfl
    | virtualDrive => rfl
    | drive =>
      simp only [RemotePathLaws.crumbText, root, if_true]
      simp [spell]
  · have notRoot := spelled.notRoot
    have noSlash : (spell head (before ++ [last])).getLast? ≠ some '/' := by
      rw [spell_snoc]
      exact (spelled.isNames last (by simp)).last _
    have text : spell head (before ++ [last]) = head ++ flat (before ++ [last]) := by simp [spell]
    rw [text] at notRoot noSlash ⊢
    cases headOf : spelled.headOf <;>
      simp only [RemotePathLaws.crumbText, notRoot, noSlash, Bool.false_eq_true, if_false]

theorem crumbs_chain {below : List Text} (spelled : Spelled kind head (names ++ below)) :
    let list := (⟨spell head names, kind⟩ : RemotePath) :: (crumbs ⟨spell head names, kind⟩ below).map Prod.snd
    list.IsChain (fun above path => SshTransfer.parent path = above) ∧
      list.getLast? = some ⟨spell head (names ++ below), kind⟩ := by
  induction below generalizing names with
  | nil => simp [crumbs]
  | cons name below ih =>
    have next : Spelled kind head (names ++ [name] ++ below) := by simpa using spelled
    have held : name ≠ [] := (spelled.isNames name (by simp)).held
    obtain ⟨chain, last⟩ := ih next
    simp only [crumbs, held, if_false, map_cons, spelled.before.crumbText]
    refine ⟨List.IsChain.cons_cons next.before.parent chain, ?_⟩
    rw [getLast?_cons_cons, last]
    simp

theorem crumbs_components (current : RemotePath) {t : Text} {names : List Text}
    (list : components t = names ∨ names = [] ∧ t = []) : crumbs current (components t) = crumbs current names := by
  rcases list with rfl | ⟨rfl, rfl⟩ <;> rfl

/-- A list of paths from a root to the path, each in the one before it. -/
def LeadsTo (list : List RemotePath) : Prop :=
  (∃ root ∈ list.head?, root.isRoot = true) ∧ list.IsChain (fun above below => SshTransfer.parent below = above) ∧ list.getLast? = some path

theorem Spelled.breadcrumbs (spelled : Spelled kind head names) : ∃ list, RemotePathLaws.breadcrumbs ⟨spell head names, kind⟩ = some list ∧
      LeadsTo ⟨spell head names, kind⟩ (list.map Prod.snd) := by
  obtain ⟨t, text, named, list⟩ := spelled.below
  have first : t.dropWhile isSlash = t := by
    have single := (doubled_slash t).mpr named.1
    cases t with
    | nil => rfl
    | cons c t =>
      rw [doubled_cons] at single
      have plain : c ≠ '/' := by
        rintro rfl
        simp at single
      exact dropWhile_cons_of_neg (by simpa [isSlash] using plain)
  have fromRoot := crumbs_chain (show Spelled kind head ([] ++ names) from spelled)
  have walk : crumbs ⟨spell head [], kind⟩ (components t) = crumbs ⟨spell head [], kind⟩ names := crumbs_components _ list
  rw [← walk] at fromRoot
  cases headOf : spelled.headOf with
  | posix =>
    refine ⟨_, rfl, ⟨_, rfl, rfl⟩, ?_⟩
    have drop : (spell [] names).dropWhile isSlash = t := by
      rw [text]
      exact first
    simp only [map_cons, drop]
    exact fromRoot
  | top =>
    have drop : (spell [] names).dropWhile isSlash = t := by
      rw [text]
      exact first
    refine ⟨("/", ⟨"/", .Virtual⟩) :: crumbs ⟨"/", .Virtual⟩ (components t), ?_, ⟨_, rfl, rfl⟩, fromRoot⟩
    simp only [RemotePathLaws.breadcrumbs, spelled.noDrivePrefix, Bool.false_eq_true, if_false, drop]
  | @virtualDrive letter alpha =>
    have isDrive : hasVirtualWindowsDrivePrefix (['/', letter, ':'] ++ '/' :: t) = true := alpha
    let drive : RemotePath := ⟨['/', letter, ':', '/'], .Virtual⟩
    have isRoot : isVirtualWindowsDriveRoot drive.canonical = true := by
      simpa [isVirtualWindowsDriveRoot, hasVirtualWindowsDrivePrefix, drive] using alpha
    have above : SshTransfer.parent drive = ⟨"/", .Virtual⟩ := by
      simp only [SshTransfer.parent, isRoot]
      rfl
    refine ⟨("/", ⟨"/", .Virtual⟩) :: ([letter, ':'], drive) :: crumbs drive (components t), ?_,
      ⟨_, rfl, rfl⟩, List.IsChain.cons_cons above fromRoot.1, ?_⟩
    · rw [text]
      simp only [RemotePathLaws.breadcrumbs, isDrive, if_true]
      rfl
    · exact fromRoot.2
  | @drive letter alpha =>
    let root : RemotePath := ⟨[letter, ':', '/'], .WindowsDrive⟩
    have isRoot : root.isRoot = true := isRoot_root spelled.headOf
    refine ⟨([letter, ':', '/'], root) :: crumbs root (components t), ?_, ⟨_, rfl, isRoot⟩, fromRoot⟩
    rw [text]
    rfl

/-- The paths on which the laws hold, with the names that fit behind them. -/
structure Clean (path : RemotePath) (name : Text) : Prop where
  /-- Behind the drive is one slash. -/
  drive : path.kind = .WindowsDrive → isWindowsDriveAbsolute path.canonical = true ∧ path.canonical[3]? ≠ some '/'
  /-- A virtual path is not a drive without its slash. -/
  virtual : path.kind = .Virtual → isVirtualWindowsDriveRoot (path.canonical ++ "/") = false
  fits : byteLen (trimEndSlashes path.canonical ++ '/' :: name) ≤ MAX_SSH_PATH_BYTES

/-- The components of a canonical text below its root. -/
def pathComponents : List Text :=
  if path.isRoot then [] else components (path.canonical.drop (if path.kind = .WindowsDrive then 3 else 1))

structure Laws (path : RemotePath) (name : Text) : Prop where
  parses : parseWithNamespace path.canonical path.kind = .ok path
  child : ∃ child, path.joinChild name = .ok child ∧ child.kind = path.kind ∧
    parseWithNamespace child.canonical child.kind = .ok child ∧ SshTransfer.parent child = path ∧
    lastComponent child.canonical = name
  crumbs : ∃ list, breadcrumbs path = some list ∧ LeadsTo path (list.map Prod.snd)
  sibling : ∀ marker unique other, temporarySibling path marker unique = .ok other → SshTransfer.parent other = SshTransfer.parent path
  plain : ∀ c ∈ pathComponents path, c ≠ [] ∧ c ≠ "." ∧ c ≠ ".."

theorem Spelled.pathComponents (spelled : Spelled kind head names) :
    ∀ c ∈ RemotePathLaws.pathComponents ⟨spell head names, kind⟩, c ≠ [] ∧ c ≠ "." ∧ c ≠ ".." := by
  intro c mem
  unfold RemotePathLaws.pathComponents at mem
  split at mem
  case isTrue => cases mem
  rename_i notRoot
  have held : names ≠ [] := by
    rintro rfl
    exact notRoot (isRoot_root spelled.headOf)
  obtain ⟨t, text, -, list⟩ := spelled.below
  rcases list with same | ⟨no, -⟩
  case inr => exact absurd no held
  have named : ∀ c ∈ names, c ≠ [] ∧ c ≠ "." ∧ c ≠ ".." := fun c mem =>
    ⟨(spelled.isNames c mem).held, (spelled.isNames c mem).notHere, (spelled.isNames c mem).notUp⟩
  rw [text] at mem
  cases headOf : spelled.headOf with
  | posix | top | drive => exact named c (same ▸ mem)
  | @virtualDrive letter alpha =>
    change c ∈ components (letter :: ':' :: '/' :: t) at mem
    rw [components_drive alpha, same, mem_cons] at mem
    rcases mem with rfl | mem
    · simp
    · exact named c mem

theorem Spelled.laws (spelled : Spelled kind head names) (short : byteLen (spell head names) ≤ MAX_SSH_PATH_BYTES)
    (valid : validateRemoteNameForNamespace name (nameRules ⟨spell head names, kind⟩) = .ok ())
    (clean : Clean ⟨spell head names, kind⟩ name) : Laws ⟨spell head names, kind⟩ name := by
  refine ⟨spelled.parsed short, ?_, spelled.breadcrumbs, fun _ _ _ => spelled.sibling short, spelled.pathComponents⟩
  have longer := spelled.snoc valid clean.virtual
  have fits : byteLen (spell head (names ++ [name])) ≤ MAX_SSH_PATH_BYTES := by
    rw [spell_snoc, ← spelled.trimmed]
    exact clean.fits
  refine ⟨_, (spelled.joinChild short valid).trans (longer.parsed fits), rfl, longer.parsed fits, longer.parent, ?_⟩
  rw [spell_snoc]
  exact lastComponent_append longer.plain

theorem parent_below_drive {letter : Char} (alpha : letter.isAlpha = true) (isName : IsName name) :
    SshTransfer.parent ⟨['/', letter, ':'] ++ '/' :: name, .Virtual⟩ = ⟨['/', letter, ':', '/'], .Virtual⟩ := by
  have plain : ∀ c ∈ name, c ≠ '/' := by
    rintro _ mem rfl
    exact absurd (isName.noSeparator _ mem) (by decide)
  have notRoot : RemotePath.isRoot ⟨['/', letter, ':'] ++ '/' :: name, .Virtual⟩ = false := by
    by_contra root
    exact isName.last _ (isRoot_last (Bool.not_eq_false _ |>.mp root))
  have notDrive : isVirtualWindowsDriveRoot (['/', letter, ':'] ++ '/' :: name) = false := by
    obtain ⟨c, rest, rfl⟩ := exists_cons_of_ne_nil isName.held
    simp [isVirtualWindowsDriveRoot]
  have isDrive : hasVirtualWindowsDrivePrefix (['/', letter, ':'] ++ '/' :: name) = true := alpha
  have colon : ':'.utf8Size = 1 := rfl
  have slash : '/'.utf8Size = 1 := rfl
  have size : byteLen ['/', letter, ':'] = 3 := by simp [alpha_size alpha, colon, slash]
  unfold SshTransfer.parent
  simp only [notRoot, notDrive, beforeLastSlash_append plain, size, isDrive]
  rfl

theorem Laws.clean {path : RemotePath} (laws : Laws path name) : Clean path name := by
  obtain ⟨canonical, kind⟩ := path
  obtain ⟨same, valid⟩ := parseWithNamespace_ok laws.parses
  obtain ⟨child, joined, -, -, above, -⟩ := laws.child
  obtain ⟨⟨⟩, named, joined⟩ := bind_ok_iff.mp joined
  obtain ⟨value, placed, joined⟩ := bind_ok_iff.mp joined
  have text := placed
  rw [same] at text
  obtain rfl := childText_ok valid text
  refine ⟨?_, ?_, ?_⟩
  · rintro rfl
    have absolute := windowsDrive_valid valid
    obtain ⟨letter, t, split⟩ := driveAbsolute_cases absolute
    refine ⟨absolute, ?_⟩
    intro fourth
    subst split
    obtain ⟨t, rfl⟩ : ∃ u, t = '/' :: u := by
      cases t with
      | nil => cases fourth
      | cons c t =>
        obtain rfl := Option.some.inj fourth
        exact ⟨t, rfl⟩
    have notRoot : RemotePath.isRoot ⟨letter :: ':' :: '/' :: '/' :: t, .WindowsDrive⟩ = false := by
      have size := length_le_byteLen (letter :: ':' :: '/' :: '/' :: t)
      simp only [length_cons] at size
      have long : byteLen (letter :: ':' :: '/' :: '/' :: t) ≠ 3 := by omega
      unfold RemotePath.isRoot isDriveRoot
      simp only [decide_eq_false long, Bool.false_and]
    refine absurd rfl (laws.plain [] ?_).1
    unfold RemotePathLaws.pathComponents
    simp only [notRoot]
    exact mem_cons_self
  · rintro rfl
    by_contra root
    rw [Bool.not_eq_false] at root
    obtain ⟨letter, whole⟩ := virtualRoot_cases root
    have alpha : letter.isAlpha = true := by
      rw [whole] at root
      simpa [isVirtualWindowsDriveRoot, hasVirtualWindowsDrivePrefix] using root
    have ends : canonical ++ ['/'] = ['/', letter, ':'] ++ ['/'] := whole
    obtain rfl := append_cancel_right ends
    have isName := validateRemoteNameForNamespace_ok named
    obtain ⟨rfl, -⟩ := parseWithNamespace_ok joined
    have trimmed : trimEndSlashes ['/', letter, ':'] = ['/', letter, ':'] := rfl
    rw [trimmed, normalize_name _ isName, parent_below_drive alpha isName] at above
    have size := congrArg (·.canonical.length) above
    simp at size
  · obtain ⟨⟨⟩, protocol, -⟩ := bind_ok_iff.mp joined
    exact (shown_of_path protocol).2.1

/-- The laws hold of a path and a name exactly when the path has one slash behind
    its drive, is no virtual drive without its slash, and the name fits. -/
theorem remotePath_laws {value name : Text} {kind : SftpNamespaceKind} {path : RemotePath}
    (parsed : parseWithNamespace value kind = .ok path)
    (valid : validateRemoteNameForNamespace name (nameRules path) = .ok ()) : Laws path name ↔ Clean path name := by
  refine ⟨Laws.clean, fun clean => ?_⟩
  have kinds : path.kind = kind := by rw [(parseWithNamespace_ok parsed).1]
  obtain ⟨head, names, spelled, rfl, short⟩ := spelled_of_parse parsed fun drive => clean.drive (kinds.trans drive)
  exact spelled.laws short valid clean

theorem remotePath_laws_virtual : Laws ⟨"/C:/a", .Virtual⟩ "b c" ↔ Clean ⟨"/C:/a", .Virtual⟩ "b c" :=
  remotePath_laws (show parseWithNamespace "/C:/a/" .Virtual = .ok ⟨"/C:/a", .Virtual⟩ by decide) (by decide)

/-- A drive with two slashes is parsed to a path that is none. -/
theorem remotePath_laws_refuted : ∃ path, parseWithNamespace "C://" .WindowsDrive = .ok path ∧
      validateRemoteNameForNamespace "a" (nameRules path) = .ok () ∧ ¬ Laws path "a" := by
  refine ⟨⟨"C:", .WindowsDrive⟩, by decide, by decide, fun laws => ?_⟩
  have parsed := laws.parses
  rw [show parseWithNamespace "C:" .WindowsDrive =
    .error "Windows SFTP 路径必须使用 C:/path 形式的盘符绝对路径" by decide] at parsed
  cases parsed

end Ramag.RemotePathLaws
