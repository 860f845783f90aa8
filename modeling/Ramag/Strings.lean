import Mathlib.Data.List.DropRight
import Mathlib.Data.List.Infix

/-!
Texts as lists of Unicode scalar values, with the string operations that the
programs below are written in. A byte scanner that only tests for ASCII bytes
moves over the same boundaries on the characters, because UTF-8 never uses an
ASCII byte inside a longer character; `byteLen` is the length in bytes.
-/
namespace Ramag.Strings

/-- A text: the characters of a UTF-8 string, in order. -/
abbrev Text := List Char

instance : Coe String Text := ⟨String.toList⟩

instance lawfulText : LawfulBEq Text := inferInstance

/-- The length of a text in bytes. -/
def byteLen : Text → Nat
  | [] => 0
  | c :: t => c.utf8Size + byteLen t

@[simp] theorem byteLen_nil : byteLen [] = 0 := rfl
@[simp] theorem byteLen_cons (c : Char) (t : Text) : byteLen (c :: t) = c.utf8Size + byteLen t := rfl
@[simp] theorem byteLen_append (s t : Text) : byteLen (s ++ t) = byteLen s + byteLen t := by
  induction s with
  | nil => simp
  | cons c s ih => simp [ih, Nat.add_assoc]
variable (t : Text)

theorem length_le_byteLen : t.length ≤ byteLen t := by
  induction t with
  | nil => simp
  | cons c t ih => have := c.utf8Size_pos; simp; omega

/-- The characters with the property `White_Space`. -/
def isWhitespace (c : Char) : Bool :=
  let n := c.toNat
  (9 ≤ n && n ≤ 13) || n == 32 || n == 0x85 || n == 0xA0 || n == 0x1680 || (0x2000 ≤ n && n ≤ 0x200A) ||
    n == 0x2028 || n == 0x2029 || n == 0x202F || n == 0x205F || n == 0x3000

/-- The ASCII whitespace bytes: space, tab, line feed, form feed and carriage
    return, without the vertical tab. -/
def isAsciiWhitespace (c : Char) : Bool :=
  c == ' ' || c == '\t' || c == '\n' || c == '\x0c' || c == '\r'

theorem alpha_range {c : Char} (letter : c.isAlpha = true) : 65 ≤ c.toNat ∧ c.toNat ≤ 122 ∧ ¬ (91 ≤ c.toNat ∧ c.toNat ≤ 96) := by
  change (decide ('A'.val ≤ c.val ∧ c.val ≤ 'Z'.val) || (decide ('a'.val ≤ c.val) && decide (c.val ≤ 'z'.val))) = true at letter
  simp only [UInt32.le_iff_toNat_le, Bool.or_eq_true, Bool.and_eq_true, decide_eq_true_eq] at letter
  have value : c.toNat = c.val.toNat := rfl
  have marks : 'Z'.val.toNat = 90 ∧ 'z'.val.toNat = 122 ∧ 'A'.val.toNat = 65 ∧ 'a'.val.toNat = 97 := ⟨rfl, rfl, rfl, rfl⟩
  omega

theorem ne_of_alpha {c d : Char} (letter : c.isAlpha = true) (other : d.isAlpha = false) : c ≠ d := by
  rintro rfl
  simp [letter] at other

theorem digit_range {c : Char} (digit : c.isDigit = true) : 48 ≤ c.toNat ∧ c.toNat ≤ 57 := by
  simp only [Char.isDigit, UInt32.le_iff_toNat_le, Bool.and_eq_true, decide_eq_true_eq] at digit
  exact digit

theorem alphanum_dark {c : Char} (alphanum : c.isAlphanum = true) : isWhitespace c = false := by
  simp only [Char.isAlphanum, Bool.or_eq_true] at alphanum
  have range : 48 ≤ c.toNat ∧ c.toNat ≤ 122 := by
    rcases alphanum with letter | digit
    · have range := alpha_range letter
      omega
    · have range := digit_range digit
      omega
  simp only [isWhitespace, Bool.or_eq_false_iff, Bool.and_eq_false_iff, decide_eq_false_iff_not, beq_eq_false_iff_ne]
  omega

def trimStart : Text := t.dropWhile isWhitespace
def trimEnd : Text := t.rdropWhile isWhitespace
def trim : Text := trimEnd (trimStart t)

theorem trim_eq_nil_iff {t : Text} : trim t = [] ↔ ∀ c ∈ t, isWhitespace c = true := by
  rw [trim, trimEnd, List.rdropWhile_eq_nil_iff]
  constructor
  · intro blank c mem
    rw [← List.takeWhile_append_dropWhile (p := isWhitespace) (l := t)] at mem
    rcases List.mem_append.mp mem with front | back
    · exact List.mem_takeWhile_imp front
    · exact blank c back
  · intro blank c mem
    exact blank c ((List.dropWhile_sublist _).subset mem)

theorem trim_front {gap t : Text} {c : Char} (white : ∀ d ∈ gap, isWhitespace d = true) (dark : isWhitespace c = false) :
    trim (gap ++ c :: t) = trimEnd (c :: t) := by
  rw [trim, trimStart, List.dropWhile_append_of_pos white, List.dropWhile_cons_of_neg (by simp [dark])]

theorem trim_gap {gap s : Text} (white : ∀ c ∈ gap, isWhitespace c = true)
    (first : s.head?.any (fun c => !isWhitespace c) = true) (last : s.getLast?.any (fun c => !isWhitespace c) = true) :
    trim (gap ++ s) = s := by
  obtain ⟨c, t, rfl⟩ : ∃ c t, s = c :: t := by
    cases s with
    | nil => cases first
    | cons c t => exact ⟨c, t, rfl⟩
  have dark : isWhitespace c = false := by simpa using first
  rw [trim_front white dark, trimEnd, List.rdropWhile_eq_self_iff]
  intro nonempty
  rw [List.getLast?_eq_getLast_of_ne_nil nonempty] at last
  simpa using last

theorem trimEnd_parts : ∃ w, t = trimEnd t ++ w ∧ ∀ c ∈ w, isWhitespace c = true :=
  ⟨t.rtakeWhile isWhitespace, (List.rdropWhile_append_rtakeWhile).symm, fun _ mem => List.mem_rtakeWhile_imp mem⟩

def toAsciiUppercase : Text := t.map Char.toUpper
def toAsciiLowercase : Text := t.map Char.toLower
def eqIgnoreAsciiCase (s t : Text) : Bool := toAsciiLowercase s == toAsciiLowercase t

/-- The text after a literal prefix, if it starts with it. -/
def stripPrefix (p t : Text) : Option Text := if p.isPrefixOf t then some (t.drop p.length) else none

/-- The offset of the first occurrence of a text. -/
def findText (needle : Text) : Text → Option Nat
  | [] => if needle.isEmpty then some 0 else none
  | c :: t => if needle.isPrefixOf (c :: t) then some 0 else (findText needle t).map (· + 1)

/-- The parts before and after the first occurrence of a character. -/
def splitOnce (sep : Char) : Text → Option (Text × Text)
  | [] => none
  | c :: t => if c = sep then some ([], t) else (splitOnce sep t).map fun parts => (c :: parts.1, parts.2)

/-- Every occurrence of a character, replaced. -/
def replaceChar (old : Char) (new : Text) (t : Text) : Text := t.flatMap fun c => if c = old then new else [c]

/-- The longest prefix of whole characters that fits the given number of bytes. -/
def takeBytes : Nat → Text → Text
  | _, [] => []
  | limit, c :: t => if c.utf8Size ≤ limit then c :: takeBytes (limit - c.utf8Size) t else []

theorem byteLen_takeBytes (limit : Nat) (t : Text) : byteLen (takeBytes limit t) ≤ limit := by
  induction t generalizing limit with
  | nil => simp [takeBytes]
  | cons c t ih =>
    by_cases fits : c.utf8Size ≤ limit
    · have rest := ih (limit - c.utf8Size)
      simp only [takeBytes, fits, if_true, byteLen_cons]
      omega
    · simp [takeBytes, fits]

end Ramag.Strings
