import Mathlib.Algebra.Order.Ring.Int
import Mathlib.Algebra.Order.Ring.Nat
import Ramag.Domain

/-!
Cutting a text into parts, as the standard library does it: lines, words, the
two sides of a separator, and unsigned numbers in decimal digits. Each cut comes
with the rule that reads back a text put together from such parts.
-/
namespace Ramag.Fields
open Strings Domain List

/-- The parts that a separator ends; a text that does not end with it has one more part. -/
def splitTerminator (sep : Char) : Text → List Text
  | [] => []
  | c :: t =>
    if c = sep then [] :: splitTerminator sep t
    else match splitTerminator sep t with
      | [] => [[c]]
      | part :: parts => (c :: part) :: parts

variable {sep : Char} {part : Text}

theorem splitTerminator_part (free : sep ∉ part) (rest : Text) :
    splitTerminator sep (part ++ sep :: rest) = part :: splitTerminator sep rest := by
  induction part with
  | nil => simp [splitTerminator]
  | cons c part ih =>
    have other : c ≠ sep := fun same => free (same ▸ mem_cons_self)
    have cut := ih fun mem => free (mem_cons_of_mem c mem)
    simp only [cons_append, splitTerminator, other, if_false, cut]

/-- Parts that do not hold the separator are read back from the text in which it ends each of them. -/
theorem splitTerminator_parts {parts : List Text} (free : ∀ part ∈ parts, sep ∉ part) :
    splitTerminator sep (parts.flatMap (· ++ [sep])) = parts := by
  induction parts with
  | nil => rfl
  | cons part parts ih =>
    have tail := ih fun other mem => free other (mem_cons_of_mem part mem)
    rw [flatMap_cons, append_assoc, singleton_append, splitTerminator_part (free part mem_cons_self), tail]

/-- The words of a text: its longest parts without whitespace. -/
def splitWhitespace (t : Text) : List Text := (t.splitOnP isWhitespace).filter (· ≠ [])

variable {word : Text}

theorem splitWhitespace_word (dark : ∀ c ∈ word, isWhitespace c = false) (held : word ≠ []) : splitWhitespace word = [word] := by
  have whole : word.splitOnP isWhitespace = [word] :=
    splitOnP_eq_singleton fun c mem => by simp [dark c mem]
  simp [splitWhitespace, whole, held]

theorem splitWhitespace_cons (dark : ∀ c ∈ word, isWhitespace c = false) (held : word ≠ [])
    {gap : Char} (white : isWhitespace gap = true) (rest : Text) :
    splitWhitespace (word ++ gap :: rest) = word :: splitWhitespace rest := by
  unfold splitWhitespace
  rw [splitOnP_append_cons_of_forall_mem dark gap white rest, filter_cons_of_pos (by simpa using held)]

variable {t : Text}

theorem splitOnce_free (free : sep ∉ t) : splitOnce sep t = none := by
  induction t with
  | nil => rfl
  | cons c t ih =>
    have other : c ≠ sep := fun same => free (same ▸ mem_cons_self)
    simp [splitOnce, other, ih fun mem => free (mem_cons_of_mem c mem)]

theorem splitOnce_part (free : sep ∉ part) (rest : Text) : splitOnce sep (part ++ sep :: rest) = some (part, rest) := by
  induction part with
  | nil => simp [splitOnce]
  | cons c part ih =>
    have other : c ≠ sep := fun same => free (same ▸ mem_cons_self)
    simp [splitOnce, other, ih fun mem => free (mem_cons_of_mem c mem)]

theorem splitOnce_some {rest : Text} (cut : splitOnce sep t = some (part, rest)) : sep ∉ part ∧ t = part ++ sep :: rest := by
  induction t generalizing part with
  | nil => cases cut
  | cons c t ih =>
    rw [splitOnce] at cut
    split at cut
    case isTrue same =>
      cases cut
      exact ⟨not_mem_nil, by rw [same]; rfl⟩
    case isFalse other =>
      obtain ⟨⟨part', rest'⟩, found, same⟩ := Option.map_eq_some_iff.mp cut
      cases same
      obtain ⟨free, rfl⟩ := ih found
      exact ⟨not_mem_cons_of_ne_of_not_mem (Ne.symm other) free, rfl⟩

/-- The parts before and after the last occurrence of a character. -/
def rsplitOnce (sep : Char) (t : Text) : Option (Text × Text) :=
  (splitOnce sep t.reverse).map fun parts => (parts.2.reverse, parts.1.reverse)

theorem rsplitOnce_free (free : sep ∉ t) : rsplitOnce sep t = none := by
  rw [rsplitOnce, splitOnce_free (by simpa using free)]
  rfl

theorem rsplitOnce_part (front : Text) (free : sep ∉ part) : rsplitOnce sep (front ++ sep :: part) = some (front, part) := by
  have back : (front ++ sep :: part).reverse = part.reverse ++ sep :: front.reverse := by simp
  rw [rsplitOnce, back, splitOnce_part (by simpa using free)]
  simp

theorem rsplitOnce_some {front : Text} (cut : rsplitOnce sep t = some (front, part)) : sep ∉ part ∧ t = front ++ sep :: part := by
  obtain ⟨⟨back, rest⟩, split, same⟩ := Option.map_eq_some_iff.mp cut
  obtain ⟨rfl, rfl⟩ := Prod.mk.inj same
  obtain ⟨free, whole⟩ := splitOnce_some split
  refine ⟨by simpa using free, ?_⟩
  rw [← reverse_reverse t, whole]
  simp

/-- At most `count` parts: the last one is what is left of the text. -/
def splitN (sep : Char) : Nat → Text → List Text
  | 0, _ => []
  | 1, t => [t]
  | count + 2, t =>
    match splitOnce sep t with
    | some (part, rest) => part :: splitN sep (count + 1) rest
    | none => [t]

/-- Parts that the separator ends, and what is left, are read back. -/
theorem splitN_parts {parts : List Text} (free : ∀ part ∈ parts, sep ∉ part) (rest : Text) :
    splitN sep (parts.length + 1) (parts.flatMap (· ++ [sep]) ++ rest) = parts ++ [rest] := by
  induction parts with
  | nil => rfl
  | cons part parts ih =>
    rw [forall_mem_cons] at free
    have cut := splitOnce_part free.1 (parts.flatMap (· ++ [sep]) ++ rest)
    simp only [length_cons, flatMap_cons, append_assoc, cons_append, nil_append, splitN]
    rw [cut]
    exact congrArg (part :: ·) (ih free.2)

/-- As many parts as are asked for are separated parts and what is left. -/
theorem parts_of_splitN {count : Nat} (full : (splitN sep (count + 1) t).length = count + 1) :
    ∃ (parts : List Text) (rest : Text), parts.length = count ∧ (∀ part ∈ parts, sep ∉ part) ∧ t = parts.flatMap (· ++ [sep]) ++ rest := by
  induction count generalizing t with
  | zero => exact ⟨[], t, rfl, nofun, rfl⟩
  | succ count ih =>
    rw [splitN] at full
    split at full
    case h_1 part rest cut =>
      obtain ⟨parts, last, length, free, rfl⟩ := ih (Nat.succ.inj full)
      obtain ⟨own, rfl⟩ := splitOnce_some cut
      refine ⟨part :: parts, last, by rw [length_cons, length], forall_mem_cons.mpr ⟨own, free⟩, ?_⟩
      simp
    case h_2 => simp at full

theorem stripPrefix_append (p t : Text) : stripPrefix p (p ++ t) = some t := by simp [stripPrefix]

theorem stripPrefix_eq_some {p rest : Text} : stripPrefix p t = some rest ↔ t = p ++ rest := by
  constructor
  · intro cut
    rw [stripPrefix] at cut
    split at cut
    case isTrue held =>
      obtain ⟨back, rfl⟩ := isPrefixOf_iff_prefix.mp held
      rw [drop_left, Option.some_inj] at cut
      rw [cut]
    case isFalse => cases cut
  · rintro rfl
    exact stripPrefix_append p rest

/-- The parts between ASCII whitespace that are not empty. -/
def splitAsciiWhitespace (t : Text) : List Text := (t.splitOnP isAsciiWhitespace).filter (· ≠ [])

theorem splitAsciiWhitespace_word (dark : ∀ c ∈ word, isAsciiWhitespace c = false) (held : word ≠ []) :
    splitAsciiWhitespace word = [word] := by
  have whole : word.splitOnP isAsciiWhitespace = [word] :=
    splitOnP_eq_singleton fun c mem => by simp [dark c mem]
  simp [splitAsciiWhitespace, whole, held]

theorem splitAsciiWhitespace_cons (dark : ∀ c ∈ word, isAsciiWhitespace c = false) (held : word ≠ [])
    {gap : Char} (white : isAsciiWhitespace gap = true) (rest : Text) :
    splitAsciiWhitespace (word ++ gap :: rest) = word :: splitAsciiWhitespace rest := by
  unfold splitAsciiWhitespace
  rw [splitOnP_append_cons_of_forall_mem dark gap white rest, filter_cons_of_pos (by simpa using held)]

/-- The two sides of the first occurrence of a text. -/
def splitOnceText (needle t : Text) : Option (Text × Text) :=
  (findText needle t).map fun i => (t.take i, t.drop (i + needle.length))

section
variable {needle : Text} (rest : Text) (unmet : ∀ c left, c :: left <:+ part → ¬ needle <+: c :: left ++ needle ++ rest)
include rest unmet

/-- A text is found after a part in which none of its tails can start. -/
theorem findText_after :
    findText needle (part ++ needle ++ rest) = some part.length := by
  induction part with
  | nil =>
    have here : needle <+: needle ++ rest := prefix_append needle rest
    cases whole : needle ++ rest with
    | nil => simp_all [findText]
    | cons c t =>
      rw [whole] at here
      simp [findText, whole, here]
  | cons c part ih =>
    have later := ih fun d left tail => unmet d left (tail.trans (suffix_cons c part))
    have apart := unmet c part suffix_rfl
    simp only [cons_append] at apart ⊢
    simp only [findText, isPrefixOf_iff_prefix, apart, if_false, later, Option.map_some, length_cons]

theorem splitOnceText_after :
    splitOnceText needle (part ++ needle ++ rest) = some (part, rest) := by
  rw [splitOnceText, findText_after rest unmet, Option.map_some, append_assoc, take_left, ← append_assoc, ← length_append, drop_left]

end

inductive ParseIntError
  | Empty
  | InvalidDigit
  | PosOverflow

def ParseIntError.text : ParseIntError → Text
  | .Empty => "cannot parse integer from empty string"
  | .InvalidDigit => "invalid digit found in string"
  | .PosOverflow => "number too large to fit in target type"

/-- The number of values of a `u32`. -/
def U32_VALUES : Nat := 2 ^ 32

def readDigits (value : Nat) : Text → Except ParseIntError Nat
  | [] => .ok value
  | c :: digits =>
    if c.isDigit = false then .error .InvalidDigit
    else if value * 10 + (c.toNat - 48) < U32_VALUES then readDigits (value * 10 + (c.toNat - 48)) digits
    else .error .PosOverflow

def parseU32 : Text → Except ParseIntError Nat
  | [] => .error .Empty
  | ['+'] | ['-'] => .error .InvalidDigit
  | '+' :: digits => readDigits 0 digits
  | digits => readDigits 0 digits

theorem le_ofDigitChars (digits : Text) (value : Nat) : value ≤ Nat.ofDigitChars 10 digits value := by
  induction digits generalizing value with
  | nil => simp
  | cons c digits ih =>
    rw [Nat.ofDigitChars_cons]
    have grown := ih (10 * value + (c.toNat - '0'.toNat))
    omega

theorem readDigits_digits {digits : Text} (decimal : ∀ c ∈ digits, c.isDigit = true) {value : Nat} (fits : value < U32_VALUES) :
    readDigits value digits = if Nat.ofDigitChars 10 digits value < U32_VALUES then .ok (Nat.ofDigitChars 10 digits value)
      else .error .PosOverflow := by
  induction digits generalizing value with
  | nil => simp [readDigits, fits]
  | cons c digits ih =>
    have digit := decimal c mem_cons_self
    have zero : '0'.toNat = 48 := rfl
    rw [Nat.ofDigitChars_cons, zero, Nat.mul_comm 10 value]
    simp only [readDigits, digit, Bool.true_eq_false, if_false]
    by_cases small : value * 10 + (c.toNat - 48) < U32_VALUES
    · rw [if_pos small]
      exact ih (fun d mem => decimal d (mem_cons_of_mem c mem)) small
    · have grown := le_ofDigitChars digits (value * 10 + (c.toNat - 48))
      rw [if_neg small, if_neg fun whole => small (lt_of_le_of_lt grown whole)]

variable {n : Nat}

theorem natText_isDigit {c : Char} (mem : c ∈ natText n) : c.isDigit = true :=
  Nat.isDigit_of_mem_toDigits (by decide) (by decide) mem

theorem natText_ne_nil (n : Nat) : natText n ≠ [] := Nat.toDigits_ne_nil

theorem natText_value (n : Nat) : Nat.ofDigitChars 10 (natText n) 0 = n := Nat.ofDigitChars_ten_toDigits

/-- The digits of a number are read back when it fits. -/
theorem parseU32_natText (n : Nat) : parseU32 (natText n) = if n < U32_VALUES then .ok n else .error .PosOverflow := by
  have value := natText_value n
  have decimal : ∀ c ∈ natText n, c.isDigit = true := fun _ => natText_isDigit
  have read := readDigits_digits decimal (show 0 < U32_VALUES by decide)
  cases whole : natText n with
  | nil => exact absurd whole (natText_ne_nil n)
  | cons c digits =>
    unfold parseU32
    split <;> simp_all

/-- The number of values of a `usize`. -/
def USIZE_VALUES : Nat := 2 ^ 64

/-- As `readDigits`, for the unsigned type with this many values. -/
def readUnsigned (values value : Nat) : Text → Except ParseIntError Nat
  | [] => .ok value
  | c :: digits =>
    if c.isDigit = false then .error .InvalidDigit
    else if value * 10 + (c.toNat - 48) < values then readUnsigned values (value * 10 + (c.toNat - 48)) digits
    else .error .PosOverflow

def parseUsize : Text → Except ParseIntError Nat
  | [] => .error .Empty
  | ['+'] | ['-'] => .error .InvalidDigit
  | '+' :: digits => readUnsigned USIZE_VALUES 0 digits
  | digits => readUnsigned USIZE_VALUES 0 digits

variable {values : Nat}

theorem readUnsigned_digits {digits : Text} (decimal : ∀ c ∈ digits, c.isDigit = true) {value : Nat}
    (fits : Nat.ofDigitChars 10 digits value < values) : readUnsigned values value digits = .ok (Nat.ofDigitChars 10 digits value) := by
  induction digits generalizing value with
  | nil => simp [readUnsigned]
  | cons c digits ih =>
    have digit := decimal c mem_cons_self
    have zero : '0'.toNat = 48 := rfl
    rw [Nat.ofDigitChars_cons, zero, Nat.mul_comm 10 value] at fits ⊢
    have small := lt_of_le_of_lt (le_ofDigitChars digits (value * 10 + (c.toNat - 48))) fits
    rw [readUnsigned, if_neg (by simp [digit]), if_pos small]
    exact ih (fun d mem => decimal d (mem_cons_of_mem c mem)) fits

/-- The unsigned type with this many values. -/
def parseUnsigned (values : Nat) : Text → Except ParseIntError Nat
  | [] => .error .Empty
  | ['+'] | ['-'] => .error .InvalidDigit
  | '+' :: digits => readUnsigned values 0 digits
  | digits => readUnsigned values 0 digits

theorem natText_digits (n : Nat) : ∃ c digits, natText n = c :: digits ∧ c ≠ '+' ∧ c ≠ '-' := by
  cases whole : natText n with
  | nil => exact absurd whole (natText_ne_nil n)
  | cons c digits =>
    have digit : c.isDigit = true := natText_isDigit (whole ▸ mem_cons_self)
    refine ⟨c, digits, rfl, ?_, ?_⟩
    · intro same
      simp [same] at digit
    · intro same
      simp [same] at digit

theorem parseUnsigned_natText (fits : n < values) : parseUnsigned values (natText n) = .ok n := by
  have read := readUnsigned_digits (fun _ => natText_isDigit) ((natText_value n).symm ▸ fits)
  obtain ⟨c, digits, whole, plus, minus⟩ := natText_digits n
  rw [natText_value, whole] at read
  rw [whole, parseUnsigned]
  · exact read
  · exact nofun
  · exact fun same => plus (List.cons.inj same).1
  · exact fun same => minus (List.cons.inj same).1
  · exact fun digits same => plus (List.cons.inj same).1

theorem parseUsize_natText (fits : n < USIZE_VALUES) : parseUsize (natText n) = .ok n := parseUnsigned_natText fits

/-- What is read holds nothing but digits, behind a sign. -/
theorem parseUnsigned_digits (read : parseUnsigned values t = .ok n) {c : Char} (mem : c ∈ t) : c = '+' ∨ c.isDigit = true := by
  have digits : ∀ {value : Nat} {t : Text}, readUnsigned values value t = .ok n → ∀ c ∈ t, c.isDigit = true := by
    intro value t read
    induction t generalizing value with
    | nil => exact nofun
    | cons d t ih =>
      rw [readUnsigned] at read
      split_ifs at read with other fits
      intro c mem
      rcases mem_cons.mp mem with rfl | mem
      · simpa using other
      · exact ih read c mem
  unfold parseUnsigned at read
  split at read
  · cases read
  · cases read
  · cases read
  · rcases mem_cons.mp mem with rfl | mem
    · exact .inl rfl
    · exact .inr (digits read c mem)
  · exact .inr (digits read c mem)

end Ramag.Fields
