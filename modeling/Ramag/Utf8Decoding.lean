import Ramag.ByteTexts
import Ramag.Domain

/-!
Bytes read as UTF-8. `decode` gives the text whose bytes they are, if there is
one, and `utf8Error` what the standard library says of other bytes.
`decodeLossy` reads any bytes, with a mark for what is not UTF-8; it may be cut
at every ASCII character (`decodeLossy_ascii`).
-/
namespace Ramag.Utf8Decoding
open Strings Domain ByteTexts List

def decode (bytes : List UInt8) : Option Text := bytes.toByteArray.utf8Decode?.map Array.toList

theorem decode_asBytes (t : Text) : decode (asBytes t) = some t := by
  have spelled : (asBytes t).toByteArray = t.utf8Encode := rfl
  rw [decode, spelled, utf8Decode?_utf8Encode, Option.map_some]

variable {bytes : List UInt8} {t : Text}

theorem decode_eq_some : decode bytes = some t ↔ bytes = asBytes t := by
  constructor
  · intro decoded
    obtain ⟨chars, found, rfl⟩ := Option.map_eq_some_iff.mp decoded
    have whole : chars.toList.utf8Encode = bytes.toByteArray := by
      have read := @ByteArray.utf8Encode_get_utf8Decode? bytes.toByteArray (by rw [found]; rfl)
      rwa [Option.get_of_eq_some _ found] at read
    have data := congrArg (fun b : ByteArray => b.data.toList) whole
    simpa [List.utf8Encode, asBytes] using data.symm
  · rintro rfl
    exact decode_asBytes t

theorem asBytes_injective {s : Text} (same : asBytes s = asBytes t) : s = t := by
  have decoded := decode_asBytes s
  rw [same, decode_asBytes, Option.some_inj] at decoded
  exact decoded.symm

theorem zero_mem_asBytes : 0 ∈ asBytes t ↔ '\x00' ∈ t := by
  induction t with
  | nil => simp
  | cons c t ih =>
    rw [asBytes_cons, mem_append, ih, mem_cons]
    refine or_congr_left ?_
    by_cases small : c.toNat < 128
    · rw [utf8_ascii small, mem_singleton]
      constructor
      · intro zero
        have value := congrArg UInt8.toNat zero
        rw [UInt8.toNat_zero, Nat.toUInt8_eq, UInt8.toNat_ofNat', Nat.mod_eq_of_lt (by omega)] at value
        exact (Char.toNat_inj.mp value.symm).symm
      · rintro rfl
        rfl
    · constructor
      · intro zero
        have := utf8_high small 0 zero
        simp at this
      · rintro rfl
        exact absurd (by decide) small

/-- A character that is being read: where it starts, the range of its next
    byte, how many bytes follow this one, and how many were read. -/
structure Pending where
  start : Nat
  low : UInt8
  high : UInt8
  more : Nat
  got : Nat

def firstByte (index : Nat) (b : UInt8) : Option Pending :=
  if 0xC2 ≤ b ∧ b ≤ 0xDF then some ⟨index, 0x80, 0xBF, 0, 1⟩
  else if b = 0xE0 then some ⟨index, 0xA0, 0xBF, 1, 1⟩
  else if b = 0xED then some ⟨index, 0x80, 0x9F, 1, 1⟩
  else if 0xE1 ≤ b ∧ b ≤ 0xEF then some ⟨index, 0x80, 0xBF, 1, 1⟩
  else if b = 0xF0 then some ⟨index, 0x90, 0xBF, 2, 1⟩
  else if 0xF1 ≤ b ∧ b ≤ 0xF3 then some ⟨index, 0x80, 0xBF, 2, 1⟩
  else if b = 0xF4 then some ⟨index, 0x80, 0x8F, 2, 1⟩
  else none

/-- Where the bytes stop being UTF-8, and how many bytes are wrong there unless
    the bytes end inside a character. -/
def utf8Fault (index : Nat) : Option Pending → List UInt8 → Option (Nat × Option Nat)
  | none, [] => none
  | some pending, [] => some (pending.start, none)
  | none, b :: bytes =>
    if b < 0x80 then utf8Fault (index + 1) none bytes
    else match firstByte index b with
      | some pending => utf8Fault (index + 1) (some pending) bytes
      | none => some (index, some 1)
  | some pending, b :: bytes =>
    if pending.low ≤ b ∧ b ≤ pending.high then
      if pending.more = 0 then utf8Fault (index + 1) none bytes
      else utf8Fault (index + 1) (some ⟨pending.start, 0x80, 0xBF, pending.more - 1, pending.got + 1⟩) bytes
    else some (pending.start, some pending.got)

def utf8Error (bytes : List UInt8) : Text :=
  match utf8Fault 0 none bytes with
  | some (start, some length) => "invalid utf-8 sequence of " ++ natText length ++ " bytes from index " ++ natText start
  | some (start, none) => "incomplete utf-8 byte sequence from index " ++ natText start
  | none => []

/-! ### Reading with marks -/

/-- The character that the bytes begin with. -/
def firstChar (bytes : List UInt8) : Option Char :=
  [1, 2, 3, 4].findSome? fun n =>
    match decode (bytes.take n) with
    | some [c] => some c
    | _ => none

/-- How many of the bytes may still belong to the character that is being read. -/
def followLength (pending : Pending) : List UInt8 → Nat
  | [] => 0
  | b :: bytes =>
    if pending.low ≤ b ∧ b ≤ pending.high then
      if pending.more = 0 then 1
      else 1 + followLength ⟨pending.start, 0x80, 0xBF, pending.more - 1, pending.got + 1⟩ bytes
    else 0

/-- The length of the longest start of a character that the bytes begin with, or one. -/
def badLength : List UInt8 → Nat
  | [] => 0
  | b :: bytes =>
    match firstByte 0 b with
    | some pending => 1 + followLength pending bytes
    | none => 1

theorem badLength_pos (b : UInt8) (bytes : List UInt8) : 0 < badLength (b :: bytes) := by
  rw [badLength]
  split
  · exact Nat.add_pos_left Nat.one_pos _
  · exact Nat.one_pos

def decodeLossy (bytes : List UInt8) : Text :=
  match bytes with
  | [] => []
  | b :: bytes =>
    match firstChar (b :: bytes) with
    | some c => c :: decodeLossy ((b :: bytes).drop c.utf8Size)
    | none => '\uFFFD' :: decodeLossy ((b :: bytes).drop (badLength (b :: bytes)))
termination_by bytes.length
decreasing_by
  · have := c.utf8Size_pos
    simp only [List.length_drop, List.length_cons]
    omega
  · have := badLength_pos b bytes
    simp only [List.length_drop, List.length_cons]
    omega

theorem asBytes_prefix {s : Text} (front : asBytes s <+: asBytes t) : s <+: t := by
  obtain ⟨back, whole⟩ := front
  refine isPrefix_of_utf8Encode_append_eq_utf8Encode back.toByteArray ?_
  show (asBytes s).toByteArray ++ back.toByteArray = (asBytes t).toByteArray
  rw [← whole, toByteArray_append]

variable {c : Char}

theorem firstChar_eq_some : firstChar bytes = some c ↔ asBytes [c] <+: bytes := by
  have found : ∀ {d}, firstChar bytes = some d → asBytes [d] <+: bytes := by
    intro d found
    obtain ⟨n, -, decoded⟩ := exists_of_findSome?_eq_some found
    split at decoded
    case h_1 e whole =>
      cases decoded
      rw [← decode_eq_some.mp whole]
      exact take_prefix n bytes
    case h_2 => cases decoded
  refine ⟨found, fun front => ?_⟩
  have size : c.utf8Size ∈ [1, 2, 3, 4] := by rcases Char.utf8Size_eq c with one | two | three | four <;> simp [*]
  have length : (asBytes [c]).length = c.utf8Size := by simp
  have here : decode (bytes.take c.utf8Size) = some [c] := by
    rw [decode_eq_some, ← length]
    exact (prefix_iff_eq_take.mp front).symm
  have some' : (firstChar bytes).isSome = true := by
    refine findSome?_isSome_iff.mpr ⟨_, size, ?_⟩
    rw [here]
    rfl
  obtain ⟨d, first⟩ := Option.isSome_iff_exists.mp some'
  rw [first]
  rcases prefix_or_prefix_of_prefix (found first) front with shorter | longer
  · have same := asBytes_prefix shorter
    simp only [cons_prefix_cons, nil_prefix, and_true] at same
    rw [same]
  · have same := asBytes_prefix longer
    simp only [cons_prefix_cons, nil_prefix, and_true] at same
    rw [same]

theorem decodeLossy_char (c : Char) (bytes : List UInt8) : decodeLossy (asBytes [c] ++ bytes) = c :: decodeLossy bytes := by
  have first : firstChar (asBytes [c] ++ bytes) = some c := firstChar_eq_some.mpr (prefix_append _ _)
  have length : (asBytes [c]).length = c.utf8Size := by simp
  have rest : (asBytes [c] ++ bytes).drop c.utf8Size = bytes := by rw [← length, drop_left]
  cases whole : asBytes [c] ++ bytes with
  | nil =>
    have := c.utf8Size_pos
    have none' := congrArg List.length whole
    simp only [length_append, length, length_nil] at none'
    omega
  | cons b tail =>
    rw [whole] at first rest
    rw [decodeLossy, first]
    simp [rest]

theorem decodeLossy_asBytes (t : Text) : decodeLossy (asBytes t) = t := by
  induction t with
  | nil => simp [decodeLossy]
  | cons c t ih =>
    have split : asBytes (c :: t) = asBytes [c] ++ asBytes t := by simp
    rw [split, decodeLossy_char, ih]

variable {mark : UInt8}

theorem firstChar_ascii (low : mark.toNat < 128) {front : List UInt8} (held : front ≠ []) (back : List UInt8) :
    firstChar (front ++ mark :: back) = firstChar front := by
  ext c
  rw [firstChar_eq_some, firstChar_eq_some]
  refine ⟨fun start => ?_, fun start => start.trans (prefix_append _ _)⟩
  by_cases inside : (asBytes [c]).length ≤ front.length
  · exact prefix_of_prefix_length_le start (prefix_append _ _) inside
  have through : front ++ [mark] <+: asBytes [c] := by
    refine prefix_of_prefix_length_le ?_ start (by simp; simp at inside; omega)
    exact ⟨back, by simp⟩
  have spelled : asBytes [c] = String.utf8EncodeChar c := by simp
  have mem : mark ∈ String.utf8EncodeChar c := by
    rw [← spelled]
    exact through.subset (by simp)
  by_cases small : c.toNat < 128
  · rw [spelled, utf8_ascii small, length_singleton] at inside
    exact absurd (length_pos_of_ne_nil held) inside
  · have := utf8_high small mark mem
    omega

theorem followLength_ascii (low : mark.toNat < 128) (back : List UInt8) {pending : Pending}
    (high : 128 ≤ pending.low.toNat) (front : List UInt8) : followLength pending (front ++ mark :: back) = followLength pending front := by
  induction front generalizing pending with
  | nil =>
    have below : ¬ (pending.low ≤ mark ∧ mark ≤ pending.high) := by
      rintro ⟨above, -⟩
      have := UInt8.le_iff_toNat_le.mp above
      omega
    simp [followLength, below]
  | cons b front ih =>
    rw [cons_append, followLength, followLength]
    split_ifs
    · rfl
    · rw [@ih ⟨pending.start, 0x80, 0xBF, pending.more - 1, pending.got + 1⟩ (show 128 ≤ (0x80 : UInt8).toNat by decide)]
    · rfl

theorem badLength_ascii (low : mark.toNat < 128) (b : UInt8) (front back : List UInt8) :
    badLength (b :: (front ++ mark :: back)) = badLength (b :: front) := by
  rw [badLength, badLength]
  cases first : firstByte 0 b with
  | none => rfl
  | some pending =>
    have high : 128 ≤ pending.low.toNat := by
      unfold firstByte at first
      split_ifs at first <;> cases first <;> decide
    dsimp only
    rw [followLength_ascii low back high]

theorem followLength_le (pending : Pending) (bytes : List UInt8) : followLength pending bytes ≤ bytes.length := by
  induction bytes generalizing pending with
  | nil => exact Nat.le_refl 0
  | cons b bytes ih =>
    rw [followLength, length_cons]
    split_ifs
    · omega
    · have := ih ⟨pending.start, 0x80, 0xBF, pending.more - 1, pending.got + 1⟩
      omega
    · omega

theorem badLength_le (b : UInt8) (bytes : List UInt8) : badLength (b :: bytes) ≤ (b :: bytes).length := by
  rw [badLength]
  split
  case h_1 pending _ =>
    have := followLength_le pending bytes
    rw [length_cons]
    omega
  case h_2 => exact Nat.succ_le_succ (Nat.zero_le _)

theorem decodeLossy_ascii (small : c.toNat < 128) (front back : List UInt8) :
    decodeLossy (front ++ c.toNat.toUInt8 :: back) = decodeLossy front ++ c :: decodeLossy back := by
  have low : (c.toNat.toUInt8).toNat < 128 := by
    rw [Nat.toUInt8_eq, UInt8.toNat_ofNat', Nat.mod_eq_of_lt (by omega)]
    exact small
  induction size : front.length using Nat.strong_induction_on generalizing front with
  | _ count ih =>
    cases front with
    | nil =>
      have here : asBytes [c] ++ back = c.toNat.toUInt8 :: back := by simp [utf8_ascii small]
      rw [nil_append, ← here, decodeLossy_char]
      simp [decodeLossy]
    | cons b front =>
      have first := firstChar_ascii low (cons_ne_nil b front) back
      have wrong := badLength_ascii low b front back
      rw [cons_append] at first ⊢
      rw [decodeLossy, decodeLossy, first, wrong]
      cases found : firstChar (b :: front) with
      | some d =>
        have fits : d.utf8Size ≤ (b :: front).length := by
          have := (firstChar_eq_some.mp found).length_le
          simpa using this
        have rest := ih ((b :: front).drop d.utf8Size).length (by
          have := d.utf8Size_pos
          rw [length_drop]
          omega) _ rfl
        rw [← drop_append_of_le_length fits] at rest
        rw [cons_append, ← rest]
        rfl
      | none =>
        have fits := badLength_le b front
        have rest := ih ((b :: front).drop (badLength (b :: front))).length (by
          have := badLength_pos b front
          rw [length_drop]
          omega) _ rfl
        rw [← drop_append_of_le_length fits] at rest
        rw [cons_append, ← rest]
        rfl

theorem mem_of_mem_decodeLossy (small : c.toNat < 128) (mem : c ∈ decodeLossy bytes) : c.toNat.toUInt8 ∈ bytes := by
  induction bytes using decodeLossy.induct with
  | case1 =>
    rw [decodeLossy] at mem
    cases mem
  | case2 b bytes d found ih =>
    rw [decodeLossy, found] at mem
    rcases mem_cons.mp mem with rfl | mem
    · refine (firstChar_eq_some.mp found).subset ?_
      simp [utf8_ascii small]
    · exact mem_of_mem_drop (ih mem)
  | case3 b bytes lost ih =>
    rw [decodeLossy, lost] at mem
    rcases mem_cons.mp mem with rfl | mem
    · exact absurd small (by decide)
    · exact mem_of_mem_drop (ih mem)

end Ramag.Utf8Decoding
