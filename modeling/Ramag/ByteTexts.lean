import Ramag.Strings

/-!
The UTF-8 bytes of a text, and the windows of a list. Bytes below 128 stand for
themselves only, so a run of them in the bytes is a run of ASCII characters in
the text (`ascii_run`).
-/
namespace Ramag.ByteTexts
open Strings List

def asBytes (t : Text) : List UInt8 := t.flatMap String.utf8EncodeChar

@[simp] theorem asBytes_nil : asBytes [] = [] := rfl
@[simp] theorem asBytes_cons (c : Char) (t : Text) : asBytes (c :: t) = String.utf8EncodeChar c ++ asBytes t := rfl
@[simp] theorem asBytes_append (s t : Text) : asBytes (s ++ t) = asBytes s ++ asBytes t := flatMap_append

theorem asBytes_length (t : Text) : (asBytes t).length = byteLen t := by
  induction t with
  | nil => rfl
  | cons c t ih => simp [ih]

theorem asBytes_within {s t : Text} (inside : s <:+: t) : asBytes s <:+: asBytes t := by
  obtain ⟨front, back, rfl⟩ := inside
  exact ⟨asBytes front, asBytes back, by simp⟩

/-- The byte of an ASCII character. -/
theorem utf8_ascii {c : Char} (small : c.toNat < 128) : String.utf8EncodeChar c = [c.toNat.toUInt8] := by
  have size : c.utf8Size = 1 := by
    rw [Char.utf8Size_eq_one_iff, UInt32.le_iff_toNat_le]
    exact Nat.le_of_lt_succ small
  rw [String.utf8EncodeChar_eq_singleton size]
  rfl

theorem high_byte (b mark : UInt8) (high : 128 ≤ mark.toNat) : 128 ≤ (b ||| mark).toNat := by exact high.trans Nat.right_le_or

/-- The bytes of the other characters are at least 128. -/
theorem utf8_high {c : Char} (large : ¬ c.toNat < 128) : ∀ b ∈ String.utf8EncodeChar c, 128 ≤ b.toNat := by
  have several : c.utf8Size ≠ 1 := by
    rw [Ne, Char.utf8Size_eq_one_iff, UInt32.le_iff_toNat_le]
    intro small
    exact large (Nat.lt_succ_of_le small)
  rcases Char.utf8Size_eq c with one | two | three | four
  · exact absurd one several
  · rw [String.utf8EncodeChar_eq_cons_cons two]
    simp only [forall_mem_cons]
    exact ⟨high_byte _ _ (by decide), high_byte _ _ (by decide), nofun⟩
  · rw [String.utf8EncodeChar_eq_cons_cons_cons three]
    simp only [forall_mem_cons]
    exact ⟨high_byte _ _ (by decide), high_byte _ _ (by decide), high_byte _ _ (by decide), nofun⟩
  · rw [String.utf8EncodeChar_eq_cons_cons_cons_cons four]
    simp only [forall_mem_cons]
    exact ⟨high_byte _ _ (by decide), high_byte _ _ (by decide), high_byte _ _ (by decide),
      high_byte _ _ (by decide), nofun⟩

/-! ### Runs of ASCII bytes -/

/-- A run of low bytes does not begin inside high ones. -/
theorem run_behind_high {run high rest : List UInt8} (held : run ≠ []) (low : ∀ b ∈ run, b.toNat < 128)
    (above : ∀ b ∈ high, 128 ≤ b.toNat) (inside : run <:+: high ++ rest) : run <:+: rest := by
  induction high with
  | nil => exact inside
  | cons b high ih =>
    rw [forall_mem_cons] at above
    rcases infix_cons_iff.mp inside with first | later
    · obtain ⟨x, run, rfl⟩ := exists_cons_of_ne_nil held
      obtain ⟨rfl, -⟩ := cons_prefix_cons.mp first
      have := low x mem_cons_self
      omega
    · exact ih above.2 later

/-- Low bytes at the start of a text's bytes come from ASCII characters at its start. -/
theorem ascii_start {run : List UInt8} (low : ∀ b ∈ run, b.toNat < 128) {t : Text} (start : run <+: asBytes t) :
    ∃ word rest, t = word ++ rest ∧ asBytes word = run ∧ ∀ c ∈ word, c.toNat < 128 := by
  induction run generalizing t with
  | nil => exact ⟨[], t, rfl, rfl, nofun⟩
  | cons x run ih =>
    rw [forall_mem_cons] at low
    cases t with
    | nil =>
      have := start.length_le
      simp at this
    | cons c t =>
      rw [asBytes_cons] at start
      by_cases small : c.toNat < 128
      · rw [utf8_ascii small] at start
        obtain ⟨same, later⟩ := cons_prefix_cons.mp start
        obtain ⟨word, rest, rfl, bytes, ascii⟩ := ih low.2 later
        refine ⟨c :: word, rest, rfl, ?_, forall_mem_cons.mpr ⟨small, ascii⟩⟩
        rw [asBytes_cons, utf8_ascii small, bytes, same]
        rfl
      · have high := utf8_high small
        obtain ⟨b, bytes, spelled⟩ : ∃ b bytes, String.utf8EncodeChar c = b :: bytes := by
          refine exists_cons_of_ne_nil fun none' => ?_
          have := c.utf8Size_pos
          have := String.length_utf8EncodeChar c
          rw [none'] at this
          simp at this
          omega
        rw [spelled] at start high
        obtain ⟨rfl, -⟩ := cons_prefix_cons.mp start
        have := high x mem_cons_self
        omega

/-- A run of low bytes in a text's bytes is a run of ASCII characters in the text. -/
theorem ascii_run {run : List UInt8} (held : run ≠ []) (low : ∀ b ∈ run, b.toNat < 128) {t : Text} (inside : run <:+: asBytes t) :
    ∃ front word back, t = front ++ word ++ back ∧ asBytes word = run ∧ ∀ c ∈ word, c.toNat < 128 := by
  induction t with
  | nil => exact absurd (infix_nil.mp inside) held
  | cons c t ih =>
    have tail : run <:+: asBytes t →
        ∃ front word back, c :: t = front ++ word ++ back ∧ asBytes word = run ∧ ∀ c ∈ word, c.toNat < 128 := by
      intro later
      obtain ⟨front, word, back, rfl, spelled⟩ := ih later
      exact ⟨c :: front, word, back, rfl, spelled⟩
    by_cases small : c.toNat < 128
    · rw [asBytes_cons, utf8_ascii small, singleton_append] at inside
      rcases infix_cons_iff.mp inside with start | later
      · have first : run <+: asBytes (c :: t) := by rwa [asBytes_cons, utf8_ascii small]
        obtain ⟨word, rest, whole, spelled⟩ := ascii_start low first
        exact ⟨[], word, rest, whole, spelled⟩
      · exact tail later
    · exact tail (run_behind_high held low (utf8_high small) inside)

theorem asBytes_ascii {t : Text} (ascii : ∀ c ∈ t, c.toNat < 128) : asBytes t = t.map fun c => c.toNat.toUInt8 := by
  induction t with
  | nil => rfl
  | cons c t ih =>
    rw [forall_mem_cons] at ascii
    rw [asBytes_cons, utf8_ascii ascii.1, ih ascii.2]
    rfl

/-- The runs of a length in a list. -/
def windows {α : Type} (size : Nat) : List α → List (List α)
  | [] => []
  | x :: xs => if size ≤ xs.length + 1 then (x :: xs).take size :: windows size xs else []

theorem mem_windows {α : Type} {size : Nat} (held : 0 < size) {xs window : List α} :
    window ∈ windows size xs ↔ window <:+: xs ∧ window.length = size := by
  induction xs with
  | nil =>
    refine iff_of_false not_mem_nil fun ⟨inside, length⟩ => ?_
    rw [infix_nil.mp inside] at length
    exact absurd length (Nat.ne_of_lt held)
  | cons x xs ih =>
    rw [windows, infix_cons_iff]
    split_ifs with fits
    · have start : window = (x :: xs).take size ↔ window <+: x :: xs ∧ window.length = size := by
        constructor
        · rintro rfl
          refine ⟨ take_prefix _ _, ?_⟩
          rw [length_take, length_cons]
          omega
        · rintro ⟨first, rfl⟩
          exact prefix_iff_eq_take.mp first
      rw [mem_cons, ih, start]
      tauto
    · refine iff_of_false not_mem_nil fun ⟨inside, length⟩ => ?_
      have short := (infix_cons_iff.mpr inside).length_le
      rw [length_cons] at short
      omega

theorem windows_within {α : Type} {size : Nat} (held : 0 < size) {xs ys window : List α} (inside : xs <:+: ys)
    (mem : window ∈ windows size xs) : window ∈ windows size ys := by
  rw [mem_windows held] at mem ⊢
  exact ⟨mem.1.trans inside, mem.2⟩

end Ramag.ByteTexts
