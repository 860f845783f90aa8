import Ramag.ClipIndex

/-!
UUIDs: numbers of 128 bits, written in hexadecimal digits with hyphens between
five groups. The text has always the same length and tells the number.
-/
namespace Ramag.Uuids
open Strings List
open ClipStore (hexFixed)
open ClipIndex (hexFixed_length hexFixed_lt hexFixed_chars)

structure Uuid where
  value : Nat
  small : value < 16 ^ 32
  deriving DecidableEq

theorem zero_small : 0 < 16 ^ 32 := by decide

/-- The groups of 32 digits, hyphenated. -/
def hyphenated (digits : Text) : Text :=
  digits.take 8 ++ '-' :: ((digits.drop 8).take 4 ++ '-' :: ((digits.drop 12).take 4 ++ '-' ::
    ((digits.drop 16).take 4 ++ '-' :: digits.drop 20)))

def Uuid.text (id : Uuid) : Text := hyphenated (hexFixed 32 id.value)

theorem text_length (id : Uuid) : id.text.length = 36 := by simp [Uuid.text, hyphenated, hexFixed_length]

theorem hyphenated_filter {digits : Text} (free : '-' ∉ digits) : (hyphenated digits).filter (· ≠ '-') = digits := by
  have whole : ∀ part : Text, part <:+: digits → part.filter (· ≠ '-') = part := fun part inside =>
    filter_eq_self.mpr fun c mem => by
      have : c ≠ '-' := fun same => free (same ▸ inside.subset mem)
      simpa using this
  have group : ∀ n k : Nat, (digits.drop n).take k <:+: digits := fun n k => ( take_prefix k _).isInfix.trans (drop_suffix n digits).isInfix
  have first := whole (digits.take 8) ( take_prefix 8 digits).isInfix
  have second := whole ((digits.drop 8).take 4) (group 8 4)
  have third := whole ((digits.drop 12).take 4) (group 12 4)
  have fourth := whole ((digits.drop 16).take 4) (group 16 4)
  have last := whole (digits.drop 20) (drop_suffix 20 digits).isInfix
  have hyphen : ∀ t : Text, ('-' :: t).filter (· ≠ '-') = t.filter (· ≠ '-') := fun t => filter_cons_of_neg (by decide)
  simp only [hyphenated, filter_append, hyphen, first, second, third, fourth, last]
  have join : ∀ (n k : Nat), (digits.drop n).take k ++ digits.drop (n + k) = digits.drop n := fun n k => by
    rw [← drop_drop, take_append_drop]
  rw [join 16 4, join 12 4, join 8 4, take_append_drop]

theorem text_injective : Function.Injective Uuid.text := by
  intro left right same
  have free : ∀ id : Uuid, '-' ∉ hexFixed 32 id.value := by
    intro id mem
    obtain ⟨d, spelled⟩ := hexFixed_chars mem
    have all : ∀ d : Fin 16, '-' ≠ Nat.digitChar d.val := by decide
    exact all d spelled
  have digits : hexFixed 32 left.value = hexFixed 32 right.value := by
    rw [← hyphenated_filter (free left), ← hyphenated_filter (free right)]
    exact congrArg (List.filter (· ≠ '-')) same
  rcases Nat.lt_trichotomy left.value right.value with less | equal | more
  · exact absurd (hexFixed_lt less right.small) (by rw [digits]; exact lt_irrefl _)
  · cases left
    cases right
    simpa using equal
  · exact absurd (hexFixed_lt more left.small) (by rw [digits]; exact lt_irrefl _)

end Ramag.Uuids
