import Ramag.ClipIndex
import Mathlib.Data.Int.Order.Basic

/-!
Times as RFC 3339 texts. The texts of the years of four digits are in the order
of the times, also where one text has fewer digits of a second than the other,
as the sign of the offset is before the point and the digits.
-/
namespace Ramag.Timestamps
open Strings Domain List
open ClipIndex (append_lt_append append_lt_left)

/-- A time in UTC. A leap second is the last second of its minute, with more than a second of nanoseconds. -/
structure Timestamp where
  year : Int
  month : Nat
  day : Nat
  hour : Nat
  minute : Nat
  second : Nat
  nano : Nat
  month_le : month ≤ 12
  day_le : day ≤ 31
  hour_lt : hour < 24
  minute_lt : minute < 60
  second_lt : second < 60
  nano_lt : nano < 1000000000 ∨ second = 59 ∧ nano < 2000000000

def Timestamp.fields (time : Timestamp) : List Int :=
  [time.year, time.month, time.day, time.hour, time.minute, time.second, time.nano]

/-- `write_hundreds` -/
def pad2 (n : Nat) : Text := [Nat.digitChar (n / 10), Nat.digitChar (n % 10)]

def pad3 (n : Nat) : Text := Nat.digitChar (n / 100) :: pad2 (n % 100)

def pad6 (n : Nat) : Text := pad3 (n / 1000) ++ pad3 (n % 1000)

def pad9 (n : Nat) : Text := pad3 (n / 1000000) ++ pad6 (n % 1000000)

/-- The year in four digits; any other has a sign. -/
def yearText (year : Int) : Text :=
  if 0 ≤ year ∧ year ≤ 9999 then pad2 (year.toNat / 100) ++ pad2 (year.toNat % 100)
  else (if year < 0 then '-' else '+') :: (natText year.natAbs).leftpad 4 '0'

/-- As few groups of digits as are needed. -/
def fraction (nano : Nat) : Text :=
  if nano = 0 then []
  else if nano % 1000000 = 0 then '.' :: pad3 (nano / 1000000)
  else if nano % 1000 = 0 then '.' :: pad6 (nano / 1000)
  else '.' :: pad9 nano

/-- The second and the nanoseconds as they are shown. -/
def Timestamp.shown (time : Timestamp) : Nat × Nat :=
  if time.nano ≥ 1000000000 then (time.second + 1, time.nano - 1000000000) else (time.second, time.nano)

def toRfc3339 (time : Timestamp) : Text :=
  yearText time.year ++ '-' :: (pad2 time.month ++ '-' :: (pad2 time.day ++ 'T' :: (pad2 time.hour ++ ':' ::
    (pad2 time.minute ++ ':' :: (pad2 time.shown.1 ++ (fraction time.shown.2 ++ "+00:00"))))))

theorem digitChar_lt {a b : Nat} (less : a < b) (small : b < 10) : Nat.digitChar a < Nat.digitChar b := by
  have all : ∀ a b : Fin 10, a < b → Nat.digitChar a.val < Nat.digitChar b.val := by decide
  exact all ⟨a, by omega⟩ ⟨b, small⟩ less

variable {n m : Nat}

theorem pad2_lt (less : n < m) (small : m < 100) : pad2 n < pad2 m := by
  rw [pad2, pad2]
  by_cases tens : n / 10 < m / 10
  · exact cons_lt_cons_iff.mpr (.inl (digitChar_lt tens (by omega)))
  · have same : n / 10 = m / 10 := by omega
    rw [same]
    exact cons_lt_cons_iff.mpr (.inr ⟨rfl, cons_lt_cons_iff.mpr (.inl (digitChar_lt (by omega) (by omega)))⟩)

theorem pad3_lt (less : n < m) (small : m < 1000) : pad3 n < pad3 m := by
  rw [pad3, pad3]
  by_cases hundreds : n / 100 < m / 100
  · exact cons_lt_cons_iff.mpr (.inl (digitChar_lt hundreds (by omega)))
  · have same : n / 100 = m / 100 := by omega
    rw [same]
    exact cons_lt_cons_iff.mpr (.inr ⟨rfl, pad2_lt (by omega) (by omega)⟩)

variable {a b : Text}

theorem parts_lt {s t : Text} (same : s.length = t.length) (less : s < t ∨ s = t ∧ a < b) : s ++ a < t ++ b := by
  rcases less with first | ⟨rfl, second⟩
  · exact append_lt_append same first a b
  · exact append_lt_left s second

theorem pad2_parts (small : m < 100) (less : n < m ∨ n = m ∧ a < b) : pad2 n ++ a < pad2 m ++ b :=
  parts_lt rfl (less.imp (fun less => pad2_lt less small) fun same => ⟨congrArg pad2 same.1, same.2⟩)

theorem pad3_parts (small : m < 1000) (less : n < m ∨ n = m ∧ a < b) : pad3 n ++ a < pad3 m ++ b :=
  parts_lt rfl (less.imp (fun less => pad3_lt less small) fun same => ⟨congrArg pad3 same.1, same.2⟩)

theorem behind_lt (c : Char) (less : a < b) : c :: a < c :: b := cons_lt_cons_iff.mpr (.inr ⟨rfl, less⟩)

theorem plus_lt_pad3 (small : n < 1000) (a b : Text) : '+' :: a < pad3 n ++ b := by
  have all : ∀ d : Fin 10, '+' < Nat.digitChar d.val := by decide
  have first : n / 100 < 10 := by omega
  exact cons_lt_cons_iff.mpr (.inl (all ⟨n / 100, first⟩))

/-- Groups of three digits, up to the last one that is not zero. -/
def groups (high middle low : Nat) : Text :=
  if low ≠ 0 then pad3 high ++ (pad3 middle ++ pad3 low) else if middle ≠ 0 then pad3 high ++ pad3 middle else pad3 high

theorem fraction_groups {nano : Nat} (some : nano ≠ 0) :
    fraction nano = '.' :: groups (nano / 1000000) (nano / 1000 % 1000) (nano % 1000) := by
  rw [fraction, if_neg some, groups]
  by_cases low : nano % 1000 = 0
  · by_cases middle : nano / 1000 % 1000 = 0
    · have whole : nano % 1000000 = 0 := by omega
      rw [if_pos whole, if_neg (by simpa using low), if_neg (by simpa using middle)]
    · have part : nano % 1000000 ≠ 0 := by omega
      have high : nano / 1000 / 1000 = nano / 1000000 := by omega
      rw [if_neg part, if_pos low, if_neg (by simpa using low), if_pos middle, pad6, high]
  · have part : nano % 1000000 ≠ 0 := by omega
    have middle : nano % 1000000 / 1000 = nano / 1000 % 1000 := by omega
    have last : nano % 1000000 % 1000 = nano % 1000 := by omega
    rw [if_neg part, if_neg low, if_pos low, pad9, pad6, middle, last]

theorem groups_append (high middle low : Nat) (a : Text) : groups high middle low ++ '+' :: a =
    pad3 high ++ (if middle = 0 ∧ low = 0 then '+' :: a else pad3 middle ++ if low = 0 then '+' :: a else pad3 low ++ '+' :: a) := by
  rw [groups]
  by_cases low' : low = 0 <;> by_cases middle' : middle = 0 <;> simp [low', middle']

theorem fraction_lt (less : n < m) (small : m < 1000000000) (a b : Text) : fraction n ++ '+' :: a < fraction m ++ '+' :: b := by
  rw [fraction_groups (Nat.ne_zero_of_lt less)]
  by_cases zero : n = 0
  · rw [zero]
    exact cons_lt_cons_iff.mpr (.inl (by decide))
  rw [fraction_groups zero, cons_append, cons_append, groups_append, groups_append]
  refine behind_lt '.' (pad3_parts (by omega) ?_)
  by_cases high : n / 1000000 < m / 1000000
  · exact .inl high
  refine .inr ⟨by omega, ?_⟩
  have more : ¬ (m / 1000 % 1000 = 0 ∧ m % 1000 = 0) := by omega
  split_ifs with none' low low' low'
  · exact plus_lt_pad3 (by omega) a _
  · exact plus_lt_pad3 (by omega) a _
  · exact pad3_parts (by omega) (.inl (by omega))
  · by_cases middle : n / 1000 % 1000 < m / 1000 % 1000
    · exact pad3_parts (by omega) (.inl middle)
    · exact pad3_parts (by omega) (.inr ⟨by omega, plus_lt_pad3 (by omega) a _⟩)
  · exact pad3_parts (by omega) (.inl (by omega))
  · by_cases middle : n / 1000 % 1000 < m / 1000 % 1000
    · exact pad3_parts (by omega) (.inl middle)
    · exact pad3_parts (by omega) (.inr ⟨by omega, pad3_parts (by omega) (.inl (by omega))⟩)

/-! ### Times -/

/-- The times whose years have four digits. -/
def Timestamp.FourDigits (time : Timestamp) : Prop := 0 ≤ time.year ∧ time.year ≤ 9999

theorem yearText_parts {year other : Int} (low : 0 ≤ year ∧ year ≤ 9999) (low' : 0 ≤ other ∧ other ≤ 9999)
    (less : year < other ∨ year = other ∧ a < b) : yearText year ++ a < yearText other ++ b := by
  rw [yearText, yearText, if_pos low, if_pos low', append_assoc, append_assoc]
  refine pad2_parts (by omega) ?_
  by_cases high : year.toNat / 100 < other.toNat / 100
  · exact .inl high
  refine .inr ⟨by omega, pad2_parts (by omega) ?_⟩
  rcases less with less | ⟨rfl, rest⟩
  · exact .inl (by omega)
  · exact .inr ⟨rfl, rest⟩

variable {time other : Timestamp}

theorem shown_lt (less : time.second < other.second ∨ time.second = other.second ∧ time.nano < other.nano) :
    time.shown.1 < other.shown.1 ∨ time.shown.1 = other.shown.1 ∧ time.shown.2 < other.shown.2 := by
  have := time.nano_lt
  have := other.second_lt
  rw [Timestamp.shown, Timestamp.shown]
  split_ifs <;> dsimp only <;> omega

theorem shown_small (time : Timestamp) : time.shown.1 < 100 ∧ time.shown.2 < 1000000000 := by
  have := time.nano_lt
  have := time.second_lt
  rw [Timestamp.shown]
  split_ifs <;> dsimp only <;> omega

/-- The texts of times are in their order, whatever comes behind them. -/
theorem toRfc3339_lt (low : time.FourDigits) (low' : other.FourDigits) (less : time.fields < other.fields)
    (a b : Text) : toRfc3339 time ++ a < toRfc3339 other ++ b := by
  simp only [Timestamp.fields, cons_lt_cons_iff, Int.ofNat_lt, Int.ofNat_inj, lt_irrefl, and_false, or_false] at less
  have field {n m : Nat} (sep : Char) {s t : Text} (small : m < 100) (less : n < m ∨ n = m ∧ s < t) :
      pad2 n ++ sep :: s < pad2 m ++ sep :: t := pad2_parts small (less.imp id fun same => ⟨same.1, behind_lt sep same.2⟩)
  have := other.month_le
  have := other.day_le
  have := other.hour_lt
  have := other.minute_lt
  simp only [toRfc3339, append_assoc, cons_append]
  refine yearText_parts low low' (less.imp id fun rest => ⟨rest.1, behind_lt '-' ?_⟩)
  refine field '-' (by omega) (rest.2.imp id fun rest => ⟨rest.1, ?_⟩)
  refine field 'T' (by omega) (rest.2.imp id fun rest => ⟨rest.1, ?_⟩)
  refine field ':' (by omega) (rest.2.imp id fun rest => ⟨rest.1, ?_⟩)
  refine field ':' (by omega) (rest.2.imp id fun rest => ⟨rest.1, ?_⟩)
  refine pad2_parts (shown_small other).1 ((shown_lt rest.2).imp id fun rest => ⟨rest.1, ?_⟩)
  exact fraction_lt rest.2 (shown_small other).2 _ _

theorem toRfc3339_key (low : time.FourDigits) (low' : other.FourDigits) (a b : Text) :
    toRfc3339 time ++ a < toRfc3339 other ++ b ↔ time.fields < other.fields ∨ time = other ∧ a < b := by
  rcases lt_trichotomy time.fields other.fields with less | same | more
  · exact ⟨fun _ => .inl less, fun _ => toRfc3339_lt low low' less a b⟩
  · have equal : time = other := by
      cases time
      cases other
      simpa [Timestamp.fields, Int.ofNat_inj] using same
    subst equal
    constructor
    · intro less
      refine .inr ⟨rfl, ?_⟩
      by_contra back
      rcases lt_or_eq_of_le (not_lt.mp back) with reverse | rfl
      · exact lt_asymm less (append_lt_left _ reverse)
      · exact lt_irrefl _ less
    · rintro (less | ⟨-, less⟩)
      · exact absurd less (lt_irrefl _)
      · exact append_lt_left _ less
  · refine iff_of_false (lt_asymm (toRfc3339_lt low' low more b a)) ?_
    rintro (less | ⟨rfl, -⟩)
    · exact lt_asymm less more
    · exact lt_irrefl _ more

end Ramag.Timestamps
