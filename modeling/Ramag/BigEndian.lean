import Mathlib.Tactic.Linarith
import Mathlib.Tactic.Ring

/-!
Numbers in bytes, the greatest byte first, negative ones as two's complement.
-/
namespace Ramag.BigEndian

/-- The bytes as one number, the first byte the greatest. -/
def number : List UInt8 → Nat
  | [] => 0
  | b :: bytes => b.toNat * 256 ^ bytes.length + number bytes

/-- The number as two's complement, where `half` numbers are negative. -/
def signed (half n : Nat) : Int := if n < half then n else (n : Int) - 2 * half

/-- The number in `width` bytes. -/
def bigEndian (width : Nat) (n : Int) : List UInt8 :=
  match width with
  | 0 => []
  | width + 1 => (n / 256 ^ width % 256).toNat.toUInt8 :: bigEndian width n

@[simp] theorem bigEndian_length (width : Nat) (n : Int) : (bigEndian width n).length = width := by
  induction width with
  | zero => rfl
  | succ width ih => rw [bigEndian, List.length_cons, ih]

theorem number_lt (bytes : List UInt8) : number bytes < 256 ^ bytes.length := by
  induction bytes with
  | nil => exact Nat.one_pos
  | cons b bytes ih =>
    have small := b.toNat_lt
    calc b.toNat * 256 ^ bytes.length + number bytes
      _ < b.toNat * 256 ^ bytes.length + 256 ^ bytes.length := Nat.add_lt_add_left ih _
      _ = (b.toNat + 1) * 256 ^ bytes.length := by rw [Nat.succ_mul]
      _ ≤ 256 * 256 ^ bytes.length := Nat.mul_le_mul_right _ small
      _ = 256 ^ bytes.length * 256 := Nat.mul_comm _ _

theorem number_injective {bytes other : List UInt8} (length : bytes.length = other.length) (same : number bytes = number other) :
    bytes = other := by
  induction bytes generalizing other with
  | nil => exact (List.length_eq_zero_iff.mp length.symm).symm
  | cons b bytes ih =>
    obtain _ | ⟨c, other⟩ := other
    · cases length
    rw [List.length_cons, List.length_cons, Nat.add_right_cancel_iff] at length
    have bound := number_lt bytes
    have bound' := number_lt other
    have positive : 0 < 256 ^ bytes.length := Nat.pow_pos (by decide)
    rw [number, number, ← length] at same
    rw [← length] at bound'
    have first : b.toNat = c.toNat := by
      have divided := congrArg (· / 256 ^ bytes.length) same
      simpa only [Nat.mul_comm _ (256 ^ bytes.length), Nat.mul_add_div positive, Nat.div_eq_of_lt bound,
        Nat.div_eq_of_lt bound', Nat.add_zero] using divided
    rw [first] at same
    rw [UInt8.toNat_inj.mp first, ih length (Nat.add_left_cancel same)]

private theorem emod_mul (n a b : Int) (positive : 0 ≤ a) : n % (a * b) = n / a % b * a + n % a := by
  rw [Int.emod_def n (a * b), Int.emod_def (n / a) b, Int.emod_def n a, ← Int.ediv_ediv_of_nonneg positive]
  ring

/-- Bytes say the number up to what does not fit. -/
theorem number_bigEndian (width : Nat) (n : Int) : (number (bigEndian width n) : Int) = n % 256 ^ width := by
  induction width with
  | zero => simp [bigEndian, number]
  | succ width ih =>
    have low : 0 ≤ n / 256 ^ width % 256 := Int.emod_nonneg _ (by decide)
    have digit : ((n / 256 ^ width % 256).toNat.toUInt8.toNat : Int) = n / 256 ^ width % 256 := by
      rw [Nat.toUInt8_eq, UInt8.toNat_ofNat', Nat.mod_eq_of_lt (by omega), Int.toNat_of_nonneg low]
    rw [bigEndian, number, bigEndian_length, Nat.cast_add, Nat.cast_mul, digit, ih, pow_succ,
      emod_mul n (256 ^ width) 256 (by positivity)]
    rfl

/-- Bytes are read as `v` if and only if `v` is written so. -/
theorem signed_number_iff {width half : Nat} (whole : 256 ^ width = 2 * half) {bytes : List UInt8} (length : bytes.length = width)
    (v : Int) : signed half (number bytes) = v ↔ (-(half : Int) ≤ v ∧ v < half) ∧ bytes = bigEndian width v := by
  have bound := number_lt bytes
  rw [length, whole] at bound
  have modulus : (256 : Int) ^ width = 2 * half := by exact_mod_cast whole
  have written : ∀ v : Int, (number bytes : Int) = v % (2 * half) ↔ bytes = bigEndian width v := by
    intro v
    rw [← modulus, ← number_bigEndian, Nat.cast_inj]
    exact ⟨number_injective (by rw [length, bigEndian_length]), fun same => same ▸ rfl⟩
  have wrapped : ∀ v : Int, -(half : Int) ≤ v → v < 0 → v % (2 * half) = v + 2 * half := by
    intro v low negative
    rw [← Int.add_emod_right, Int.emod_eq_of_lt (by omega) (by omega)]
  unfold signed
  constructor
  · intro read
    split at read
    · refine ⟨by omega, (written v).mp ?_⟩
      rw [Int.emod_eq_of_lt (by omega) (by omega)]
      exact read
    · refine ⟨by omega, (written v).mp ?_⟩
      rw [wrapped v (by omega) (by omega)]
      omega
  · rintro ⟨⟨low, high⟩, same⟩
    have value := (written v).mpr same
    by_cases negative : v < 0
    · rw [wrapped v low negative] at value
      omega
    · rw [Int.emod_eq_of_lt (by omega) (by omega)] at value
      rw [if_pos (by omega)]
      exact value

end Ramag.BigEndian
