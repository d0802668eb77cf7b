import Mathlib.Data.Finset.Card
import Mathlib.Data.Nat.BitIndices

/-!
# Counting the bits of a number

The loop that counts the bits of a number by clearing the lowest one until none
is left, and its value: the number of bits that are set.
-/

namespace HyperDht

theorem and_sub_one_lt {n : Nat} (h : n ≠ 0) : n &&& (n - 1) < n :=
  lt_of_le_of_lt Nat.and_le_right (by omega)

/-- The loop: clear the lowest bit and count, until the number is zero. -/
def bitCount (n : Nat) : Nat := if n = 0 then 0 else bitCount (n &&& (n - 1)) + 1
termination_by n
decreasing_by exact and_sub_one_lt ‹_›

theorem bitCount_zero : bitCount 0 = 0 := by
  rw [bitCount]
  exact if_pos rfl

theorem bitCount_of_ne_zero {n : Nat} (h : n ≠ 0) : bitCount n = bitCount (n &&& (n - 1)) + 1 := by
  rw [bitCount]
  exact if_neg h

theorem and_sub_one_odd (k : Nat) : (2 * k + 1) &&& (2 * k + 1 - 1) = 2 * k := by
  apply Nat.eq_of_testBit_eq
  intro i
  rw [Nat.add_sub_cancel, Nat.testBit_and]
  cases i with
  | zero => simp
  | succ i =>
    rw [Nat.testBit_succ, Nat.testBit_succ, show (2 * k + 1) / 2 = k by omega,
      show 2 * k / 2 = k by omega, Bool.and_self]

/-- An even number loses its lowest bit where its half does. -/
theorem and_sub_one_even (k : Nat) :
    (2 * k) &&& (2 * k - 1) = 2 * (k &&& (k - 1)) := by
  apply Nat.eq_of_testBit_eq
  intro i
  rw [Nat.testBit_and]
  cases i with
  | zero => simp
  | succ i =>
    rw [Nat.testBit_succ, Nat.testBit_succ, Nat.testBit_succ, show 2 * k / 2 = k by omega,
      show (2 * k - 1) / 2 = k - 1 by omega, show 2 * (k &&& (k - 1)) / 2 = k &&& (k - 1) by omega,
      Nat.testBit_and]

theorem bitCount_two_mul (k : Nat) : bitCount (2 * k) = bitCount k := by
  induction k using Nat.strong_induction_on with
  | _ k ih =>
    by_cases h : k = 0
    · rw [h]
    · rw [bitCount_of_ne_zero (by omega), and_sub_one_even, ih _ (and_sub_one_lt h),
        ← bitCount_of_ne_zero h]

theorem bitCount_two_mul_add_one (k : Nat) : bitCount (2 * k + 1) = bitCount k + 1 := by
  rw [bitCount_of_ne_zero (by omega), and_sub_one_odd, bitCount_two_mul]

theorem bitCount_eq_length (n : Nat) : bitCount n = n.bitIndices.length := by
  induction n using Nat.strong_induction_on with
  | _ n ih =>
    obtain ⟨k, rfl | rfl⟩ : ∃ k, n = 2 * k ∨ n = 2 * k + 1 := ⟨n / 2, by omega⟩
    · by_cases h : k = 0
      · subst h
        rw [Nat.mul_zero, bitCount_zero, Nat.bitIndices_zero, List.length_nil]
      · rw [bitCount_two_mul, ih k (by omega), Nat.bitIndices_two_mul, List.length_map]
    · rw [bitCount_two_mul_add_one, ih k (by omega), Nat.bitIndices_two_mul_add_one,
        List.length_cons, List.length_map]

/-- The number of bits of a number whose bits stand for the elements of a set. -/
theorem bitCount_eq_card {n : Nat} {s : Finset Nat} (index : Nat → Nat)
    (hinj : ∀ a ∈ s, ∀ b ∈ s, index a = index b → a = b)
    (hbits : ∀ i, n.testBit i = true ↔ ∃ a ∈ s, index a = i) : bitCount n = s.card := by
  have hset : n.bitIndices.toFinset = s.image index := by
    ext i
    rw [List.mem_toFinset, Nat.mem_bitIndices, hbits, Finset.mem_image]
  rw [bitCount_eq_length, ← List.toFinset_card_of_nodup Nat.bitIndices_nodup, hset,
    Finset.card_image_of_injOn fun a ha b hb => hinj a ha b hb]

end HyperDht
