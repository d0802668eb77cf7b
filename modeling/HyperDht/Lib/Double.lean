import Mathlib.Data.Nat.Log
import Mathlib.Tactic.Ring

/-!
# Integers in double precision

A `Double` is a non-negative integer that a double-precision number can hold; an operation
gives the exact result rounded to 53 bits, a tie to the even side. Nothing is rounded up to
`2 ^ 53`. A computation that only adds and multiplies by positive numbers is therefore exact
wherever its result is below that (`Near`), whatever it met on the way. Infinity, which
starts near `2 ^ 1024`, is left out.
-/

namespace HyperDht

/-! ## Rounding -/

/-- The unit in the last place of a number from `2 ^ 52` on. -/
def lastPlace (n : Nat) : Nat := 2 ^ (n.log2 - 52)

def roundDouble (n : Nat) : Nat :=
  if n < 2 ^ 53 then n
  else
    let q := n / lastPlace n
    let r := n % lastPlace n
    if 2 * r < lastPlace n ∨ 2 * r = lastPlace n ∧ q % 2 = 0 then q * lastPlace n
    else (q + 1) * lastPlace n

theorem roundDouble_of_lt {n : Nat} (h : n < 2 ^ 53) : roundDouble n = n := if_pos h

/-- A multiple of its last place needs no rounding. -/
theorem roundDouble_of_dvd {n : Nat} (h : lastPlace n ∣ n) : roundDouble n = n := by
  have hpos : 0 < lastPlace n := Nat.two_pow_pos _
  unfold roundDouble
  split
  · rfl
  · dsimp only
    rw [Nat.mod_eq_zero_of_dvd h, if_pos (.inl (by omega)), Nat.div_mul_cancel h]

theorem roundDouble_of_le {n : Nat} (h : n ≤ 2 ^ 53) : roundDouble n = n := by
  rcases Nat.lt_or_eq_of_le h with h | rfl
  · exact roundDouble_of_lt h
  · exact roundDouble_of_dvd (by decide)

/-- The digits of a number from `2 ^ 53` on. -/
theorem digits_bounds {n : Nat} (h : 2 ^ 53 ≤ n) :
    2 ^ 52 ≤ n / lastPlace n ∧ n / lastPlace n < 2 ^ 53 := by
  have hne : n ≠ 0 := by omega
  have hlog : 53 ≤ n.log2 := (Nat.le_log2 hne).mpr h
  have hsplit : n.log2 = n.log2 - 52 + 52 := by omega
  have hlow := Nat.log2_self_le hne
  have hhigh := Nat.lt_log2_self (n := n)
  unfold lastPlace
  rw [hsplit] at hlow hhigh
  constructor
  · rw [Nat.le_div_iff_mul_le (Nat.two_pow_pos _), ← Nat.pow_add, Nat.add_comm 52]
    exact hlow
  · rw [Nat.div_lt_iff_lt_mul (Nat.two_pow_pos _), ← Nat.pow_add]
    have hexp : n.log2 - 52 + 52 + 1 = 53 + (n.log2 - 52) := by omega
    rw [← hexp]
    exact hhigh

/-- A rounded number has 53 digits from `2 ^ 53` on. -/
theorem roundDouble_digits {n : Nat} (h : 2 ^ 53 ≤ n) :
    ∃ q, roundDouble n = q * lastPlace n ∧ 2 ^ 52 ≤ q ∧ q ≤ 2 ^ 53 := by
  obtain ⟨hlow, hhigh⟩ := digits_bounds h
  unfold roundDouble
  rw [if_neg (by omega)]
  dsimp only
  split
  · exact ⟨_, rfl, hlow, hhigh.le⟩
  · exact ⟨_, rfl, by omega, hhigh⟩

theorem le_roundDouble {n : Nat} (h : 2 ^ 53 ≤ n) : 2 ^ 53 ≤ roundDouble n := by
  obtain ⟨q, hq, hlow, -⟩ := roundDouble_digits h
  have hlog : 53 ≤ n.log2 := (Nat.le_log2 (by omega)).mpr h
  have htwo : 2 ≤ lastPlace n := by
    unfold lastPlace
    calc 2 = 2 ^ 1 := rfl
      _ ≤ 2 ^ (n.log2 - 52) := Nat.pow_le_pow_right (by decide) (by omega)
  rw [hq]
  calc 2 ^ 53 = 2 ^ 52 * 2 := by decide
    _ ≤ q * lastPlace n := Nat.mul_le_mul hlow htwo

theorem roundDouble_le {n k : Nat} (hk : 53 ≤ k) (h : n < 2 ^ k) : roundDouble n ≤ 2 ^ k := by
  rcases Nat.lt_or_ge n (2 ^ 53) with hn | hn
  · exact (roundDouble_of_lt hn).trans_le h.le
  · obtain ⟨q, hq, -, hhigh⟩ := roundDouble_digits hn
    have hlog : n.log2 < k := (Nat.log2_lt (by omega)).mpr h
    rw [hq]
    calc q * lastPlace n ≤ 2 ^ 53 * 2 ^ (k - 53) :=
          Nat.mul_le_mul hhigh (Nat.pow_le_pow_right (by decide) (by omega))
      _ = 2 ^ k := by rw [← Nat.pow_add, Nat.add_sub_cancel' hk]

theorem log2_digits {q e : Nat} (hlow : 2 ^ 52 ≤ q) (hhigh : q < 2 ^ 53) :
    (q * 2 ^ e).log2 = e + 52 := by
  have hne : q * 2 ^ e ≠ 0 := by
    have hpos := Nat.two_pow_pos e
    exact Nat.mul_ne_zero (by omega) (by omega)
  refine (Nat.log2_eq_iff hne).mpr ⟨?_, ?_⟩
  · rw [Nat.add_comm, Nat.pow_add]
    exact Nat.mul_le_mul_right _ hlow
  · rw [show e + 52 + 1 = 53 + e by omega, Nat.pow_add]
    exact Nat.mul_lt_mul_of_pos_right hhigh (Nat.two_pow_pos e)

/-- The last digits of a number may be zeros. -/
theorem roundDouble_mul_two_pow {q e : Nat} (h : q < 2 ^ 53) : roundDouble (q * 2 ^ e) = q * 2 ^ e := by
  by_cases hq : q = 0
  · rw [hq, Nat.zero_mul]
    rfl
  · apply roundDouble_of_dvd
    have hne : q * 2 ^ e ≠ 0 := Nat.mul_ne_zero hq (Nat.two_pow_pos e).ne'
    have hlog : (q * 2 ^ e).log2 < 53 + e := by
      rw [Nat.log2_lt hne, Nat.pow_add]
      exact Nat.mul_lt_mul_of_pos_right h (Nat.two_pow_pos e)
    exact (Nat.pow_dvd_pow 2 (by omega)).trans (Nat.dvd_mul_left _ q)

theorem roundDouble_roundDouble (n : Nat) : roundDouble (roundDouble n) = roundDouble n := by
  by_cases h : n < 2 ^ 53
  · rw [roundDouble_of_lt h, roundDouble_of_lt h]
  · obtain ⟨q, hq, hlow, hhigh⟩ := roundDouble_digits (Nat.le_of_not_lt h)
    apply roundDouble_of_dvd
    rw [hq]
    unfold lastPlace
    generalize n.log2 - 52 = e
    rcases Nat.lt_or_eq_of_le hhigh with hhigh | rfl
    · rw [log2_digits hlow hhigh, Nat.add_sub_cancel]
      exact Nat.dvd_mul_left _ _
    · -- the digits carry into the next power of two
      rw [← Nat.pow_add, Nat.log2_two_pow]
      exact Nat.pow_dvd_pow 2 (by omega)

/-! ## Numbers -/

/-- A non-negative integer in double precision. -/
structure Double where
  val : Nat
  rounded : roundDouble val = val
deriving DecidableEq

namespace Double

def ofNat (n : Nat) : Double := ⟨roundDouble n, roundDouble_roundDouble n⟩

instance (n : Nat) : OfNat Double n := ⟨ofNat n⟩
instance : Add Double := ⟨fun x y => ofNat (x.val + y.val)⟩
instance : Mul Double := ⟨fun x y => ofNat (x.val * y.val)⟩
/-- The difference of a number and one that is not greater. -/
instance : Sub Double := ⟨fun x y => ofNat (x.val - y.val)⟩
instance : LE Double := ⟨fun x y => x.val ≤ y.val⟩
instance : LT Double := ⟨fun x y => x.val < y.val⟩
instance : DecidableLE Double := fun x y => inferInstanceAs (Decidable (x.val ≤ y.val))
instance : DecidableLT Double := fun x y => inferInstanceAs (Decidable (x.val < y.val))

theorem ext_val {x y : Double} (h : x.val = y.val) : x = y := by
  cases x
  cases y
  congr

theorem lt_def {x y : Double} : x < y ↔ x.val < y.val := Iff.rfl

theorem not_lt {x y : Double} : ¬x < y ↔ y ≤ x := Nat.not_lt

theorem not_le {x y : Double} : ¬x ≤ y ↔ y < x := Nat.not_le

/-- `Math.min`. -/
instance : Min Double := ⟨fun x y => if x ≤ y then x else y⟩

theorem val_ofNat {n : Nat} (h : n ≤ 2 ^ 53) : (ofNat n).val = n := roundDouble_of_le h

theorem val_literal {n : Nat} (h : n ≤ 2 ^ 53) : (OfNat.ofNat n : Double).val = n := val_ofNat h

theorem ofNat_val (x : Double) : ofNat x.val = x := ext_val x.rounded

/-- Two halves are put together and rounded once. -/
theorem ofNat_halves {low high : Nat} (hlow : low < 2 ^ 32) (hhigh : high < 2 ^ 32) :
    ofNat low + 0x100000000 * ofNat high = ofNat (low + 2 ^ 32 * high) := by
  have hmul : (0x100000000 * ofNat high : Double).val = 2 ^ 32 * high := by
    show roundDouble ((OfNat.ofNat 0x100000000 : Double).val * (ofNat high).val) = _
    rw [val_literal (by decide), val_ofNat (n := high) (by omega), Nat.mul_comm, Nat.mul_comm (2 ^ 32)]
    exact roundDouble_mul_two_pow (q := high) (e := 32) (by omega)
  show ofNat ((ofNat low).val + (0x100000000 * ofNat high : Double).val) = _
  rw [hmul, val_ofNat (n := low) (by omega)]

theorem val_min (x y : Double) : (min x y).val = min x.val y.val := by
  show (if x ≤ y then x else y).val = if x.val ≤ y.val then x.val else y.val
  by_cases h : x.val ≤ y.val
  · rw [if_pos h, if_pos (show x ≤ y from h)]
  · rw [if_neg h, if_neg (show ¬x ≤ y from h)]

/-- `x` is the number `n`, or both are too large to tell. -/
def Near (x : Double) (n : Nat) : Prop := x.val = n ∨ 2 ^ 53 ≤ x.val ∧ 2 ^ 53 ≤ n

theorem near_ofNat (n : Nat) : Near (ofNat n) n := by
  rcases Nat.le_total n (2 ^ 53) with h | h
  · exact .inl (val_ofNat h)
  · exact .inr ⟨le_roundDouble h, h⟩

theorem near_literal (n : Nat) : Near (OfNat.ofNat n) n := near_ofNat n

variable {x y : Double} {m n : Nat}

theorem Near.add (hx : Near x m) (hy : Near y n) : Near (x + y) (m + n) := by
  show Near (ofNat (x.val + y.val)) (m + n)
  rcases hx with hx | ⟨hx, hm⟩
  · rcases hy with hy | ⟨hy, hn⟩
    · rw [hx, hy]
      exact near_ofNat _
    · exact .inr ⟨le_roundDouble (by omega), by omega⟩
  · exact .inr ⟨le_roundDouble (by omega), by omega⟩

theorem Near.mul (hx : Near x m) {c : Nat} (hc : 0 < c ∧ c ≤ 2 ^ 53) :
    Near (OfNat.ofNat c * x) (c * m) := by
  show Near (ofNat ((ofNat c).val * x.val)) (c * m)
  rw [val_ofNat hc.2]
  rcases hx with hx | ⟨hx, hm⟩
  · rw [hx]
    exact near_ofNat _
  · exact .inr ⟨le_roundDouble (hx.trans (Nat.le_mul_of_pos_left _ hc.1)),
      hm.trans (Nat.le_mul_of_pos_left _ hc.1)⟩

/-- A difference of two numbers that are exact. -/
theorem near_sub (hx : x.val = m) (hy : y.val = n) : Near (x - y) (m - n) := by
  show Near (ofNat (x.val - y.val)) (m - n)
  rw [hx, hy]
  exact near_ofNat _

/-- A comparison with a bound below `2 ^ 53` is exact. -/
theorem Near.lt_iff (hx : Near x m) {b : Nat} (hb : b < 2 ^ 53) : ofNat b < x ↔ b < m := by
  show (ofNat b).val < x.val ↔ b < m
  rw [val_ofNat hb.le]
  rcases hx with hx | ⟨hx, hm⟩
  · rw [hx]
  · exact ⟨fun _ => hb.trans_le hm, fun _ => hb.trans_le hx⟩

theorem Near.val (hx : Near x m) (hm : m < 2 ^ 53) : x.val = m := by
  rcases hx with hx | ⟨-, hle⟩
  · exact hx
  · omega

end Double

end HyperDht
