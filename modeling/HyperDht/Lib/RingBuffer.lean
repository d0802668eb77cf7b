import Mathlib.Data.List.Basic
import Mathlib.Tactic.Common

/-!
# Ring buffers

A queue in an array of fixed size: the entries stand in consecutive slots from
the head, around the end of the array, and a slot that is not in use is empty.
`Holds` says which list the buffer holds, oldest entry first.
-/

namespace HyperDht

structure RingBuffer (α : Type) where
  slots : List (Option α)
  head : Nat
  length : Nat

namespace RingBuffer

variable {α : Type}

def empty (n : Nat) : RingBuffer α := ⟨List.replicate n none, 0, 0⟩

def push (n : Nat) (r : RingBuffer α) (x : α) : RingBuffer α :=
  { r with slots := r.slots.set ((r.head + r.length) % n) (some x), length := r.length + 1 }

def peek (r : RingBuffer α) : Option α := (r.slots[r.head]?).join

def pop (n : Nat) (r : RingBuffer α) : RingBuffer α :=
  ⟨r.slots.set r.head none, (r.head + 1) % n, r.length - 1⟩

/-- The place of slot `i`, counted from the head. -/
def place (n head i : Nat) : Nat := if head ≤ i then i - head else i + n - head

/-- The buffer of `n` slots holds the list: a slot has the entry of its place, if there is one. -/
structure Holds (n : Nat) (r : RingBuffer α) (xs : List α) : Prop where
  size : r.slots.length = n
  head : r.head < n
  length : r.length = xs.length
  fits : xs.length ≤ n
  slot : ∀ i < n, r.slots[i]? = some xs[place n r.head i]?

theorem mod_of_lt_two {n a : Nat} (h : a < 2 * n) : a % n = if a < n then a else a - n := by
  split
  · next hlt => exact Nat.mod_eq_of_lt hlt
  · next hge =>
    rw [Nat.mod_eq_sub_mod (by omega)]
    exact Nat.mod_eq_of_lt (by omega)

theorem place_eq_iff {n head len i : Nat} (hh : head < n) (hl : len < n) (hi : i < n) :
    place n head i = len ↔ i = (head + len) % n := by
  rw [mod_of_lt_two (by omega)]
  unfold place
  split <;> split <;> omega

theorem holds_empty {n : Nat} (h : 0 < n) : Holds n (empty n) ([] : List α) where
  size := List.length_replicate
  head := h
  length := rfl
  fits := Nat.zero_le n
  slot := fun i hi => by
    show (List.replicate n none)[i]? = some none
    rw [List.getElem?_replicate, if_pos hi]

theorem Holds.push {n : Nat} {r : RingBuffer α} {xs : List α} (h : Holds n r xs) (x : α)
    (hroom : xs.length < n) : Holds n (r.push n x) (xs ++ [x]) := by
  have hlen := h.length
  refine ⟨(List.length_set ..).trans h.size, h.head, ?_, ?_, fun i hi => ?_⟩
  · show r.length + 1 = _
    rw [List.length_append, List.length_singleton, hlen]
  · rw [List.length_append, List.length_singleton]
    omega
  · show (r.slots.set ((r.head + r.length) % n) (some x))[i]? = some (xs ++ [x])[place n r.head i]?
    have hplace : place n r.head i = xs.length ↔ i = (r.head + xs.length) % n :=
      place_eq_iff h.head hroom hi
    rw [List.getElem?_set, hlen, h.size]
    by_cases hat : place n r.head i = xs.length
    · rw [if_pos (hplace.mp hat).symm, if_pos (Nat.mod_lt _ (by omega)), hat,
        List.getElem?_concat_length]
    · rw [if_neg fun he => hat (hplace.mpr he.symm), h.slot i hi]
      congr 1
      rcases Nat.lt_or_gt_of_ne hat with hlt | hgt
      · rw [List.getElem?_append_left hlt]
      · rw [List.getElem?_eq_none (by omega), List.getElem?_eq_none (by simp; omega)]

theorem Holds.peek {n : Nat} {r : RingBuffer α} {xs : List α} (h : Holds n r xs) :
    r.peek = xs.head? := by
  unfold RingBuffer.peek
  rw [h.slot r.head h.head, Option.join_some]
  unfold place
  rw [if_pos (Nat.le_refl _), Nat.sub_self, List.head?_eq_getElem?]

theorem Holds.pop {n : Nat} {r : RingBuffer α} {x : α} {xs : List α} (h : Holds n r (x :: xs)) :
    Holds n (r.pop n) xs := by
  have hlen := h.length
  have hfits := h.fits
  have hhead := h.head
  rw [List.length_cons] at hlen hfits
  have hnext : (r.head + 1) % n = if r.head + 1 < n then r.head + 1 else r.head + 1 - n :=
    mod_of_lt_two (by omega)
  refine ⟨(List.length_set ..).trans h.size, Nat.mod_lt _ (by omega), ?_, by omega, fun i hi => ?_⟩
  · show r.length - 1 = _
    omega
  · show (r.slots.set r.head none)[i]? = some xs[place n ((r.head + 1) % n) i]?
    rw [List.getElem?_set, h.size, hnext]
    by_cases hat : r.head = i
    · -- the slot that was the head is the last one now
      subst hat
      have hlast : xs.length ≤ place n (if r.head + 1 < n then r.head + 1 else r.head + 1 - n) r.head := by
        unfold place
        split <;> split <;> omega
      rw [if_pos rfl, if_pos hhead, List.getElem?_eq_none hlast]
    · have hplace : place n r.head i =
          place n (if r.head + 1 < n then r.head + 1 else r.head + 1 - n) i + 1 := by
        unfold place
        split <;> split <;> split <;> omega
      rw [if_neg hat, h.slot i hi, hplace, List.getElem?_cons_succ]

/-- Entry `k` stands `k` slots from the head. -/
theorem Holds.slot_of_place {n : Nat} {r : RingBuffer α} {xs : List α} (h : Holds n r xs) {k : Nat}
    (hk : k < xs.length) : r.slots[(r.head + k) % n]? = some xs[k]? := by
  have hkn := Nat.lt_of_lt_of_le hk h.fits
  have hi : (r.head + k) % n < n := Nat.mod_lt _ (by omega)
  rw [h.slot _ hi, (place_eq_iff h.head hkn hi).mpr rfl]

/-- The slots in use are the next `length` ones from the head. -/
theorem Holds.used_iff {n : Nat} {r : RingBuffer α} {xs : List α} (h : Holds n r xs) {i : Nat} :
    (∃ x, r.slots[i]? = some (some x)) ↔ ∃ k < r.length, i = (r.head + k) % n := by
  constructor
  · rintro ⟨x, hx⟩
    have hi : i < n := h.size ▸ (List.getElem?_eq_some_iff.mp hx).1
    rw [h.slot i hi] at hx
    have hlt := (List.getElem?_eq_some_iff.mp (Option.some.inj hx)).1
    exact ⟨place n r.head i, h.length ▸ hlt,
      (place_eq_iff h.head (Nat.lt_of_lt_of_le hlt h.fits) hi).mp rfl⟩
  · rintro ⟨k, hk, rfl⟩
    rw [h.length] at hk
    exact ⟨xs[k], (h.slot_of_place hk).trans (congrArg some (List.getElem?_eq_getElem hk))⟩

end RingBuffer

end HyperDht
