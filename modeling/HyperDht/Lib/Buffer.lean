import Mathlib.Data.List.Basic
import Mathlib.Tactic.Common

/-!
# Writing into a buffer of fixed size

A buffer is a list whose length does not change. What is written from left to
right stands before the part not written yet: the `_next` lemmas take one write
at the end of what stands already.
-/

namespace HyperDht

variable {α : Type}

/-- Copy `source` into `target` at an offset; `none` where it does not fit. -/
def setBytes (target source : List α) (offset : Nat) : Option (List α) :=
  if offset + source.length ≤ target.length then
    some (target.take offset ++ source ++ target.drop (offset + source.length))
  else none

/-- The loop `for (i = 0; i < n; i++) target[dst + i] = source[src + i]`. -/
def copyLoop [Inhabited α] (source : List α) (dst src : Nat) : Nat → List α → List α
  | 0, target => target
  | n + 1, target => (copyLoop source dst src n target).set (dst + n) (source.getD (src + n) default)

theorem set_next (w : List α) (x v : α) (r : List α) :
    (w ++ x :: r).set w.length v = (w ++ [v]) ++ r := by
  rw [List.set_append_right _ _ (Nat.le_refl _), Nat.sub_self, List.set_cons_zero, List.append_assoc]
  rfl

theorem setBytes_next {w r s : List α} {i : Nat} (hw : i = w.length) (h : s.length ≤ r.length) :
    setBytes (w ++ r) s i = some ((w ++ s) ++ r.drop s.length) := by
  subst hw
  unfold setBytes
  rw [if_pos (by rw [List.length_append]; omega), List.take_left, List.drop_length_add_append]

theorem setBytes_start {r s : List α} (h : s.length ≤ r.length) :
    setBytes r s 0 = some (s ++ r.drop s.length) :=
  setBytes_next (w := []) rfl h

/-- A source as long as the target replaces it. -/
theorem setBytes_all {target source : List α} (h : source.length = target.length) :
    setBytes target source 0 = some source := by
  unfold setBytes
  rw [if_pos (by omega), List.take_zero, List.nil_append, Nat.zero_add, h, List.drop_length,
    List.append_nil]

variable [Inhabited α]

theorem copyLoop_next {x : List α} {k n i : Nat} {w r : List α} (hw : i = w.length)
    (hr : n ≤ r.length) (hs : k + n ≤ x.length) :
    copyLoop x i k n (w ++ r) = (w ++ (x.drop k).take n) ++ r.drop n := by
  subst hw
  induction n with
  | zero => simp [copyLoop]
  | succ n ih =>
    rw [copyLoop, ih (by omega) (by omega)]
    have hlen : ((x.drop k).take n).length = n := by
      rw [List.length_take, List.length_drop]
      omega
    obtain ⟨y, rest, hy⟩ : ∃ y rest, r.drop n = y :: rest :=
      List.exists_cons_of_length_pos (by rw [List.length_drop]; omega)
    have hdrop : r.drop (n + 1) = rest := by
      rw [← List.drop_drop, hy]
      rfl
    have htake : (x.drop k).take (n + 1) =
        (x.drop k).take n ++ [x.getD (k + n) default] := by
      rw [List.take_add_one, List.getElem?_drop, List.getD_eq_getElem?_getD,
        List.getElem?_eq_getElem (by omega)]
      rfl
    have hat : w.length + n = (w ++ (x.drop k).take n).length := by
      rw [List.length_append, hlen]
    rw [hy, hat, set_next, hdrop, htake, List.append_assoc w]

end HyperDht
