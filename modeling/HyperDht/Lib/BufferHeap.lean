import Mathlib.Data.List.Basic
import Mathlib.Tactic.Common

/-!
# Buffers by number

Buffers that can be written and cleared after they were handed on. A buffer is the
number of its allocation. `Leaves` says that a step writes to no buffer but the
ones named.
-/

namespace HyperDht

namespace BufferHeap

variable {α : Type}

/-- The content of a buffer. -/
def load (h : List (List α)) (i : Nat) : List α := (h[i]?).getD []

/-- `buffer.fill(0)`. -/
def clear [Inhabited α] (h : List (List α)) (i : Nat) : List (List α) :=
  h.modify i fun b => List.replicate b.length default

/-- `source.copy(target, offset, …)`, for bytes that fit. -/
def copyInto (h : List (List α)) (target offset : Nat) (bytes : List α) : List (List α) :=
  h.modify target fun b => b.take offset ++ bytes ++ b.drop (offset + bytes.length)

/-- From `h` to `h'` buffers are added, and none is written but those in `touched`. -/
structure Leaves (touched : List Nat) (h h' : List (List α)) : Prop where
  grows : h.length ≤ h'.length
  same : ∀ i < h.length, i ∉ touched → load h' i = load h i

theorem Leaves.refl (touched : List Nat) (h : List (List α)) : Leaves touched h h :=
  ⟨Nat.le_refl _, fun _ _ _ => rfl⟩

theorem Leaves.trans {touched : List Nat} {h h' h'' : List (List α)} (a : Leaves touched h h')
    (b : Leaves touched h' h'') : Leaves touched h h'' :=
  ⟨Nat.le_trans a.grows b.grows, fun i hi ht =>
    (b.same i (Nat.lt_of_lt_of_le hi a.grows) ht).trans (a.same i hi ht)⟩

theorem Leaves.mono {touched touched' : List Nat} {h h' : List (List α)} (a : Leaves touched h h')
    (hsub : touched ⊆ touched') : Leaves touched' h h' :=
  ⟨a.grows, fun i hi ht => a.same i hi fun hm => ht (hsub hm)⟩

theorem Leaves.trans_new {touched touched' : List Nat} {h h' h'' : List (List α)}
    (a : Leaves touched h h') (b : Leaves touched' h' h'')
    (hsub : ∀ i ∈ touched', i ∈ touched ∨ h.length ≤ i) : Leaves touched h h'' := by
  refine ⟨Nat.le_trans a.grows b.grows, fun i hi ht => ?_⟩
  have ht' : i ∉ touched' := fun hm => (hsub i hm).elim ht (Nat.not_le_of_lt hi)
  exact (b.same i (Nat.lt_of_lt_of_le hi a.grows) ht').trans (a.same i hi ht)

theorem Leaves.load_eq {touched : List Nat} {h h' : List (List α)} (a : Leaves touched h h') {i : Nat}
    (hi : i < h.length) (ht : i ∉ touched) : load h' i = load h i := a.same i hi ht

theorem load_modify_self {h : List (List α)} {i : Nat} (f : List α → List α) (hi : i < h.length) :
    load (h.modify i f) i = f (load h i) := by
  unfold load
  rw [List.getElem?_modify_eq, List.getElem?_eq_getElem hi]
  rfl

theorem leaves_modify (h : List (List α)) (i : Nat) (f : List α → List α) :
    Leaves [i] h (h.modify i f) := by
  refine ⟨Nat.le_of_eq (List.length_modify ..).symm, fun j _ hj => ?_⟩
  unfold load
  have hne : i ≠ j := fun e => hj (List.mem_singleton.mpr e.symm)
  rw [List.getElem?_modify]
  simp [hne]

theorem leaves_alloc (h : List (List α)) (b : List α) : Leaves [] h (h ++ [b]) := by
  refine ⟨by rw [List.length_append]; omega, fun i hi _ => ?_⟩
  unfold load
  rw [List.getElem?_append_left hi]

theorem load_alloc (h : List (List α)) (b : List α) : load (h ++ [b]) h.length = b := by
  unfold load
  rw [List.getElem?_concat_length]
  rfl

/-- A copy to the place where the earlier bytes end. -/
theorem take_copyInto {h : List (List α)} {target offset : Nat} {bytes : List α}
    (ht : target < h.length) (hfit : offset + bytes.length ≤ (load h target).length) :
    (load (copyInto h target offset bytes) target).take (offset + bytes.length) =
      (load h target).take offset ++ bytes := by
  unfold copyInto
  rw [load_modify_self _ ht]
  have hlen : ((load h target).take offset ++ bytes).length = offset + bytes.length := by
    rw [List.length_append, List.length_take]
    omega
  rw [← hlen, List.take_left]

theorem length_copyInto {h : List (List α)} {target offset : Nat} {bytes : List α}
    (ht : target < h.length) (hfit : offset + bytes.length ≤ (load h target).length) :
    (load (copyInto h target offset bytes) target).length = (load h target).length := by
  unfold copyInto
  rw [load_modify_self _ ht]
  simp only [List.length_append, List.length_take, List.length_drop]
  omega

end BufferHeap

end HyperDht
