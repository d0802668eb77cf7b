import Mathlib.Algebra.Order.Ring.Nat
import Mathlib.Data.List.Basic
import Mathlib.Tactic.Common

/-!
# Forests of numbered nodes

A forest whose nodes are numbered in the order they are made: a node's parent
has a smaller number (`Rooted`). `lineage` is a node with all nodes above it.
-/

namespace HyperDht

/-- Every parent is older than its child. -/
def Rooted (parent : Nat → Option Nat) : Prop := ∀ c p, parent c = some p → p < c

/-- A node and the nodes above it, from the node up. -/
def lineage (parent : Nat → Option Nat) (x : Nat) : List Nat :=
  x :: match parent x with
    | none => []
    | some p => if p < x then lineage parent p else []
termination_by x

section

variable {parent : Nat → Option Nat}

theorem mem_lineage_self (parent : Nat → Option Nat) (x : Nat) : x ∈ lineage parent x := by
  rw [lineage]
  exact List.mem_cons_self

theorem lineage_of_none {x : Nat} (h : parent x = none) : lineage parent x = [x] := by
  rw [lineage, h]

theorem lineage_of_some (hr : Rooted parent) {x p : Nat} (h : parent x = some p) :
    lineage parent x = x :: lineage parent p := by
  rw [lineage, h]
  dsimp only
  rw [if_pos (hr x p h)]

theorem mem_lineage_iff (hr : Rooted parent) {x y : Nat} :
    y ∈ lineage parent x ↔ y = x ∨ ∃ p, parent x = some p ∧ y ∈ lineage parent p := by
  cases h : parent x with
  | none => simp [lineage_of_none h]
  | some p => simp [lineage_of_some hr h]

theorem mem_lineage_parent (hr : Rooted parent) {x p y : Nat} (h : parent x = some p)
    (hy : y ∈ lineage parent p) : y ∈ lineage parent x :=
  (mem_lineage_iff hr).mpr (.inr ⟨p, h, hy⟩)

theorem le_of_mem_lineage (hr : Rooted parent) {x y : Nat} (h : y ∈ lineage parent x) : y ≤ x := by
  induction x using Nat.strongRecOn with
  | ind x ih =>
    rcases (mem_lineage_iff hr).mp h with rfl | ⟨p, hp, hy⟩
    · exact le_rfl
    · exact (ih p (hr x p hp) hy).trans (hr x p hp).le

theorem lineage_trans (hr : Rooted parent) {x y z : Nat} (hy : y ∈ lineage parent x)
    (hz : z ∈ lineage parent y) : z ∈ lineage parent x := by
  induction x using Nat.strongRecOn with
  | ind x ih =>
    rcases (mem_lineage_iff hr).mp hy with rfl | ⟨p, hp, hy'⟩
    · exact hz
    · exact mem_lineage_parent hr hp (ih p (hr x p hp) hy')

/-- Below a node a node is the node itself or below one of its children. -/
theorem exists_child_of_mem_lineage (hr : Rooted parent) {x y : Nat} (h : y ∈ lineage parent x)
    (hne : x ≠ y) : ∃ c, parent c = some y ∧ c ∈ lineage parent x := by
  induction x using Nat.strongRecOn with
  | ind x ih =>
    rcases (mem_lineage_iff hr).mp h with rfl | ⟨p, hp, hy⟩
    · exact absurd rfl hne
    · by_cases he : p = y
      · subst he
        exact ⟨x, hp, mem_lineage_self parent x⟩
      · obtain ⟨c, hc, hmem⟩ := ih p (hr x p hp) hy he
        exact ⟨c, hc, mem_lineage_parent hr hp hmem⟩

/-- A node above another one that is not itself is above its parent. -/
theorem mem_lineage_of_ne (hr : Rooted parent) {x y p : Nat} (h : y ∈ lineage parent x) (hne : y ≠ x)
    (hp : parent x = some p) : y ∈ lineage parent p := by
  rcases (mem_lineage_iff hr).mp h with rfl | ⟨p', hp', hy⟩
  · exact absurd rfl hne
  · obtain rfl := Option.some.inj (hp.symm.trans hp')
    exact hy

/-- A node is below one child of a node only. -/
theorem child_unique (hr : Rooted parent) {x y c c' : Nat} (hc : parent c = some y)
    (hc' : parent c' = some y) (h : c ∈ lineage parent x) (h' : c' ∈ lineage parent x) : c = c' := by
  induction x using Nat.strongRecOn with
  | ind x ih =>
    by_cases he : c = x
    · subst he
      by_contra hne
      have := le_of_mem_lineage hr (mem_lineage_of_ne hr h' (Ne.symm hne) hc)
      have := hr c' y hc'
      omega
    · by_cases he' : c' = x
      · subst he'
        have := le_of_mem_lineage hr (mem_lineage_of_ne hr h he hc')
        have := hr c y hc
        omega
      · obtain hx | ⟨p, hp, hcp⟩ := (mem_lineage_iff hr).mp h
        · exact absurd hx he
        · exact ih p (hr x p hp) hcp (mem_lineage_of_ne hr h' he' hp)

/-- A node is below one root only. -/
theorem root_unique (hr : Rooted parent) {x y y' : Nat} (hy : parent y = none) (hy' : parent y' = none)
    (h : y ∈ lineage parent x) (h' : y' ∈ lineage parent x) : y = y' := by
  induction x using Nat.strongRecOn with
  | ind x ih =>
    cases hp : parent x with
    | none =>
      rw [lineage_of_none hp, List.mem_singleton] at h h'
      exact h.trans h'.symm
    | some p =>
      have hne : ∀ {z : Nat}, parent z = none → z ≠ x := by
        rintro z hz rfl
        rw [hz] at hp
        cases hp
      exact ih p (hr x p hp) (mem_lineage_of_ne hr h (hne hy) hp)
        (mem_lineage_of_ne hr h' (hne hy') hp)

/-- The nodes above a node depend only on the parents of the nodes up to it. -/
theorem lineage_congr {parent' : Nat → Option Nat} (hr : Rooted parent) {x : Nat}
    (h : ∀ y ≤ x, parent' y = parent y) : lineage parent' x = lineage parent x := by
  induction x using Nat.strongRecOn with
  | ind x ih =>
    have hx := h x le_rfl
    cases hp : parent x with
    | none =>
      rw [lineage_of_none hp, lineage_of_none (hx.trans hp)]
    | some p =>
      have hlt := hr x p hp
      rw [lineage_of_some hr hp, lineage, hx, hp]
      dsimp only
      rw [if_pos hlt, ih p hlt fun y hy => h y (hy.trans hlt.le)]

end

end HyperDht
