import Mathlib.Algebra.BigOperators.Group.List.Basic
import Mathlib.Algebra.Order.Ring.Int
import Mathlib.Tactic.Common

/-!
# Credit windows between two ends

Two ends exchange frames over channels that each have a window: a unit that is sent
uses the window up, and credit of the other end gives it back. An `Account` is what one
end counts of every window, with the frames in flight from it. The accounts of the two
ends `Fit` where neither can send more than the other may take. An end that takes frames
of the other keeps the fit as long as it adds to its account at most what the frames
bring (`Moves`), and a channel that loses nothing stays `Exact`.
-/

namespace HyperDht

/-- The size of each channel's window, and what a frame brings on the channel: units
that use the window up, and credit that gives it back. -/
structure Windows (κ φ : Type) where
  size : κ → Int
  units : κ → φ → Nat
  credit : κ → φ → Nat

/-- What one end counts. `spent` is what it may still send or has in flight, and `lent`
what it has taken and keeps, or gives back with credit in flight. -/
structure Account (κ : Type) where
  spent : κ → Int
  lent : κ → Int

namespace Windows

variable {κ φ : Type} (W : Windows κ φ)

/-- What a list of frames brings. -/
def sum (w : κ → φ → Nat) (k : κ) (fs : List φ) : Nat := (fs.map (w k)).sum

@[simp] theorem sum_nil (w : κ → φ → Nat) (k : κ) : sum w k [] = 0 := rfl

@[simp] theorem sum_singleton (w : κ → φ → Nat) (k : κ) (f : φ) : sum w k [f] = w k f :=
  List.sum_singleton

theorem sum_append (w : κ → φ → Nat) (k : κ) (fs gs : List φ) :
    sum w k (fs ++ gs) = sum w k fs + sum w k gs := by
  unfold sum
  rw [List.map_append, List.sum_append]

/-- No end can send more than the other may take. -/
structure Fit (a b : Account κ) : Prop where
  forth : ∀ k, a.spent k + b.lent k ≤ W.size k
  back : ∀ k, b.spent k + a.lent k ≤ W.size k

/-- An end that takes the frames `got` counts at most what they bring. -/
structure Moves (got : List φ) (a a' : Account κ) : Prop where
  spent : ∀ k, a'.spent k ≤ a.spent k + sum W.credit k got
  lent : ∀ k, a'.lent k ≤ a.lent k + sum W.units k got

/-- An end whose frames `got` are taken. -/
structure Delivers (got : List φ) (b b' : Account κ) : Prop where
  spent : ∀ k, b.spent k = b'.spent k + sum W.units k got
  lent : ∀ k, b.lent k = b'.lent k + sum W.credit k got

/-- Every unit of a channel is accounted for at one end. -/
structure Exact (k : κ) (a b : Account κ) : Prop where
  forth : a.spent k + b.lent k = W.size k
  back : b.spent k + a.lent k = W.size k

/-- An end that counts all that the frames `got` bring on a channel. -/
structure Keeps (k : κ) (got : List φ) (a a' : Account κ) : Prop where
  spent : a'.spent k = a.spent k + sum W.credit k got
  lent : a'.lent k = a.lent k + sum W.units k got

variable {W} {got got' : List φ} {a a' a'' b b' : Account κ} {k : κ}

theorem Fit.symm (h : W.Fit a b) : W.Fit b a := ⟨h.back, h.forth⟩

theorem Moves.refl (a : Account κ) : W.Moves [] a a := ⟨fun _ => by simp, fun _ => by simp⟩

theorem Moves.trans (h : W.Moves got a a') (h' : W.Moves got' a' a'') :
    W.Moves (got ++ got') a a'' := by
  refine ⟨fun k => ?_, fun k => ?_⟩
  · have h₁ := h.spent k
    have h₂ := h'.spent k
    rw [sum_append]
    omega
  · have h₁ := h.lent k
    have h₂ := h'.lent k
    rw [sum_append]
    omega

/-- Frames bring nothing away. -/
theorem Moves.weaken (h : W.Moves [] a a') (got : List φ) : W.Moves got a a' := by
  refine ⟨fun k => ?_, fun k => ?_⟩
  · have := h.spent k
    rw [sum_nil] at this
    omega
  · have := h.lent k
    rw [sum_nil] at this
    omega

theorem Keeps.refl (k : κ) (a : Account κ) : W.Keeps k [] a a := ⟨by simp, by simp⟩

theorem Keeps.trans (h : W.Keeps k got a a') (h' : W.Keeps k got' a' a'') :
    W.Keeps k (got ++ got') a a'' := by
  have h₁ := h.spent
  have h₂ := h'.spent
  have h₃ := h.lent
  have h₄ := h'.lent
  refine ⟨?_, ?_⟩
  · rw [sum_append]
    omega
  · rw [sum_append]
    omega

/-- **The accounts still fit after one end takes frames of the other.** -/
theorem Fit.turn (h : W.Fit a b) (hb : W.Delivers got b b') (ha : W.Moves got a a') :
    W.Fit a' b' := by
  refine ⟨fun k => ?_, fun k => ?_⟩
  · have h₁ := h.forth k
    have h₂ := hb.lent k
    have h₃ := ha.spent k
    omega
  · have h₁ := h.back k
    have h₂ := hb.spent k
    have h₃ := ha.lent k
    omega

theorem Fit.move (h : W.Fit a b) (ha : W.Moves [] a a') : W.Fit a' b :=
  h.turn ⟨fun _ => by simp, fun _ => by simp⟩ ha

theorem Exact.turn (h : W.Exact k a b) (hb : W.Delivers got b b') (ha : W.Keeps k got a a') :
    W.Exact k a' b' := by
  have h₁ := h.forth
  have h₂ := h.back
  have h₃ := hb.lent k
  have h₄ := hb.spent k
  have h₅ := ha.spent
  have h₆ := ha.lent
  exact ⟨by omega, by omega⟩

theorem Exact.symm (h : W.Exact k a b) : W.Exact k b a := ⟨h.back, h.forth⟩

theorem Exact.move (h : W.Exact k a b) (ha : W.Keeps k [] a a') : W.Exact k a' b :=
  h.turn ⟨fun _ => by simp, fun _ => by simp⟩ ha

end Windows

end HyperDht
