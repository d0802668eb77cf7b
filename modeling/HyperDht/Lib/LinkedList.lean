import Mathlib.Data.List.Nodup
import Mathlib.Logic.Function.Basic
import Mathlib.Tactic.Common

/-!
# Linked lists in a heap

A heap is a function from references to objects, and an intrusive list threads
some of them through a `next` field. `Path next start l` says that following
`next` from `start` meets the objects `l`, in this order, and then ends. A path
is determined by its start, meets no object twice, and does not see changes of
other objects. `walk` follows the pointers as a loop does.
-/

namespace HyperDht

namespace LinkedList

variable {α : Type}

/-- Following `next` from `start` meets `l` and then ends. -/
def Path (next : α → Option α) : Option α → List α → Prop
  | start, [] => start = none
  | start, a :: l => start = some a ∧ Path next (next a) l

/-- Follow `next` for at most `fuel` objects. -/
def walk (next : α → Option α) : Nat → Option α → List α
  | 0, _ => []
  | _ + 1, none => []
  | fuel + 1, some a => a :: walk next fuel (next a)

theorem Path.congr {next next' : α → Option α} {start : Option α} {l : List α}
    (h : Path next start l) (hsame : ∀ a ∈ l, next' a = next a) : Path next' start l := by
  induction l generalizing start with
  | nil => exact h
  | cons a l ih =>
    refine ⟨h.1, ?_⟩
    rw [hsame a List.mem_cons_self]
    exact ih h.2 fun b hb => hsame b (List.mem_cons_of_mem _ hb)

theorem Path.unique {next : α → Option α} {start : Option α} {l l' : List α}
    (h : Path next start l) (h' : Path next start l') : l = l' := by
  induction l generalizing start l' with
  | nil =>
    cases l' with
    | nil => rfl
    | cons a l' =>
      have hnone : start = none := h
      rw [hnone] at h'
      cases h'.1
  | cons a l ih =>
    cases l' with
    | nil =>
      have hnone : start = none := h'
      rw [hnone] at h
      cases h.1
    | cons b l' =>
      obtain rfl := Option.some.inj (h.1.symm.trans h'.1)
      rw [ih h.2 h'.2]

theorem Path.drop {next : α → Option α} {start : Option α} {l l' : List α} {a : α}
    (h : Path next start (l ++ a :: l')) : Path next (some a) (a :: l') := by
  induction l generalizing start with
  | nil => exact ⟨rfl, h.2⟩
  | cons b l ih => exact ih h.2

/-- A path that came back to an object would not end. -/
theorem Path.nodup {next : α → Option α} {start : Option α} {l : List α} (h : Path next start l) :
    l.Nodup := by
  induction l generalizing start with
  | nil => exact List.nodup_nil
  | cons a l ih =>
    refine List.nodup_cons.mpr ⟨fun ha => ?_, ih h.2⟩
    obtain ⟨s, t, rfl⟩ := List.append_of_mem ha
    have hself : Path next (some a) (a :: (s ++ a :: t)) := ⟨rfl, h.2⟩
    have heq := Path.unique h.2.drop hself
    have hlen := congrArg List.length heq
    simp only [List.length_cons, List.length_append] at hlen
    omega

theorem Path.walk {next : α → Option α} {start : Option α} {l : List α} (h : Path next start l)
    {fuel : Nat} (hf : l.length ≤ fuel) : walk next fuel start = l := by
  induction l generalizing start fuel with
  | nil =>
    have hnone : start = none := h
    rw [hnone]
    cases fuel with
    | zero => rfl
    | succ n => rfl
  | cons a l ih =>
    cases fuel with
    | zero => cases hf
    | succ n =>
      rw [h.1]
      show a :: LinkedList.walk next n (next a) = a :: l
      rw [ih h.2 (Nat.le_of_succ_le_succ hf)]

variable [DecidableEq α]

theorem Path.snoc {next : α → Option α} {start : Option α} {l : List α} {a b : α}
    (h : Path next start (l ++ [a])) (hb : b ∉ l ++ [a]) (hnone : next b = none) :
    Path (Function.update next a (some b)) start (l ++ [a] ++ [b]) := by
  have hn := h.nodup
  induction l generalizing start with
  | nil =>
    have hne : b ≠ a := fun e => hb (e ▸ List.mem_cons_self)
    refine ⟨h.1, by rw [Function.update_self], ?_⟩
    rw [Function.update_of_ne hne]
    exact hnone
  | cons c l ih =>
    rw [List.cons_append] at hn hb
    obtain ⟨hc, hn'⟩ := List.nodup_cons.mp hn
    have hne : c ≠ a := fun e => hc (e ▸ List.mem_append_right _ List.mem_cons_self)
    refine ⟨h.1, ?_⟩
    rw [Function.update_of_ne hne]
    exact ih h.2 (fun hin => hb (List.mem_cons_of_mem _ hin)) hn'

theorem Path.update {next : α → Option α} {start : Option α} {l : List α} {a : α}
    (h : Path next start l) (ha : a ∉ l) (v : Option α) : Path (Function.update next a v) start l :=
  h.congr fun _ hb => Function.update_of_ne (ne_of_mem_of_not_mem hb ha) _ _

end LinkedList

end HyperDht
