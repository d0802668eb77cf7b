import Mathlib.Algebra.Order.BigOperators.Group.List
import Mathlib.Algebra.Order.Group.Int
import Mathlib.Tactic.Abel

/-!
# Changing or adding one entry of a list

What `List.modify` does to a projection of the list, and to a count or a sum over it, and what
every entry keeps (`Extends`).
-/

namespace HyperDht

variable {α β : Type}

theorem map_modify_of_same {l : List α} {i : Nat} {f : α → α} {g : α → β}
    (h : ∀ a, l[i]? = some a → g (f a) = g a) : (l.modify i f).map g = l.map g := by
  apply List.ext_getElem?
  intro j
  rw [List.getElem?_map, List.getElem?_map, List.getElem?_modify]
  split
  · next hj =>
    subst hj
    cases hl : l[i]? with
    | none => rfl
    | some a => simpa using h a hl
  · simp

theorem mem_of_mem_modify {l : List α} {i : Nat} {f : α → α} {b : α} (h : b ∈ l.modify i f) :
    b ∈ l ∨ ∃ a ∈ l, b = f a := by
  obtain ⟨j, hj⟩ := List.mem_iff_getElem?.mp h
  rw [List.getElem?_modify] at hj
  obtain ⟨a, ha, rfl⟩ := Option.map_eq_some_iff.mp hj
  split
  · exact .inr ⟨a, List.mem_of_getElem? ha, rfl⟩
  · exact .inl (List.mem_of_getElem? ha)

theorem getElem?_concat_iff {l : List α} {a b : α} {i : Nat} :
    (l ++ [a])[i]? = some b ↔ l[i]? = some b ∨ i = l.length ∧ b = a := by
  rcases Nat.lt_trichotomy i l.length with h | rfl | h
  · rw [List.getElem?_append_left h]
    exact ⟨.inl, fun hb => hb.resolve_right fun he => absurd he.1 h.ne⟩
  · simp [eq_comm]
  · rw [List.getElem?_eq_none (by simp; omega), List.getElem?_eq_none h.le]
    simp [h.ne']

/-! ## What every entry keeps -/

/-- Every entry of the one list is there in the other, as far as the relation says. -/
def Extends (R : α → α → Prop) (l l' : List α) : Prop :=
  ∀ (i : Nat) (a : α), l[i]? = some a → ∃ b, l'[i]? = some b ∧ R a b

namespace Extends

variable {R : α → α → Prop}

theorem refl (h : ∀ a, R a a) (l : List α) : Extends R l l := fun _ a ha => ⟨a, ha, h a⟩

theorem trans {l l' l'' : List α} (htrans : ∀ a b c, R a b → R b c → R a c)
    (h : Extends R l l') (h' : Extends R l' l'') : Extends R l l'' := by
  intro i a ha
  obtain ⟨b, hb, hab⟩ := h i a ha
  obtain ⟨c, hc, hbc⟩ := h' i b hb
  exact ⟨c, hc, htrans a b c hab hbc⟩

theorem modify {l : List α} {i : Nat} {f : α → α} (hrefl : ∀ a, R a a)
    (h : ∀ a, l[i]? = some a → R a (f a)) : Extends R l (l.modify i f) := by
  intro j a ha
  rw [List.getElem?_modify, ha]
  by_cases he : i = j
  · subst he
    exact ⟨f a, by simp, h a ha⟩
  · exact ⟨a, by simp [he], hrefl a⟩

theorem append (h : ∀ a, R a a) (l l' : List α) : Extends R l (l ++ l') := fun _ a ha =>
  ⟨a, by rw [List.getElem?_append_left (List.getElem?_eq_some_iff.mp ha).1]; exact ha, h a⟩

theorem mono {S : α → α → Prop} {l l' : List α} (h : Extends R l l') (hRS : ∀ a b, R a b → S a b) :
    Extends S l l' := by
  intro i a ha
  obtain ⟨b, hb, hab⟩ := h i a ha
  exact ⟨b, hb, hRS a b hab⟩

end Extends

/-! ## Counts and sums -/

theorem countP_modify {l : List α} {i : Nat} {f : α → α} {a : α} (h : l[i]? = some a)
    (q : α → Bool) :
    (l.modify i f).countP q + (q a).toNat = l.countP q + (q (f a)).toNat := by
  induction l generalizing i with
  | nil => simp at h
  | cons b l ih =>
    cases i with
    | zero =>
      obtain rfl : b = a := by simpa using h
      cases hb : q b <;> cases hf : q (f b) <;> simp [hb, hf]
    | succ i =>
      have := ih (by simpa using h)
      simp only [List.modify_succ_cons, List.countP_cons]
      omega

theorem sum_map_modify {γ : Type} [AddCommMonoid γ] {l : List α} {i : Nat} {f : α → α} {a : α}
    (h : l[i]? = some a) (g : α → γ) :
    ((l.modify i f).map g).sum + g a = (l.map g).sum + g (f a) := by
  induction l generalizing i with
  | nil => simp at h
  | cons b l ih =>
    cases i with
    | zero =>
      obtain rfl : b = a := by simpa using h
      simp only [List.modify_zero_cons, List.map_cons, List.sum_cons]
      abel
    | succ i =>
      have := ih (by simpa using h)
      simp only [List.modify_succ_cons, List.map_cons, List.sum_cons]
      rw [add_assoc, this, add_assoc]

/-! ## Sums over lists -/

theorem sum_map_sum_comm {γ : Type} [AddCommMonoid γ] (l : List α) (m : List β) (g : α → β → γ) :
    (l.map fun a => (m.map fun b => g a b).sum).sum = (m.map fun b => (l.map fun a => g a b).sum).sum := by
  induction l with
  | nil => simp
  | cons a l ih =>
    simp only [List.map_cons, List.sum_cons]
    rw [ih, ← List.sum_map_add]

/-- At most one entry of the list counts. -/
theorem sum_map_exclusive {γ : Type} [AddCommMonoid γ] {l : List α} (q : α → Bool)
    (h : l.Pairwise fun a b => ¬(q a = true ∧ q b = true)) (c : γ) :
    (l.map fun a => if q a then c else 0).sum = if l.any q then c else 0 := by
  induction l with
  | nil => rfl
  | cons a l ih =>
    obtain ⟨ha, hl⟩ := List.pairwise_cons.mp h
    rw [List.map_cons, List.sum_cons, ih hl]
    cases hq : q a with
    | true =>
      have hnone : l.any q = false :=
        List.any_eq_false.mpr fun b hb hqb => ha b hb ⟨hq, hqb⟩
      simp [hq, hnone]
    | false => simp [hq]

theorem sum_le_of_getElem? {l m : List Int}
    (h : ∀ (i : Nat) (x : Int), l[i]? = some x → ∃ y, m[i]? = some y ∧ x ≤ y)
    (hm : ∀ y ∈ m, 0 ≤ y) : l.sum ≤ m.sum := by
  induction l generalizing m with
  | nil => exact List.sum_nonneg hm
  | cons x l ih =>
    cases m with
    | nil =>
      obtain ⟨y, hy, -⟩ := h 0 x rfl
      cases hy
    | cons y m =>
      obtain ⟨y', hy', hle⟩ := h 0 x rfl
      obtain rfl : y = y' := Option.some.inj hy'
      have := ih (m := m) (fun i x hx => h (i + 1) x hx) fun y hy => hm y (List.mem_cons_of_mem _ hy)
      simp only [List.sum_cons]
      omega

end HyperDht
