import Mathlib.Algebra.BigOperators.Group.List.Lemmas
import Mathlib.Algebra.GroupWithZero.Nat
import Mathlib.Data.Finset.Card
import Mathlib.Data.List.Induction
import Mathlib.Data.List.Sort
import Mathlib.Tactic.Common

/-!
# Hit lists

A list of keys with their hits, the most hit first. A further hit of a key raises its
entry and moves it forward past the entries that now have fewer (`bubble`). The list
that counts a sequence of keys (`Tallies`) is sorted, has one entry for each key, and
the hits in it depend on the keys only up to their order (`Tallies.hits_perm`).
-/

namespace HyperDht

structure Hit (κ : Type) where
  key : κ
  hits : Nat
deriving DecidableEq, Repr

variable {κ : Type}

/-- `for (; i > 0; i--)`: the entry at `i` changes places with those before it that have
fewer hits. -/
def bubble (s : Hit κ) : Nat → List (Hit κ) → List (Hit κ)
  | 0, l => l
  | i + 1, l =>
    match l[i]? with
    | none => l
    | some prev => if s.hits ≤ prev.hits then l else bubble s i ((l.set i s).set (i + 1) prev)

def addHit [DecidableEq κ] (l : List (Hit κ)) (k : κ) : List (Hit κ) :=
  match l.findIdx? fun s => s.key = k with
  | none => l ++ [⟨k, 1⟩]
  | some i =>
    match l[i]? with
    | none => l
    | some s => bubble { s with hits := s.hits + 1 } i (l.set i { s with hits := s.hits + 1 })

/-- The entry ends behind the last one that has as many hits. -/
theorem bubble_spec (s : Hit κ) (post : List (Hit κ)) : ∀ pre : List (Hit κ),
    ∃ front back, pre = front ++ back ∧
      bubble s pre.length (pre ++ s :: post) = front ++ s :: (back ++ post) ∧
      (∀ b ∈ back, b.hits < s.hits) ∧ ∀ a ∈ front.getLast?, s.hits ≤ a.hits := by
  intro pre
  induction pre using List.reverseRecOn generalizing post with
  | nil => exact ⟨[], [], rfl, rfl, fun b hb => (List.not_mem_nil hb).elim, fun a ha => by simp at ha⟩
  | append_singleton pre x ih =>
    have hx : (pre ++ [x] ++ s :: post)[pre.length]? = some x := by simp
    rw [List.length_append, List.length_singleton, bubble, hx]
    dsimp only
    split
    · next hle => exact ⟨pre ++ [x], [], by simp, by simp, fun b hb => (List.not_mem_nil hb).elim,
        fun a ha => by simp_all⟩
    · next hlt =>
      have hset : ((pre ++ [x] ++ s :: post).set pre.length s).set (pre.length + 1) x =
          pre ++ s :: (x :: post) := by
        simp
      rw [hset]
      obtain ⟨front, back, rfl, hb, hback, hfront⟩ := ih (x :: post)
      refine ⟨front, back ++ [x], by simp, hb.trans (by simp), fun b hb => ?_, hfront⟩
      rcases List.mem_append.mp hb with hb | hb
      · exact hback b hb
      · obtain rfl := List.mem_singleton.mp hb
        omega

/-- The last entry of a sorted list has the fewest hits. -/
theorem le_of_getLast {l : List (Hit κ)} {n : Nat} (hs : l.Pairwise fun a b => b.hits ≤ a.hits)
    (h : ∀ a ∈ l.getLast?, n ≤ a.hits) : ∀ a ∈ l, n ≤ a.hits := by
  cases l using List.reverseRecOn with
  | nil => exact fun a ha => (List.not_mem_nil ha).elim
  | append_singleton l x =>
    have hx : n ≤ x.hits := h x (by simp)
    intro a ha
    rcases List.mem_append.mp ha with ha | ha
    · have := (List.pairwise_append.mp hs).2.2 a ha x (List.mem_singleton_self x)
      omega
    · obtain rfl := List.mem_singleton.mp ha
      exact hx

theorem sorted_raise {front back post : List (Hit κ)} {s s' : Hit κ}
    (h : ((front ++ back) ++ s :: post).Pairwise fun a b => b.hits ≤ a.hits)
    (hs : s.hits ≤ s'.hits) (hback : ∀ b ∈ back, b.hits < s'.hits)
    (hfront : ∀ a ∈ front, s'.hits ≤ a.hits) :
    (front ++ s' :: (back ++ post)).Pairwise fun a b => b.hits ≤ a.hits := by
  obtain ⟨hpre, hpost, hcross⟩ := List.pairwise_append.mp h
  obtain ⟨hf, hb, hfb⟩ := List.pairwise_append.mp hpre
  obtain ⟨hsp, hp⟩ := List.pairwise_cons.mp hpost
  have hbp : (back ++ post).Pairwise fun a b => b.hits ≤ a.hits :=
    List.pairwise_append.mpr ⟨hb, hp, fun a ha b hb => hcross a (List.mem_append_right _ ha) b
      (List.mem_cons_of_mem s hb)⟩
  refine List.pairwise_append.mpr ⟨hf, List.pairwise_cons.mpr ⟨fun b hb => ?_, hbp⟩, fun a ha b hb => ?_⟩
  · rcases List.mem_append.mp hb with hb | hb
    · exact Nat.le_of_lt (hback b hb)
    · exact (hsp b hb).trans hs
  · rcases List.mem_cons.mp hb with rfl | hb
    · exact hfront a ha
    · rcases List.mem_append.mp hb with hb | hb
      · exact hfb a ha b hb
      · exact hcross a (List.mem_append_left _ ha) b (List.mem_cons_of_mem s hb)

variable [DecidableEq κ]

/-- The list counts the keys. -/
structure Tallies (l : List (Hit κ)) (keys : List κ) : Prop where
  sorted : l.Pairwise fun a b => b.hits ≤ a.hits
  nodup : (l.map Hit.key).Nodup
  hits : ∀ s ∈ l, s.hits = keys.count s.key ∧ 0 < s.hits
  mem : ∀ k ∈ keys, k ∈ l.map Hit.key

theorem tallies_nil : Tallies ([] : List (Hit κ)) [] :=
  ⟨.nil, .nil, fun _ h => (List.not_mem_nil h).elim, fun _ h => (List.not_mem_nil h).elim⟩

theorem Tallies.addHit {l : List (Hit κ)} {keys : List κ} (h : Tallies l keys) (k : κ) :
    Tallies (addHit l k) (keys ++ [k]) := by
  have hcount : ∀ key, (keys ++ [k]).count key = keys.count key + if k = key then 1 else 0 := by
    intro key
    rw [List.count_append, List.count_singleton]
    simp
  unfold HyperDht.addHit
  cases hi : l.findIdx? fun s => decide (s.key = k) with
  | none =>
    have hne : ∀ s ∈ l, s.key ≠ k := by simpa using List.findIdx?_eq_none_iff.mp hi
    have hout : k ∉ keys := fun hk => by
      obtain ⟨s, hs, he⟩ := List.mem_map.mp (h.mem k hk)
      exact hne s hs he
    dsimp only
    refine ⟨?_, ?_, fun s hs => ?_, fun key hk => ?_⟩
    · refine List.pairwise_append.mpr ⟨h.sorted, List.pairwise_singleton _ _, fun a ha b hb => ?_⟩
      obtain rfl := List.mem_singleton.mp hb
      exact (h.hits a ha).2
    · rw [List.map_append, List.nodup_append]
      refine ⟨h.nodup, by simp, fun a ha b hb => ?_⟩
      obtain ⟨s, hs, rfl⟩ := List.mem_map.mp ha
      obtain rfl : b = k := by simpa using hb
      exact hne s hs
    · rcases List.mem_append.mp hs with hs | hs
      · rw [hcount, if_neg (hne s hs).symm]
        exact h.hits s hs
      · obtain rfl := List.mem_singleton.mp hs
        rw [hcount, if_pos rfl, List.count_eq_zero_of_not_mem hout]
        exact ⟨rfl, Nat.one_pos⟩
    · rw [List.map_append]
      rcases List.mem_append.mp hk with hk | hk
      · exact List.mem_append_left _ (h.mem key hk)
      · exact List.mem_append_right _ (by simpa using hk)
  | some i =>
    obtain ⟨hlt, hkey, -⟩ := List.findIdx?_eq_some_iff_getElem.mp hi
    obtain ⟨pre, s, post, rfl, rfl⟩ : ∃ pre s post, l = pre ++ s :: post ∧ i = pre.length :=
      ⟨l.take i, l[i], l.drop (i + 1), by simp, by simp [Nat.le_of_lt hlt]⟩
    have hs : s.key = k := by simpa using hkey
    subst hs
    have hget : (pre ++ s :: post)[pre.length]? = some s := by simp
    have hset : ∀ t, (pre ++ s :: post).set pre.length t = pre ++ t :: post := fun t => by simp
    dsimp only
    rw [hget]
    dsimp only
    rw [hset]
    obtain ⟨front, back, rfl, hb, hback, hfront⟩ :=
      bubble_spec { s with hits := s.hits + 1 } post pre
    rw [hb]
    have hfront' := le_of_getLast (List.pairwise_append.mp
      (List.pairwise_append.mp h.sorted).1).1 hfront
    have hperm : (front ++ { s with hits := s.hits + 1 } :: (back ++ post)).Perm
        ({ s with hits := s.hits + 1 } :: (front ++ back ++ post)) := by
      rw [List.append_assoc]
      exact List.perm_middle
    have hkeys : ((front ++ { s with hits := s.hits + 1 } :: (back ++ post)).map Hit.key).Perm
        ((front ++ back ++ s :: post).map Hit.key) := by
      refine (hperm.map Hit.key).trans ?_
      rw [List.map_cons]
      exact ((List.perm_middle (a := s)).map Hit.key).symm
    have hne : ∀ t ∈ front ++ back ++ post, s.key ≠ t.key := fun t ht he => by
      have hnodup : (s.key :: (front ++ back ++ post).map Hit.key).Nodup :=
        ((List.perm_middle (a := s)).map Hit.key).nodup_iff.mp h.nodup
      exact (List.nodup_cons.mp hnodup).1 (he ▸ List.mem_map_of_mem ht)
    refine ⟨sorted_raise h.sorted (Nat.le_succ _) hback hfront', hkeys.nodup_iff.mpr h.nodup,
      fun t ht => ?_, fun key hk => ?_⟩
    · rcases List.mem_cons.mp (hperm.mem_iff.mp ht) with rfl | ht
      · rw [hcount, if_pos rfl]
        have hs := h.hits s (List.mem_append_right _ List.mem_cons_self)
        show s.hits + 1 = keys.count s.key + 1 ∧ 0 < s.hits + 1
        omega
      · rw [hcount, if_neg (hne t ht)]
        exact h.hits t ((List.perm_middle (a := s)).mem_iff.mpr (List.mem_cons_of_mem s ht))
    · refine hkeys.mem_iff.mpr ?_
      rcases List.mem_append.mp hk with hk | hk
      · exact h.mem key hk
      · obtain rfl := List.mem_singleton.mp hk
        exact List.mem_map_of_mem (List.mem_append_right _ List.mem_cons_self)

/-! ## What a hit list says -/

theorem Tallies.exists_hits {l : List (Hit κ)} {keys : List κ} (h : Tallies l keys) {k : κ}
    (hk : k ∈ keys) : ∃ s ∈ l, s.key = k ∧ s.hits = keys.count k := by
  obtain ⟨s, hs, rfl⟩ := List.mem_map.mp (h.mem k hk)
  exact ⟨s, hs, rfl, (h.hits s hs).1⟩

theorem Tallies.keys_perm {l : List (Hit κ)} {keys : List κ} (h : Tallies l keys) :
    (l.map Hit.key).Perm keys.dedup := by
  refine (List.perm_ext_iff_of_nodup h.nodup keys.nodup_dedup).mpr fun k => ?_
  rw [List.mem_dedup]
  refine ⟨fun hk => ?_, h.mem k⟩
  obtain ⟨s, hs, rfl⟩ := List.mem_map.mp hk
  have := h.hits s hs
  exact List.count_pos_iff.mp (by omega)

theorem Tallies.map_hits {l : List (Hit κ)} {keys : List κ} (h : Tallies l keys) :
    l.map Hit.hits = (l.map Hit.key).map fun k => keys.count k := by
  rw [List.map_map]
  exact List.map_congr_left fun s hs => (h.hits s hs).1

/-- The hits add up to the number of keys. -/
theorem Tallies.sum_hits {l : List (Hit κ)} {keys : List κ} (h : Tallies l keys) :
    (l.map Hit.hits).sum = keys.length := by
  rw [h.map_hits, (h.keys_perm.map _).sum_eq]
  exact List.sum_map_count_dedup_eq_length keys

theorem Tallies.length_eq {l : List (Hit κ)} {keys : List κ} (h : Tallies l keys) :
    l.length = keys.dedup.length := by
  rw [← List.length_map Hit.key]
  exact h.keys_perm.length_eq

theorem Tallies.one_lt_length_iff {l : List (Hit κ)} {keys : List κ} (h : Tallies l keys) :
    1 < l.length ↔ ∃ k ∈ keys, ∃ k' ∈ keys, k ≠ k' := by
  rw [h.length_eq, ← List.card_toFinset, Finset.one_lt_card]
  simp only [List.mem_toFinset]

/-- A hit list determines the keys up to their order. -/
theorem Tallies.perm {l : List (Hit κ)} {keys keys' : List κ} (h : Tallies l keys)
    (h' : Tallies l keys') : keys.Perm keys' := by
  refine List.perm_iff_count.mpr fun k => ?_
  by_cases hk : k ∈ l.map Hit.key
  · obtain ⟨s, hs, rfl⟩ := List.mem_map.mp hk
    rw [← (h.hits s hs).1, ← (h'.hits s hs).1]
  · rw [List.count_eq_zero_of_not_mem (fun hm => hk (h.mem k hm)),
      List.count_eq_zero_of_not_mem (fun hm => hk (h'.mem k hm))]

/-- The order in which the keys came does not show in the hits. -/
theorem Tallies.hits_perm {l l' : List (Hit κ)} {keys keys' : List κ} (h : Tallies l keys)
    (h' : Tallies l' keys') (hp : keys.Perm keys') : l.map Hit.hits = l'.map Hit.hits := by
  have hperm : (l.map Hit.hits).Perm (l'.map Hit.hits) := by
    have hcount : (fun k => keys'.count k) = fun k => keys.count k :=
      funext fun k => (hp.count_eq k).symm
    rw [h.map_hits, h'.map_hits, hcount]
    exact ((h.keys_perm.trans hp.dedup).trans h'.keys_perm.symm).map _
  refine hperm.eq_of_pairwise (fun a b _ _ (hab : b ≤ a) (hba : a ≤ b) => by omega) ?_ ?_
  · exact List.pairwise_map.mpr h.sorted
  · exact List.pairwise_map.mpr h'.sorted

end HyperDht
