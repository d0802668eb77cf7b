import Mathlib.Algebra.BigOperators.Group.List.Basic
import Mathlib.Algebra.GroupWithZero.Nat
import Mathlib.Data.List.Induction
import Mathlib.Data.List.Nodup

/-!
# Insertion-ordered maps

`JsMap κ ν` is a finite map kept as the list of its entries in insertion
order, with pairwise distinct keys: `set` on a present key replaces the value
in place, on an absent key appends, and `delete` removes the entry. `total f`
adds a natural weight over all entries; the lemmas here say how each operation
changes a lookup, a total and the size.
-/

namespace HyperDht

/-- A finite map as its entries in insertion order. -/
structure JsMap (κ ν : Type) where
  entries : List (κ × ν)
  nodup : (entries.map Prod.fst).Nodup

namespace JsMap

variable {κ ν : Type} [DecidableEq κ]

/-! ## Entry lists -/

/-- The value of the first entry with key `k`. -/
def find (k : κ) : List (κ × ν) → Option ν
  | [] => none
  | e :: es => if e.1 = k then some e.2 else find k es

/-- Replace the value of `k` in place, or append. -/
def put (k : κ) (v : ν) : List (κ × ν) → List (κ × ν)
  | [] => [(k, v)]
  | e :: es => if e.1 = k then (k, v) :: es else e :: put k v es

/-- Drop the first entry with key `k`. -/
def drop (k : κ) : List (κ × ν) → List (κ × ν)
  | [] => []
  | e :: es => if e.1 = k then es else e :: drop k es

/-- The sum of `f` over an entry list. -/
def sumOf (f : κ → ν → Nat) (es : List (κ × ν)) : Nat := (es.map fun e => f e.1 e.2).sum

theorem find_eq_none {k : κ} {es : List (κ × ν)} : find k es = none ↔ k ∉ es.map Prod.fst := by
  induction es with
  | nil => simp [find]
  | cons e es ih =>
    by_cases h : e.1 = k
    · simp [find, h]
    · simp [find, h, ih, Ne.symm h]

theorem find_put (k k' : κ) (v : ν) (es : List (κ × ν)) :
    find k' (put k v es) = if k' = k then some v else find k' es := by
  induction es with
  | nil => by_cases h : k' = k <;> simp [put, find, h, Ne.symm]
  | cons e es ih =>
    by_cases h : e.1 = k
    · by_cases h' : k' = k
      · simp [put, find, h, h']
      · simp [put, find, h, h', Ne.symm h']
    · by_cases h' : e.1 = k'
      · have : k' ≠ k := fun e' => h (h'.trans e')
        simp [put, find, h', this]
      · simp [put, find, h, h', ih]

theorem keys_put (k : κ) (v : ν) (es : List (κ × ν)) :
    (put k v es).map Prod.fst =
      if k ∈ es.map Prod.fst then es.map Prod.fst else es.map Prod.fst ++ [k] := by
  induction es with
  | nil => simp [put]
  | cons e es ih =>
    by_cases h : e.1 = k
    · simp [put, h]
    · simp only [put, h, if_false, List.map_cons, ih, List.mem_cons, Ne.symm h, false_or]
      split <;> simp

theorem keys_drop_sublist (k : κ) (es : List (κ × ν)) :
    ((drop k es).map Prod.fst).Sublist (es.map Prod.fst) := by
  induction es with
  | nil => exact List.Sublist.slnil
  | cons e es ih =>
    by_cases h : e.1 = k
    · simp [drop, h]
    · simpa [drop, h] using ih

theorem find_drop {es : List (κ × ν)} (hn : (es.map Prod.fst).Nodup) (k k' : κ) :
    find k' (drop k es) = if k' = k then none else find k' es := by
  induction es with
  | nil => simp [drop, find]
  | cons e es ih =>
    obtain ⟨hk, hn⟩ := List.nodup_cons.mp hn
    by_cases h : e.1 = k
    · by_cases h' : k' = k
      · rw [h', if_pos rfl, drop, if_pos h, find_eq_none, ← h]
        exact hk
      · simp [drop, find, h, h', Ne.symm h']
    · by_cases h' : e.1 = k'
      · have : k' ≠ k := fun e' => h (h'.trans e')
        simp [drop, find, h', this]
      · simp [drop, find, h, h', ih hn]

theorem sumOf_put {f : κ → ν → Nat} {k : κ} {v v₀ : ν} {es : List (κ × ν)}
    (h : find k es = some v₀) : sumOf f (put k v es) + f k v₀ = sumOf f es + f k v := by
  induction es with
  | nil => simp [find] at h
  | cons e es ih =>
    by_cases hk : e.1 = k
    · simp only [find, hk, if_true, Option.some.injEq] at h
      subst h
      simp only [sumOf, put, hk, if_true, List.map_cons, List.sum_cons]
      omega
    · simp only [find, hk, if_false] at h
      have := ih h
      simp only [sumOf, put, hk, if_false, List.map_cons, List.sum_cons] at this ⊢
      omega

theorem sumOf_put_new {f : κ → ν → Nat} {k : κ} {v : ν} {es : List (κ × ν)}
    (h : find k es = none) : sumOf f (put k v es) = sumOf f es + f k v := by
  induction es with
  | nil => simp [sumOf, put]
  | cons e es ih =>
    by_cases hk : e.1 = k
    · simp [find, hk] at h
    · simp only [find, hk, if_false] at h
      have := ih h
      simp only [sumOf, put, hk, if_false, List.map_cons, List.sum_cons] at this ⊢
      omega

theorem sumOf_drop {f : κ → ν → Nat} {k : κ} {v₀ : ν} {es : List (κ × ν)}
    (h : find k es = some v₀) : sumOf f (drop k es) + f k v₀ = sumOf f es := by
  induction es with
  | nil => simp [find] at h
  | cons e es ih =>
    by_cases hk : e.1 = k
    · simp only [find, hk, if_true, Option.some.injEq] at h
      subst h
      simp only [sumOf, drop, hk, if_true, List.map_cons, List.sum_cons]
      omega
    · simp only [find, hk, if_false] at h
      have := ih h
      simp only [sumOf, drop, hk, if_false, List.map_cons, List.sum_cons] at this ⊢
      omega

theorem find_map {ν' : Type} (f : ν → ν') (k : κ) (es : List (κ × ν)) :
    find k (es.map fun e => (e.1, f e.2)) = (find k es).map f := by
  induction es with
  | nil => rfl
  | cons e es ih =>
    by_cases h : e.1 = k
    · simp [find, h]
    · simp [find, h, ih]

theorem drop_of_find_none {k : κ} {es : List (κ × ν)} (h : find k es = none) : drop k es = es := by
  induction es with
  | nil => rfl
  | cons e es ih =>
    by_cases hk : e.1 = k
    · simp [find, hk] at h
    · simp only [find, hk, if_false] at h
      simp [drop, hk, ih h]

theorem put_put (k : κ) (v w : ν) (es : List (κ × ν)) : put k w (put k v es) = put k w es := by
  induction es with
  | nil => simp [put]
  | cons e es ih =>
    by_cases h : e.1 = k
    · simp [put, h]
    · simp [put, h, ih]

theorem put_of_find {k : κ} {v : ν} {es : List (κ × ν)} (h : find k es = some v) :
    put k v es = es := by
  induction es with
  | nil => cases h
  | cons e es ih =>
    by_cases hk : e.1 = k
    · simp only [find, hk, if_true, Option.some.injEq] at h
      simp only [put, hk, if_true, ← h]
      rw [← hk]
    · simp only [find, hk, if_false] at h
      simp only [put, hk, if_false, ih h]

theorem put_map {ν' : Type} (f : ν → ν') (k : κ) (v : ν) (es : List (κ × ν)) :
    (put k v es).map (fun e => (e.1, f e.2)) = put k (f v) (es.map fun e => (e.1, f e.2)) := by
  induction es with
  | nil => rfl
  | cons e es ih =>
    by_cases h : e.1 = k
    · simp [put, h]
    · simp [put, h, ih]

theorem drop_map {ν' : Type} (f : ν → ν') (k : κ) (es : List (κ × ν)) :
    (drop k es).map (fun e => (e.1, f e.2)) = drop k (es.map fun e => (e.1, f e.2)) := by
  induction es with
  | nil => rfl
  | cons e es ih =>
    by_cases h : e.1 = k
    · simp [drop, h]
    · simp [drop, h, ih]

/-- The value that `put` replaces does not matter. -/
theorem put_map_congr {ν' : Type} {f g : ν → ν'} (k : κ) (v : ν') {es : List (κ × ν)}
    (hn : (es.map Prod.fst).Nodup) (h : ∀ e ∈ es, e.1 ≠ k → f e.2 = g e.2) :
    put k v (es.map fun e => (e.1, f e.2)) = put k v (es.map fun e => (e.1, g e.2)) := by
  induction es with
  | nil => rfl
  | cons e es ih =>
    obtain ⟨he, hn⟩ := List.nodup_cons.mp hn
    have hrest : ∀ e' ∈ es, e'.1 ≠ k → f e'.2 = g e'.2 := fun e' hm =>
      h e' (List.mem_cons_of_mem e hm)
    by_cases hk : e.1 = k
    · have hother : ∀ e' ∈ es, (e'.1, f e'.2) = (e'.1, g e'.2) := by
        intro e' hm
        rw [hrest e' hm fun hk' => he (hk.trans hk'.symm ▸ List.mem_map_of_mem hm)]
      simp only [List.map_cons, put, hk, if_true]
      rw [List.map_congr_left hother]
    · simp only [List.map_cons, put, hk, if_false]
      rw [ih hn hrest, h e List.mem_cons_self hk]

theorem put_of_find_none {k : κ} {es : List (κ × ν)} (h : find k es = none) (v : ν) :
    put k v es = es ++ [(k, v)] := by
  induction es with
  | nil => rfl
  | cons e es ih =>
    by_cases hk : e.1 = k
    · simp [find, hk] at h
    · simp only [find, hk, if_false] at h
      simp [put, hk, ih h]

theorem drop_eq_filter {es : List (κ × ν)} (hn : (es.map Prod.fst).Nodup) (k : κ) :
    drop k es = es.filter fun e => e.1 ≠ k := by
  induction es with
  | nil => rfl
  | cons e es ih =>
    obtain ⟨he, hn⟩ := List.nodup_cons.mp hn
    by_cases hk : e.1 = k
    · have hrest : es.filter (fun e => e.1 ≠ k) = es := List.filter_eq_self.mpr fun e' he' => by
        have hne : e'.1 ≠ k := fun hk' => he (List.mem_map.mpr ⟨e', he', hk'.trans hk.symm⟩)
        simpa using hne
      rw [drop, if_pos hk, List.filter_cons_of_neg (by simp [hk]), hrest]
    · rw [drop, if_neg hk, List.filter_cons_of_pos (by simp [hk]), ih hn]

/-! ## The map -/

def empty : JsMap κ ν := ⟨[], List.nodup_nil⟩

omit [DecidableEq κ] in
@[simp] theorem entries_empty : (empty : JsMap κ ν).entries = [] := rfl

/-- The value stored under `k`. -/
def get? (m : JsMap κ ν) (k : κ) : Option ν := find k m.entries

def has (m : JsMap κ ν) (k : κ) : Bool := (m.get? k).isSome

/-- Store `v` under `k`. -/
def set (m : JsMap κ ν) (k : κ) (v : ν) : JsMap κ ν where
  entries := put k v m.entries
  nodup := by
    rw [keys_put]
    split
    · exact m.nodup
    · next h => simpa using List.Nodup.concat h m.nodup

def delete (m : JsMap κ ν) (k : κ) : JsMap κ ν where
  entries := drop k m.entries
  nodup := (keys_drop_sublist k m.entries).nodup m.nodup

def mapValues {ν' : Type} (m : JsMap κ ν) (f : ν → ν') : JsMap κ ν' where
  entries := m.entries.map fun e => (e.1, f e.2)
  nodup := by
    rw [List.map_map]
    exact m.nodup

def size (m : JsMap κ ν) : Nat := m.entries.length

def keys (m : JsMap κ ν) : List κ := m.entries.map Prod.fst

def values (m : JsMap κ ν) : List ν := m.entries.map Prod.snd

/-- The sum of a weight over the entries. -/
def total (m : JsMap κ ν) (f : κ → ν → Nat) : Nat := sumOf f m.entries

@[simp] theorem get?_empty (k : κ) : (empty : JsMap κ ν).get? k = none := rfl

omit [DecidableEq κ] in
@[simp] theorem total_empty (f : κ → ν → Nat) : (empty : JsMap κ ν).total f = 0 := rfl

omit [DecidableEq κ] in
@[simp] theorem size_empty : (empty : JsMap κ ν).size = 0 := rfl

theorem get?_set (m : JsMap κ ν) (k k' : κ) (v : ν) :
    (m.set k v).get? k' = if k' = k then some v else m.get? k' :=
  find_put k k' v m.entries

@[simp] theorem get?_set_self (m : JsMap κ ν) (k : κ) (v : ν) : (m.set k v).get? k = some v := by
  simp [get?_set]

theorem get?_set_ne (m : JsMap κ ν) {k k' : κ} (v : ν) (h : k' ≠ k) :
    (m.set k v).get? k' = m.get? k' := by
  simp [get?_set, h]

theorem get?_set_cases {m : JsMap κ ν} {k k' : κ} {v v' : ν} (h : (m.set k v).get? k' = some v') :
    k' = k ∧ v' = v ∨ k' ≠ k ∧ m.get? k' = some v' := by
  rw [get?_set] at h
  split at h
  · next heq => exact .inl ⟨heq, (Option.some.inj h).symm⟩
  · next hne => exact .inr ⟨hne, h⟩

theorem mem_entries {m : JsMap κ ν} {k : κ} {v : ν} : (k, v) ∈ m.entries ↔ m.get? k = some v := by
  obtain ⟨es, hn⟩ := m
  show (k, v) ∈ es ↔ find k es = some v
  induction es with
  | nil => simp [find]
  | cons e es ih =>
    obtain ⟨he, hn⟩ := List.nodup_cons.mp hn
    by_cases hk : e.1 = k
    · subst hk
      have hno : (e.1, v) ∉ es := fun h => he (List.mem_map.mpr ⟨_, h, rfl⟩)
      simp [find, Prod.ext_iff, hno, eq_comm]
    · have hne : (k, v) ≠ e := fun h => hk (h ▸ rfl)
      simp [find, hk, hne, ih hn]

theorem mem_values {m : JsMap κ ν} {v : ν} : v ∈ m.values ↔ ∃ k, m.get? k = some v := by
  unfold values
  rw [List.mem_map]
  constructor
  · rintro ⟨⟨k, v⟩, h, rfl⟩
    exact ⟨k, mem_entries.mp h⟩
  · rintro ⟨k, h⟩
    exact ⟨(k, v), mem_entries.mpr h, rfl⟩

/-- Replacing a value keeps the keys. -/
theorem exists_get?_set {m : JsMap κ ν} {k : κ} {v₀ : ν} (h : m.get? k = some v₀) (v : ν) (k' : κ) :
    (∃ w, (m.set k v).get? k' = some w) ↔ ∃ w, m.get? k' = some w := by
  rw [get?_set]
  split
  · next hk => exact ⟨fun _ => ⟨v₀, hk ▸ h⟩, fun _ => ⟨v, rfl⟩⟩
  · exact Iff.rfl

theorem get?_delete (m : JsMap κ ν) (k k' : κ) :
    (m.delete k).get? k' = if k' = k then none else m.get? k' :=
  find_drop m.nodup k k'

@[simp] theorem get?_delete_self (m : JsMap κ ν) (k : κ) : (m.delete k).get? k = none := by
  simp [get?_delete]

theorem get?_delete_ne (m : JsMap κ ν) {k k' : κ} (h : k' ≠ k) :
    (m.delete k).get? k' = m.get? k' := by
  simp [get?_delete, h]

/-- A loop that treats every key of a duplicate-free list alike. -/
theorem get?_foldl {f : JsMap κ ν → κ → JsMap κ ν} {g : Option ν → Option ν}
    (hf : ∀ m k k', (f m k).get? k' = if k' = k then g (m.get? k) else m.get? k')
    {keys : List κ} (hn : keys.Nodup) (m : JsMap κ ν) (k : κ) :
    (keys.foldl f m).get? k = if k ∈ keys then g (m.get? k) else m.get? k := by
  induction keys generalizing m with
  | nil => simp
  | cons key keys ih =>
    obtain ⟨hk, hn⟩ := List.nodup_cons.mp hn
    rw [List.foldl_cons, ih hn, hf]
    by_cases h : k = key
    · subst h
      simp [hk]
    · simp [h]

theorem get?_mapValues {ν' : Type} (m : JsMap κ ν) (f : ν → ν') (k : κ) :
    (m.mapValues f).get? k = (m.get? k).map f :=
  find_map f k m.entries

theorem mapValues_set {ν' : Type} (m : JsMap κ ν) (f : ν → ν') (k : κ) (v : ν) :
    (m.set k v).mapValues f = (m.mapValues f).set k (f v) := by
  simp only [mapValues, set, JsMap.mk.injEq]
  exact put_map f k v m.entries

theorem mapValues_delete {ν' : Type} (m : JsMap κ ν) (f : ν → ν') (k : κ) :
    (m.delete k).mapValues f = (m.mapValues f).delete k := by
  simp only [mapValues, delete, JsMap.mk.injEq]
  exact drop_map f k m.entries

theorem mapValues_congr {ν' : Type} {m : JsMap κ ν} {f g : ν → ν'}
    (h : ∀ k v, m.get? k = some v → f v = g v) : m.mapValues f = m.mapValues g := by
  simp only [mapValues, JsMap.mk.injEq]
  refine List.map_congr_left fun e he => ?_
  rw [h e.1 e.2 (mem_entries.mp he)]

theorem mapValues_set_congr {ν' : Type} {m : JsMap κ ν} {f g : ν → ν'} (k : κ) (v : ν')
    (h : ∀ k' w, k' ≠ k → m.get? k' = some w → f w = g w) :
    (m.mapValues f).set k v = (m.mapValues g).set k v := by
  simp only [mapValues, set, JsMap.mk.injEq]
  exact put_map_congr k v m.nodup fun e he hk => h e.1 e.2 hk (mem_entries.mp he)

omit [DecidableEq κ] in
@[simp] theorem size_mapValues {ν' : Type} (m : JsMap κ ν) (f : ν → ν') :
    (m.mapValues f).size = m.size :=
  List.length_map ..

@[simp] theorem set_set (m : JsMap κ ν) (k : κ) (v w : ν) : (m.set k v).set k w = m.set k w := by
  cases m
  simp only [set, JsMap.mk.injEq]
  exact put_put k v w _

theorem set_of_get? {m : JsMap κ ν} {k : κ} {v : ν} (h : m.get? k = some v) : m.set k v = m := by
  cases m
  simp only [set, JsMap.mk.injEq]
  exact put_of_find h

theorem delete_of_none {m : JsMap κ ν} {k : κ} (h : m.get? k = none) : m.delete k = m := by
  cases m
  simp only [delete, JsMap.mk.injEq]
  exact drop_of_find_none h

theorem total_set {m : JsMap κ ν} {k : κ} {v₀ : ν} (h : m.get? k = some v₀) (v : ν)
    (f : κ → ν → Nat) : (m.set k v).total f + f k v₀ = m.total f + f k v :=
  sumOf_put h

theorem total_set_new {m : JsMap κ ν} {k : κ} (h : m.get? k = none) (v : ν) (f : κ → ν → Nat) :
    (m.set k v).total f = m.total f + f k v :=
  sumOf_put_new h

theorem total_delete {m : JsMap κ ν} {k : κ} {v₀ : ν} (h : m.get? k = some v₀)
    (f : κ → ν → Nat) : (m.delete k).total f + f k v₀ = m.total f :=
  sumOf_drop h

theorem entries_set_new {m : JsMap κ ν} {k : κ} (h : m.get? k = none) (v : ν) :
    (m.set k v).entries = m.entries ++ [(k, v)] :=
  put_of_find_none h v

theorem entries_delete (m : JsMap κ ν) (k : κ) :
    (m.delete k).entries = m.entries.filter fun e => e.1 ≠ k :=
  drop_eq_filter m.nodup k

/-- Storing a list under distinct keys, in order. -/
theorem entries_foldl_set {l : List ν} {g : ν → κ} (hn : (l.map g).Nodup) :
    (l.foldl (fun m v => m.set (g v) v) empty).entries = l.map fun v => (g v, v) := by
  induction l using List.reverseRecOn with
  | nil => rfl
  | append_singleton l v ih =>
    rw [List.map_append, List.nodup_append] at hn
    obtain ⟨hn, -, hnew⟩ := hn
    have hfree : (l.foldl (fun m v => m.set (g v) v) empty).get? (g v) = none := by
      cases hget : (l.foldl (fun m v => m.set (g v) v) empty).get? (g v) with
      | none => rfl
      | some w =>
        have hmem := mem_entries.mpr hget
        rw [ih hn] at hmem
        obtain ⟨w', hw', he⟩ := List.mem_map.mp hmem
        exact absurd (Prod.mk.inj he).1 (hnew _ (List.mem_map_of_mem hw') _ List.mem_cons_self)
    rw [List.foldl_append, List.foldl_cons, List.foldl_nil, entries_set_new hfree, ih hn,
      List.map_append]
    rfl

/-- One entry's weight is part of the total. -/
theorem le_total {m : JsMap κ ν} {k : κ} {v : ν} (h : m.get? k = some v) (f : κ → ν → Nat) :
    f k v ≤ m.total f := by
  have := total_delete h f
  omega

theorem total_eq_zero {m : JsMap κ ν} {f : κ → ν → Nat}
    (h : ∀ k v, m.get? k = some v → f k v = 0) : m.total f = 0 := by
  refine List.sum_eq_zero fun n hn => ?_
  obtain ⟨⟨k, v⟩, he, rfl⟩ := List.mem_map.mp hn
  exact h k v (mem_entries.mp he)

omit [DecidableEq κ] in
theorem size_eq_total (m : JsMap κ ν) : m.size = m.total fun _ _ => 1 := by
  simp [size, total, sumOf]

theorem size_set {m : JsMap κ ν} {k : κ} {v₀ : ν} (h : m.get? k = some v₀) (v : ν) :
    (m.set k v).size = m.size := by
  have := total_set h v fun _ _ => 1
  simp only [size_eq_total] at *
  omega

theorem size_set_new {m : JsMap κ ν} {k : κ} (h : m.get? k = none) (v : ν) :
    (m.set k v).size = m.size + 1 := by
  have := total_set_new h v fun _ _ => 1
  simpa only [size_eq_total] using this

theorem size_delete {m : JsMap κ ν} {k : κ} {v₀ : ν} (h : m.get? k = some v₀) :
    (m.delete k).size + 1 = m.size := by
  have := total_delete h fun _ _ => 1
  simpa only [size_eq_total] using this

theorem size_eq_zero {m : JsMap κ ν} : m.size = 0 ↔ ∀ k, m.get? k = none := by
  unfold size
  rw [List.length_eq_zero_iff]
  constructor
  · intro h k
    cases hk : m.get? k with
    | none => rfl
    | some v =>
      have := mem_entries.mpr hk
      rw [h] at this
      cases this
  · intro h
    refine List.eq_nil_iff_forall_not_mem.mpr fun ⟨k, v⟩ he => ?_
    have := mem_entries.mp he
    rw [h k] at this
    cases this

theorem size_le_of_keys {ν' : Type} {m : JsMap κ ν} {m' : JsMap κ ν'}
    (h : ∀ k v, m.get? k = some v → ∃ v', m'.get? k = some v') : m.size ≤ m'.size := by
  have hkeys : m.entries.map Prod.fst ⊆ m'.entries.map Prod.fst := by
    intro k hk
    obtain ⟨⟨k, v⟩, he, rfl⟩ := List.mem_map.mp hk
    obtain ⟨v', hv'⟩ := h k v (mem_entries.mp he)
    exact List.mem_map.mpr ⟨(k, v'), mem_entries.mpr hv', rfl⟩
  have hlen := (List.subperm_of_subset m.nodup hkeys).length_le
  rwa [List.length_map, List.length_map] at hlen

end JsMap

end HyperDht
