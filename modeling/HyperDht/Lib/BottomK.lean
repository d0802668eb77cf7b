import Mathlib.Data.List.Dedup
import Mathlib.Data.List.Lex
import Mathlib.Data.List.Perm.Subperm
import Mathlib.Data.Set.Function
import Mathlib.Order.Lattice

/-!
# Streaming samples of smallest rank

A sample holds at most `k` candidates, the one of largest rank first, and the set of their
ids. An offer whose id is selected is dropped; a full sample drops an offer that does not
rank below its first candidate, and gives up that candidate otherwise. `Bottom k` is the
result without a stream: the `k` smallest of the distinct candidates, or all of them where
there are fewer. `bottom_offers` joins the two, for every order and repetition of the offers.
-/

namespace HyperDht

structure Candidate (ι ρ β : Type) where
  id : ι
  value : β
  rank : ρ
  deriving DecidableEq, Repr

/-- The sample and the set of its ids. -/
structure Sample (ι ρ β : Type) where
  sample : List (Candidate ι ρ β)
  selected : List ι
  deriving DecidableEq, Repr

namespace Sample

variable {ι ρ β : Type} [DecidableEq ι] [LinearOrder ρ]

def empty : Sample ι ρ β := ⟨[], []⟩

/-- `sample.shift()` and the id it leaves. -/
def evict (s : Sample ι ρ β) : Sample ι ρ β :=
  match s.sample with
  | [] => s
  | removed :: rest => ⟨rest, s.selected.filter (· ≠ removed.id)⟩

/-- `push` and `sort` of the sample, `add` of the id. -/
def push (s : Sample ι ρ β) (c : Candidate ι ρ β) : Sample ι ρ β :=
  { sample := (s.sample ++ [c]).mergeSort fun a b => b.rank ≤ a.rank
    selected := s.selected ++ [c.id] }

def offer (k : Nat) (s : Sample ι ρ β) (c : Candidate ι ρ β) : Sample ι ρ β :=
  if c.id ∈ s.selected then s
  else if s.sample.length = k ∧ (s.sample.head?.any fun first => first.rank ≤ c.rank) then s
  else if s.sample.length = k then s.evict.push c
  else s.push c

end Sample

/-! ## The sample without a stream -/

section Bottom

variable {ρ β : Type} [LinearOrder ρ] [DecidableEq β]

/-- `out` has the `k` candidates of smallest rank, the largest first. -/
structure Bottom (k : Nat) (rank : β → ρ) (candidates out : List β) : Prop where
  listed : ∀ a ∈ out, a ∈ candidates
  sorted : out.Pairwise fun a b => rank b < rank a
  size : out.length = min k candidates.dedup.length
  smallest : ∀ b ∈ candidates, b ∉ out → ∀ a ∈ out, rank a < rank b

variable {k : Nat} {rank : β → ρ} {candidates candidates' out out' : List β}

theorem Bottom.nodup (h : Bottom k rank candidates out) : out.Nodup :=
  h.sorted.imp fun hlt heq => (heq ▸ hlt).false

/-- Of two samples of the same candidates, one has no member the other lacks. -/
theorem Bottom.subset (h : Bottom k rank candidates out) (h' : Bottom k rank candidates' out')
    (hsame : ∀ b, b ∈ candidates ↔ b ∈ candidates') : out ⊆ out' := by
  intro a ha
  by_contra ha'
  have hbelow : ∀ b ∈ out', rank b < rank a :=
    h'.smallest a ((hsame a).mp (h.listed a ha)) ha'
  -- every member of `out'` ranks below `a`, which `out` has, so `out` has it too
  have hsub : a :: out' ⊆ out := by
    intro b hb
    rcases List.mem_cons.mp hb with rfl | hb
    · exact ha
    · by_contra hnot
      exact (h.smallest b ((hsame b).mpr (h'.listed b hb)) hnot a ha).asymm (hbelow b hb)
  have hnodup : (a :: out').Nodup := List.nodup_cons.mpr ⟨ha', h'.nodup⟩
  have hlength : out'.length + 1 ≤ out.length := (List.subperm_of_subset hnodup hsub).length_le
  have hperm : candidates.dedup.length = candidates'.dedup.length :=
    ((List.perm_ext_iff_of_nodup (List.nodup_dedup _) (List.nodup_dedup _)).mpr fun b => by
      rw [List.mem_dedup, List.mem_dedup]
      exact hsame b).length_eq
  rw [h.size, h'.size, hperm] at hlength
  omega

/-- The sample depends on the set of the candidates only. -/
theorem Bottom.unique (h : Bottom k rank candidates out) (h' : Bottom k rank candidates' out')
    (hsame : ∀ b, b ∈ candidates ↔ b ∈ candidates') : out = out' := by
  have hperm : out.Perm out' := (List.perm_ext_iff_of_nodup h.nodup h'.nodup).mpr fun b =>
    ⟨fun hb => h.subset h' hsame hb, fun hb => h'.subset h (fun b => (hsame b).symm) hb⟩
  exact hperm.eq_of_pairwise (fun a b _ _ hab hba => absurd hab hba.asymm) h.sorted h'.sorted

end Bottom

/-! ## The stream -/

namespace Sample

variable {ι ρ β : Type} [LinearOrder ρ]

def entry (key : β → ι) (rank : β → ρ) (b : β) : Candidate ι ρ β := ⟨key b, b, rank b⟩

/-- What the sample holds of the candidates offered so far. -/
structure Kept (k : Nat) (key : β → ι) (rank : β → ρ) (offered : List β) (s : Sample ι ρ β)
    (out : List β) : Prop where
  sample : s.sample = out.map (entry key rank)
  selected : ∀ i, i ∈ s.selected ↔ i ∈ out.map key
  listed : ∀ a ∈ out, a ∈ offered
  sorted : out.Pairwise fun a b => rank b < rank a
  short : out.length ≤ k
  rest : ∀ b ∈ offered, b ∉ out → out.length = k ∧ ∀ a ∈ out, rank a < rank b

variable {k : Nat} {key : β → ι} {rank : β → ρ} {offered out : List β} {s : Sample ι ρ β} {b : β}

theorem kept_empty : Kept k key rank [] empty [] where
  sample := rfl
  selected _ := Iff.rfl
  listed _ h := h
  sorted := .nil
  short := Nat.zero_le k
  rest _ h := nomatch h

theorem Kept.length_eq (h : Kept k key rank offered s out) : s.sample.length = out.length := by
  rw [h.sample, List.length_map]

theorem Kept.value (h : Kept k key rank offered s out) : s.sample.map (·.value) = out := by
  rw [h.sample, List.map_map]
  exact List.map_id _

theorem Kept.drop (h : Kept k key rank offered s out)
    (hb : b ∉ out → out.length = k ∧ ∀ a ∈ out, rank a < rank b) :
    Kept k key rank (offered ++ [b]) s out where
  sample := h.sample
  selected := h.selected
  listed a ha := List.mem_append_left _ (h.listed a ha)
  sorted := h.sorted
  short := h.short
  rest := by
    intro c hc hout
    rcases List.mem_append.mp hc with hc | hc
    · exact h.rest c hc hout
    · rw [List.mem_singleton] at hc
      exact hc ▸ hb (hc ▸ hout)

theorem sorted_push (hsorted : out.Pairwise fun a b => rank b < rank a)
    (hb : ∀ a ∈ out, rank a ≠ rank b) :
    ((out ++ [b]).mergeSort fun a b => rank b ≤ rank a).Pairwise fun a b => rank b < rank a := by
  have hle : ((out ++ [b]).mergeSort fun a b => rank b ≤ rank a).Pairwise
      fun a b => decide (rank b ≤ rank a) := by
    apply List.pairwise_mergeSort
    · intro a b c hab hbc
      rw [decide_eq_true_eq] at hab hbc ⊢
      exact hbc.trans hab
    · intro a b
      rw [Bool.or_eq_true, decide_eq_true_eq, decide_eq_true_eq]
      exact le_total (rank b) (rank a)
  have hne : (out ++ [b]).Pairwise fun a b => rank a ≠ rank b := by
    rw [List.pairwise_append]
    refine ⟨hsorted.imp ne_of_gt, List.pairwise_singleton _ _, ?_⟩
    intro a ha c hc
    rw [List.mem_singleton] at hc
    exact hc ▸ hb a ha
  have hne' := ((List.mergeSort_perm (out ++ [b]) fun a b => rank b ≤ rank a).symm).pairwise hne
    fun hab => hab.symm
  exact (hle.and hne').imp fun ⟨hle, hne⟩ => lt_of_le_of_ne (of_decide_eq_true hle) hne.symm

theorem push_sample {t : Sample ι ρ β} {rest : List β}
    (h : t.sample = rest.map (entry key rank)) :
    (t.push (entry key rank b)).sample =
      ((rest ++ [b]).mergeSort fun a b => rank b ≤ rank a).map (entry key rank) := by
  have hmap := List.map_mergeSort (r := fun a b => decide (rank b ≤ rank a))
    (s := fun a b : Candidate ι ρ β => decide (b.rank ≤ a.rank)) (f := entry key rank)
    (l := rest ++ [b]) fun _ _ _ _ => rfl
  rw [hmap, push, h, List.map_append, List.map_singleton]

theorem mem_push_selected {t : Sample ι ρ β} {rest : List β}
    (h : ∀ i, i ∈ t.selected ↔ i ∈ rest.map key) (i : ι) :
    i ∈ (t.push (entry key rank b)).selected ↔
      i ∈ ((rest ++ [b]).mergeSort fun a b => rank b ≤ rank a).map key := by
  have hperm := (List.mergeSort_perm (rest ++ [b]) fun a b => rank b ≤ rank a).map key
  rw [hperm.mem_iff, List.map_append, List.mem_append, ← h]
  exact List.mem_append

theorem Kept.push (h : Kept k key rank offered s out) (hroom : out.length < k)
    (hne : ∀ a ∈ out, rank a ≠ rank b) :
    Kept k key rank (offered ++ [b]) (s.push (entry key rank b))
      ((out ++ [b]).mergeSort fun a b => rank b ≤ rank a) where
  sample := push_sample h.sample
  selected := mem_push_selected h.selected
  listed := by
    intro a ha
    rw [List.mem_mergeSort] at ha
    rcases List.mem_append.mp ha with ha | ha
    · exact List.mem_append_left _ (h.listed a ha)
    · exact List.mem_append_right _ ha
  sorted := sorted_push h.sorted hne
  short := by
    rw [List.length_mergeSort, List.length_append]
    exact hroom
  rest := by
    intro c hc hout
    rw [List.mem_mergeSort, List.mem_append, not_or] at hout
    rcases List.mem_append.mp hc with hc | hc
    · exact absurd (h.rest c hc hout.1).1 hroom.ne
    · exact absurd hc hout.2

theorem Kept.bottom [DecidableEq β] (h : Kept k key rank offered s out) :
    Bottom k rank offered out where
  listed := h.listed
  sorted := h.sorted
  size := by
    have hnodup : out.Nodup := h.sorted.imp fun hlt heq => (heq ▸ hlt).false
    have hle : out.length ≤ offered.dedup.length :=
      (List.subperm_of_subset hnodup fun a ha => List.mem_dedup.mpr (h.listed a ha)).length_le
    by_cases hfull : out.length = k
    · omega
    · have hge : offered.dedup.length ≤ out.length := by
        refine (List.subperm_of_subset (List.nodup_dedup _) fun a ha => ?_).length_le
        by_contra hnot
        exact hfull (h.rest a (List.mem_dedup.mp ha) hnot).1
      have hshort := h.short
      omega
  smallest b hb hnot := (h.rest b hb hnot).2

/-- The candidates have ids and ranks of their own. -/
structure Distinct (key : β → ι) (rank : β → ρ) (candidates : List β) : Prop where
  key : Set.InjOn key {b | b ∈ candidates}
  rank : Set.InjOn rank {b | b ∈ candidates}

omit [LinearOrder ρ] in
theorem Distinct.of_subset {l l' : List β} (h : Distinct key rank l') (hsub : l ⊆ l') :
    Distinct key rank l :=
  ⟨h.key.mono fun _ hb => hsub hb, h.rank.mono fun _ hb => hsub hb⟩

/-- The first candidate of the sample ranks no higher than `b`. -/
theorem outranked {first : β} {rest : List β} :
    ((((first :: rest).map (entry key rank)).head?.any
      fun top => top.rank ≤ (entry key rank b).rank) = true) ↔ rank first ≤ rank b :=
  decide_eq_true_iff

variable [DecidableEq ι]

theorem Kept.replace {first : β} {rest : List β} (h : Kept k key rank offered s (first :: rest))
    (hfull : (first :: rest).length = k) (hkeys : ∀ a ∈ rest, key a ≠ key first)
    (hlt : rank b < rank first) (hne : ∀ a ∈ rest, rank a ≠ rank b) :
    Kept k key rank (offered ++ [b]) (s.evict.push (entry key rank b))
      ((rest ++ [b]).mergeSort fun a b => rank b ≤ rank a) := by
  obtain ⟨hfirst, hsorted⟩ := List.pairwise_cons.mp h.sorted
  have hevict : s.evict = ⟨rest.map (entry key rank), s.selected.filter (· ≠ key first)⟩ := by
    rw [evict, h.sample]
    rfl
  have hlength : ((rest ++ [b]).mergeSort fun a b => rank b ≤ rank a).length = k := by
    rw [List.length_mergeSort, List.length_append]
    exact hfull
  constructor
  case sample => exact push_sample (by rw [hevict])
  case selected =>
    apply mem_push_selected
    intro i
    rw [hevict, List.mem_filter, h.selected, List.map_cons, List.mem_cons, decide_eq_true_eq]
    constructor
    · rintro ⟨rfl | hi, hne⟩
      · exact absurd rfl hne
      · exact hi
    · intro hi
      refine ⟨.inr hi, ?_⟩
      obtain ⟨a, ha, rfl⟩ := List.mem_map.mp hi
      exact hkeys a ha
  case listed =>
    intro a ha
    rw [List.mem_mergeSort] at ha
    rcases List.mem_append.mp ha with ha | ha
    · exact List.mem_append_left _ (h.listed a (List.mem_cons_of_mem _ ha))
    · exact List.mem_append_right _ ha
  case sorted => exact sorted_push hsorted hne
  case short => exact hlength.le
  case rest =>
    intro c hc hout
    rw [List.mem_mergeSort, List.mem_append, not_or] at hout
    refine ⟨hlength, fun a ha => ?_⟩
    rw [List.mem_mergeSort, List.mem_append, List.mem_singleton] at ha
    -- all that is kept ranks below `first`, and `first` at most as high as what is left out
    have ha : rank a < rank first := by
      rcases ha with ha | rfl
      · exact hfirst a ha
      · exact hlt
    rcases List.mem_append.mp hc with hc | hc
    · by_cases hcf : c = first
      · exact hcf ▸ ha
      · have hnot : c ∉ first :: rest := by
          rw [List.mem_cons, not_or]
          exact ⟨hcf, hout.1⟩
        exact ha.trans ((h.rest c hc hnot).2 first List.mem_cons_self)
    · exact absurd hc hout.2

theorem Kept.offer (h : Kept k key rank offered s out) (hk : 0 < k)
    (hdistinct : Distinct key rank (offered ++ [b])) :
    ∃ out', Kept k key rank (offered ++ [b]) (s.offer k (entry key rank b)) out' := by
  have hb : b ∈ offered ++ [b] := List.mem_append_right _ (List.mem_singleton_self b)
  have hout : ∀ a ∈ out, a ∈ offered ++ [b] := fun a ha => List.mem_append_left _ (h.listed a ha)
  unfold Sample.offer
  split
  · next hselected =>
    obtain ⟨a, ha, heq⟩ := List.mem_map.mp ((h.selected _).mp hselected)
    have hab : a = b := hdistinct.key (hout a ha) hb heq
    exact ⟨out, h.drop fun hnot => absurd (hab ▸ ha) hnot⟩
  · next hselected =>
    have hnot : b ∉ out := fun hmem =>
      hselected ((h.selected _).mpr (List.mem_map_of_mem hmem))
    have hne : ∀ a ∈ out, rank a ≠ rank b := fun a ha heq =>
      hnot (hdistinct.rank (hout a ha) hb heq ▸ ha)
    rw [h.length_eq, h.sample]
    cases out with
    | nil =>
      have hroom : ([] : List β).length ≠ k := hk.ne
      rw [if_neg fun hfull => hroom hfull.1, if_neg hroom]
      exact ⟨_, h.push hk hne⟩
    | cons first rest =>
      by_cases hfull : (first :: rest).length = k
      · by_cases hle : rank first ≤ rank b
        · rw [if_pos ⟨hfull, outranked.mpr hle⟩]
          refine ⟨_, h.drop fun _ => ⟨hfull, ?_⟩⟩
          have hlt : rank first < rank b := lt_of_le_of_ne hle (hne first List.mem_cons_self)
          intro a ha
          rcases List.mem_cons.mp ha with rfl | ha
          · exact hlt
          · exact (List.rel_of_pairwise_cons h.sorted ha).trans hlt
        · rw [if_neg fun h => hle (outranked.mp h.2), if_pos hfull]
          refine ⟨_, h.replace hfull ?_ (not_le.mp hle) ?_⟩
          · intro a ha heq
            have haf : a = first := hdistinct.key (hout a (List.mem_cons_of_mem _ ha))
              (hout first List.mem_cons_self) heq
            exact (List.rel_of_pairwise_cons h.sorted ha).ne (congrArg rank haf)
          · exact fun a ha => hne a (List.mem_cons_of_mem _ ha)
      · rw [if_neg fun h => hfull h.1, if_neg hfull]
        exact ⟨_, h.push (lt_of_le_of_ne h.short hfull) hne⟩

theorem Kept.foldl (hk : 0 < k) {bs : List β} (h : Kept k key rank offered s out)
    (hdistinct : Distinct key rank (offered ++ bs)) :
    ∃ out', Kept k key rank (offered ++ bs)
      ((bs.map (entry key rank)).foldl (Sample.offer k) s) out' := by
  induction bs generalizing offered s out with
  | nil =>
    rw [List.append_nil]
    exact ⟨out, h⟩
  | cons b bs ih =>
    rw [List.append_cons] at hdistinct ⊢
    obtain ⟨out', hnext⟩ := h.offer hk (hdistinct.of_subset (List.subset_append_left _ _))
    exact ih hnext hdistinct

/-- A loop whose turns offer `g c` each offers all of them in order. -/
theorem foldl_offers {γ : Type} {f : Sample ι ρ β → γ → Sample ι ρ β} {g : γ → List β}
    (h : ∀ s c, f s c = ((g c).map (entry key rank)).foldl (Sample.offer k) s) (l : List γ)
    (s : Sample ι ρ β) :
    l.foldl f s = ((l.flatMap g).map (entry key rank)).foldl (Sample.offer k) s := by
  induction l generalizing s with
  | nil => rfl
  | cons c l ih =>
    rw [List.foldl_cons, ih, h, List.flatMap_cons, List.map_append, List.foldl_append]

/-- The stream ends with the `k` smallest of the distinct candidates. -/
theorem bottom_offers [DecidableEq β] (hk : 0 < k) {candidates : List β}
    (hdistinct : Distinct key rank candidates) :
    Bottom k rank candidates
      (((candidates.map (entry key rank)).foldl (Sample.offer k) empty).sample.map
        (·.value)) := by
  have hempty : Kept k key rank [] empty [] := kept_empty
  obtain ⟨out, h⟩ := hempty.foldl hk hdistinct
  rw [List.nil_append] at h
  rw [h.value]
  exact h.bottom

end Sample

end HyperDht
