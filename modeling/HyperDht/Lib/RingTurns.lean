import HyperDht.Lib.RoundRobin

/-!
# How long a job waits in a ring

A job that opens a queue waits for the queues in front of it, and each of them
has one turn of at most `quantum` jobs before it is gone or behind. `ahead`
adds up what is left of these turns. Jobs that join later do not change it, and
each job that is served for another key lowers it (`ahead_serve`).
-/

namespace HyperDht

namespace RoundRobin

variable {κ α : Type} [DecidableEq κ]

omit [DecidableEq κ] in
def turn (quantum : Nat) (q : Queue κ α) : Nat := if q.deficit = 0 then quantum else q.deficit

omit [DecidableEq κ] in
theorem serve_cons {quantum : Nat} {q : Queue κ α} {a : α} {rest : List α}
    (hj : q.jobs = a :: rest) (tail : List (Queue κ α)) :
    serve quantum (q :: tail) = some (q.key, a,
      if rest = [] then tail
      else if turn quantum q - 1 = 0 ∧ tail ≠ [] then tail ++ [⟨q.key, rest, 0⟩]
      else ⟨q.key, rest, turn quantum q - 1⟩ :: tail) := by
  simp only [serve, hj]
  rfl

omit [DecidableEq κ] in
theorem turn_le {quantum : Nat} {q : Queue κ α} (h : q.deficit ≤ quantum) :
    turn quantum q ≤ quantum := by
  unfold turn
  split
  · exact le_rfl
  · exact h

/-- What is left of the turns in front of the queue of `k`. -/
def ahead (quantum : Nat) (k : κ) : List (Queue κ α) → Nat
  | [] => 0
  | q :: qs => if q.key = k then 0 else turn quantum q + ahead quantum k qs

theorem ahead_insert {quantum : Nat} {k : κ} {qs : List (Queue κ α)} (h : k ∈ qs.map Queue.key)
    (k' : κ) (a : α) : ahead quantum k (insert k' a qs) = ahead quantum k qs := by
  induction qs with
  | nil => exact (List.not_mem_nil h).elim
  | cons q qs ih =>
    unfold insert
    split
    · rfl
    · by_cases hq : q.key = k
      · rw [ahead, ahead, if_pos hq, if_pos hq]
      · rw [ahead, ahead, if_neg hq, if_neg hq,
          ih ((List.mem_cons.mp h).resolve_left fun e => hq e.symm)]

theorem ahead_append {quantum : Nat} {k : κ} {qs : List (Queue κ α)} (h : k ∈ qs.map Queue.key)
    (qs' : List (Queue κ α)) : ahead quantum k (qs ++ qs') = ahead quantum k qs := by
  induction qs with
  | nil => exact (List.not_mem_nil h).elim
  | cons q qs ih =>
    rw [List.cons_append, ahead, ahead]
    split
    · rfl
    · next hq => rw [ih ((List.mem_cons.mp h).resolve_left fun e => hq e.symm)]

/-- Serving another queue uses up one job of its turn. -/
theorem ahead_serve {quantum : Nat} {k k' : κ} {a : α} {qs qs' : List (Queue κ α)}
    (h : serve quantum qs = some (k', a, qs')) (hpos : 0 < quantum) (hk : k ∈ qs.map Queue.key)
    (hne : k' ≠ k) : k ∈ qs'.map Queue.key ∧ ahead quantum k qs' + 1 ≤ ahead quantum k qs := by
  cases qs with
  | nil => cases h
  | cons q tail =>
    cases hj : q.jobs with
    | nil => simp [serve, hj] at h
    | cons b rest =>
      rw [serve_cons hj, Option.some.injEq, Prod.mk.injEq, Prod.mk.injEq] at h
      obtain ⟨rfl, rfl, rfl⟩ := h
      have htail : k ∈ tail.map Queue.key := (List.mem_cons.mp hk).resolve_left fun e => hne e.symm
      have hturn : 0 < turn quantum q := by
        unfold turn
        split
        · exact hpos
        · omega
      rw [ahead, if_neg hne]
      split
      · exact ⟨htail, by omega⟩
      · split
        · refine ⟨?_, by rw [ahead_append htail]; omega⟩
          rw [List.map_append]
          exact List.mem_append_left _ htail
        · next hback =>
          -- the queue of `k` is behind, so a turn that is over would have moved this one
          have hleft : turn quantum q - 1 ≠ 0 := fun e => hback ⟨e, List.ne_nil_of_mem
            (List.mem_map.mp htail).choose_spec.1⟩
          refine ⟨List.mem_cons_of_mem _ htail, ?_⟩
          rw [ahead, if_neg hne, turn, if_neg hleft]
          dsimp only
          omega

/-- No queue has more than a whole turn left. -/
def Within (quantum : Nat) (qs : List (Queue κ α)) : Prop := ∀ q ∈ qs, q.deficit ≤ quantum

theorem within_insert {quantum : Nat} {k : κ} {a : α} {qs : List (Queue κ α)}
    (h : Within quantum qs) : Within quantum (insert k a qs) := by
  induction qs with
  | nil =>
    intro q hq
    obtain rfl := List.mem_singleton.mp hq
    exact Nat.zero_le _
  | cons q qs ih =>
    intro q' hq'
    unfold insert at hq'
    split at hq'
    · rcases List.mem_cons.mp hq' with rfl | hq'
      · exact h q List.mem_cons_self
      · exact h q' (List.mem_cons_of_mem q hq')
    · rcases List.mem_cons.mp hq' with rfl | hq'
      · exact h q' List.mem_cons_self
      · exact ih (fun x hx => h x (List.mem_cons_of_mem q hx)) q' hq'

omit [DecidableEq κ] in
theorem within_serve {quantum : Nat} {k : κ} {a : α} {qs qs' : List (Queue κ α)}
    (hs : serve quantum qs = some (k, a, qs')) (h : Within quantum qs) : Within quantum qs' := by
  cases qs with
  | nil => cases hs
  | cons q tail =>
    have htail : Within quantum tail := fun x hx => h x (List.mem_cons_of_mem q hx)
    cases hj : q.jobs with
    | nil => simp [serve, hj] at hs
    | cons b rest =>
      rw [serve_cons hj, Option.some.injEq, Prod.mk.injEq, Prod.mk.injEq] at hs
      obtain ⟨rfl, rfl, rfl⟩ := hs
      split
      · exact htail
      · split
        · intro x hx
          rcases List.mem_append.mp hx with hx | hx
          · exact htail x hx
          · obtain rfl := List.mem_singleton.mp hx
            exact Nat.zero_le _
        · intro x hx
          rcases List.mem_cons.mp hx with rfl | hx
          · have := turn_le (h q List.mem_cons_self)
            dsimp only
            omega
          · exact htail x hx

/-- All turns together are in front of a queue that is not there yet. -/
theorem ahead_new {quantum : Nat} {k : κ} {a : α} {qs : List (Queue κ α)} (h : Within quantum qs)
    (hk : k ∉ qs.map Queue.key) : ahead quantum k (insert k a qs) ≤ quantum * qs.length := by
  rw [insert_of_not_mem hk]
  induction qs with
  | nil =>
    show (if k = k then 0 else _) ≤ _
    rw [if_pos rfl]
    exact Nat.zero_le _
  | cons q qs ih =>
    rw [List.map_cons, List.mem_cons, not_or] at hk
    have hq := h q List.mem_cons_self
    have hqs := ih (fun x hx => h x (List.mem_cons_of_mem q hx)) hk.2
    have hturn := turn_le hq
    rw [List.cons_append, ahead, if_neg (Ne.symm hk.1), List.length_cons, Nat.mul_succ]
    omega

/-! ## Jobs under another name -/

variable {β : Type}

omit [DecidableEq κ] in
def Queue.map (g : α → β) (q : Queue κ α) : Queue κ β := ⟨q.key, q.jobs.map g, q.deficit⟩

omit [DecidableEq κ] in
theorem keys_map (g : α → β) (qs : List (Queue κ α)) :
    (qs.map (Queue.map g)).map Queue.key = qs.map Queue.key := by
  rw [List.map_map]
  rfl

theorem insert_map (g : α → β) (k : κ) (a : α) (qs : List (Queue κ α)) :
    insert k (g a) (qs.map (Queue.map g)) = (insert k a qs).map (Queue.map g) := by
  induction qs with
  | nil => rfl
  | cons q qs ih =>
    rw [List.map_cons, insert, insert]
    split
    · next hq =>
      rw [if_pos (show q.key = k from hq), List.map_cons]
      simp [Queue.map]
    · next hq => rw [if_neg (show q.key ≠ k from hq), ih, List.map_cons]

omit [DecidableEq κ] in
theorem serve_map (g : α → β) (quantum : Nat) (qs : List (Queue κ α)) :
    serve quantum (qs.map (Queue.map g)) =
      (serve quantum qs).map fun (k, a, qs') => (k, g a, qs'.map (Queue.map g)) := by
  cases qs with
  | nil => rfl
  | cons q tail =>
    cases hj : q.jobs with
    | nil => simp [serve, Queue.map, hj]
    | cons a rest =>
      have hg : (q.map g).jobs = g a :: rest.map g := by simp [Queue.map, hj]
      rw [List.map_cons, serve_cons hg, serve_cons hj, Option.map_some]
      have hturn : turn quantum (q.map g) = turn quantum q := rfl
      simp only [hturn, List.map_eq_nil_iff, ne_eq]
      split
      · rfl
      · split
        · rw [List.map_append]
          rfl
        · rfl

end RoundRobin

open RoundRobin

namespace Ring

variable {κ α β : Type} [DecidableEq κ]

omit [DecidableEq κ] in
def map (g : α → β) (r : Ring κ α) : Ring κ β where
  queues := r.queues.map (Queue.map g)
  nodup := by
    rw [keys_map]
    exact r.nodup
  nonempty := by
    intro q hq
    obtain ⟨q₀, hq₀, rfl⟩ := List.mem_map.mp hq
    exact fun h => r.nonempty q₀ hq₀ (List.map_eq_nil_iff.mp h)

omit [DecidableEq κ] in
theorem ext_queues {r r' : Ring κ α} (h : r.queues = r'.queues) : r = r' := by
  cases r
  cases r'
  cases h
  rfl

theorem enqueue_map (g : α → β) (r : Ring κ α) (k : κ) (a : α) :
    (r.map g).enqueue k (g a) = (r.enqueue k a).map g :=
  ext_queues (insert_map g k a r.queues)

omit [DecidableEq κ] in
theorem next_map (g : α → β) (r : Ring κ α) (quantum : Nat) :
    (r.map g).next quantum = (r.next quantum).map fun (k, a, r') => (k, g a, r'.map g) := by
  have hs := serve_map g quantum r.queues
  cases hn : r.next quantum with
  | none =>
    have hnone : serve quantum r.queues = none := by
      unfold next at hn
      split at hn
      · assumption
      · cases hn
    rw [hnone] at hs
    unfold next
    split
    · rfl
    · next h => exact absurd (h.symm.trans hs) (Option.some_ne_none _)
  | some out =>
    obtain ⟨k, a, r'⟩ := out
    rw [serve_of_next hn] at hs
    obtain ⟨r₂, h₂, hq⟩ := next_of_serve (r := r.map g) hs
    have hmap : r₂ = r'.map g := ext_queues hq
    rw [h₂, hmap]
    rfl

/-! ## A job that waits -/

def keys (r : Ring κ α) : List κ := r.queues.map Queue.key

theorem mem_keys {r : Ring κ α} {k : κ} : k ∈ r.keys ↔ r.jobs k ≠ [] := by
  constructor
  · intro h
    obtain ⟨q, hq, rfl⟩ := List.mem_map.mp h
    rw [show r.jobs q.key = q.jobs from jobsOf_of_mem r.nodup hq]
    exact r.nonempty q hq
  · intro h
    by_contra hk
    exact h (jobsOf_of_not_mem hk)

/-- `a` is the next job of `k`, and at most `n` jobs of other keys come before it. -/
structure Waiting (quantum : Nat) (r : Ring κ α) (k : κ) (a : α) (n : Nat) : Prop where
  first : ∃ rest, r.jobs k = a :: rest
  turns : ahead quantum k r.queues ≤ n

theorem Waiting.mem {quantum n : Nat} {r : Ring κ α} {k : κ} {a : α}
    (h : Waiting quantum r k a n) : k ∈ r.queues.map Queue.key := by
  obtain ⟨rest, hr⟩ := h.first
  exact mem_keys.mpr (by rw [hr]; exact List.cons_ne_nil a rest)

/-- The first job of a key waits for one turn of each other key. -/
theorem waiting_enqueue {quantum : Nat} {r : Ring κ α} {k : κ} (h : Within quantum r.queues)
    (hk : r.jobs k = []) (a : α) :
    Waiting quantum (r.enqueue k a) k a (quantum * r.keys.length) := by
  refine ⟨⟨[], ?_⟩, ?_⟩
  · rw [jobs_enqueue, if_pos rfl, hk]
    rfl
  · rw [keys, List.length_map]
    exact ahead_new h fun hm => mem_keys.mp hm hk

theorem Waiting.enqueue {quantum n : Nat} {r : Ring κ α} {k : κ} {a : α}
    (h : Waiting quantum r k a n) (k' : κ) (b : α) : Waiting quantum (r.enqueue k' b) k a n := by
  refine ⟨?_, (ahead_insert h.mem k' b).trans_le h.turns⟩
  obtain ⟨rest, hr⟩ := h.first
  rw [jobs_enqueue]
  split
  · next e => exact ⟨rest ++ [b], by rw [← e, hr]; rfl⟩
  · exact ⟨rest, hr⟩

theorem Waiting.next {quantum n : Nat} {r r' : Ring κ α} {k k' : κ} {a b : α}
    (h : Waiting quantum r k a n) (hpos : 0 < quantum) (hn : r.next quantum = some (k', b, r')) :
    (k' = k ∧ b = a) ∨ (k' ≠ k ∧ 0 < n ∧ Waiting quantum r' k a (n - 1)) := by
  have hjobs := jobs_next hn k
  obtain ⟨rest, hr⟩ := h.first
  by_cases hk : k' = k
  · rw [if_pos hk.symm, hr] at hjobs
    exact .inl ⟨hk, (List.cons.inj hjobs).1.symm⟩
  · obtain ⟨-, hle⟩ := ahead_serve (serve_of_next hn) hpos h.mem hk
    have hturns := h.turns
    rw [if_neg (Ne.symm hk), hr] at hjobs
    exact .inr ⟨hk, by omega, ⟨rest, hjobs.symm⟩, by omega⟩

end Ring

end HyperDht
