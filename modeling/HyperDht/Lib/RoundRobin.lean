import Mathlib.Algebra.BigOperators.Group.List.Basic
import Mathlib.Algebra.Order.Ring.Int
import Mathlib.Data.List.Nodup
import Mathlib.Tactic.Common

/-!
# Deficit round robin

A `Ring` is a list of non-empty queues with pairwise distinct keys; the front
queue is served next. A job joins the queue of its key, or a new queue at the
back. `next` serves the front queue, at most `quantum` jobs in one turn, and
then moves it to the back; `pick` serves the queue of a given key. `jobs` reads
the queue of one key and `total` adds a weight over all queued jobs; the lemmas
say how the operations change both.
-/

namespace HyperDht

namespace RoundRobin

/-- The jobs of one key; `deficit` is what is left of the queue's turn. -/
structure Queue (κ α : Type) where
  key : κ
  jobs : List α
  deficit : Nat
  deriving DecidableEq, Repr

variable {κ α : Type} [DecidableEq κ]

/-! ## Lists of queues -/

/-- Append a job to the queue of its key, or to a new queue at the back. -/
def insert (k : κ) (a : α) : List (Queue κ α) → List (Queue κ α)
  | [] => [⟨k, [a], 0⟩]
  | q :: qs => if q.key = k then { q with jobs := q.jobs ++ [a] } :: qs else q :: insert k a qs

/-- The jobs of the first queue with key `k`. -/
def jobsOf (k : κ) : List (Queue κ α) → List α
  | [] => []
  | q :: qs => if q.key = k then q.jobs else jobsOf k qs

/-- Take the first job of the queue with key `k`. -/
def extract (k : κ) : List (Queue κ α) → Option (α × List (Queue κ α))
  | [] => none
  | q :: qs =>
    if q.key = k then
      match q.jobs with
      | [] => none
      | a :: rest => some (a, if rest = [] then qs else { q with jobs := rest } :: qs)
    else (extract k qs).map fun (a, qs') => (a, q :: qs')

/-- The sum of a weight over the jobs of all queues. -/
def weigh (w : α → Nat) (qs : List (Queue κ α)) : Nat := (qs.map fun q => (q.jobs.map w).sum).sum

theorem keys_insert (k : κ) (a : α) (qs : List (Queue κ α)) :
    (insert k a qs).map Queue.key =
      if k ∈ qs.map Queue.key then qs.map Queue.key else qs.map Queue.key ++ [k] := by
  induction qs with
  | nil => simp [insert]
  | cons q qs ih =>
    by_cases h : q.key = k
    · simp [insert, h]
    · simp only [insert, h, if_false, List.map_cons, ih, List.mem_cons, Ne.symm h, false_or]
      split <;> simp

theorem nonempty_insert {k : κ} {a : α} {qs : List (Queue κ α)} (h : ∀ q ∈ qs, q.jobs ≠ []) :
    ∀ q ∈ insert k a qs, q.jobs ≠ [] := by
  induction qs with
  | nil => simp [insert]
  | cons q qs ih =>
    intro q' hq'
    unfold insert at hq'
    split at hq'
    · rcases List.mem_cons.mp hq' with rfl | hq'
      · simp
      · exact h q' (List.mem_cons_of_mem _ hq')
    · rcases List.mem_cons.mp hq' with rfl | hq'
      · exact h q' List.mem_cons_self
      · exact ih (fun x hx => h x (List.mem_cons_of_mem _ hx)) q' hq'

theorem jobsOf_insert (k k' : κ) (a : α) (qs : List (Queue κ α)) :
    jobsOf k' (insert k a qs) = if k' = k then jobsOf k qs ++ [a] else jobsOf k' qs := by
  induction qs with
  | nil =>
    by_cases h : k' = k
    · simp [insert, jobsOf, h]
    · simp [insert, jobsOf, h, Ne.symm h]
  | cons q qs ih =>
    by_cases h : q.key = k
    · by_cases h' : k' = k
      · simp [insert, jobsOf, h, h']
      · simp [insert, jobsOf, h, h', Ne.symm h']
    · by_cases h' : q.key = k'
      · have hne : k' ≠ k := fun e => h (h'.trans e)
        simp [insert, jobsOf, h', hne]
      · simp [insert, jobsOf, h, h', ih]

theorem weigh_insert (w : α → Nat) (k : κ) (a : α) (qs : List (Queue κ α)) :
    weigh w (insert k a qs) = weigh w qs + w a := by
  induction qs with
  | nil => simp [insert, weigh]
  | cons q qs ih =>
    by_cases h : q.key = k
    · simp only [weigh, insert, h, if_true, List.map_cons, List.sum_cons, List.map_append,
        List.sum_append, List.map_nil, List.sum_nil]
      omega
    · simp only [weigh, insert, h, if_false, List.map_cons, List.sum_cons] at ih ⊢
      omega

theorem keys_extract {k : κ} {a : α} {qs qs' : List (Queue κ α)} (h : extract k qs = some (a, qs')) :
    (qs'.map Queue.key).Sublist (qs.map Queue.key) := by
  induction qs generalizing qs' with
  | nil => simp [extract] at h
  | cons q qs ih =>
    unfold extract at h
    split at h
    · split at h
      · cases h
      · cases h
        split
        · exact List.sublist_cons_self _ _
        · exact List.Sublist.refl _
    · rw [Option.map_eq_some_iff] at h
      obtain ⟨⟨b, qs₁⟩, h₁, h₂⟩ := h
      cases h₂
      exact (ih h₁).cons_cons _

theorem nonempty_extract {k : κ} {a : α} {qs qs' : List (Queue κ α)}
    (h : extract k qs = some (a, qs')) (hne : ∀ q ∈ qs, q.jobs ≠ []) : ∀ q ∈ qs', q.jobs ≠ [] := by
  induction qs generalizing qs' with
  | nil => simp [extract] at h
  | cons q qs ih =>
    have htail : ∀ q ∈ qs, q.jobs ≠ [] := fun x hx => hne x (List.mem_cons_of_mem _ hx)
    unfold extract at h
    split at h
    · split at h
      · cases h
      · cases h
        split
        · exact htail
        · next hrest =>
          intro x hx
          rcases List.mem_cons.mp hx with rfl | hx
          · exact hrest
          · exact htail x hx
    · rw [Option.map_eq_some_iff] at h
      obtain ⟨⟨b, qs₁⟩, h₁, h₂⟩ := h
      cases h₂
      intro x hx
      rcases List.mem_cons.mp hx with rfl | hx
      · exact hne x List.mem_cons_self
      · exact ih h₁ htail x hx

theorem jobsOf_of_not_mem {k : κ} {qs : List (Queue κ α)} (h : k ∉ qs.map Queue.key) :
    jobsOf k qs = [] := by
  induction qs with
  | nil => rfl
  | cons q qs ih =>
    rw [List.map_cons, List.mem_cons, not_or] at h
    rw [jobsOf, if_neg (Ne.symm h.1)]
    exact ih h.2

theorem jobsOf_of_mem {q : Queue κ α} {qs : List (Queue κ α)} (hn : (qs.map Queue.key).Nodup)
    (h : q ∈ qs) : jobsOf q.key qs = q.jobs := by
  induction qs with
  | nil => cases h
  | cons q' qs ih =>
    obtain ⟨hq', hn⟩ := List.nodup_cons.mp hn
    rcases List.mem_cons.mp h with rfl | h
    · rw [jobsOf, if_pos rfl]
    · have hne : q'.key ≠ q.key := fun e => hq' (e ▸ List.mem_map_of_mem h)
      rw [jobsOf, if_neg hne]
      exact ih hn h

theorem jobsOf_extract {k : κ} {a : α} {qs qs' : List (Queue κ α)}
    (h : extract k qs = some (a, qs')) (hn : (qs.map Queue.key).Nodup) (k' : κ) :
    jobsOf k' qs = if k' = k then a :: jobsOf k' qs' else jobsOf k' qs' := by
  induction qs generalizing qs' with
  | nil => simp [extract] at h
  | cons q qs ih =>
    obtain ⟨hq, hn⟩ := List.nodup_cons.mp hn
    unfold extract at h
    split at h
    · next hk =>
      split at h
      · cases h
      · next b rest hj =>
        cases h
        by_cases h' : k' = k
        · subst h'
          rw [if_pos rfl, jobsOf, if_pos hk, hj]
          split
          · next hrest => rw [hrest, jobsOf_of_not_mem (hk ▸ hq)]
          · rw [jobsOf, if_pos hk]
        · rw [if_neg h', jobsOf, if_neg (fun e => h' (e.symm.trans hk))]
          split
          · rfl
          · rw [jobsOf, if_neg (fun e => h' (e.symm.trans hk))]
    · next hk =>
      rw [Option.map_eq_some_iff] at h
      obtain ⟨⟨b, qs₁⟩, h₁, h₂⟩ := h
      cases h₂
      by_cases h' : q.key = k'
      · have hne : k' ≠ k := fun e => hk (h'.trans e)
        simp [jobsOf, h', hne]
      · simp only [jobsOf, h', if_false]
        exact ih h₁ hn

theorem weigh_extract (w : α → Nat) {k : κ} {a : α} {qs qs' : List (Queue κ α)}
    (h : extract k qs = some (a, qs')) : weigh w qs = weigh w qs' + w a := by
  induction qs generalizing qs' with
  | nil => simp [extract] at h
  | cons q qs ih =>
    unfold extract at h
    split at h
    · split at h
      · cases h
      · next b rest hj =>
        cases h
        split
        · next hrest =>
          simp only [weigh, List.map_cons, List.sum_cons, hj, hrest, List.map_nil, List.sum_nil]
          omega
        · simp only [weigh, List.map_cons, List.sum_cons, hj]
          omega
    · rw [Option.map_eq_some_iff] at h
      obtain ⟨⟨b, qs₁⟩, h₁, h₂⟩ := h
      cases h₂
      have := ih h₁
      simp only [weigh, List.map_cons, List.sum_cons] at this ⊢
      omega

/-- Serve the front queue: its first job, and the queues after that. The queue
is dropped when that was its last job, and moves to the back at the end of its turn. -/
def serve (quantum : Nat) : List (Queue κ α) → Option (κ × α × List (Queue κ α))
  | [] => none
  | q :: qs =>
    match q.jobs with
    | [] => none
    | a :: rest =>
      let deficit := (if q.deficit = 0 then quantum else q.deficit) - 1
      some (q.key, a,
        if rest = [] then qs
        else if deficit = 0 ∧ qs ≠ [] then qs ++ [⟨q.key, rest, 0⟩]
        else ⟨q.key, rest, deficit⟩ :: qs)

omit [DecidableEq κ] in
theorem serve_cases {quantum : Nat} {k : κ} {a : α} {qs qs' : List (Queue κ α)}
    (h : serve quantum qs = some (k, a, qs')) :
    ∃ q rest tail, qs = q :: tail ∧ q.key = k ∧ q.jobs = a :: rest ∧
      ((rest = [] ∧ qs' = tail) ∨ (rest ≠ [] ∧ ∃ d, qs' = tail ++ [⟨k, rest, d⟩]) ∨
        (rest ≠ [] ∧ ∃ d, qs' = ⟨k, rest, d⟩ :: tail)) := by
  cases qs with
  | nil => simp [serve] at h
  | cons q tail =>
    cases hj : q.jobs with
    | nil => simp [serve, hj] at h
    | cons b rest =>
      simp only [serve, hj, Option.some.injEq, Prod.mk.injEq] at h
      obtain ⟨rfl, rfl, rfl⟩ := h
      refine ⟨q, rest, tail, rfl, rfl, hj, ?_⟩
      by_cases hr : rest = []
      · exact .inl ⟨hr, if_pos hr⟩
      · rw [if_neg hr]
        generalize (if q.deficit = 0 then quantum else q.deficit) - 1 = d
        split
        · exact .inr (.inl ⟨hr, 0, rfl⟩)
        · exact .inr (.inr ⟨hr, _, rfl⟩)

theorem jobsOf_append (k : κ) (qs qs' : List (Queue κ α)) :
    jobsOf k (qs ++ qs') = if k ∈ qs.map Queue.key then jobsOf k qs else jobsOf k qs' := by
  induction qs with
  | nil => rfl
  | cons q qs ih =>
    by_cases h : q.key = k
    · simp [jobsOf, h]
    · simp [jobsOf, h, Ne.symm h, ih]

theorem jobsOf_serve {quantum : Nat} {k : κ} {a : α} {qs qs' : List (Queue κ α)}
    (h : serve quantum qs = some (k, a, qs')) (hn : (qs.map Queue.key).Nodup) (k' : κ) :
    jobsOf k' qs = if k' = k then a :: jobsOf k' qs' else jobsOf k' qs' := by
  obtain ⟨q, rest, tail, rfl, rfl, hj, hqs'⟩ := serve_cases h
  obtain ⟨hq, -⟩ := List.nodup_cons.mp hn
  have hnone := jobsOf_of_not_mem hq
  by_cases hk : k' = q.key
  · rw [hk, if_pos rfl, jobsOf, if_pos rfl, hj]
    rcases hqs' with ⟨hr, rfl⟩ | ⟨-, d, rfl⟩ | ⟨-, d, rfl⟩
    · rw [hr, hnone]
    · rw [jobsOf_append, if_neg hq, jobsOf, if_pos rfl]
    · rw [jobsOf, if_pos rfl]
  · rw [if_neg hk, jobsOf, if_neg (Ne.symm hk)]
    rcases hqs' with ⟨hr, rfl⟩ | ⟨-, d, rfl⟩ | ⟨-, d, rfl⟩
    · rfl
    · rw [jobsOf_append]
      split
      · rfl
      · next hm => rw [jobsOf_of_not_mem hm, jobsOf, if_neg (Ne.symm hk), jobsOf]
    · rw [jobsOf, if_neg (Ne.symm hk)]

omit [DecidableEq κ] in
theorem weigh_serve (w : α → Nat) {quantum : Nat} {k : κ} {a : α} {qs qs' : List (Queue κ α)}
    (h : serve quantum qs = some (k, a, qs')) : weigh w qs = weigh w qs' + w a := by
  obtain ⟨q, rest, tail, rfl, rfl, hj, hqs'⟩ := serve_cases h
  rcases hqs' with ⟨hr, rfl⟩ | ⟨-, d, rfl⟩ | ⟨-, d, rfl⟩
  · simp only [weigh, List.map_cons, List.sum_cons, hj, hr, List.map_nil, List.sum_nil]
    omega
  · simp only [weigh, List.map_cons, List.sum_cons, List.map_append, List.sum_append, hj,
      List.map_nil, List.sum_nil]
    omega
  · simp only [weigh, List.map_cons, List.sum_cons, hj]
    omega

omit [DecidableEq κ] in
theorem nodup_serve {quantum : Nat} {k : κ} {a : α} {qs qs' : List (Queue κ α)}
    (h : serve quantum qs = some (k, a, qs')) (hn : (qs.map Queue.key).Nodup) :
    (qs'.map Queue.key).Nodup := by
  obtain ⟨q, rest, tail, rfl, rfl, hj, hqs'⟩ := serve_cases h
  obtain ⟨hq, ht⟩ := List.nodup_cons.mp hn
  rcases hqs' with ⟨hr, rfl⟩ | ⟨-, d, rfl⟩ | ⟨-, d, rfl⟩
  · exact ht
  · rw [List.map_append, List.map_singleton]
    simpa using List.Nodup.concat hq ht
  · exact hn

omit [DecidableEq κ] in
theorem nonempty_serve {quantum : Nat} {k : κ} {a : α} {qs qs' : List (Queue κ α)}
    (h : serve quantum qs = some (k, a, qs')) (hne : ∀ q ∈ qs, q.jobs ≠ []) :
    ∀ q ∈ qs', q.jobs ≠ [] := by
  obtain ⟨q, rest, tail, rfl, rfl, hj, hqs'⟩ := serve_cases h
  have ht : ∀ x ∈ tail, x.jobs ≠ [] := fun x hx => hne x (List.mem_cons_of_mem _ hx)
  intro x hx
  rcases hqs' with ⟨hr, rfl⟩ | ⟨hr, d, rfl⟩ | ⟨hr, d, rfl⟩
  · exact ht x hx
  · rcases List.mem_append.mp hx with hx | hx
    · exact ht x hx
    · obtain rfl := List.mem_singleton.mp hx
      exact hr
  · rcases List.mem_cons.mp hx with rfl | hx
    · exact hr
    · exact ht x hx

def allJobs (qs : List (Queue κ α)) : List α := qs.flatMap Queue.jobs

theorem perm_insert (k : κ) (a : α) (qs : List (Queue κ α)) :
    (allJobs (insert k a qs)).Perm (a :: allJobs qs) := by
  induction qs with
  | nil => exact List.Perm.refl _
  | cons q qs ih =>
    unfold insert
    split
    · show ((q.jobs ++ [a]) ++ allJobs qs).Perm (a :: (q.jobs ++ allJobs qs))
      rw [List.append_assoc]
      exact List.perm_middle
    · exact ((ih.append_left q.jobs).trans List.perm_middle)

theorem mem_allJobs {k : κ} {a : α} {qs : List (Queue κ α)} (h : a ∈ jobsOf k qs) : a ∈ allJobs qs := by
  induction qs with
  | nil => cases h
  | cons q qs ih =>
    rw [jobsOf] at h
    split at h
    · exact List.mem_append_left _ h
    · exact List.mem_append_right _ (ih h)

omit [DecidableEq κ] in
theorem perm_serve {quantum : Nat} {k : κ} {a : α} {qs qs' : List (Queue κ α)}
    (h : serve quantum qs = some (k, a, qs')) : (allJobs qs).Perm (a :: allJobs qs') := by
  obtain ⟨q, rest, tail, rfl, rfl, hj, hqs'⟩ := serve_cases h
  have hall : allJobs (q :: tail) = a :: (rest ++ allJobs tail) := by
    show q.jobs ++ allJobs tail = _
    rw [hj]
    rfl
  rw [hall]
  apply List.Perm.cons
  rcases hqs' with ⟨rfl, rfl⟩ | ⟨-, d, rfl⟩ | ⟨-, d, rfl⟩
  · exact List.Perm.refl _
  · unfold allJobs
    rw [List.flatMap_append, List.flatMap_singleton]
    exact List.perm_append_comm
  · exact List.Perm.refl _

/-! ## Marked jobs at the front of their queues -/

theorem not_mem_keys_of_jobsOf {k : κ} {qs : List (Queue κ α)} (hne : ∀ q ∈ qs, q.jobs ≠ [])
    (h : jobsOf k qs = []) : k ∉ qs.map Queue.key := by
  induction qs with
  | nil => exact List.not_mem_nil
  | cons q qs ih =>
    rw [jobsOf] at h
    split at h
    · exact absurd h (hne q List.mem_cons_self)
    · next hk =>
      rw [List.map_cons, List.mem_cons, not_or]
      exact ⟨Ne.symm hk, ih (fun q hq => hne q (List.mem_cons_of_mem _ hq)) h⟩

theorem insert_of_not_mem {k : κ} {a : α} {qs : List (Queue κ α)} (h : k ∉ qs.map Queue.key) :
    insert k a qs = qs ++ [⟨k, [a], 0⟩] := by
  induction qs with
  | nil => rfl
  | cons q qs ih =>
    rw [List.map_cons, List.mem_cons, not_or] at h
    rw [insert, if_neg (Ne.symm h.1), ih h.2]
    rfl

/-- The front job of a queue, if it is marked. -/
def front (first : α → Bool) (q : Queue κ α) : Option α :=
  match q.jobs with
  | [] => none
  | a :: _ => if first a then some a else none

/-- A job that is not marked joins the back of its queue. -/
theorem insert_behind {first : α → Bool} {k : κ} {a : α} (ha : first a = false)
    {qs : List (Queue κ α)} (hne : ∀ q ∈ qs, q.jobs ≠ [])
    (hbehind : ∀ q ∈ qs, ∀ b ∈ q.jobs.tail, first b = false) :
    (insert k a qs).filterMap (front first) = qs.filterMap (front first) ∧
      ∀ q ∈ insert k a qs, ∀ b ∈ q.jobs.tail, first b = false := by
  induction qs with
  | nil =>
    refine ⟨by simp [insert, front, ha], fun q hq b hb => ?_⟩
    obtain rfl := List.mem_singleton.mp hq
    cases hb
  | cons q qs ih =>
    obtain ⟨b, rest, hj⟩ := List.exists_cons_of_ne_nil (hne q List.mem_cons_self)
    obtain ⟨h₁, h₂⟩ := ih (fun q hq => hne q (List.mem_cons_of_mem _ hq))
      fun q hq => hbehind q (List.mem_cons_of_mem _ hq)
    unfold insert
    split
    · have hfront : front first { q with jobs := q.jobs ++ [a] } = front first q := by
        unfold front
        rw [hj]
        rfl
      refine ⟨by rw [List.filterMap_cons, hfront, ← List.filterMap_cons], fun q' hq' c hc => ?_⟩
      rcases List.mem_cons.mp hq' with rfl | hq'
      · have hc' : c ∈ rest ++ [a] := by simpa [hj] using hc
        rcases List.mem_append.mp hc' with hc' | hc'
        · exact hbehind q List.mem_cons_self c (by rw [hj]; exact hc')
        · exact List.mem_singleton.mp hc' ▸ ha
      · exact hbehind q' (List.mem_cons_of_mem _ hq') c hc
    · refine ⟨by rw [List.filterMap_cons, h₁, ← List.filterMap_cons], fun q' hq' c hc => ?_⟩
      rcases List.mem_cons.mp hq' with rfl | hq'
      · exact hbehind q' List.mem_cons_self c hc
      · exact h₂ q' hq' c hc

end RoundRobin

open RoundRobin

/-- The queues of a scheduler, the front one first. -/
structure Ring (κ α : Type) where
  queues : List (Queue κ α)
  nodup : (queues.map Queue.key).Nodup
  nonempty : ∀ q ∈ queues, q.jobs ≠ []

namespace Ring

variable {κ α : Type} [DecidableEq κ]

def empty : Ring κ α := ⟨[], List.nodup_nil, by simp⟩

/-- Queue a job under its key. -/
def enqueue (r : Ring κ α) (k : κ) (a : α) : Ring κ α where
  queues := insert k a r.queues
  nodup := by
    rw [keys_insert]
    split
    · exact r.nodup
    · next h => simpa using List.Nodup.concat h r.nodup
  nonempty := nonempty_insert r.nonempty

/-- The first job of `k`, and the ring without it. -/
def pick (r : Ring κ α) (k : κ) : Option (α × Ring κ α) :=
  match h : extract k r.queues with
  | none => none
  | some (a, qs) => some (a, ⟨qs, (keys_extract h).nodup r.nodup, nonempty_extract h r.nonempty⟩)

/-- The next job in turn with its key, and the ring without it. -/
def next (r : Ring κ α) (quantum : Nat) : Option (κ × α × Ring κ α) :=
  match h : serve quantum r.queues with
  | none => none
  | some (k, a, qs) => some (k, a, ⟨qs, nodup_serve h r.nodup, nonempty_serve h r.nonempty⟩)

/-- The queued jobs of `k`, the oldest first. -/
def jobs (r : Ring κ α) (k : κ) : List α := jobsOf k r.queues

/-- The sum of a weight over the queued jobs. -/
def total (r : Ring κ α) (w : α → Nat) : Nat := weigh w r.queues

def all (r : Ring κ α) : List α := allJobs r.queues

@[simp] theorem jobs_empty (k : κ) : (empty : Ring κ α).jobs k = [] := rfl

omit [DecidableEq κ] in
@[simp] theorem total_empty (w : α → Nat) : (empty : Ring κ α).total w = 0 := rfl

theorem jobs_enqueue (r : Ring κ α) (k k' : κ) (a : α) :
    (r.enqueue k a).jobs k' = if k' = k then r.jobs k ++ [a] else r.jobs k' :=
  jobsOf_insert k k' a r.queues

theorem total_enqueue (r : Ring κ α) (k : κ) (a : α) (w : α → Nat) :
    (r.enqueue k a).total w = r.total w + w a :=
  weigh_insert w k a r.queues

theorem extract_of_pick {r r' : Ring κ α} {k : κ} {a : α} (h : r.pick k = some (a, r')) :
    extract k r.queues = some (a, r'.queues) := by
  unfold pick at h
  split at h
  · cases h
  · next e =>
    cases h
    exact e

theorem jobs_pick {r r' : Ring κ α} {k : κ} {a : α} (h : r.pick k = some (a, r')) (k' : κ) :
    r.jobs k' = if k' = k then a :: r'.jobs k' else r'.jobs k' :=
  jobsOf_extract (extract_of_pick h) r.nodup k'

theorem total_pick {r r' : Ring κ α} {k : κ} {a : α} (h : r.pick k = some (a, r')) (w : α → Nat) :
    r.total w = r'.total w + w a :=
  weigh_extract w (extract_of_pick h)

omit [DecidableEq κ] in
theorem serve_of_next {r r' : Ring κ α} {quantum : Nat} {k : κ} {a : α}
    (h : r.next quantum = some (k, a, r')) : serve quantum r.queues = some (k, a, r'.queues) := by
  unfold next at h
  split at h
  · cases h
  · next e =>
    cases h
    exact e

omit [DecidableEq κ] in
theorem next_of_serve {r : Ring κ α} {quantum : Nat} {k : κ} {a : α} {qs : List (Queue κ α)}
    (h : serve quantum r.queues = some (k, a, qs)) :
    ∃ r', r.next quantum = some (k, a, r') ∧ r'.queues = qs := by
  unfold next
  split
  · next hn => exact absurd (hn.symm.trans h) (by simp)
  · next hn =>
    obtain ⟨rfl, rfl, rfl⟩ : _ = k ∧ _ = a ∧ _ = qs := by simpa using hn.symm.trans h
    exact ⟨_, rfl, rfl⟩

theorem jobs_next {r r' : Ring κ α} {quantum : Nat} {k : κ} {a : α}
    (h : r.next quantum = some (k, a, r')) (k' : κ) :
    r.jobs k' = if k' = k then a :: r'.jobs k' else r'.jobs k' :=
  jobsOf_serve (serve_of_next h) r.nodup k'

omit [DecidableEq κ] in
theorem total_next {r r' : Ring κ α} {quantum : Nat} {k : κ} {a : α}
    (h : r.next quantum = some (k, a, r')) (w : α → Nat) : r.total w = r'.total w + w a :=
  weigh_serve w (serve_of_next h)

theorem total_of_jobs {r : Ring κ α} {k : κ} (h : ∀ k', k' ≠ k → r.jobs k' = []) (w : α → Nat) :
    r.total w = ((r.jobs k).map w).sum := by
  have hkey : ∀ q ∈ r.queues, q.key = k := by
    intro q hq
    by_contra hne
    exact r.nonempty q hq ((jobsOf_of_mem r.nodup hq).symm.trans (h q.key hne))
  have hnodup := r.nodup
  show weigh w r.queues = ((jobsOf k r.queues).map w).sum
  match hq : r.queues with
  | [] => rfl
  | [q] =>
    have hk := hkey q (hq ▸ List.mem_cons_self)
    show (q.jobs.map w).sum + 0 = ((if q.key = k then q.jobs else []).map w).sum
    rw [if_pos hk, Nat.add_zero]
  | q :: q' :: qs =>
    rw [hq] at hkey hnodup
    have h₁ := hkey q List.mem_cons_self
    have h₂ := hkey q' (List.mem_cons_of_mem _ List.mem_cons_self)
    exact absurd ((h₁.trans h₂.symm) ▸ List.mem_cons_self) (List.nodup_cons.mp hnodup).1

theorem all_enqueue (r : Ring κ α) (k : κ) (a : α) : (r.enqueue k a).all.Perm (a :: r.all) :=
  perm_insert k a r.queues

omit [DecidableEq κ] in
theorem all_next {r r' : Ring κ α} {quantum : Nat} {k : κ} {a : α}
    (h : r.next quantum = some (k, a, r')) : r.all.Perm (a :: r'.all) :=
  perm_serve (serve_of_next h)

/-! ## Histories -/

/-- The marked jobs at the front of their queues, in the order of the ring. -/
def fronts (first : α → Bool) (r : Ring κ α) : List α := r.queues.filterMap (front first)

/-- `queued` and `served` are the jobs a ring was given and has handed out. Each
key is served in order, and so are the jobs marked `first`, which are always
alone in their queue when they join it. -/
structure Served (key : α → κ) (first : α → Bool) (queued : List α) (r : Ring κ α)
    (served : List α) : Prop where
  inOrder : ∀ k, queued.filter (fun a => key a = k) = served.filter (fun a => key a = k) ++ r.jobs k
  firsts : queued.filter first = served.filter first ++ r.fronts first
  behind : ∀ q ∈ r.queues, ∀ a ∈ q.jobs.tail, first a = false

theorem served_empty (key : α → κ) (first : α → Bool) : Served key first [] empty [] :=
  ⟨fun _ => rfl, rfl, fun _ h => absurd h List.not_mem_nil⟩

theorem Served.enqueue {key : α → κ} {first : α → Bool} {queued served : List α} {r : Ring κ α}
    (h : Served key first queued r served) (a : α)
    (hfirst : first a = true → queued.filter (fun b => key b = key a) = []) :
    Served key first (queued ++ [a]) (r.enqueue (key a) a) served := by
  have horder : ∀ k, (queued ++ [a]).filter (fun b => key b = k) =
      served.filter (fun b => key b = k) ++ (r.enqueue (key a) a).jobs k := by
    intro k
    rw [List.filter_append, h.inOrder k, jobs_enqueue]
    by_cases hk : k = key a
    · subst hk
      simp
    · simp [hk, Ne.symm hk]
  cases ha : first a with
  | false =>
    obtain ⟨h₁, h₂⟩ := insert_behind (k := key a) ha r.nonempty h.behind
    refine ⟨horder, ?_, h₂⟩
    rw [List.filter_append, h.firsts]
    show _ = _ ++ (RoundRobin.insert (key a) a r.queues).filterMap (front first)
    rw [h₁]
    simp [ha, fronts]
  | true =>
    have hjobs : r.jobs (key a) = [] := by
      have := h.inOrder (key a)
      rw [hfirst ha] at this
      exact (List.append_eq_nil_iff.mp this.symm).2
    have hins := insert_of_not_mem (a := a) (not_mem_keys_of_jobsOf r.nonempty hjobs)
    refine ⟨horder, ?_, fun q hq b hb => ?_⟩
    · rw [List.filter_append, h.firsts]
      show _ = _ ++ (RoundRobin.insert (key a) a r.queues).filterMap (front first)
      rw [hins, List.filterMap_append, List.filter_singleton, ha]
      simp [fronts, front, ha]
    · have hq' : q ∈ r.queues ++ [⟨key a, [a], 0⟩] := hins ▸ hq
      rcases List.mem_append.mp hq' with hq' | hq'
      · exact h.behind q hq' b hb
      · obtain rfl := List.mem_singleton.mp hq'
        cases hb

/-- Only the marks of the jobs that joined matter. -/
theorem Served.congr {key : α → κ} {first first' : α → Bool} {queued served : List α} {r : Ring κ α}
    (h : Served key first queued r served) (hsame : ∀ a ∈ queued, first' a = first a) :
    Served key first' queued r served := by
  have hserved : ∀ a ∈ served, a ∈ queued := by
    intro a ha
    have hmem : a ∈ queued.filter (fun b => key b = key a) := by
      rw [h.inOrder (key a)]
      exact List.mem_append_left _ (List.mem_filter.mpr ⟨ha, decide_eq_true rfl⟩)
    exact (List.mem_filter.mp hmem).1
  have hring : ∀ q ∈ r.queues, ∀ a ∈ q.jobs, a ∈ queued := by
    intro q hq a ha
    have hmem : a ∈ queued.filter (fun b => key b = q.key) := by
      rw [h.inOrder q.key, show r.jobs q.key = q.jobs from jobsOf_of_mem r.nodup hq]
      exact List.mem_append_right _ ha
    exact (List.mem_filter.mp hmem).1
  have hfronts : r.fronts first' = r.fronts first := by
    apply List.filterMap_congr
    intro q hq
    unfold front
    cases hj : q.jobs with
    | nil => rfl
    | cons a rest =>
      dsimp only
      rw [hsame a (hring q hq a (by rw [hj]; exact List.mem_cons_self))]
  refine ⟨h.inOrder, ?_, fun q hq a ha => ?_⟩
  · rw [List.filter_congr hsame, h.firsts, hfronts,
      List.filter_congr fun a ha => hsame a (hserved a ha)]
  · rw [hsame a (hring q hq a (List.mem_of_mem_tail ha))]
    exact h.behind q hq a ha

theorem Served.next {key : α → κ} {first : α → Bool} {queued served : List α} {r r' : Ring κ α}
    (h : Served key first queued r served) {quantum : Nat} {k : κ} {a : α}
    (hn : r.next quantum = some (k, a, r')) :
    key a = k ∧ Served key first queued r' (served ++ [a]) := by
  have hjobs := jobs_next hn
  have hkey : key a = k := by
    have hmem : a ∈ queued.filter (fun b => key b = k) := by
      rw [h.inOrder k, hjobs k, if_pos rfl]
      exact List.mem_append_right _ List.mem_cons_self
    simpa using (List.mem_filter.mp hmem).2
  obtain ⟨q, rest, tail, hqs, hqk, hqj, hleft⟩ := serve_cases (serve_of_next hn)
  have htail : ∀ b ∈ rest, first b = false := fun b hb =>
    h.behind q (by rw [hqs]; exact List.mem_cons_self) b (by rw [hqj]; exact hb)
  -- the queue that is served keeps no first job
  have hnone : ∀ d, front first (⟨k, rest, d⟩ : Queue κ α) = none := by
    intro d
    cases rest with
    | nil => rfl
    | cons b rest => simp [front, htail b List.mem_cons_self]
  have hfront : r'.fronts first = tail.filterMap (front first) := by
    unfold fronts
    rcases hleft with ⟨-, he⟩ | ⟨-, d, he⟩ | ⟨-, d, he⟩
    · rw [he]
    · rw [he, List.filterMap_append]
      simp [hnone]
    · rw [he, List.filterMap_cons]
      simp [hnone]
  have hbehind : ∀ q' ∈ r'.queues, q' ∈ tail ∨ q'.jobs = rest := by
    intro q' hq'
    rcases hleft with ⟨-, he⟩ | ⟨-, d, he⟩ | ⟨-, d, he⟩
    · exact .inl (he ▸ hq')
    · rw [he] at hq'
      rcases List.mem_append.mp hq' with hq' | hq'
      · exact .inl hq'
      · exact .inr (List.mem_singleton.mp hq' ▸ rfl)
    · rw [he] at hq'
      rcases List.mem_cons.mp hq' with rfl | hq'
      · exact .inr rfl
      · exact .inl hq'
  refine ⟨hkey, fun k' => ?_, ?_, fun q' hq' b hb => ?_⟩
  · rw [h.inOrder k', hjobs k', List.filter_append]
    by_cases hk' : k' = k
    · subst hk'
      simp [hkey]
    · simp [hk', hkey, Ne.symm hk']
  · rw [h.firsts, List.filter_append, hfront]
    unfold fronts
    rw [hqs, List.filterMap_cons]
    cases ha : first a with
    | true => simp [front, hqj, ha]
    | false => simp [front, hqj, ha]
  · rcases hbehind q' hq' with hq' | hq'
    · exact h.behind q' (by rw [hqs]; exact List.mem_cons_of_mem _ hq') b hb
    · exact htail b (List.mem_of_mem_tail (hq' ▸ hb))

end Ring

end HyperDht
