import HyperDht.Private.SendScheduler

/-!
# The lists of the send scheduler

The list of queues and the lists of jobs in the heap of a link are a deficit round
robin (`Rep`): `_nextSend` takes the job that is next in turn (`Rep.next`), which
empties the first queue, ends its turn or leaves it in front (`Front`), and `send`
links a job behind the last one of its stream, in a new queue if there is none
(`Rep.push`).
-/

namespace HyperDht.Private

open LinkedList RoundRobin

namespace Scheduler

/-! ## The lists in the heap -/

/-- The queue object `q` holds the jobs of `lane`. -/
structure Lane (s : Scheduler) (q : Nat) (lane : Queue Nat Nat) : Prop where
  path : Path s.jobNext (s.queue q).head lane.jobs
  tail : (s.queue q).tail = lane.jobs.getLast?
  streamId : (s.queue q).streamId = lane.key
  deficit : (s.queue q).deficit = cellSize * lane.deficit
  payload : ∀ j ∈ lane.jobs, ∃ p, (s.job j).payload = some p ∧ s.streamIdOf p = lane.key

/-- The lists of the heap are the ring `r`, in the queue objects `refs`. -/
structure Rep (s : Scheduler) (refs : List Nat) (r : Ring Nat Nat) : Prop where
  path : Path s.queueNext s.sendHead refs
  tail : s.sendTail = refs.getLast?
  lanes : List.Forall₂ s.Lane refs r.queues
  keys : ∀ id q, s.sendQueues.get? id = some q ↔ q ∈ refs ∧ (s.queue q).streamId = id
  made : ∀ q ∈ refs, q < s.queues

/-- Two queue objects that differ in `next` only. -/
def SameQueue (a b : SendQueue) : Prop :=
  a.head = b.head ∧ a.tail = b.tail ∧ a.streamId = b.streamId ∧ a.deficit = b.deficit

theorem Lane.congr {s s' : Scheduler} {q : Nat} {lane : Queue Nat Nat} (h : s.Lane q lane)
    (hq : SameQueue (s'.queue q) (s.queue q)) (hm : s'.multiplexed = s.multiplexed)
    (hjob : ∀ j ∈ lane.jobs, (s'.job j).next = (s.job j).next ∧
      (s'.job j).payload = (s.job j).payload) : s'.Lane q lane := by
  obtain ⟨h₁, h₂, h₃, h₄⟩ := hq
  refine ⟨?_, h₂.trans h.tail, h₃.trans h.streamId, h₄.trans h.deficit, fun j hj => ?_⟩
  · rw [h₁]
    exact h.path.congr fun j hj => (hjob j hj).1
  · obtain ⟨p, hp, hid⟩ := h.payload j hj
    refine ⟨p, (hjob j hj).2.trans hp, ?_⟩
    unfold streamIdOf
    rw [hm]
    exact hid

theorem lanes_congr {s s' : Scheduler} {refs : List Nat} {qs : List (Queue Nat Nat)}
    (h : List.Forall₂ s.Lane refs qs)
    (hsame : ∀ q ∈ refs, ∀ lane ∈ qs, s.Lane q lane → s'.Lane q lane) :
    List.Forall₂ s'.Lane refs qs := by
  induction h with
  | nil => exact .nil
  | cons hlane hrest ih =>
    exact .cons (hsame _ List.mem_cons_self _ List.mem_cons_self hlane)
      (ih fun q hq lane hl => hsame q (List.mem_cons_of_mem _ hq) lane (List.mem_cons_of_mem _ hl))

theorem Rep.congr {s s' : Scheduler} {refs : List Nat} {r : Ring Nat Nat} (h : s.Rep refs r)
    (hqueue : s'.queue = s.queue) (hm : s'.multiplexed = s.multiplexed)
    (hhead : s'.sendHead = s.sendHead) (htail : s'.sendTail = s.sendTail)
    (hqs : s'.sendQueues = s.sendQueues) (hmade : s'.queues = s.queues)
    (hjob : ∀ j ∈ r.all, (s'.job j).next = (s.job j).next ∧
      (s'.job j).payload = (s.job j).payload) : s'.Rep refs r := by
  refine ⟨?_, by rw [htail]; exact h.tail, lanes_congr h.lanes fun q _ lane hl hlane => ?_,
    fun id q => ?_, fun q hq => ?_⟩
  · rw [hhead]
    exact h.path.congr fun q _ => by unfold queueNext; rw [hqueue]
  · refine hlane.congr (by rw [hqueue]; exact ⟨rfl, rfl, rfl, rfl⟩) hm fun j hj => hjob j ?_
    exact List.mem_flatMap.mpr ⟨lane, hl, hj⟩
  · rw [hqs, hqueue]
    exact h.keys id q
  · rw [hmade]
    exact h.made q hq

theorem Rep.lane {s : Scheduler} {refs : List Nat} {r : Ring Nat Nat} (h : s.Rep refs r) {q : Nat}
    (hq : q ∈ refs) : ∃ lane ∈ r.queues, s.Lane q lane := by
  have hlanes := h.lanes
  clear h
  generalize r.queues = qs at hlanes
  induction hlanes with
  | nil => cases hq
  | @cons q' lane refs qs hlane hrest ih =>
    rcases List.mem_cons.mp hq with rfl | hq
    · exact ⟨lane, List.mem_cons_self, hlane⟩
    · obtain ⟨lane', hl, hlane'⟩ := ih hq
      exact ⟨lane', List.mem_cons_of_mem _ hl, hlane'⟩

theorem Rep.ref {s : Scheduler} {refs : List Nat} {r : Ring Nat Nat} (h : s.Rep refs r)
    {lane : Queue Nat Nat} (hl : lane ∈ r.queues) : ∃ q ∈ refs, s.Lane q lane := by
  have hlanes := h.lanes
  clear h
  generalize r.queues = qs at hlanes hl
  induction hlanes with
  | nil => cases hl
  | @cons q lane' refs qs hlane hrest ih =>
    rcases List.mem_cons.mp hl with rfl | hl
    · exact ⟨q, List.mem_cons_self, hlane⟩
    · obtain ⟨q', hq, hlane'⟩ := ih hl
      exact ⟨q', List.mem_cons_of_mem _ hq, hlane'⟩

theorem Rep.inj {s : Scheduler} {refs : List Nat} {r : Ring Nat Nat} (h : s.Rep refs r) {q q' : Nat}
    (hq : q ∈ refs) (hq' : q' ∈ refs) (hid : (s.queue q).streamId = (s.queue q').streamId) : q = q' := by
  have h₁ := (h.keys _ q).mpr ⟨hq, rfl⟩
  have h₂ := (h.keys _ q').mpr ⟨hq', rfl⟩
  rw [hid] at h₁
  exact Option.some.inj (h₁.symm.trans h₂)

theorem Rep.key_of_mem {s : Scheduler} {refs : List Nat} {r : Ring Nat Nat} (h : s.Rep refs r)
    {lane lane' : Queue Nat Nat} (hl : lane ∈ r.queues) (hl' : lane' ∈ r.queues) {j : Nat}
    (hj : j ∈ lane.jobs) (hj' : j ∈ lane'.jobs) : lane.key = lane'.key := by
  obtain ⟨q, -, hlane⟩ := h.ref hl
  obtain ⟨q', -, hlane'⟩ := h.ref hl'
  obtain ⟨p, hp, hid⟩ := hlane.payload j hj
  obtain ⟨p', hp', hid'⟩ := hlane'.payload j hj'
  obtain rfl := Option.some.inj (hp.symm.trans hp')
  exact hid.symm.trans hid'

/-! ## Taking the next job -/

/-- The deficit counts bytes, that of the ring cells. -/
theorem deficit_cells (d : Nat) :
    (if cellSize * d = 0 then sendQuantumBytes else cellSize * d) - cellSize =
      cellSize * ((if d = 0 then sendQuantum else d) - 1) := by
  have hc : cellSize = 1200 := rfl
  have hq : sendQuantumBytes = 4800 := rfl
  have hs : sendQuantum = 4 := rfl
  rw [hc, hq, hs]
  split <;> split <;> omega

theorem Rep.others {s s' : Scheduler} {q : Nat} {refs : List Nat} {lane : Queue Nat Nat}
    {qs : List (Queue Nat Nat)} {r : Ring Nat Nat} (h : s.Rep (q :: refs) r)
    (hr : r.queues = lane :: qs) (hm : s'.multiplexed = s.multiplexed)
    (hqueue : ∀ q' ∈ refs, SameQueue (s'.queue q') (s.queue q'))
    (hjob : ∀ j, j ∉ lane.jobs → (s'.job j).next = (s.job j).next ∧
      (s'.job j).payload = (s.job j).payload) : List.Forall₂ s'.Lane refs qs := by
  have hlanes := h.lanes
  have hn := r.nodup
  rw [hr] at hlanes hn
  cases hlanes with
  | cons hlane hrest =>
    refine lanes_congr hrest fun q' hq' lane' hl' hlane' =>
      hlane'.congr (hqueue q' hq') hm fun j hj => hjob j fun hin => ?_
    have hkey : lane.key = lane'.key :=
      h.key_of_mem (hr ▸ List.mem_cons_self) (hr ▸ List.mem_cons_of_mem _ hl') hin hj
    exact (List.nodup_cons.mp hn).1 (hkey ▸ List.mem_map_of_mem hl')

/-- `s'` is `s` with the job `j` taken out of the lists. -/
structure Taken (s s' : Scheduler) (j : Nat) : Prop where
  eq : s' = { s with
    job := s'.job
    queue := s'.queue
    sendQueues := s'.sendQueues
    sendHead := s'.sendHead
    sendTail := s'.sendTail
    queuedSends := s.queuedSends - 1 }
  job : s'.job = Function.update s.job j { s.job j with next := none }

/-- The state once the first job `j` of the first queue `q` is taken. -/
def served (s : Scheduler) (q j : Nat) : Scheduler :=
  { s with
    job := Function.update s.job j { s.job j with next := none }
    queue := Function.update s.queue q (takeJob (s.queue q) (s.job j).next)
    queuedSends := s.queuedSends - 1 }

/-- The state once that queue has moved behind the last one, `t`. -/
def rotated (s : Scheduler) (q j t : Nat) : Scheduler :=
  let queue := Function.update (s.served q j).queue q
    { takeJob (s.queue q) (s.job j).next with next := none }
  { s.served q j with
    sendHead := s.queueNext q
    queue := Function.update queue t { queue t with next := some q }
    sendTail := some q }

theorem nextSend_eq {s : Scheduler} {q j : Nat} (hq : s.sendHead = some q)
    (hj : (s.queue q).head = some j) : s._nextSend =
      if (s.job j).next = none then
        some (j, { s.served q j with
          sendQueues := s.sendQueues.delete (s.queue q).streamId
          sendHead := s.queueNext q
          sendTail := if s.sendTail = some q then none else s.sendTail })
      else if (takeJob (s.queue q) (s.job j).next).deficit = 0 ∧ s.sendTail ≠ some q then
        match s.sendTail with
        | none => none
        | some t => some (j, s.rotated q j t)
      else some (j, s.served q j) := by
  unfold _nextSend
  rw [hq]
  dsimp only
  rw [hj]
  simp only [head_takeJob, streamId_takeJob, next_takeJob]
  by_cases hlast : (s.job j).next = none
  · exact (if_pos hlast).trans (if_pos hlast).symm
  · refine (if_neg hlast).trans (Eq.trans ?_ (if_neg hlast).symm)
    by_cases hturn : (takeJob (s.queue q) (s.job j).next).deficit = 0 ∧ s.sendTail ≠ some q
    · refine (if_pos hturn).trans (Eq.trans ?_ (if_pos hturn).symm)
      cases s.sendTail with
      | none => rfl
      | some t =>
        simp only [rotated, served, queueNext, head_takeJob, streamId_takeJob]
    · refine (if_neg hturn).trans (Eq.trans ?_ (if_neg hturn).symm)
      rw [← hq]
      rfl

/-- The queue that was served, if it has another job. -/
theorem Lane.served {s s' : Scheduler} {q j : Nat} {rest : List Nat} {lane : Queue Nat Nat}
    (h : s.Lane q lane) (hj : lane.jobs = j :: rest) (hrest : rest ≠ [])
    (hq : SameQueue (s'.queue q) (takeJob (s.queue q) (s.job j).next))
    (hjob : s'.job = Function.update s.job j { s.job j with next := none })
    (hm : s'.multiplexed = s.multiplexed) :
    s'.Lane q ⟨lane.key, rest, (if lane.deficit = 0 then sendQuantum else lane.deficit) - 1⟩ := by
  obtain ⟨h₁, h₂, h₃, h₄⟩ := hq
  have hpath := h.path
  rw [hj] at hpath
  have hn := hpath.nodup
  have hne : ∀ i ∈ rest, i ≠ j := fun i hi => ne_of_mem_of_not_mem hi (List.nodup_cons.mp hn).1
  refine ⟨?_, ?_, ?_, ?_, fun i hi => ?_⟩
  · rw [h₁, head_takeJob]
    refine hpath.2.congr fun i hi => ?_
    unfold jobNext
    rw [hjob, Function.update_of_ne (hne i hi)]
  · rw [h₂, tail_takeJob, h.tail, hj, List.getLast?_cons_of_ne_nil hrest]
  · rw [h₃, streamId_takeJob, h.streamId]
  · rw [h₄, deficit_takeJob, h.deficit]
    exact deficit_cells lane.deficit
  · obtain ⟨p, hp, hid⟩ := h.payload i (by rw [hj]; exact List.mem_cons_of_mem _ hi)
    refine ⟨p, ?_, ?_⟩
    · rw [hjob, Function.update_of_ne (hne i hi)]
      exact hp
    · unfold streamIdOf
      rw [hm]
      exact hid

/-- The last queue of a list is its first one only if there is no other. -/
theorem getLast?_eq_head {q : Nat} {refs : List Nat} (hq : q ∉ refs) :
    (q :: refs).getLast? = some q ↔ refs = [] := by
  cases refs with
  | nil => simp
  | cons q' refs =>
    rw [List.getLast?_cons_of_ne_nil (List.cons_ne_nil _ _)]
    constructor
    · intro h
      exact absurd (List.mem_of_getLast? h) hq
    · intro h
      cases h

/-- The first queue of the list and its first job. -/
structure Front (s : Scheduler) (refs : List Nat) (r : Ring Nat Nat) (q j : Nat) (lane : Queue Nat Nat)
    (qs : List (Queue Nat Nat)) (rest : List Nat) : Prop where
  rep : s.Rep (q :: refs) r
  queues : r.queues = lane :: qs
  jobs : lane.jobs = j :: rest
  lane : s.Lane q lane

section
variable {s : Scheduler} {refs : List Nat} {r : Ring Nat Nat} {q j : Nat} {lane : Queue Nat Nat}
  {qs : List (Queue Nat Nat)} {rest : List Nat}

theorem Front.path (h : s.Front refs r q j lane qs rest) :
    (s.queue q).head = some j ∧ Path s.jobNext (s.job j).next rest := by
  have hpath := h.lane.path
  rw [h.jobs] at hpath
  exact hpath

theorem Front.not_mem (h : s.Front refs r q j lane qs rest) : q ∉ refs :=
  (List.nodup_cons.mp h.rep.path.nodup).1

theorem Front.length (h : s.Front refs r q j lane qs rest) : refs = [] ↔ qs = [] := by
  have hlen := h.rep.lanes.length_eq
  rw [h.queues, List.length_cons, List.length_cons] at hlen
  rw [← List.length_eq_zero_iff, ← List.length_eq_zero_iff]
  omega

theorem Front.others (h : s.Front refs r q j lane qs rest) {s' : Scheduler}
    (hm : s'.multiplexed = s.multiplexed) (hqueue : ∀ q' ∈ refs, SameQueue (s'.queue q') (s.queue q'))
    (hjob : s'.job = Function.update s.job j { s.job j with next := none }) :
    List.Forall₂ s'.Lane refs qs := by
  refine h.rep.others h.queues hm hqueue fun i hi => ?_
  have hij : i ≠ j := by
    rintro rfl
    exact hi (by rw [h.jobs]; exact List.mem_cons_self)
  rw [hjob, Function.update_of_ne hij]
  exact ⟨rfl, rfl⟩

/-- Taking the job changes no other queue object, and neither ids nor `next`. -/
theorem served_queue (s : Scheduler) (q j q' : Nat) :
    (q' ≠ q → (s.served q j).queue q' = s.queue q') ∧
      ((s.served q j).queue q').streamId = (s.queue q').streamId ∧
      ((s.served q j).queue q').next = (s.queue q').next := by
  show (q' ≠ q → Function.update s.queue q _ q' = s.queue q') ∧
    (Function.update s.queue q _ q').streamId = _ ∧ (Function.update s.queue q _ q').next = _
  by_cases he : q' = q
  · rw [he, Function.update_self, streamId_takeJob, next_takeJob]
    exact ⟨fun hne => absurd rfl hne, rfl, rfl⟩
  · rw [Function.update_of_ne he]
    exact ⟨fun _ => rfl, rfl, rfl⟩

theorem served_self (s : Scheduler) (q j : Nat) :
    (s.served q j).queue q = takeJob (s.queue q) (s.job j).next :=
  Function.update_self _ _ _

theorem Front.deficit (h : s.Front refs r q j lane qs rest) :
    (takeJob (s.queue q) (s.job j).next).deficit = 0 ↔
      (if lane.deficit = 0 then sendQuantum else lane.deficit) - 1 = 0 := by
  rw [deficit_takeJob, h.lane.deficit, deficit_cells, Nat.mul_eq_zero]
  exact or_iff_right (by decide)

theorem Front.sendTail (h : s.Front refs r q j lane qs rest) : s.sendTail = some q ↔ qs = [] := by
  rw [h.rep.tail, getLast?_eq_head h.not_mem, h.length]

theorem Front.last (h : s.Front refs r q j lane qs rest) {r' : Ring Nat Nat} (hr' : r'.queues = qs) :
    Rep { s.served q j with
      sendQueues := s.sendQueues.delete (s.queue q).streamId
      sendHead := s.queueNext q
      sendTail := if s.sendTail = some q then none else s.sendTail } refs r' := by
  refine ⟨?_, ?_, ?_, fun id q' => ?_, fun q' hq' => h.rep.made q' (List.mem_cons_of_mem _ hq')⟩
  · exact h.rep.path.2.congr fun q' _ => (served_queue s q j q').2.2
  · show (if s.sendTail = some q then none else s.sendTail) = refs.getLast?
    by_cases hempty : qs = []
    · rw [if_pos (h.sendTail.mpr hempty), h.length.mpr hempty]
      rfl
    · rw [if_neg fun he => hempty (h.sendTail.mp he), h.rep.tail,
        List.getLast?_cons_of_ne_nil fun he => hempty (h.length.mp he)]
  · rw [hr']
    refine h.others rfl (fun q' hq' => ?_) rfl
    show SameQueue ((s.served q j).queue q') _
    rw [(served_queue s q j q').1 (ne_of_mem_of_not_mem hq' h.not_mem)]
    exact ⟨rfl, rfl, rfl, rfl⟩
  · show (s.sendQueues.delete (s.queue q).streamId).get? id = some q' ↔
      q' ∈ refs ∧ ((s.served q j).queue q').streamId = id
    rw [JsMap.get?_delete, (served_queue s q j q').2.1]
    by_cases he : id = (s.queue q).streamId
    · rw [if_pos he]
      refine ⟨fun hc => (Option.some_ne_none _ hc.symm).elim, fun ⟨hq', hid'⟩ => ?_⟩
      have heq := h.rep.inj (List.mem_cons_of_mem _ hq') List.mem_cons_self (hid'.trans he)
      exact absurd (heq ▸ hq') h.not_mem
    · rw [if_neg he, h.rep.keys id q', List.mem_cons]
      constructor
      · rintro ⟨rfl | hq', hid'⟩
        · exact absurd hid'.symm he
        · exact ⟨hq', hid'⟩
      · exact fun ⟨hq', hid'⟩ => ⟨.inr hq', hid'⟩

theorem Front.stay (h : s.Front refs r q j lane qs rest) (hrest : rest ≠ []) {r' : Ring Nat Nat}
    (hr' : r'.queues =
      ⟨lane.key, rest, (if lane.deficit = 0 then sendQuantum else lane.deficit) - 1⟩ :: qs) :
    (s.served q j).Rep (q :: refs) r' := by
  refine ⟨?_, h.rep.tail, ?_, fun id q' => ?_, h.rep.made⟩
  · exact h.rep.path.congr fun q' _ => (served_queue s q j q').2.2
  · rw [hr']
    refine .cons (h.lane.served h.jobs hrest ?_ rfl rfl) (h.others rfl (fun q' hq' => ?_) rfl)
    · rw [served_self]
      exact ⟨rfl, rfl, rfl, rfl⟩
    · rw [(served_queue s q j q').1 (ne_of_mem_of_not_mem hq' h.not_mem)]
      exact ⟨rfl, rfl, rfl, rfl⟩
  · rw [(served_queue s q j q').2.1]
    exact h.rep.keys id q'

/-- Moving the queue changes the `next` of two queue objects. -/
theorem rotated_queue {t : Nat} (ht : t ≠ q) :
    SameQueue ((s.rotated q j t).queue q) (takeJob (s.queue q) (s.job j).next) ∧
      ∀ q', q' ≠ q → SameQueue ((s.rotated q j t).queue q') ((s.served q j).queue q') := by
  unfold rotated
  dsimp only
  constructor
  · rw [Function.update_of_ne (Ne.symm ht), Function.update_self]
    exact ⟨rfl, rfl, rfl, rfl⟩
  · intro q' hq'
    by_cases he : q' = t
    · rw [he, Function.update_self, Function.update_of_ne ht]
      exact ⟨rfl, rfl, rfl, rfl⟩
    · rw [Function.update_of_ne he, Function.update_of_ne hq']
      exact ⟨rfl, rfl, rfl, rfl⟩

/-- The turn of the queue is over and it moves to the end of the list. -/
theorem Front.rotate {l : List Nat} {t : Nat} (h : s.Front (l ++ [t]) r q j lane qs rest)
    (hrest : rest ≠ [])
    (hturn : (if lane.deficit = 0 then sendQuantum else lane.deficit) - 1 = 0) {r' : Ring Nat Nat}
    (hr' : r'.queues = qs ++ [⟨lane.key, rest, 0⟩]) :
    (s.rotated q j t).Rep (l ++ [t] ++ [q]) r' := by
  have hq := h.not_mem
  have ht : t ≠ q := ne_of_mem_of_not_mem (List.mem_append_right _ List.mem_cons_self) hq
  obtain ⟨hself, hsame⟩ := rotated_queue (s := s) (j := j) ht
  refine ⟨?_, List.getLast?_concat.symm, ?_, fun id q' => ?_, fun q' hq' => ?_⟩
  · have hsnoc := (h.rep.path.2.update hq none).snoc hq (Function.update_self _ _ _)
    refine hsnoc.congr fun q' _ => ?_
    unfold queueNext rotated
    dsimp only
    by_cases he : q' = t
    · rw [he, Function.update_self, Function.update_self]
    · rw [Function.update_of_ne he, Function.update_of_ne he]
      by_cases he' : q' = q
      · rw [he', Function.update_self, Function.update_self]
      · rw [Function.update_of_ne he', Function.update_of_ne he']
        exact (served_queue s q j q').2.2
  · rw [hr']
    have hothers : List.Forall₂ (s.rotated q j t).Lane (l ++ [t]) qs := by
      refine h.others rfl (fun q' hq' => ?_) rfl
      have he := ne_of_mem_of_not_mem hq' hq
      rw [← (served_queue s q j q').1 he]
      exact hsame q' he
    have hlane' : (s.rotated q j t).Lane q _ := h.lane.served h.jobs hrest hself rfl rfl
    rw [hturn] at hlane'
    exact List.rel_append hothers (.cons hlane' .nil)
  · have hid' : ((s.rotated q j t).queue q').streamId = (s.queue q').streamId := by
      by_cases he : q' = q
      · rw [he, hself.2.2.1, streamId_takeJob]
      · rw [(hsame q' he).2.2.1, (served_queue s q j q').2.1]
    show s.sendQueues.get? id = some q' ↔ q' ∈ l ++ [t] ++ [q] ∧ _ = id
    rw [hid', h.rep.keys id q', List.mem_append, List.mem_singleton, List.mem_cons, or_comm]
  · rcases List.mem_append.mp hq' with hq' | hq'
    · exact h.rep.made q' (List.mem_cons_of_mem _ hq')
    · rw [List.mem_singleton.mp hq']
      exact h.rep.made q List.mem_cons_self

theorem Front.next (h : s.Front refs r q j lane qs rest) :
    ∃ (r' : Ring Nat Nat) (refs' : List Nat) (s' : Scheduler),
      r.next sendQuantum = some (lane.key, j, r') ∧ s._nextSend = some (j, s') ∧ s'.Rep refs' r' ∧
      Taken s s' j := by
  obtain ⟨hhead, hpath⟩ := h.path
  have hserve : RoundRobin.serve sendQuantum r.queues = some (lane.key, j,
      if rest = [] then qs
      else if (if lane.deficit = 0 then sendQuantum else lane.deficit) - 1 = 0 ∧ qs ≠ [] then
        qs ++ [⟨lane.key, rest, 0⟩]
      else ⟨lane.key, rest, (if lane.deficit = 0 then sendQuantum else lane.deficit) - 1⟩ :: qs) := by
    rw [h.queues, RoundRobin.serve, h.jobs]
  obtain ⟨r', hr', hqs'⟩ := Ring.next_of_serve hserve
  have hsend := nextSend_eq h.rep.path.1 hhead
  by_cases hlast : rest = []
  · have hnone : (s.job j).next = none := by
      rw [hlast] at hpath
      exact hpath
    rw [if_pos hnone] at hsend
    rw [if_pos hlast] at hqs'
    exact ⟨r', refs, _, hr', hsend, h.last hqs', ⟨rfl, rfl⟩⟩
  · have hsome : (s.job j).next ≠ none := by
      obtain ⟨i, rest', rfl⟩ := List.exists_cons_of_ne_nil hlast
      rw [hpath.1]
      exact Option.some_ne_none i
    rw [if_neg hsome] at hsend
    rw [if_neg hlast] at hqs'
    by_cases hturn : (if lane.deficit = 0 then sendQuantum else lane.deficit) - 1 = 0 ∧ qs ≠ []
    · have hcond : (takeJob (s.queue q) (s.job j).next).deficit = 0 ∧ s.sendTail ≠ some q :=
        ⟨h.deficit.mpr hturn.1, fun he => hturn.2 (h.sendTail.mp he)⟩
      have hrne : refs ≠ [] := fun he => hturn.2 (h.length.mp he)
      obtain ⟨l, t, rfl⟩ : ∃ l t, refs = l ++ [t] :=
        ⟨refs.dropLast, refs.getLast hrne, (List.dropLast_append_getLast hrne).symm⟩
      have htl : s.sendTail = some t := by
        rw [h.rep.tail, List.getLast?_cons_of_ne_nil hrne, List.getLast?_concat]
      rw [if_pos hcond, htl] at hsend
      rw [if_pos hturn] at hqs'
      exact ⟨r', _, _, hr', hsend, h.rotate hlast hturn.1 hqs', ⟨rfl, rfl⟩⟩
    · have hcond : ¬((takeJob (s.queue q) (s.job j).next).deficit = 0 ∧ s.sendTail ≠ some q) :=
        fun hc => hturn ⟨h.deficit.mp hc.1, fun he => hc.2 (h.sendTail.mpr he)⟩
      rw [if_neg hcond] at hsend
      rw [if_neg hturn] at hqs'
      exact ⟨r', _, _, hr', hsend, h.stay hlast hqs', ⟨rfl, rfl⟩⟩

end

theorem Rep.next {s : Scheduler} {refs : List Nat} {r : Ring Nat Nat} (h : s.Rep refs r)
    (hne : r.queues ≠ []) :
    ∃ (k j : Nat) (r' : Ring Nat Nat) (refs' : List Nat) (s' : Scheduler) (p : List UInt8),
      r.next sendQuantum = some (k, j, r') ∧ s._nextSend = some (j, s') ∧ s'.Rep refs' r' ∧
      Taken s s' j ∧ (s.job j).payload = some p ∧ s.streamIdOf p = k := by
  obtain ⟨lane, qs, hr⟩ := List.exists_cons_of_ne_nil hne
  obtain ⟨j, rest, hj⟩ := List.exists_cons_of_ne_nil (r.nonempty lane (hr ▸ List.mem_cons_self))
  have hlanes := h.lanes
  rw [hr] at hlanes
  cases hlanes with
  | cons hlane hrest =>
    obtain ⟨p, hp, hid⟩ := hlane.payload j (by rw [hj]; exact List.mem_cons_self)
    obtain ⟨r', refs', s', hr', hs', hrep', ht⟩ := Front.next ⟨h, hr, hj, hlane⟩
    exact ⟨lane.key, j, r', refs', s', p, hr', hs', hrep', ht, hp, hid⟩

/-! ## Queueing a job -/

/-- A job that is in no list yet. -/
structure Fresh (s : Scheduler) (r : Ring Nat Nat) (j id : Nat) : Prop where
  next : (s.job j).next = none
  payload : ∃ p, (s.job j).payload = some p ∧ s.streamIdOf p = id
  notQueued : j ∉ r.all

/-- The job `j` is linked behind the last job of an existing queue. -/
theorem lanes_insert {s : Scheduler} {refs : List Nat} {qs : List (Queue Nat Nat)}
    (h : List.Forall₂ s.Lane refs qs) {q t j id : Nat} (hn : refs.Nodup)
    (hkeys : (qs.map Queue.key).Nodup) (hid : (s.queue q).streamId = id)
    (huniq : ∀ q' ∈ refs, (s.queue q').streamId = id → q' = q)
    (htail : (s.queue q).tail = some t) (ht : ∃ p, (s.job t).payload = some p ∧ s.streamIdOf p = id)
    (hnext : (s.job j).next = none) (hpay : ∃ p, (s.job j).payload = some p ∧ s.streamIdOf p = id)
    (hj : j ∉ allJobs qs) :
    List.Forall₂ (Lane { s with
      job := Function.update s.job t { s.job t with next := some j }
      queue := Function.update s.queue q { s.queue q with tail := some j } }) refs
      (RoundRobin.insert id j qs) ∨ id ∉ qs.map Queue.key := by
  -- a lane of another stream holds neither `t` nor the queue object
  have hother : ∀ q' lane', s.Lane q' lane' → lane'.key ≠ id → Lane { s with
      job := Function.update s.job t { s.job t with next := some j }
      queue := Function.update s.queue q { s.queue q with tail := some j } } q' lane' := by
    intro q' lane' hlane' hne
    have hq' : q' ≠ q := by
      rintro rfl
      exact hne (hlane'.streamId.symm.trans hid)
    refine hlane'.congr ?_ rfl fun i hi => ?_
    · show SameQueue (Function.update s.queue q _ q') _
      rw [Function.update_of_ne hq']
      exact ⟨rfl, rfl, rfl, rfl⟩
    · have hit : i ≠ t := by
        rintro rfl
        obtain ⟨p, hp, hpid⟩ := hlane'.payload i hi
        obtain ⟨p', hp', hpid'⟩ := ht
        obtain rfl := Option.some.inj (hp.symm.trans hp')
        exact hne (hpid.symm.trans hpid')
      show (Function.update s.job t _ i).next = _ ∧ (Function.update s.job t _ i).payload = _
      rw [Function.update_of_ne hit]
      exact ⟨rfl, rfl⟩
  induction h with
  | nil => exact .inr List.not_mem_nil
  | @cons q₀ lane refs qs hlane hrest ih =>
    obtain ⟨hq₀, hn⟩ := List.nodup_cons.mp hn
    obtain ⟨hkey, hkeys⟩ := List.nodup_cons.mp hkeys
    have hj' : j ∉ lane.jobs ∧ j ∉ allJobs qs := by
      constructor
      · exact fun hin => hj (List.mem_append_left _ hin)
      · exact fun hin => hj (List.mem_append_right _ hin)
    unfold RoundRobin.insert
    by_cases he : lane.key = id
    · rw [if_pos he]
      obtain rfl : q₀ = q := huniq q₀ List.mem_cons_self (hlane.streamId.trans he)
      refine .inl (.cons ⟨?_, ?_, ?_, ?_, fun i hi => ?_⟩ (lanes_congr hrest fun q' hq' lane' hl' hlane' =>
        hother q' lane' hlane' fun hk => hkey (he ▸ hk ▸ List.mem_map_of_mem hl')))
      · obtain ⟨l, hl⟩ : ∃ l, lane.jobs = l ++ [t] :=
          List.getLast?_eq_some_iff.mp (hlane.tail.symm.trans htail)
        have hpath := hlane.path
        rw [hl] at hpath hj'
        show Path _ (Function.update s.queue q₀ _ q₀).head (lane.jobs ++ [j])
        rw [hl, Function.update_self]
        refine (hpath.snoc hj'.1 hnext).congr fun i _ => ?_
        show (Function.update s.job t _ i).next = _
        by_cases hit : i = t
        · rw [hit, Function.update_self, Function.update_self]
        · rw [Function.update_of_ne hit, Function.update_of_ne hit]
          rfl
      · show (Function.update s.queue q₀ _ q₀).tail = (lane.jobs ++ [j]).getLast?
        rw [Function.update_self, List.getLast?_concat]
      · show (Function.update s.queue q₀ _ q₀).streamId = lane.key
        rw [Function.update_self]
        exact hlane.streamId
      · show (Function.update s.queue q₀ _ q₀).deficit = cellSize * lane.deficit
        rw [Function.update_self]
        exact hlane.deficit
      · have hi' : i ∈ lane.jobs ++ [j] := hi
        have hsame : (Function.update s.job t { s.job t with next := some j } i).payload =
            (s.job i).payload := by
          by_cases hit : i = t
          · rw [hit, Function.update_self]
          · rw [Function.update_of_ne hit]
        obtain ⟨p, hp, hpid⟩ : ∃ p, (s.job i).payload = some p ∧ s.streamIdOf p = lane.key := by
          rcases List.mem_append.mp hi' with hi' | hi'
          · exact hlane.payload i hi'
          · rw [List.mem_singleton.mp hi', he]
            exact hpay
        exact ⟨p, hsame.trans hp, hpid⟩
    · rw [if_neg he]
      rcases ih hn hkeys (fun q' hq' => huniq q' (List.mem_cons_of_mem _ hq')) hj'.2 with hok | hno
      · exact .inl (.cons (hother q₀ lane hlane he) hok)
      · refine .inr ?_
        rw [List.map_cons, List.mem_cons, not_or]
        exact ⟨Ne.symm he, hno⟩

/-- What `send` leaves of the jobs: only `next` fields change. -/
structure Linked (s s' : Scheduler) : Prop where
  eq : s' = { s with
    job := s'.job
    queue := s'.queue
    queues := s'.queues
    sendQueues := s'.sendQueues
    sendHead := s'.sendHead
    sendTail := s'.sendTail }
  payload : ∀ i, (s'.job i).payload = (s.job i).payload
  isData : ∀ i, (s'.job i).isData = (s.job i).isData
  settled : ∀ i, (s'.job i).settled = (s.job i).settled

theorem Rep.push_old {s : Scheduler} {refs : List Nat} {r : Ring Nat Nat} (h : s.Rep refs r)
    {q j id : Nat} (hf : s.Fresh r j id) (hq : s.sendQueues.get? id = some q) :
    (s.pushJob q j).Rep refs (r.enqueue id j) ∧ Linked s (s.pushJob q j) := by
  obtain ⟨hmem, hid⟩ := (h.keys id q).mp hq
  obtain ⟨lane, hl, hlane⟩ := h.lane hmem
  obtain ⟨t, ht⟩ : ∃ t, (s.queue q).tail = some t := by
    rw [hlane.tail]
    exact ⟨_, List.getLast?_eq_some_getLast (r.nonempty lane hl)⟩
  have htl : t ∈ lane.jobs := List.mem_of_getLast? (hlane.tail.symm.trans ht)
  have hkey : lane.key = id := hlane.streamId.symm.trans hid
  have hstream : ∀ q', (Function.update s.queue q { s.queue q with tail := some j } q').streamId =
      (s.queue q').streamId := by
    intro q'
    by_cases he : q' = q
    · rw [he, Function.update_self]
    · rw [Function.update_of_ne he]
  have hpayload : ∀ i, (Function.update s.job t { s.job t with next := some j } i).payload =
        (s.job i).payload ∧
      (Function.update s.job t { s.job t with next := some j } i).isData = (s.job i).isData ∧
      (Function.update s.job t { s.job t with next := some j } i).settled = (s.job i).settled := by
    intro i
    by_cases he : i = t
    · rw [he, Function.update_self]
      exact ⟨rfl, rfl, rfl⟩
    · rw [Function.update_of_ne he]
      exact ⟨rfl, rfl, rfl⟩
  unfold pushJob
  rw [ht]
  refine ⟨⟨?_, h.tail, ?_, fun id' q' => ?_, h.made⟩, ⟨rfl, fun i => (hpayload i).1,
    fun i => (hpayload i).2.1, fun i => (hpayload i).2.2⟩⟩
  · refine h.path.congr fun q' _ => ?_
    show (Function.update s.queue q _ q').next = (s.queue q').next
    by_cases he : q' = q
    · rw [he, Function.update_self]
    · rw [Function.update_of_ne he]
  · rcases lanes_insert h.lanes h.path.nodup r.nodup hid
      (fun q' hq' hid' => h.inj hq' hmem (hid'.trans hid.symm)) ht
      (hkey ▸ hlane.payload t htl) hf.next hf.payload hf.notQueued with hok | hno
    · exact hok
    · exact absurd (hkey ▸ List.mem_map_of_mem hl) hno
  · show s.sendQueues.get? id' = some q' ↔ q' ∈ refs ∧ (Function.update s.queue q _ q').streamId = id'
    rw [hstream]
    exact h.keys id' q'

/-- The heap after a new queue object with one job is made behind the queue `t`. -/
def queueBehind (s : Scheduler) (t : Option Nat) (id j : Nat) : Nat → SendQueue :=
  let queue := Function.update s.queue s.queues ⟨id, none, none, 0, none⟩
  let queue :=
    match t with
    | some t => Function.update queue t { queue t with next := some s.queues }
    | none => queue
  Function.update queue s.queues { queue s.queues with head := some j, tail := some j }

theorem pushJob_queueFor {s : Scheduler} {id : Nat} (hq : s.sendQueues.get? id = none)
    (ht : ∀ t, s.sendTail = some t → t ≠ s.queues) (j : Nat) :
    (s.queueFor id).1.pushJob (s.queueFor id).2 j = { s with
      queue := s.queueBehind s.sendTail id j
      queues := s.queues + 1
      sendQueues := s.sendQueues.set id s.queues
      sendHead := if s.sendTail = none then some s.queues else s.sendHead
      sendTail := some s.queues } := by
  unfold queueFor
  rw [hq]
  dsimp only
  cases hst : s.sendTail with
  | none =>
    dsimp only
    unfold pushJob queueBehind
    dsimp only
    rw [Function.update_self]
    rfl
  | some t =>
    dsimp only
    have htail : (Function.update (Function.update s.queue s.queues ⟨id, none, none, 0, none⟩) t
        { Function.update s.queue s.queues ⟨id, none, none, 0, none⟩ t with next := some s.queues }
        s.queues).tail = none := by
      rw [Function.update_of_ne (Ne.symm (ht t hst)), Function.update_self]
    unfold pushJob
    dsimp only
    rw [htail]
    rfl

theorem Rep.push_new {s : Scheduler} {refs : List Nat} {r : Ring Nat Nat} (h : s.Rep refs r)
    {j id : Nat} (hf : s.Fresh r j id) (hq : s.sendQueues.get? id = none) :
    ((s.queueFor id).1.pushJob (s.queueFor id).2 j).Rep (refs ++ [s.queues]) (r.enqueue id j) ∧
      Linked s ((s.queueFor id).1.pushJob (s.queueFor id).2 j) := by
  have hnew : s.queues ∉ refs := fun hin => Nat.lt_irrefl _ (h.made _ hin)
  have htail : ∀ t, s.sendTail = some t → t ≠ s.queues := fun t ht =>
    ne_of_mem_of_not_mem (List.mem_of_getLast? (h.tail.symm.trans ht)) hnew
  have hself : s.queueBehind s.sendTail id j s.queues = ⟨id, some j, some j, 0, none⟩ := by
    unfold queueBehind
    cases hst : s.sendTail with
    | none => simp only [Function.update_self]
    | some t =>
      dsimp only
      rw [Function.update_self, Function.update_of_ne (Ne.symm (htail t hst)), Function.update_self]
  have hother : ∀ q', q' ≠ s.queues → SameQueue (s.queueBehind s.sendTail id j q') (s.queue q') ∧
      (s.queueBehind s.sendTail id j q').next =
        if s.sendTail = some q' then some s.queues else (s.queue q').next := by
    intro q' hne
    unfold queueBehind
    cases hst : s.sendTail with
    | none =>
      dsimp only
      rw [Function.update_of_ne hne, Function.update_of_ne hne]
      exact ⟨⟨rfl, rfl, rfl, rfl⟩, rfl⟩
    | some t =>
      dsimp only
      rw [Function.update_of_ne hne]
      by_cases he : q' = t
      · rw [he, Function.update_self, Function.update_of_ne (htail t hst), if_pos rfl]
        exact ⟨⟨rfl, rfl, rfl, rfl⟩, rfl⟩
      · rw [Function.update_of_ne he, Function.update_of_ne hne,
          if_neg fun hc => he (Option.some.inj hc).symm]
        exact ⟨⟨rfl, rfl, rfl, rfl⟩, rfl⟩
  have hkey : id ∉ r.queues.map Queue.key := by
    intro hin
    obtain ⟨lane, hl, hk⟩ := List.mem_map.mp hin
    obtain ⟨q, hqm, hlane⟩ := h.ref hl
    have := (h.keys id q).mpr ⟨hqm, hlane.streamId.trans hk⟩
    rw [hq] at this
    cases this
  rw [pushJob_queueFor hq htail]
  refine ⟨⟨?_, List.getLast?_concat.symm, ?_, fun id' q' => ?_, fun q' hq' => ?_⟩,
    ⟨rfl, fun _ => rfl, fun _ => rfl, fun _ => rfl⟩⟩
  · have hpath := h.path
    have ht := h.tail
    have hsn : (s.queueBehind s.sendTail id j s.queues).next = none := by rw [hself]
    rcases List.eq_nil_or_concat refs with rfl | ⟨l, t, rfl⟩
    · show Path _ (if s.sendTail = none then some s.queues else s.sendHead) [s.queues]
      rw [if_pos (show s.sendTail = none from ht)]
      exact ⟨rfl, hsn⟩
    · rw [List.concat_eq_append] at *
      rw [List.getLast?_concat] at ht
      show Path _ (if s.sendTail = none then some s.queues else s.sendHead) _
      rw [if_neg (by rw [ht]; exact Option.some_ne_none t)]
      have hsnoc := (hpath.update hnew none).snoc hnew (Function.update_self _ _ _)
      refine hsnoc.congr fun q' hq' => ?_
      unfold queueNext
      dsimp only
      by_cases he : q' = s.queues
      · rw [he, hsn, Function.update_of_ne (Ne.symm (htail t ht)), Function.update_self]
      · rw [(hother q' he).2, ht]
        by_cases he' : q' = t
        · rw [he', Function.update_self, if_pos rfl]
        · rw [Function.update_of_ne he', Function.update_of_ne he,
            if_neg fun hc => he' (Option.some.inj hc).symm]
  · show List.Forall₂ _ _ (RoundRobin.insert id j r.queues)
    rw [insert_of_not_mem hkey]
    refine List.rel_append (lanes_congr h.lanes fun q' hq' lane _ hlane => ?_) (.cons ?_ .nil)
    · have hne := ne_of_mem_of_not_mem hq' hnew
      exact hlane.congr (hother q' hne).1 rfl fun _ _ => ⟨rfl, rfl⟩
    · refine ⟨?_, ?_, ?_, ?_, fun i hi => ?_⟩
      · show Path _ (s.queueBehind s.sendTail id j s.queues).head [j]
        rw [hself]
        exact ⟨rfl, hf.next⟩
      · show (s.queueBehind s.sendTail id j s.queues).tail = _
        rw [hself]
        rfl
      · show (s.queueBehind s.sendTail id j s.queues).streamId = _
        rw [hself]
      · show (s.queueBehind s.sendTail id j s.queues).deficit = cellSize * 0
        rw [hself]
        rfl
      · rw [List.mem_singleton.mp hi]
        exact hf.payload
  · show (s.sendQueues.set id s.queues).get? id' = some q' ↔
      q' ∈ refs ++ [s.queues] ∧ (s.queueBehind s.sendTail id j q').streamId = id'
    rw [JsMap.get?_set, List.mem_append, List.mem_singleton]
    by_cases he : q' = s.queues
    · rw [he, hself]
      by_cases hid : id' = id
      · rw [if_pos hid]
        exact ⟨fun _ => ⟨.inr rfl, hid.symm⟩, fun _ => rfl⟩
      · rw [if_neg hid, h.keys id' s.queues]
        exact ⟨fun hc => absurd hc.1 hnew, fun hc => absurd hc.2.symm hid⟩
    · rw [(hother q' he).1.2.2.1]
      by_cases hid : id' = id
      · rw [if_pos hid]
        constructor
        · intro hc
          exact absurd (Option.some.inj hc).symm he
        · rintro ⟨hin | hin, hid'⟩
          · have := (h.keys id q').mpr ⟨hin, hid'.trans hid⟩
            rw [hq] at this
            cases this
          · exact absurd hin he
      · rw [if_neg hid, h.keys id' q']
        exact ⟨fun hc => ⟨.inl hc.1, hc.2⟩, fun hc => ⟨hc.1.resolve_right he, hc.2⟩⟩
  · rcases List.mem_append.mp hq' with hq' | hq'
    · exact Nat.lt_succ_of_lt (h.made q' hq')
    · rw [List.mem_singleton.mp hq']
      exact Nat.lt_succ_self _

theorem Rep.push {s : Scheduler} {refs : List Nat} {r : Ring Nat Nat} (h : s.Rep refs r) {j id : Nat}
    (hf : s.Fresh r j id) :
    ∃ refs', ((s.queueFor id).1.pushJob (s.queueFor id).2 j).Rep refs' (r.enqueue id j) ∧
      Linked s ((s.queueFor id).1.pushJob (s.queueFor id).2 j) := by
  cases hq : s.sendQueues.get? id with
  | none => exact ⟨_, h.push_new hf hq⟩
  | some q =>
    have he : s.queueFor id = (s, q) := by
      unfold queueFor
      rw [hq]
    rw [he]
    exact ⟨refs, h.push_old hf hq⟩

theorem Rep.values {s : Scheduler} {refs : List Nat} {r : Ring Nat Nat} (h : s.Rep refs r) :
    s.sendQueues.values.Perm refs := by
  refine (List.perm_ext_iff_of_nodup ?_ h.path.nodup).mpr fun q => ?_
  · unfold JsMap.values
    refine List.Nodup.map_on (fun x hx y hy hxy => ?_) s.sendQueues.nodup.of_map
    have hx' := (h.keys x.1 x.2).mp (JsMap.mem_entries.mp hx)
    have hy' := (h.keys y.1 y.2).mp (JsMap.mem_entries.mp hy)
    rw [← hxy] at hy'
    exact Prod.ext (hx'.2.symm.trans hy'.2) hxy
  · rw [JsMap.mem_values]
    constructor
    · rintro ⟨id, hid⟩
      exact ((h.keys id q).mp hid).1
    · exact fun hq => ⟨_, (h.keys _ q).mpr ⟨hq, rfl⟩⟩

end Scheduler

end HyperDht.Private
