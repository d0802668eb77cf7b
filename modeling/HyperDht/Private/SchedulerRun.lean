import HyperDht.Private.SchedulerHeap

/-!
# The send scheduler is a correct multi-queue

`Books` counts the promises that are not settled. Together with the lists of the
heap it is kept while the link is open (`Running`), also between the steps of
filling a batch, and a link that is destroyed at any of these points has settled
everything (`Dead`).
-/

namespace HyperDht.Private

open LinkedList RoundRobin

namespace Scheduler

/-! ## Promises -/

/-- The promises of the jobs `out` are pending, all others that were returned are
settled, and the counters count `out`. -/
structure Books (s : Scheduler) (out : List Nat) : Prop where
  nodup : out.Nodup
  unsettled : ∀ j ∈ out, j < s.returned ∧ (s.job j).settled = false ∧ s.settlements j = 0
  settled : ∀ j < s.returned, j ∉ out → s.settlements j = 1
  fresh : ∀ j, s.returned ≤ j → s.settlements j = 0
  data : s.pendingData = out.countP fun j => (s.job j).isData
  control : s.pendingControl = out.countP fun j => !(s.job j).isData
  pending : s.pendingSends = out.length
  promises : s.promises = List.range s.returned

theorem Books.perm {s : Scheduler} {out out' : List Nat} (h : s.Books out) (hp : out.Perm out') :
    s.Books out' where
  nodup := hp.nodup_iff.mp h.nodup
  unsettled j hj := h.unsettled j (hp.mem_iff.mpr hj)
  settled j hj hn := h.settled j hj fun hin => hn (hp.mem_iff.mp hin)
  fresh := h.fresh
  data := by rw [h.data, hp.countP_eq]
  control := by rw [h.control, hp.countP_eq]
  pending := by rw [h.pending, hp.length_eq]
  promises := h.promises

/-- `s'` is `s` with some jobs settled. -/
structure Settles (s s' : Scheduler) : Prop where
  eq : s' = { s with
    job := s'.job
    pendingData := s'.pendingData
    pendingControl := s'.pendingControl
    pendingSends := s'.pendingSends
    settlements := s'.settlements }
  next : ∀ j, (s'.job j).next = (s.job j).next
  payload : ∀ j, (s'.job j).payload = (s.job j).payload
  settled : ∀ j, (s.job j).settled = true → (s'.job j).settled = true

theorem Settles.refl (s : Scheduler) : Settles s s := ⟨rfl, fun _ => rfl, fun _ => rfl, fun _ h => h⟩

theorem Settles.trans {s s' s'' : Scheduler} (h : Settles s s') (h' : Settles s' s'') :
    Settles s s'' := by
  refine ⟨?_, fun j => (h'.next j).trans (h.next j), fun j => (h'.payload j).trans (h.payload j),
    fun j hj => h'.settled j (h.settled j hj)⟩
  rw [h'.eq, h.eq]

theorem settles_settleSend (s : Scheduler) (j : Nat) :
    Settles s (s._settleSend j) ∧ ((s._settleSend j).job j).settled = true := by
  unfold _settleSend
  split
  · next h => exact ⟨.refl s, h⟩
  · refine ⟨⟨rfl, fun i => ?_, fun i => ?_, fun i hi => ?_⟩, by simp only [Function.update_self]⟩
    all_goals
      by_cases hij : i = j
      · rw [hij]
        simp only [Function.update_self]
      · simp only [Function.update_of_ne hij]
        try exact hi

theorem Books.settle {s : Scheduler} {j : Nat} {out : List Nat} (h : s.Books (j :: out)) :
    (s._settleSend j).Books out := by
  obtain ⟨hj, hn⟩ := List.nodup_cons.mp h.nodup
  obtain ⟨hlt, hs, hzero⟩ := h.unsettled j List.mem_cons_self
  have hne : ∀ i ∈ out, i ≠ j := fun i hi => ne_of_mem_of_not_mem hi hj
  have hcount : ∀ p : SendJob → Bool, out.countP (fun i => p (s.job i)) =
      out.countP fun i => p (Function.update s.job j { s.job j with settled := true } i) := by
    intro p
    refine List.countP_congr fun i hi => ?_
    rw [Function.update_of_ne (hne i hi)]
  unfold _settleSend
  rw [if_neg (by rw [hs]; exact Bool.false_ne_true)]
  refine ⟨hn, fun i hi => ?_, fun i hi hin => ?_, fun i hi => ?_, ?_, ?_, ?_, h.promises⟩
  · obtain ⟨h₁, h₂, h₃⟩ := h.unsettled i (List.mem_cons_of_mem _ hi)
    simp only [Function.update_of_ne (hne i hi)]
    exact ⟨h₁, h₂, h₃⟩
  · by_cases hij : i = j
    · subst hij
      show Function.update s.settlements i (s.settlements i + 1) i = 1
      rw [Function.update_self, hzero]
    · show Function.update s.settlements j _ i = 1
      rw [Function.update_of_ne hij]
      exact h.settled i hi fun hmem => (List.mem_cons.mp hmem).elim hij hin
  · have hij : i ≠ j := by
      rintro rfl
      exact absurd (show s.returned ≤ i from hi) (Nat.not_le.mpr hlt)
    show Function.update s.settlements j _ i = 0
    rw [Function.update_of_ne hij]
    exact h.fresh i hi
  · have hd := h.data
    rw [List.countP_cons] at hd
    show (if (s.job j).isData = true then s.pendingData - 1 else s.pendingData) = _
    rw [hd, ← hcount fun x => x.isData]
    cases (s.job j).isData with
    | true => simp
    | false => simp
  · have hc := h.control
    rw [List.countP_cons] at hc
    show (if (s.job j).isData = true then s.pendingControl else s.pendingControl - 1) = _
    rw [hc, ← hcount fun x => !x.isData]
    cases (s.job j).isData with
    | true => simp
    | false => simp
  · have hp := h.pending
    rw [List.length_cons] at hp
    show s.pendingSends - 1 = _
    omega

theorem Books.settleAll {s : Scheduler} {l out : List Nat} (h : s.Books (l ++ out)) :
    (l.foldl _settleSend s).Books out ∧ Settles s (l.foldl _settleSend s) ∧
      ∀ j ∈ l, ((l.foldl _settleSend s).job j).settled = true := by
  induction l generalizing s with
  | nil => exact ⟨h, .refl s, fun _ hj => (List.not_mem_nil hj).elim⟩
  | cons j l ih =>
    obtain ⟨hset, hdone⟩ := settles_settleSend s j
    obtain ⟨hb, hs, hl⟩ := ih h.settle
    refine ⟨hb, hset.trans hs, fun i hi => ?_⟩
    rcases List.mem_cons.mp hi with rfl | hi
    · exact hs.settled i hdone
    · exact hl i hi

theorem Books.call {s s' : Scheduler} {out : List Nat} (h : s.Books out)
    {payload : Option (List UInt8)} (hcalls : s'.calls = s.calls ++ [(payload, s.returned)])
    (hreturned : s'.returned = s.returned + 1) : s'.promises = List.range s'.returned := by
  have hp := h.promises
  unfold Scheduler.promises at hp ⊢
  rw [hcalls, hreturned, List.map_append, hp, List.range_succ]
  rfl

theorem Books.makeJob {s : Scheduler} {out : List Nat} (h : s.Books out) (payload : List UInt8)
    (isData : Bool) : Books { s.makeJob payload isData with
      calls := s.calls ++ [(some payload, s.returned)] } (s.returned :: out) := by
  have hne : ∀ i ∈ out, i ≠ s.returned := fun i hi => Nat.ne_of_lt (h.unsettled i hi).1
  have hcount : ∀ p : SendJob → Bool, out.countP (fun i => p (s.job i)) = out.countP fun i =>
      p (Function.update s.job s.returned ⟨some payload, isData, false, none⟩ i) := by
    intro p
    refine List.countP_congr fun i hi => ?_
    rw [Function.update_of_ne (hne i hi)]
  refine ⟨List.nodup_cons.mpr ⟨fun hin => hne _ hin rfl, h.nodup⟩, fun i hi => ?_, fun i hi hin => ?_,
    fun i hi => ?_, ?_, ?_, ?_, h.call rfl rfl⟩
  · rcases List.mem_cons.mp hi with rfl | hi
    · refine ⟨Nat.lt_succ_self _, ?_, h.fresh _ le_rfl⟩
      show (Function.update s.job s.returned _ s.returned).settled = false
      rw [Function.update_self]
    · obtain ⟨h₁, h₂, h₃⟩ := h.unsettled i hi
      refine ⟨Nat.lt_succ_of_lt h₁, ?_, h₃⟩
      show (Function.update s.job s.returned _ i).settled = false
      rw [Function.update_of_ne (hne i hi)]
      exact h₂
  · rw [List.mem_cons, not_or] at hin
    have hi' : i < s.returned + 1 := hi
    exact h.settled i (by omega) hin.2
  · exact h.fresh i (Nat.le_of_succ_le hi)
  · show (if isData = true then s.pendingData + 1 else s.pendingData) = _
    rw [List.countP_cons]
    show _ = ((out.countP (fun i => (Function.update s.job s.returned _ i).isData) +
      if (Function.update s.job s.returned _ s.returned).isData = true then 1 else 0 : Nat) : Int)
    rw [← hcount fun x => x.isData, Function.update_self, h.data]
    cases isData with
    | true => simp
    | false => simp
  · show (if isData = true then s.pendingControl else s.pendingControl + 1) = _
    rw [List.countP_cons]
    show _ = ((out.countP (fun i => !(Function.update s.job s.returned _ i).isData) +
      if (!(Function.update s.job s.returned _ s.returned).isData) = true then 1 else 0 : Nat) : Int)
    rw [← hcount fun x => !x.isData, Function.update_self, h.control]
    cases isData with
    | true => simp
    | false => simp
  · show s.pendingSends + 1 = _
    rw [h.pending, List.length_cons]
    rfl

theorem Books.refuse {s : Scheduler} {out : List Nat} (h : s.Books out)
    (payload : Option (List UInt8)) :
    Books { s.refuse.1 with calls := s.calls ++ [(payload, s.returned)] } out := by
  have hlt : ∀ i, i < s.returned → i ≠ s.returned := fun i hi => Nat.ne_of_lt hi
  refine ⟨h.nodup, fun i hi => ?_, fun i hi hin => ?_, fun i hi => ?_, h.data, h.control, h.pending,
    h.call rfl rfl⟩
  · obtain ⟨h₁, h₂, h₃⟩ := h.unsettled i hi
    refine ⟨Nat.lt_succ_of_lt h₁, h₂, ?_⟩
    show Function.update s.settlements s.returned _ i = 0
    rw [Function.update_of_ne (hlt i h₁)]
    exact h₃
  · show Function.update s.settlements s.returned _ i = 1
    by_cases hir : i = s.returned
    · rw [hir, Function.update_self, h.fresh s.returned le_rfl]
    · rw [Function.update_of_ne hir]
      have hi' : i < s.returned + 1 := hi
      exact h.settled i (by omega) hin
  · have hi' : s.returned + 1 ≤ i := hi
    show Function.update s.settlements s.returned _ i = 0
    rw [Function.update_of_ne (by omega)]
    exact h.fresh i (by omega)

theorem Books.congr {s s' : Scheduler} {out : List Nat} (h : s.Books out)
    (hjob : ∀ j ∈ out, (s'.job j).settled = (s.job j).settled ∧ (s'.job j).isData = (s.job j).isData)
    (hreturned : s'.returned = s.returned) (hset : s'.settlements = s.settlements)
    (hdata : s'.pendingData = s.pendingData) (hcontrol : s'.pendingControl = s.pendingControl)
    (hpending : s'.pendingSends = s.pendingSends) (hcalls : s'.calls = s.calls) :
    s'.Books out := by
  refine ⟨h.nodup, fun j hj => ?_, fun j hj => ?_, fun j hj => ?_, ?_, ?_, ?_, ?_⟩
  · rw [hreturned, hset, (hjob j hj).1]
    exact h.unsettled j hj
  · rw [hset]
    exact h.settled j (hreturned ▸ hj)
  · rw [hset]
    exact h.fresh j (hreturned ▸ hj)
  · rw [hdata, h.data]
    exact congrArg Nat.cast (List.countP_congr fun j hj => by rw [(hjob j hj).2])
  · rw [hcontrol, h.control]
    exact congrArg Nat.cast (List.countP_congr fun j hj => by rw [(hjob j hj).2])
  · rw [hpending, h.pending]
  · unfold Scheduler.promises
    rw [hcalls, hreturned]
    exact h.promises

/-! ## An open link -/

def payloadsOf (s : Scheduler) (jobs : List Nat) : List (List UInt8) :=
  jobs.filterMap fun j => (s.job j).payload

/-- An open link. `held` is a payload that is taken and not yet sealed, and `extra` are
jobs that are in no batch on its way any more and not yet settled. -/
structure Running (s : Scheduler) (r : Ring Nat Nat) (held : List (List UInt8)) (extra : List Nat) :
    Prop where
  live : s.destroyed = false
  sound : s.crashed = false
  rep : ∃ refs, s.Rep refs r
  queued : s.queuedSends = r.all.length
  books : s.Books (r.all ++ (s.inflightJobs ++ extra))
  inOrder : ∀ id, s.sentOf id =
    s.sealedOf id ++ (held.filter (fun p => s.streamIdOf p = id) ++ s.payloadsOf (r.jobs id))

/-- A destroyed link; `extra` as above. -/
structure Dead (s : Scheduler) (extra : List Nat) : Prop where
  destroyed : s.destroyed = true
  sound : s.crashed = false
  empty : s.sendQueues = .empty ∧ s.sendHead = none ∧ s.sendTail = none ∧ s.queuedSends = 0
  books : s.Books extra
  settled : ∀ j ∈ s.inflightJobs, (s.job j).settled = true
  inOrder : ∀ id, s.sealedOf id <+: s.sentOf id

/-- The two batches are free or on their way. -/
def Batches (s : Scheduler) : Prop :=
  s.destroyed = false → (s.freeBatches ++ s.inflight).Perm [1, 0]

theorem Running.initial {s : Scheduler} {r : Ring Nat Nat} {held : List (List UInt8)} {extra : List Nat}
    (h : s.Running r held extra) (id : Nat) : s.sealedOf id <+: s.sentOf id :=
  ⟨_, (h.inOrder id).symm⟩

theorem Running.jobsFrom {s : Scheduler} {r : Ring Nat Nat} {held : List (List UInt8)}
    {extra : List Nat} (h : s.Running r held extra) {lane : Queue Nat Nat} (hl : lane ∈ r.queues)
    {q : Nat} (hlane : s.Lane q lane) : s.jobsFrom (s.queue q).head = lane.jobs := by
  have hlt : lane.jobs ⊆ List.range s.returned := by
    intro j hj
    rw [List.mem_range]
    refine (h.books.unsettled j (List.mem_append_left _ ?_)).1
    exact List.mem_flatMap.mpr ⟨lane, hl, hj⟩
  have hlen := (List.subperm_of_subset hlane.path.nodup hlt).length_le
  rw [List.length_range] at hlen
  exact hlane.path.walk hlen

theorem Running.queuedJobs {s : Scheduler} {r : Ring Nat Nat} {held : List (List UInt8)}
    {extra : List Nat} (h : s.Running r held extra) : s.queuedJobs.Perm r.all := by
  obtain ⟨refs, hrep⟩ := h.rep
  have hjobs : refs.flatMap (fun q => s.jobsFrom (s.queue q).head) = r.all := by
    have hfrom : ∀ q lane, lane ∈ r.queues → s.Lane q lane → s.jobsFrom (s.queue q).head = lane.jobs :=
      fun q lane hl hlane => h.jobsFrom hl hlane
    have hlanes := hrep.lanes
    unfold Ring.all
    generalize r.queues = qs at hfrom hlanes
    clear hrep
    induction hlanes with
    | nil => rfl
    | @cons q lane refs qs hlane hrest ih =>
      rw [List.flatMap_cons, hfrom q lane List.mem_cons_self hlane,
        ih fun q' lane' hl' => hfrom q' lane' (List.mem_cons_of_mem _ hl')]
      rfl
  rw [← hjobs]
  exact hrep.values.flatMap_right _

theorem Settles.histories {s s' : Scheduler} (h : Settles s s') (id : Nat) :
    s'.sealedOf id = s.sealedOf id ∧ s'.sentOf id = s.sentOf id := by
  rw [h.eq]
  exact ⟨rfl, rfl⟩

theorem Books.reopen {s : Scheduler} {out : List Nat} (h : s.Books out) (b : Bool) :
    Books { s with destroyed := b } out :=
  h.congr (fun _ _ => ⟨rfl, rfl⟩) rfl rfl rfl rfl rfl rfl

/-- **`destroy` settles everything** that is queued or on its way. -/
theorem Running.destroy {s : Scheduler} {r : Ring Nat Nat} {held : List (List UInt8)}
    {extra : List Nat} (h : s.Running r held extra) :
    s.destroy.Dead extra ∧ s.destroy.inflight = s.inflight ∧ s.destroy.batchJobs = s.batchJobs := by
  have hperm : (r.all ++ (s.inflightJobs ++ extra)).Perm (s.inflightJobs ++ (r.all ++ extra)) :=
    List.perm_append_comm_assoc _ _ _
  obtain ⟨hb₁, hs₁, hl₁⟩ := ((h.books.perm hperm).reopen true).settleAll
  have hsame : (s.inflightJobs.foldl _settleSend { s with destroyed := true }).queuedJobs =
      s.queuedJobs := by
    have hnext : (s.inflightJobs.foldl _settleSend { s with destroyed := true }).jobNext = s.jobNext :=
      funext hs₁.next
    unfold Scheduler.queuedJobs Scheduler.jobsFrom
    rw [hnext, hs₁.eq]
  obtain ⟨hb₂, hs₂, -⟩ :=
    (hb₁.perm ((h.queuedJobs.symm.append_right extra))).settleAll
  have hs := hs₁.trans hs₂
  have hinf : (s.queuedJobs.foldl _settleSend
      (s.inflightJobs.foldl _settleSend { s with destroyed := true })).inflightJobs = s.inflightJobs := by
    rw [hs.eq]
    rfl
  have he : s.destroy = { s.queuedJobs.foldl _settleSend
      (s.inflightJobs.foldl _settleSend { s with destroyed := true }) with
        sendQueues := .empty, sendHead := none, sendTail := none, queuedSends := 0,
        freeBatches := [] } := by
    unfold Scheduler.destroy
    rw [if_neg (by rw [h.live]; exact Bool.false_ne_true)]
    dsimp only
    rw [hsame]
  rw [he]
  refine ⟨⟨?_, ?_, ⟨rfl, rfl, rfl, rfl⟩, hb₂.congr (fun _ _ => ⟨rfl, rfl⟩) rfl rfl rfl rfl rfl rfl,
    fun j hj => ?_, fun id => ?_⟩, ?_, ?_⟩
  · show (s.queuedJobs.foldl _settleSend _).destroyed = true
    rw [hs.eq]
  · show (s.queuedJobs.foldl _settleSend _).crashed = false
    rw [hs.eq]
    exact h.sound
  · have hj' : j ∈ s.inflightJobs := by
      rw [← hinf]
      exact hj
    exact hs₂.settled j (hl₁ j hj')
  · obtain ⟨h₁, h₂⟩ := hs.histories id
    show (s.queuedJobs.foldl _settleSend _).sealedOf id <+: (s.queuedJobs.foldl _settleSend _).sentOf id
    rw [h₁, h₂]
    exact h.initial id
  · show (s.queuedJobs.foldl _settleSend _).inflight = _
    rw [hs.eq]
  · show (s.queuedJobs.foldl _settleSend _).batchJobs = _
    rw [hs.eq]

/-- The link is open or destroyed. -/
def Good (s : Scheduler) : Prop := (∃ r, s.Running r [] []) ∨ s.Dead []

/-! ## A destroyed link -/

theorem Dead.destroy {s : Scheduler} {extra : List Nat} (h : s.Dead extra) : s.destroy = s :=
  if_pos h.destroyed

theorem Dead.refuse {s : Scheduler} {extra : List Nat} (h : s.Dead extra)
    (payload : Option (List UInt8)) :
    Dead { s.refuse.1 with calls := s.calls ++ [(payload, s.returned)] } extra := by
  refine ⟨h.destroyed, h.sound, h.empty, h.books.refuse payload, h.settled, fun id => ?_⟩
  show s.sealedOf id <+: ((s.calls ++ [(payload, s.returned)]).filterMap Prod.fst).filter _
  rw [List.filterMap_append, List.filter_append]
  exact (h.inOrder id).trans (List.prefix_append _ _)

theorem Dead.call {s : Scheduler} {extra : List Nat} (h : s.Dead extra)
    (payload : Option (List UInt8)) :
    s.call payload = { s.refuse.1 with calls := s.calls ++ [(payload, s.returned)] } := by
  have hsend : s.send payload = s.refuse := by
    unfold Scheduler.send
    cases payload with
    | none => rw [h.destroy]
    | some bytes =>
      dsimp only
      rw [if_pos (.inr (.inl h.destroyed)), h.destroy]
  unfold Scheduler.call
  rw [hsend]
  rfl

theorem Dead.setJob {s : Scheduler} {extra : List Nat} (h : s.Dead extra) (j : Nat)
    (payload : Option (List UInt8)) :
    Dead { s with job := Function.update s.job j { s.job j with payload } } extra := by
  have hsame : ∀ i, (Function.update s.job j { s.job j with payload } i).settled = (s.job i).settled ∧
      (Function.update s.job j { s.job j with payload } i).isData = (s.job i).isData := by
    intro i
    by_cases he : i = j
    · rw [he, Function.update_self]
      exact ⟨rfl, rfl⟩
    · rw [Function.update_of_ne he]
      exact ⟨rfl, rfl⟩
  exact ⟨h.destroyed, h.sound, h.empty, h.books.congr (fun i _ => hsame i) rfl rfl rfl rfl rfl rfl,
    fun i hi => (hsame i).1.trans (h.settled i hi), h.inOrder⟩

theorem Dead.sub {s : Scheduler} {extra : List Nat} (h : s.Dead extra) {inflight : List Nat}
    {batchJobs : Nat → List Nat} (hsub : inflight.flatMap batchJobs ⊆ s.inflightJobs) :
    Dead { s with inflight, batchJobs } extra :=
  ⟨h.destroyed, h.sound, h.empty, h.books.congr (fun _ _ => ⟨rfl, rfl⟩) rfl rfl rfl rfl rfl rfl,
    fun j hj => h.settled j (hsub hj), h.inOrder⟩

theorem settleAll_settled {s : Scheduler} {l : List Nat} (h : ∀ j ∈ l, (s.job j).settled = true) :
    l.foldl _settleSend s = s := by
  induction l with
  | nil => rfl
  | cons j l ih =>
    have hj : s._settleSend j = s := if_pos (h j List.mem_cons_self)
    rw [List.foldl_cons, hj]
    exact ih fun i hi => h i (List.mem_cons_of_mem _ hi)

theorem Dead.settleAll {s : Scheduler} {l : List Nat} (h : s.Dead l) :
    (l.foldl _settleSend s).Dead [] ∧ Settles s (l.foldl _settleSend s) := by
  have hbooks : s.Books (l ++ []) := by
    rw [List.append_nil]
    exact h.books
  obtain ⟨hb, hs, -⟩ := hbooks.settleAll
  have hinf : (l.foldl _settleSend s).inflightJobs = s.inflightJobs := by
    rw [hs.eq]
    rfl
  refine ⟨⟨?_, ?_, ?_, hb, fun j hj => ?_, fun id => ?_⟩, hs⟩
  · rw [hs.eq]
    exact h.destroyed
  · rw [hs.eq]
    exact h.sound
  · rw [hs.eq]
    exact h.empty
  · rw [hinf] at hj
    exact hs.settled j (h.settled j hj)
  · obtain ⟨h₁, h₂⟩ := hs.histories id
    rw [h₁, h₂]
    exact h.inOrder id

/-! ## Sending -/

theorem Running.congr {s s' : Scheduler} {r : Ring Nat Nat} {held : List (List UInt8)}
    {extra : List Nat} (h : s.Running r held extra) (hs : s' = { s with
      flushScheduled := s'.flushScheduled, freeBatches := s'.freeBatches }) :
    s'.Running r held extra := by
  obtain ⟨refs, hrep⟩ := h.rep
  rw [hs]
  exact ⟨h.live, h.sound, ⟨refs, hrep.congr rfl rfl rfl rfl rfl rfl fun _ _ => ⟨rfl, rfl⟩⟩, h.queued,
    h.books.congr (fun _ _ => ⟨rfl, rfl⟩) rfl rfl rfl rfl rfl rfl, h.inOrder⟩

theorem scheduleSends_eq (s : Scheduler) : ∃ b, s._scheduleSends = { s with flushScheduled := b } := by
  unfold _scheduleSends
  split
  · exact ⟨s.flushScheduled, rfl⟩
  · exact ⟨true, rfl⟩

/-- A link that waits has a flush coming or nothing to flush. -/
def Awake (s : Scheduler) : Prop := s.flushScheduled = true ∨ s.Idle

theorem awake_scheduleSends (s : Scheduler) : s._scheduleSends.Awake := by
  unfold _scheduleSends
  split
  · next h => exact (or_rotate.mp h).elim .inl fun h => .inr (h.elim (fun h => .inr (.inr h)) .inl)
  · exact .inl rfl

/-- What a send or an observer leaves alone. -/
structure Keeps (s s' : Scheduler) : Prop where
  inflight : s'.inflight = s.inflight
  batchJobs : s'.batchJobs = s.batchJobs
  grows : s'.destroyed = false → s.queuedSends ≤ s'.queuedSends ∧ s'.freeBatches = s.freeBatches

theorem Keeps.refl (s : Scheduler) : Keeps s s := ⟨rfl, rfl, fun _ => ⟨le_rfl, rfl⟩⟩

theorem Keeps.trans {s s' s'' : Scheduler} (h : Keeps s s') (h' : Keeps s' s'')
    (hmono : s''.destroyed = false → s'.destroyed = false) : Keeps s s'' := by
  refine ⟨h'.inflight.trans h.inflight, h'.batchJobs.trans h.batchJobs, fun hd => ?_⟩
  obtain ⟨h₁, h₂⟩ := h.grows (hmono hd)
  obtain ⟨h₃, h₄⟩ := h'.grows hd
  exact ⟨h₁.trans h₃, h₄.trans h₂⟩

theorem Running.makeJob {s : Scheduler} {r : Ring Nat Nat} (h : s.Running r [] [])
    (payload : List UInt8) (isData : Bool) :
    (s.makeJob payload isData).Fresh r s.returned (s.streamIdOf payload) ∧
      ∃ refs, (s.makeJob payload isData).Rep refs r := by
  have hlt : ∀ j ∈ r.all, j ≠ s.returned := fun j hj =>
    Nat.ne_of_lt (h.books.unsettled j (List.mem_append_left _ hj)).1
  have hself : (s.makeJob payload isData).job s.returned = ⟨some payload, isData, false, none⟩ :=
    Function.update_self _ _ _
  obtain ⟨refs, hrep⟩ := h.rep
  refine ⟨⟨by rw [hself], ⟨payload, by rw [hself], rfl⟩, fun hin => hlt _ hin rfl⟩, refs,
    hrep.congr rfl rfl rfl rfl rfl rfl fun j hj => ?_⟩
  show (Function.update s.job s.returned _ j).next = _ ∧ (Function.update s.job s.returned _ j).payload = _
  rw [Function.update_of_ne (hlt j hj)]
  exact ⟨rfl, rfl⟩

theorem payloadsOf_enqueue {s s' : Scheduler} {r : Ring Nat Nat} {job id : Nat} {payload : List UInt8}
    (hold : ∀ j ∈ r.all, (s'.job j).payload = (s.job j).payload)
    (hnew : (s'.job job).payload = some payload) (id' : Nat) :
    s'.payloadsOf ((r.enqueue id job).jobs id') =
      s.payloadsOf (r.jobs id') ++ if id = id' then [payload] else [] := by
  have hsame : s'.payloadsOf (r.jobs id') = s.payloadsOf (r.jobs id') :=
    List.filterMap_congr fun j hj => hold j (mem_allJobs hj)
  rw [Ring.jobs_enqueue]
  by_cases hid : id' = id
  · subst hid
    rw [if_pos rfl, if_pos rfl]
    unfold payloadsOf at hsame ⊢
    rw [List.filterMap_append, hsame]
    congr 1
    simp [hnew]
  · rw [if_neg hid, if_neg (Ne.symm hid), hsame, List.append_nil]

/-- **An admitted payload joins the end of its stream.** -/
theorem Running.admitSend {s : Scheduler} {r : Ring Nat Nat} (h : s.Running r [] [])
    (payload : List UInt8) (isData : Bool) :
    ∃ s', s.admitSend payload isData = (s', s.returned) ∧ s'.calls = s.calls ∧ s'.Awake ∧
      (∃ r', Running { s' with calls := s.calls ++ [(some payload, s.returned)] } r' [] []) ∧
      Keeps s { s' with calls := s.calls ++ [(some payload, s.returned)] } := by
  obtain ⟨hfresh, refs, hrep⟩ := h.makeJob payload isData
  obtain ⟨refs', hrep', hlink⟩ := hrep.push hfresh
  have hbooks := h.books.makeJob payload isData
  generalize hs₁ : ((s.makeJob payload isData).queueFor (s.streamIdOf payload)).1.pushJob
    ((s.makeJob payload isData).queueFor (s.streamIdOf payload)).2 s.returned = s₁ at hrep' hlink
  obtain ⟨b, hb⟩ := scheduleSends_eq { s₁ with queuedSends := s₁.queuedSends + 1 }
  have hcalls : s₁.calls = s.calls := by
    rw [hlink.eq]
    rfl
  have he : s.admitSend payload isData =
      ({ s₁ with queuedSends := s₁.queuedSends + 1, flushScheduled := b }, s.returned) := by
    unfold Scheduler.admitSend
    dsimp only
    rw [hs₁, hb]
  have hawake := awake_scheduleSends { s₁ with queuedSends := s₁.queuedSends + 1 }
  rw [hb] at hawake
  have hjobs : ∀ id, s₁.payloadsOf ((r.enqueue (s.streamIdOf payload) s.returned).jobs id) =
      s.payloadsOf (r.jobs id) ++ if s.streamIdOf payload = id then [payload] else [] := by
    refine payloadsOf_enqueue (fun j hj => ?_) ?_
    · rw [hlink.payload j]
      show (Function.update s.job s.returned _ j).payload = _
      rw [Function.update_of_ne (Nat.ne_of_lt (h.books.unsettled j (List.mem_append_left _ hj)).1)]
    · rw [hlink.payload]
      show (Function.update s.job s.returned _ s.returned).payload = _
      rw [Function.update_self]
  refine ⟨_, he, hcalls, hawake, ⟨r.enqueue (s.streamIdOf payload) s.returned, ⟨?_, ?_,
    ⟨refs', hrep'.congr rfl rfl rfl rfl rfl rfl fun _ _ => ⟨rfl, rfl⟩⟩, ?_, ?_, fun id => ?_⟩⟩, ?_, ?_, ?_⟩
  · show s₁.destroyed = false
    rw [hlink.eq]
    exact h.live
  · show s₁.crashed = false
    rw [hlink.eq]
    exact h.sound
  · show s₁.queuedSends + 1 = _
    rw [(Ring.all_enqueue r _ _).length_eq, List.length_cons, ← h.queued, hlink.eq]
    rfl
  · have hinf : s₁.inflightJobs = s.inflightJobs := by
      rw [hlink.eq]
      rfl
    have hperm : (s.returned :: (r.all ++ (s.inflightJobs ++ []))).Perm
        ((r.enqueue (s.streamIdOf payload) s.returned).all ++ (s₁.inflightJobs ++ [])) := by
      rw [hinf]
      exact ((Ring.all_enqueue r _ _).symm.append_right _)
    refine (hbooks.perm hperm).congr (fun j _ => ⟨hlink.settled j, hlink.isData j⟩) ?_ ?_ ?_ ?_ ?_ rfl
    all_goals
      dsimp only
      rw [hlink.eq]
  · have hid' : ∀ p, s₁.streamIdOf p = s.streamIdOf p := by
      intro p
      rw [hlink.eq]
      rfl
    have hsealed : s₁.sealed = s.sealed := by
      rw [hlink.eq]
      rfl
    show ((s.calls ++ [(some payload, s.returned)]).filterMap Prod.fst).filter
      (fun p => s₁.streamIdOf p = id) = s₁.sealed.filter (fun p => s₁.streamIdOf p = id) ++
      ([] ++ s₁.payloadsOf _)
    have hnew : [(some payload, s.returned)].filterMap Prod.fst = [payload] := rfl
    simp only [hid', hsealed, List.nil_append, hjobs, List.filterMap_append, hnew, List.filter_append,
      List.filter_singleton]
    have hold := h.inOrder id
    unfold sentOf sealedOf at hold
    rw [hold]
    simp only [List.filter_nil, List.nil_append, List.append_assoc, cond_eq_ite, decide_eq_true_eq]
  · show s₁.inflight = s.inflight
    rw [hlink.eq]
    rfl
  · show s₁.batchJobs = s.batchJobs
    rw [hlink.eq]
    rfl
  · intro _
    refine ⟨?_, ?_⟩
    · show s.queuedSends ≤ s₁.queuedSends + 1
      rw [hlink.eq]
      exact Nat.le_succ _
    · show s₁.freeBatches = s.freeBatches
      rw [hlink.eq]
      rfl

theorem Good.call {s : Scheduler} (h : s.Good) (payload : Option (List UInt8)) :
    (s.call payload).Good ∧ Keeps s (s.call payload) ∧ (s.call payload).Awake := by
  rcases h with ⟨r, hr⟩ | hd
  · have hrefused : s.send payload = s.destroy.refuse → (s.call payload).Good ∧
        Keeps s (s.call payload) ∧ (s.call payload).Awake := by
      intro he
      obtain ⟨hdead, hinf, hjobs⟩ := hr.destroy
      have hcall : s.call payload = { s.destroy.refuse.1 with
          calls := s.destroy.calls ++ [(payload, s.destroy.returned)] } := by
        unfold Scheduler.call
        rw [he]
        rfl
      rw [hcall]
      refine ⟨.inr (hdead.refuse payload), ⟨hinf, hjobs, fun hc => ?_⟩, .inr (.inl hdead.destroyed)⟩
      exact absurd (hdead.destroyed.symm.trans hc) (by decide)
    cases payload with
    | none => exact hrefused rfl
    | some bytes =>
      by_cases hc : maxCellPayload < bytes.length ∨ s.destroyed = true ∨
          (if isDataPayload bytes = true then (circuitWindow : Int) ≤ s.pendingData
            else (controlReserve : Int) ≤ s.pendingControl)
      · exact hrefused (if_pos hc)
      · have hsend : s.send (some bytes) = s.admitSend bytes (isDataPayload bytes) := if_neg hc
        obtain ⟨s', he, hcalls, hawake, hr', hk⟩ := hr.admitSend bytes (isDataPayload bytes)
        have hcall : s.call (some bytes) =
            { s' with calls := s.calls ++ [(some bytes, s.returned)] } := by
          unfold Scheduler.call
          rw [hsend, he, ← hcalls]
        rw [hcall]
        exact ⟨.inl hr', hk, hawake⟩
  · rw [hd.call]
    exact ⟨.inr (hd.refuse payload), ⟨rfl, rfl, fun _ => ⟨le_rfl, rfl⟩⟩, .inr (.inl hd.destroyed)⟩

theorem Good.destroy {s : Scheduler} (h : s.Good) : s.destroy.Good ∧ Keeps s s.destroy := by
  rcases h with ⟨r, hr⟩ | hd
  · obtain ⟨hdead, hinf, hjobs⟩ := hr.destroy
    refine ⟨.inr hdead, hinf, hjobs, fun hc => ?_⟩
    exact absurd (hdead.destroyed.symm.trans hc) (by decide)
  · rw [hd.destroy]
    exact ⟨.inr hd, .refl s⟩

theorem destroyed_act {s : Scheduler} (h : s.Good) {a : ObserverAct} (hd : (s.act a).destroyed = false) :
    s.destroyed = false := by
  rcases h with ⟨r, hr⟩ | hdead
  · exact hr.live
  · cases a with
    | send payload =>
      have he : (s.call payload).destroyed = false := hd
      rw [hdead.call] at he
      exact he
    | destroy =>
      have he : s.destroy.destroyed = false := hd
      rw [hdead.destroy] at he
      exact he

theorem Good.acts {s : Scheduler} (h : s.Good) (acts : List ObserverAct) :
    (acts.foldl act s).Good ∧ Keeps s (acts.foldl act s) ∧
      ((acts.foldl act s).destroyed = false → s.destroyed = false) := by
  induction acts generalizing s with
  | nil => exact ⟨h, .refl s, fun hd => hd⟩
  | cons a acts ih =>
    have hone : (s.act a).Good ∧ Keeps s (s.act a) := by
      cases a with
      | send payload => exact ⟨(h.call payload).1, (h.call payload).2.1⟩
      | destroy => exact h.destroy
    obtain ⟨hgood, hk, hmono⟩ := ih hone.1
    exact ⟨hgood, hone.2.trans hk hmono, fun hd => destroyed_act h (hmono hd)⟩

/-! ## Filling a batch -/

theorem perm_batch {inflight : List Nat} {batchJobs : Nat → List Nat} {b : Nat} (hb : b ∈ inflight)
    (hn : inflight.Nodup) (j : Nat) :
    (inflight.flatMap (Function.update batchJobs b (batchJobs b ++ [j]))).Perm
      (j :: inflight.flatMap batchJobs) := by
  induction inflight with
  | nil => cases hb
  | cons c inflight ih =>
    obtain ⟨hc, hn⟩ := List.nodup_cons.mp hn
    by_cases he : c = b
    · have hrest : inflight.flatMap (Function.update batchJobs b (batchJobs b ++ [j])) =
          inflight.flatMap batchJobs := by
        rw [← List.flatMap_congr fun d hd => ?_]
        exact (Function.update_of_ne (ne_of_mem_of_not_mem hd (he ▸ hc)) _ _).symm
      rw [List.flatMap_cons, List.flatMap_cons, hrest, he, Function.update_self, List.append_assoc]
      exact List.perm_middle
    · have hb' : b ∈ inflight := (List.mem_cons.mp hb).resolve_left (Ne.symm he)
      rw [List.flatMap_cons, List.flatMap_cons, Function.update_of_ne he]
      exact ((ih hb' hn).append_left _).trans List.perm_middle

theorem flatMap_update_of_not_mem {inflight : List Nat} {batchJobs : Nat → List Nat} {b : Nat}
    (hb : b ∉ inflight) (jobs : List Nat) :
    inflight.flatMap (Function.update batchJobs b jobs) = inflight.flatMap batchJobs :=
  List.flatMap_congr fun _ hd => Function.update_of_ne (ne_of_mem_of_not_mem hd hb) _ _

theorem Running.take {s : Scheduler} {r : Ring Nat Nat} (h : s.Running r [] [])
    (hq : s.queuedSends ≠ 0) {b : Nat} (hb : b ∈ s.inflight) (hn : s.inflight.Nodup) :
    ∃ (j : Nat) (s' : Scheduler) (r' : Ring Nat Nat) (p : List UInt8), s._nextSend = some (j, s') ∧
      Running { s' with batchJobs := Function.update s'.batchJobs b (s'.batchJobs b ++ [j]) } r' [p] [] ∧
      (s'.job j).payload = some p ∧ s'.inflight = s.inflight ∧ s'.freeBatches = s.freeBatches ∧
      s'.queuedSends + 1 = s.queuedSends := by
  obtain ⟨refs, hrep⟩ := h.rep
  have hne : r.queues ≠ [] := by
    intro he
    apply hq
    rw [h.queued, Ring.all, he]
    rfl
  obtain ⟨k, j, r', refs', s', p, hr', hs', hrep', htaken, hp, hid⟩ := hrep.next hne
  have hperm := Ring.all_next hr'
  have hlen := hperm.length_eq
  rw [List.length_cons] at hlen
  have hqueued := h.queued
  have hjob : ∀ i, (s'.job i).payload = (s.job i).payload ∧ (s'.job i).settled = (s.job i).settled ∧
      (s'.job i).isData = (s.job i).isData := by
    intro i
    rw [htaken.job]
    by_cases he : i = j
    · rw [he, Function.update_self]
      exact ⟨rfl, rfl, rfl⟩
    · rw [Function.update_of_ne he]
      exact ⟨rfl, rfl, rfl⟩
  refine ⟨j, s', r', p, hs', ⟨?_, ?_, ⟨refs', hrep'.congr rfl rfl rfl rfl rfl rfl
    fun _ _ => ⟨rfl, rfl⟩⟩, ?_, ?_, fun id => ?_⟩, (hjob j).1.trans hp, ?_, ?_, ?_⟩
  · show s'.destroyed = false
    rw [htaken.eq]
    exact h.live
  · show s'.crashed = false
    rw [htaken.eq]
    exact h.sound
  · show s'.queuedSends = _
    rw [htaken.eq]
    show s.queuedSends - 1 = _
    omega
  · have hinf : ({ s' with batchJobs := Function.update s'.batchJobs b (s'.batchJobs b ++ [j]) } :
        Scheduler).inflightJobs.Perm (j :: s.inflightJobs) := by
      unfold inflightJobs
      dsimp only
      have h₁ : s'.inflight = s.inflight := by rw [htaken.eq]
      have h₂ : s'.batchJobs = s.batchJobs := by rw [htaken.eq]
      rw [h₁, h₂]
      exact perm_batch hb hn j
    have hout : (r.all ++ (s.inflightJobs ++ [])).Perm (r'.all ++
        (({ s' with batchJobs := Function.update s'.batchJobs b (s'.batchJobs b ++ [j]) } :
          Scheduler).inflightJobs ++ [])) := by
      rw [List.append_nil, List.append_nil]
      refine (hperm.append_right _).trans (List.Perm.trans ?_ (hinf.symm.append_left _))
      exact List.perm_middle.symm
    refine (h.books.perm hout).congr (fun i _ => (hjob i).2) ?_ ?_ ?_ ?_ ?_ ?_
    all_goals
      dsimp only
      rw [htaken.eq]
  · have hsame : ∀ jobs, s'.payloadsOf jobs = s.payloadsOf jobs := fun jobs =>
      List.filterMap_congr fun i _ => (hjob i).1
    have hstream : ∀ x, s'.streamIdOf x = s.streamIdOf x := by
      intro x
      rw [htaken.eq]
      rfl
    have hold := h.inOrder id
    rw [Ring.jobs_next hr' id] at hold
    show s'.sentOf id = s'.sealedOf id ++ ([p].filter (fun x => s'.streamIdOf x = id) ++
      s'.payloadsOf (r'.jobs id))
    have h₁ : s'.sentOf id = s.sentOf id := by
      rw [htaken.eq]
      rfl
    have h₂ : s'.sealedOf id = s.sealedOf id := by
      rw [htaken.eq]
      rfl
    rw [h₁, h₂, hold, hsame, List.filter_singleton, hstream, hid]
    by_cases hk : id = k
    · rw [if_pos hk, hk, decide_eq_true rfl]
      show s.sealedOf k ++ ([] ++ s.payloadsOf (j :: r'.jobs k)) = s.sealedOf k ++ ([p] ++ _)
      unfold payloadsOf
      rw [List.filterMap_cons, hp]
      rfl
    · rw [if_neg hk, decide_eq_false (Ne.symm hk)]
      rfl
  · rw [htaken.eq]
  · rw [htaken.eq]
  · rw [htaken.eq]
    show s.queuedSends - 1 + 1 = _
    omega

theorem Good.dropPayload {s : Scheduler} (h : s.Good) {j : Nat} (hj : j ∈ s.inflightJobs) :
    Good { s with job := Function.update s.job j { s.job j with payload := none } } := by
  rcases h with ⟨r, hr⟩ | hd
  · have hne : ∀ i ∈ r.all, i ≠ j := by
      rintro i hi rfl
      have hn := hr.books.nodup
      exact (List.nodup_append.mp hn).2.2 i hi i (List.mem_append_left _ hj) rfl
    have hsame : ∀ i, (Function.update s.job j { s.job j with payload := none } i).settled =
          (s.job i).settled ∧
        (Function.update s.job j { s.job j with payload := none } i).isData = (s.job i).isData := by
      intro i
      by_cases he : i = j
      · rw [he, Function.update_self]
        exact ⟨rfl, rfl⟩
      · rw [Function.update_of_ne he]
        exact ⟨rfl, rfl⟩
    obtain ⟨refs, hrep⟩ := hr.rep
    refine .inl ⟨r, hr.live, hr.sound, ⟨refs, hrep.congr rfl rfl rfl rfl rfl rfl fun i hi => ?_⟩, hr.queued,
      hr.books.congr (fun i _ => hsame i) rfl rfl rfl rfl rfl rfl, fun id => ?_⟩
    · show (Function.update s.job j _ i).next = _ ∧ (Function.update s.job j _ i).payload = _
      rw [Function.update_of_ne (hne i hi)]
      exact ⟨rfl, rfl⟩
    · have hpay : payloadsOf { s with job := Function.update s.job j { s.job j with payload := none } }
          (r.jobs id) = s.payloadsOf (r.jobs id) := by
        refine List.filterMap_congr fun i hi => ?_
        show (Function.update s.job j _ i).payload = _
        rw [Function.update_of_ne (hne i (mem_allJobs hi))]
      rw [hpay]
      exact hr.inOrder id
  · exact .inr (hd.setJob j none)

theorem Running.sealTaken {s : Scheduler} {r : Ring Nat Nat} {p : List UInt8} (h : s.Running r [p] [])
    {j : Nat} (hp : (s.job j).payload = some p) (hj : j ∈ s.inflightJobs) (o : Sealing) :
    (s.sealTaken j o).Good ∧ (s.sealTaken j o).inflight = s.inflight ∧
      ((s.sealTaken j o).destroyed = false → s.queuedSends ≤ (s.sealTaken j o).queuedSends ∧
        (s.sealTaken j o).freeBatches = s.freeBatches) := by
  unfold Scheduler.sealTaken
  cases o with
  | fails =>
    obtain ⟨hdead, hinf, -⟩ := h.destroy
    refine ⟨.inr (hdead.setJob j none), hinf, fun hc => ?_⟩
    exact absurd (hdead.destroyed.symm.trans hc) (by decide)
  | seals acts =>
    have hsealed : Running { s with sealed := s.sealed ++ (s.job j).payload.toList } r [] [] := by
      obtain ⟨refs, hrep⟩ := h.rep
      refine ⟨h.live, h.sound, ⟨refs, hrep.congr rfl rfl rfl rfl rfl rfl fun _ _ => ⟨rfl, rfl⟩⟩, h.queued,
        h.books.congr (fun _ _ => ⟨rfl, rfl⟩) rfl rfl rfl rfl rfl rfl, fun id => ?_⟩
      show s.sentOf id = (s.sealed ++ (s.job j).payload.toList).filter _ ++ ([] ++ s.payloadsOf _)
      rw [hp, List.filter_append, List.nil_append, List.append_assoc]
      exact h.inOrder id
    obtain ⟨hgood, hk, -⟩ := Good.acts (.inl ⟨r, hsealed⟩) acts
    dsimp only
    generalize acts.foldl act { s with sealed := s.sealed ++ (s.job j).payload.toList } = s' at hgood hk
    have hj' : j ∈ s'.inflightJobs := by
      unfold inflightJobs
      rw [hk.inflight, hk.batchJobs]
      exact hj
    exact ⟨hgood.dropPayload hj', hk.inflight, hk.grows⟩

theorem Running.sealJob {s : Scheduler} {r : Ring Nat Nat} (h : s.Running r [] [])
    (hq : s.queuedSends ≠ 0) {b : Nat} (hb : b ∈ s.inflight) (hn : s.inflight.Nodup) (o : Sealing) :
    (s.sealJob b o).Good ∧ (s.sealJob b o).inflight = s.inflight ∧
      ((s.sealJob b o).destroyed = false → s.queuedSends ≤ (s.sealJob b o).queuedSends + 1 ∧
        (s.sealJob b o).freeBatches = s.freeBatches) := by
  obtain ⟨j, s', r', p, hs', hrun, hp, hinf, hfree, hqueued⟩ := h.take hq hb hn
  have hmem : j ∈ inflightJobs
      { s' with batchJobs := Function.update s'.batchJobs b (s'.batchJobs b ++ [j]) } := by
    refine List.mem_flatMap.mpr ⟨b, hinf ▸ hb, ?_⟩
    show j ∈ Function.update s'.batchJobs b _ b
    rw [Function.update_self]
    exact List.mem_append_right _ List.mem_cons_self
  obtain ⟨hgood, hinf', hlive⟩ := hrun.sealTaken hp hmem o
  unfold Scheduler.sealJob
  rw [hs']
  refine ⟨hgood, hinf'.trans hinf, fun hc => ?_⟩
  obtain ⟨h₁, h₂⟩ := hlive hc
  refine ⟨?_, h₂.trans hfree⟩
  rw [← hqueued]
  exact Nat.succ_le_succ h₁

theorem Good.fillBatch {s : Scheduler} (h : s.Good) {b : Nat} (hb : b ∈ s.inflight)
    (hn : s.inflight.Nodup) (n : Nat) (os : List Sealing)
    (hq : s.destroyed = false → n ≤ s.queuedSends) :
    (fillBatch b n os s).1.Good ∧ (fillBatch b n os s).1.inflight = s.inflight ∧
      ((fillBatch b n os s).1.destroyed = false →
        (fillBatch b n os s).1.freeBatches = s.freeBatches) := by
  induction n generalizing s os with
  | zero => exact ⟨h, rfl, fun _ => rfl⟩
  | succ n ih =>
    unfold Scheduler.fillBatch
    cases hd : s.destroyed with
    | true =>
      rw [if_pos rfl]
      exact ⟨h, rfl, fun hc => absurd (hd.symm.trans hc) (by decide)⟩
    | false =>
      rw [if_neg Bool.false_ne_true]
      rcases h with ⟨r, hr⟩ | hdead
      · have hqn := hq hd
        obtain ⟨hgood, hinf, hlive⟩ := hr.sealJob (by omega) hb hn (os.head?.getD (.seals []))
        obtain ⟨h₁, h₂, h₃⟩ := ih hgood (hinf ▸ hb) (hinf ▸ hn) os.tail fun hc => by
          have := (hlive hc).1
          omega
        refine ⟨h₁, h₂.trans hinf, fun hc => ?_⟩
        have hmid : (s.sealJob b (os.head?.getD (.seals []))).destroyed = false := by
          by_contra hne
          have htrue : (s.sealJob b (os.head?.getD (.seals []))).destroyed = true := by simpa using hne
          have hstop : ∀ m os', (Scheduler.fillBatch b m os'
              (s.sealJob b (os.head?.getD (.seals [])))).1.destroyed = true := by
            intro m os'
            cases m with
            | zero => exact htrue
            | succ m =>
              unfold Scheduler.fillBatch
              rw [if_pos htrue]
              exact htrue
          exact absurd ((hstop n os.tail).symm.trans hc) (by decide)
        exact (h₃ hc).trans (hlive hmid).2
      · exact absurd (hdead.destroyed.symm.trans hd) (by decide)

/-! ## Batches -/

theorem Batches.length {s : Scheduler} (h : s.Batches) (hd : s.destroyed = false) :
    s.freeBatches.length + s.inflight.length = sendPipelineBatches := by
  have := (h hd).length_eq
  rwa [List.length_append] at this

theorem Batches.nodup {s : Scheduler} (h : s.Batches) (hd : s.destroyed = false) :
    (s.freeBatches ++ s.inflight).Nodup :=
  (h hd).nodup_iff.mpr (by decide)

theorem Running.startBatch {s : Scheduler} {r : Ring Nat Nat} (h : s.Running r [] []) {b : Nat}
    (hb : b ∉ s.inflight) (free : List Nat) : Running { s with
      freeBatches := free
      batchJobs := Function.update s.batchJobs b []
      inflight := s.inflight ++ [b] } r [] [] := by
  have hinf : inflightJobs { s with
      freeBatches := free
      batchJobs := Function.update s.batchJobs b []
      inflight := s.inflight ++ [b] } = s.inflightJobs := by
    show (s.inflight ++ [b]).flatMap (Function.update s.batchJobs b []) = s.inflight.flatMap s.batchJobs
    rw [List.flatMap_append, flatMap_update_of_not_mem hb, List.flatMap_singleton,
      Function.update_self, List.append_nil]
  obtain ⟨refs, hrep⟩ := h.rep
  refine ⟨h.live, h.sound, ⟨refs, hrep.congr rfl rfl rfl rfl rfl rfl fun _ _ => ⟨rfl, rfl⟩⟩, h.queued, ?_,
    h.inOrder⟩
  rw [hinf]
  exact h.books.congr (fun _ _ => ⟨rfl, rfl⟩) rfl rfl rfl rfl rfl rfl

theorem Dead.eraseBatch {s : Scheduler} {extra : List Nat} (h : s.Dead extra) (b : Nat) :
    Dead { s with inflight := s.inflight.erase b } extra :=
  h.sub fun _ hj => by
    obtain ⟨c, hc, hj⟩ := List.mem_flatMap.mp hj
    exact List.mem_flatMap.mpr ⟨c, List.mem_of_mem_erase hc, hj⟩

/-- The outer loop keeps the link good, and it ends: every round starts a batch. -/
theorem Good.flushRounds {s : Scheduler} (h : s.Good) (hb : s.Batches) (n : Nat) (os : List Sealing)
    (hfuel : sendPipelineBatches ≤ s.inflight.length + n) :
    (flushRounds n os s).Good ∧ (flushRounds n os s).Batches ∧ (flushRounds n os s).Idle := by
  induction n generalizing s os with
  | zero => exact ⟨h, hb, .inr (.inl hfuel)⟩
  | succ n ih =>
    unfold Scheduler.flushRounds
    by_cases hstop : s.destroyed = true ∨ sendPipelineBatches ≤ s.inflight.length ∨ s.queuedSends = 0
    · rw [if_pos hstop]
      exact ⟨h, hb, hstop⟩
    · rw [if_neg hstop]
      simp only [not_or, Bool.not_eq_true] at hstop
      obtain ⟨hd, hlt, hq⟩ := hstop
      have hlen := hb.length hd
      have hnodup := hb.nodup hd
      cases hf : s.freeBatches with
      | nil =>
        rw [hf, List.length_nil, Nat.zero_add] at hlen
        exact absurd (Nat.le_of_eq hlen.symm) hlt
      | cons b free =>
        rw [hf] at hnodup
        have hbi : b ∉ s.inflight := fun hin =>
          (List.nodup_append.mp hnodup).2.2 b List.mem_cons_self b hin rfl
        have hperm : (free ++ (s.inflight ++ [b])).Perm [1, 0] := by
          have := hb hd
          rw [hf] at this
          refine List.Perm.trans ?_ this
          rw [← List.append_assoc]
          exact List.perm_append_singleton b (free ++ s.inflight)
        rcases h with ⟨r, hr⟩ | hdead
        · have hstart := hr.startBatch hbi free
          have hn : (s.inflight ++ [b]).Nodup := (List.nodup_append.mp ((hperm.nodup_iff).mpr (by decide))).2.1
          have hfill := Good.fillBatch (.inl ⟨r, hstart⟩) (List.mem_append_right _ List.mem_cons_self) hn
            (min sendBatchCells s.queuedSends) os fun _ => Nat.min_le_right _ _
          dsimp only
          generalize Scheduler.fillBatch b (min sendBatchCells s.queuedSends) os _ = out at hfill
          obtain ⟨s', os'⟩ := out
          obtain ⟨hgood, hinf, hfree⟩ := hfill
          dsimp only at hgood hinf hfree ⊢
          by_cases hd' : s'.destroyed = true
          · rw [if_pos hd']
            rcases hgood with ⟨r', hr'⟩ | hdead'
            · exact absurd (hd'.symm.trans hr'.live) (by decide)
            · exact ⟨.inr (hdead'.eraseBatch b), fun hc => absurd (hd'.symm.trans hc) (by decide), .inl hd'⟩
          · rw [if_neg hd']
            refine ih hgood (fun hc => ?_) os' ?_
            · rw [hfree hc, hinf]
              exact hperm
            · rw [hinf, List.length_append, List.length_singleton]
              omega
        · exact absurd (hdead.destroyed.symm.trans hd) (by decide)

/-- A batch is done: its jobs are settled, or left over by a failure. -/
theorem Running.endBatch {s : Scheduler} {r : Ring Nat Nat} (h : s.Running r [] []) {b : Nat}
    (hb : b ∈ s.inflight) :
    Running { s with inflight := s.inflight.erase b } r [] (s.batchJobs b) := by
  have hperm : s.inflightJobs.Perm (inflightJobs { s with inflight := s.inflight.erase b } ++ s.batchJobs b) := by
    show (s.inflight.flatMap s.batchJobs).Perm ((s.inflight.erase b).flatMap s.batchJobs ++ s.batchJobs b)
    refine ((List.perm_cons_erase hb).flatMap_right _).trans ?_
    rw [List.flatMap_cons]
    exact List.perm_append_comm
  obtain ⟨refs, hrep⟩ := h.rep
  refine ⟨h.live, h.sound, ⟨refs, hrep.congr rfl rfl rfl rfl rfl rfl fun _ _ => ⟨rfl, rfl⟩⟩, h.queued, ?_,
    h.inOrder⟩
  have hbooks := h.books
  rw [List.append_nil] at hbooks
  exact (hbooks.perm (hperm.append_left r.all)).congr (fun _ _ => ⟨rfl, rfl⟩) rfl rfl rfl rfl rfl rfl

theorem Running.settleAll {s : Scheduler} {r : Ring Nat Nat} {l : List Nat} (h : s.Running r [] l) :
    (l.foldl _settleSend s).Running r [] [] ∧ Settles s (l.foldl _settleSend s) := by
  have hperm : (r.all ++ (s.inflightJobs ++ l)).Perm (l ++ (r.all ++ (s.inflightJobs ++ []))) := by
    rw [List.append_nil, ← List.append_assoc]
    exact List.perm_append_comm
  obtain ⟨hb, hs, -⟩ := (h.books.perm hperm).settleAll
  obtain ⟨refs, hrep⟩ := h.rep
  have hinf : (l.foldl _settleSend s).inflightJobs = s.inflightJobs := by
    rw [hs.eq]
    rfl
  refine ⟨⟨?_, ?_, ⟨refs, ?_⟩, ?_, ?_, fun id => ?_⟩, hs⟩
  · rw [hs.eq]
    exact h.live
  · rw [hs.eq]
    exact h.sound
  · refine hrep.congr ?_ ?_ ?_ ?_ ?_ ?_ fun j _ => ⟨hs.next j, hs.payload j⟩
    all_goals rw [hs.eq]
  · rw [hs.eq]
    exact h.queued
  · rw [hinf]
    exact hb
  · obtain ⟨h₁, h₂⟩ := hs.histories id
    have hpay : (l.foldl _settleSend s).payloadsOf (r.jobs id) = s.payloadsOf (r.jobs id) :=
      List.filterMap_congr fun j _ => hs.payload j
    rw [h₁, h₂, hpay]
    exact h.inOrder id

theorem Dead.schedule {s : Scheduler} {extra : List Nat} (h : s.Dead extra) : s._scheduleSends = s :=
  if_pos (.inl h.destroyed)

theorem Dead.clearBatch {s : Scheduler} (h : s.Dead []) (b : Nat) :
    let s' := { s with batchJobs := Function.update s.batchJobs b [] }
    (_scheduleSends (if s'.destroyed then s' else { s' with freeBatches := b :: s'.freeBatches })).Good ∧
    (_scheduleSends (if s'.destroyed then s' else { s' with freeBatches := b :: s'.freeBatches })).Batches := by
  have hdead : Dead { s with batchJobs := Function.update s.batchJobs b [] } [] := by
    refine h.sub fun j hj => ?_
    obtain ⟨c, hc, hj⟩ := List.mem_flatMap.mp hj
    by_cases he : c = b
    · rw [he, Function.update_self] at hj
      cases hj
    · rw [Function.update_of_ne he] at hj
      exact List.mem_flatMap.mpr ⟨c, hc, hj⟩
  dsimp only
  rw [if_pos h.destroyed, hdead.schedule]
  exact ⟨.inr hdead, fun hc => absurd (h.destroyed.symm.trans hc) (by decide)⟩

theorem Good.finishBatch {s : Scheduler} (h : s.Good) (hb : s.Batches) (b : Nat) (error : Bool) :
    (s._finishBatch b error).Good ∧ (s._finishBatch b error).Batches := by
  unfold _finishBatch
  by_cases hin : b ∈ s.inflight
  · rw [if_pos hin]
    dsimp only
    rcases h with ⟨r, hr⟩ | hdead
    · have hend := hr.endBatch hin
      cases error with
      | true =>
        rw [if_pos rfl]
        obtain ⟨hdead, -, hjobs⟩ := hend.destroy
        obtain ⟨hdone, hs⟩ := hdead.settleAll
        have he : (Scheduler.destroy { s with inflight := s.inflight.erase b }).batchJobs b =
            s.batchJobs b := by
          rw [hjobs]
        rw [he]
        exact hdone.clearBatch b
      | false =>
        rw [if_neg Bool.false_ne_true]
        obtain ⟨hrun, hs⟩ := hend.settleAll
        have hnot : b ∉ s.inflight.erase b := by
          have hn := (List.nodup_append.mp (hb.nodup hr.live)).2.1
          exact fun hm => (hn.mem_erase_iff.mp hm).1 rfl
        generalize hs₁ : (s.batchJobs b).foldl _settleSend { s with inflight := s.inflight.erase b } = s₁
          at hrun hs
        have hinf₁ : s₁.inflight = s.inflight.erase b := by rw [hs.eq]
        have hfree₁ : s₁.freeBatches = s.freeBatches := by rw [hs.eq]
        have hclear : Running { s₁ with
            batchJobs := Function.update s₁.batchJobs b [], freeBatches := b :: s₁.freeBatches } r [] [] := by
          obtain ⟨refs, hrep⟩ := hrun.rep
          refine ⟨hrun.live, hrun.sound, ⟨refs, hrep.congr rfl rfl rfl rfl rfl rfl fun _ _ => ⟨rfl, rfl⟩⟩,
            hrun.queued, ?_, hrun.inOrder⟩
          have hi : inflightJobs { s₁ with
              batchJobs := Function.update s₁.batchJobs b [], freeBatches := b :: s₁.freeBatches } =
              s₁.inflightJobs := by
            show s₁.inflight.flatMap (Function.update s₁.batchJobs b []) = _
            rw [hinf₁, flatMap_update_of_not_mem hnot, ← hinf₁]
            rfl
          rw [hi]
          exact hrun.books.congr (fun _ _ => ⟨rfl, rfl⟩) rfl rfl rfl rfl rfl rfl
        rw [if_neg (by rw [hrun.live]; exact Bool.false_ne_true)]
        obtain ⟨flag, hflag⟩ := scheduleSends_eq { s₁ with
          batchJobs := Function.update s₁.batchJobs b [], freeBatches := b :: s₁.freeBatches }
        rw [hflag]
        refine ⟨.inl ⟨r, hclear.congr rfl⟩, fun _ => ?_⟩
        show (b :: s₁.freeBatches ++ s₁.inflight).Perm [1, 0]
        rw [hinf₁, hfree₁]
        refine List.Perm.trans ?_ (hb hr.live)
        refine List.Perm.trans ?_ ((List.perm_cons_erase hin).symm.append_left s.freeBatches)
        exact List.perm_middle.symm
    · have hdead' := hdead.eraseBatch b
      have hsettled : ∀ j ∈ s.batchJobs b, (s.job j).settled = true := fun j hj =>
        hdead.settled j (List.mem_flatMap.mpr ⟨b, hin, hj⟩)
      have he : (if error = true then Scheduler.destroy { s with inflight := s.inflight.erase b }
          else { s with inflight := s.inflight.erase b }) = { s with inflight := s.inflight.erase b } := by
        split
        · exact hdead'.destroy
        · rfl
      rw [he]
      have hs : (s.batchJobs b).foldl _settleSend { s with inflight := s.inflight.erase b } =
          { s with inflight := s.inflight.erase b } := settleAll_settled hsettled
      dsimp only
      rw [hs]
      exact hdead'.clearBatch b
  · rw [if_neg hin]
    exact ⟨h, hb⟩

theorem returned_settleAll (l : List Nat) (s : Scheduler) :
    (l.foldl _settleSend s).returned = s.returned := by
  induction l generalizing s with
  | nil => rfl
  | cons j l ih => rw [List.foldl_cons, ih, (settles_settleSend s j).1.eq]

theorem returned_destroy (s : Scheduler) : s.destroy.returned = s.returned := by
  unfold Scheduler.destroy
  split
  · rfl
  · dsimp only
    rw [returned_settleAll, returned_settleAll]

theorem settlements_finishBatch {s : Scheduler} {b : Nat} (hin : b ∈ s.inflight) (error : Bool) :
    (s._finishBatch b error).settlements =
      (let s' := if error then Scheduler.destroy { s with inflight := s.inflight.erase b }
        else { s with inflight := s.inflight.erase b }
      (s'.batchJobs b).foldl _settleSend s').settlements := by
  unfold _finishBatch
  rw [if_pos hin]
  dsimp only
  generalize List.foldl _settleSend _ _ = s'
  obtain ⟨flag, hflag⟩ := scheduleSends_eq
    (if s'.destroyed then { s' with batchJobs := Function.update s'.batchJobs b [] }
      else { s' with batchJobs := Function.update s'.batchJobs b [], freeBatches := b :: s'.freeBatches })
  show (_scheduleSends (if s'.destroyed then { s' with batchJobs := Function.update s'.batchJobs b [] }
    else { s' with
      batchJobs := Function.update s'.batchJobs b []
      freeBatches := b :: s'.freeBatches })).settlements = s'.settlements
  rw [hflag]
  dsimp only
  split <;> rfl

/-- A batch that was written or has failed leaves none of its promises pending. -/
theorem Running.written {s : Scheduler} {r : Ring Nat Nat} (h : s.Running r [] []) {b j : Nat}
    (hb : b ∈ s.inflight) (hj : j ∈ s.batchJobs b) (error : Bool) :
    (s._finishBatch b error).settlements j = 1 := by
  have hend := h.endBatch hb
  have hlt := (hend.books.unsettled j (by simp [hj])).1
  rw [settlements_finishBatch hb]
  dsimp only
  cases error with
  | true =>
    obtain ⟨hdead, -, hjobs⟩ := hend.destroy
    obtain ⟨hdone, -⟩ := hdead.settleAll
    rw [if_pos rfl, hjobs]
    exact hdone.books.settled j
      (by rw [returned_settleAll, returned_destroy]; exact hlt) List.not_mem_nil
  | false =>
    have hn := hend.books.nodup
    obtain ⟨hrun, hs⟩ := hend.settleAll
    rw [if_neg Bool.false_ne_true]
    refine hrun.books.settled j (by rw [returned_settleAll]; exact hlt) fun hin => ?_
    rw [List.append_nil] at hin
    have hinf : ((s.batchJobs b).foldl _settleSend { s with inflight := s.inflight.erase b }).inflightJobs =
        inflightJobs { s with inflight := s.inflight.erase b } := by
      rw [hs.eq]
      rfl
    rw [hinf] at hin
    rw [← List.append_assoc] at hn
    exact (List.nodup_append.mp hn).2.2 j hin j hj rfl

/-! ## Runs -/

theorem good_new (multiplexed : Bool) : (new multiplexed).Good ∧ (new multiplexed).Batches := by
  refine ⟨.inl ⟨.empty, rfl, rfl, ⟨[], rfl, rfl, .nil, fun id q => ?_, fun _ hq => ?_⟩, rfl, ?_,
    fun _ => rfl⟩, fun _ => List.Perm.refl _⟩
  · constructor
    · intro hc
      cases hc
    · rintro ⟨hin, -⟩
      cases hin
  · cases hq
  · exact ⟨List.nodup_nil, fun _ hj => (List.not_mem_nil hj).elim, fun j hj => absurd hj (Nat.not_lt_zero j),
      fun _ _ => rfl, rfl, rfl, rfl, rfl⟩

theorem Good.setFlag {s : Scheduler} (h : s.Good) (b : Bool) : Good { s with flushScheduled := b } := by
  rcases h with ⟨r, hr⟩ | hd
  · exact .inl ⟨r, hr.congr rfl⟩
  · exact .inr ⟨hd.destroyed, hd.sound, hd.empty, hd.books.congr (fun _ _ => ⟨rfl, rfl⟩) rfl rfl rfl rfl rfl rfl,
      hd.settled, hd.inOrder⟩

theorem Batches.keeps {s s' : Scheduler} (h : s.Batches) (hk : Keeps s s')
    (hmono : s'.destroyed = false → s.destroyed = false) : s'.Batches := by
  intro hd
  rw [(hk.grows hd).2, hk.inflight]
  exact h (hmono hd)

theorem Good.microtask {s : Scheduler} (h : s.Good) (hb : s.Batches) (ha : s.Awake)
    (os : List Sealing) :
    (s.microtask os).Good ∧ (s.microtask os).Batches ∧ (s.microtask os).Idle := by
  unfold Scheduler.microtask
  split
  · exact (h.setFlag false).flushRounds hb sendPipelineBatches os (Nat.le_add_left _ _)
  · next hflag => exact ⟨h, hb, ha.resolve_left hflag⟩

theorem Good.destroyed_destroy {s : Scheduler} (h : s.Good) : s.destroy.destroyed = true := by
  rcases h with ⟨r, hr⟩ | hd
  · exact hr.destroy.1.destroyed
  · rw [hd.destroy]
    exact hd.destroyed

theorem good_step {s : Scheduler} (h : s.Good) (hb : s.Batches) (ha : s.Awake) (ev : SendEvent) :
    (s.step ev).Good ∧ (s.step ev).Batches ∧ (s.step ev).Awake := by
  cases ev with
  | send payload =>
    obtain ⟨hgood, hk, hawake⟩ := h.call payload
    exact ⟨hgood, hb.keeps hk fun hd => destroyed_act (a := .send payload) h hd, hawake⟩
  | microtask os =>
    obtain ⟨hgood, hbatches, hidle⟩ := h.microtask hb ha os
    exact ⟨hgood, hbatches, .inr hidle⟩
  | finish b error =>
    obtain ⟨hgood, hbatches⟩ := h.finishBatch hb b error
    refine ⟨hgood, hbatches, ?_⟩
    show (s._finishBatch b error).Awake
    unfold _finishBatch
    split
    · exact awake_scheduleSends _
    · exact ha
  | destroy =>
    obtain ⟨hgood, hk⟩ := h.destroy
    exact ⟨hgood, hb.keeps hk fun hd => destroyed_act (a := .destroy) h hd,
      .inr (.inl h.destroyed_destroy)⟩

theorem good_run {s : Scheduler} (h : s.Good) (hb : s.Batches) (ha : s.Awake)
    (evs : List SendEvent) : (s.run evs).Good ∧ (s.run evs).Batches ∧ (s.run evs).Awake := by
  induction evs generalizing s with
  | nil => exact ⟨h, hb, ha⟩
  | cons ev evs ih =>
    obtain ⟨h', hb', ha'⟩ := good_step h hb ha ev
    exact ih h' hb' ha'

theorem Running.queuedOf {s : Scheduler} {r : Ring Nat Nat} (h : s.Running r [] []) (id : Nat) :
    s.queuedOf id = s.payloadsOf (r.jobs id) := by
  obtain ⟨refs, hrep⟩ := h.rep
  unfold Scheduler.queuedOf
  cases hq : s.sendQueues.get? id with
  | none =>
    have hnone : r.jobs id = [] := by
      refine jobsOf_of_not_mem fun hin => ?_
      obtain ⟨lane, hl, hk⟩ := List.mem_map.mp hin
      obtain ⟨q, hqm, hlane⟩ := hrep.ref hl
      have := (hrep.keys id q).mpr ⟨hqm, hlane.streamId.trans hk⟩
      rw [hq] at this
      cases this
    rw [hnone]
    rfl
  | some q =>
    obtain ⟨hqm, hid⟩ := (hrep.keys id q).mp hq
    obtain ⟨lane, hl, hlane⟩ := hrep.lane hqm
    have hjobs : r.jobs id = lane.jobs := by
      rw [← hid, hlane.streamId]
      exact jobsOf_of_mem r.nodup hl
    dsimp only
    rw [h.jobsFrom hl hlane, hjobs]
    rfl

theorem Books.once {s : Scheduler} {out : List Nat} (h : s.Books out) (p : Nat) : s.settlements p ≤ 1 := by
  by_cases hlt : p < s.returned
  · by_cases hin : p ∈ out
    · rw [(h.unsettled p hin).2.2]
      exact Nat.zero_le 1
    · rw [h.settled p hlt hin]
  · rw [h.fresh p (Nat.le_of_not_lt hlt)]
    exact Nat.zero_le 1

theorem Books.pending_eq {s : Scheduler} {out : List Nat} (h : s.Books out) :
    s.pendingSends = s.pendingData + s.pendingControl := by
  rw [h.pending, h.data, h.control, ← Int.natCast_add]
  congr 1
  simpa using List.length_eq_countP_add_countP (l := out) fun j => (s.job j).isData

theorem Books.distinct {s : Scheduler} {out : List Nat} (h : s.Books out) : s.promises.Nodup := by
  rw [h.promises]
  exact List.nodup_range

theorem Running.correct {s : Scheduler} {r : Ring Nat Nat} (h : s.Running r [] []) (hb : s.Batches)
    (ha : s.Awake) : s.Correct := by
  have hjobs := h.queuedJobs
  have hunsettled : s.inflightJobs.filter (fun j => !(s.job j).settled) = s.inflightJobs := by
    refine List.filter_eq_self.mpr fun j hj => ?_
    rw [(h.books.unsettled j (List.mem_append_right _ (List.mem_append_left _ hj))).2.1]
    rfl
  obtain ⟨refs, hrep⟩ := h.rep
  refine ⟨h.sound, ⟨refs, hrep.path, hrep.tail, hrep.path.nodup, hrep.values, fun q hq => ⟨?_, ?_⟩⟩, ?_,
    ⟨h.books.pending_eq, ?_⟩, hb.length, h.initial, fun _ id => ?_, h.books.distinct, h.books.once,
    fun hd => ?_, fun os => (Good.microtask (.inl ⟨r, h⟩) hb ha os).2.2,
    fun _ b hb j hj error => h.written hb hj error⟩
  · obtain ⟨lane, hl, hlane⟩ := hrep.lane hq
    obtain ⟨j, rest, hj⟩ := List.exists_cons_of_ne_nil (r.nonempty lane hl)
    have hpath := hlane.path
    rw [hj] at hpath
    rw [hpath.1]
    exact Option.some_ne_none j
  · exact (hrep.keys _ q).mpr ⟨hq, rfl⟩
  · rw [h.queued, hjobs.length_eq]
  · rw [h.books.pending, hunsettled, hjobs.length_eq, List.append_nil, List.length_append]
  · rw [h.queuedOf]
    exact h.inOrder id
  · exact absurd (hd.symm.trans h.live) (by decide)

theorem Dead.correct {s : Scheduler} (h : s.Dead []) (hb : s.Batches) : s.Correct := by
  obtain ⟨hqs, hhead, htail, hqueued⟩ := h.empty
  have hnone : s.queuedJobs = [] := by
    unfold queuedJobs
    rw [hqs]
    rfl
  have hsettled : s.inflightJobs.filter (fun j => !(s.job j).settled) = [] := by
    refine List.filter_eq_nil_iff.mpr fun j hj => ?_
    rw [h.settled j hj]
    exact Bool.false_ne_true
  have hlive : s.destroyed = false → False := fun hc => absurd (h.destroyed.symm.trans hc) (by decide)
  refine ⟨h.sound, ⟨[], hhead, htail, List.nodup_nil, ?_, fun _ hq => (List.not_mem_nil hq).elim⟩, ?_,
    ⟨h.books.pending_eq, ?_⟩, fun hc => (hlive hc).elim, h.inOrder, fun hc => (hlive hc).elim,
    h.books.distinct, h.books.once, fun _ p hp => ?_,
    fun os => (Good.microtask (.inr h) hb (.inr (.inl h.destroyed)) os).2.2,
    fun hc => (hlive hc).elim⟩
  · rw [hqs]
    exact List.Perm.refl _
  · rw [hqueued, hnone]
    rfl
  · rw [h.books.pending, hnone, hsettled]
    rfl
  · rw [h.books.promises, List.mem_range] at hp
    exact h.books.settled p hp List.not_mem_nil

/-- **The scheduler is a correct multi-queue** after every sequence of sends,
microtasks, completed or failed writes and destroys, whatever sealing and its
observers do. -/
theorem scheduler_correct (multiplexed : Bool) (evs : List SendEvent) :
    ((new multiplexed).run evs).Correct := by
  obtain ⟨hnew, hbatches⟩ := good_new multiplexed
  obtain ⟨hgood, hb, ha⟩ := good_run hnew hbatches (.inr (.inr (.inr rfl))) evs
  rcases hgood with ⟨r, hr⟩ | hd
  · exact hr.correct hb ha
  · exact hd.correct hb

end Scheduler

end HyperDht.Private
