import HyperDht.Private.DestFlow

/-!
# Runs of a destination circuit

The steps of the streams of a circuit leave its balances alone (`Flow`): a cell
sent is charged to the stream and to the pool, credit given back is on the link.
They also keep the receive credit of the circuit, up to what they are meant to
add to it. A run keeps the circuit open with its receive credit adding up to the
circuit window, or closes it, unless a DATA frame comes for the raw stream of a
splice.
-/

namespace HyperDht.Private

namespace Dest

/-- What a stream may still send, or has in flight on the link. -/
def spent (d : Dest) (id : Nat) : Nat :=
  (d.stream? id).elim 0 RouteStream.sendCredit + d.link.total (Frame.dataOf id)

/-- What the other end of a stream lacks in credit: not given back yet, or in
flight on the link. -/
def lent (d : Dest) (id : Nat) : Int :=
  (d.stream? id).elim 0 (fun s => streamWindow - s.receiveCredit) +
    d.link.total (Frame.creditOf id)

/-- `d'` is `d` after steps of the application, with `δ` more receive credit. -/
structure Flow (δ : Int) (d d' : Dest) : Prop where
  lastStreamId : d'.lastStreamId = d.lastStreamId
  faults : ∀ f ∈ d'.faults, f ∈ d.faults ∨ f = .stream .totals
  credit : (d'.creditSum : Int) = d.creditSum + δ
  link : ∃ fs, d'.link = d.link.admits fs
  sent : d'.sendPool.inFlight + d.link.total Frame.cells =
    d.sendPool.inFlight + d'.link.total Frame.cells
  returned : d'.receiveCredit + d.link.total (Frame.creditOf circuitStreamId) =
    d.receiveCredit + d'.link.total (Frame.creditOf circuitStreamId)
  spent : ∀ id, d'.spent id ≤ d.spent id
  lent : ∀ id, id ≠ circuitStreamId → d'.lent id ≤ d.lent id
  splices : NoSplice d d'

/-- `d'` is `d` closed: no stream is left, and the link is destroyed. -/
structure Shut (d d' : Dest) : Prop where
  closed : d'.closed = true
  poolClosed : d'.sendPool.closed = true
  streams : d'.streams = .empty
  link : d'.link = d.link.destroy
  faults : ∀ f ∈ d'.faults, f ∈ d.faults ∨ f = .stream .totals

theorem Flow.refl (d : Dest) : Flow 0 d d where
  lastStreamId := rfl
  faults _ h := .inl h
  credit := (Int.add_zero _).symm
  link := ⟨[], rfl⟩
  sent := rfl
  returned := rfl
  spent _ := le_rfl
  lent _ _ := le_rfl
  splices := noSplice_same rfl

theorem faults_trans {fs gs hs : List DestFault}
    (h : ∀ f ∈ gs, f ∈ fs ∨ f = .stream .totals) (h' : ∀ f ∈ hs, f ∈ gs ∨ f = .stream .totals) :
    ∀ f ∈ hs, f ∈ fs ∨ f = .stream .totals := by
  intro f hf
  rcases h' f hf with hf | hf
  · exact h f hf
  · exact .inr hf

theorem Flow.trans {δ δ' : Int} {d d' d'' : Dest} (h : Flow δ d d') (h' : Flow δ' d' d'') :
    Flow (δ + δ') d d'' where
  lastStreamId := h'.lastStreamId.trans h.lastStreamId
  faults := faults_trans h.faults h'.faults
  credit := by rw [h'.credit, h.credit, Int.add_assoc]
  link := by
    obtain ⟨fs, hl⟩ := h.link
    obtain ⟨gs, hl'⟩ := h'.link
    exact ⟨fs ++ gs, by rw [hl', hl, Link.admits_append]⟩
  sent := by
    have h₁ := h.sent
    have h₂ := h'.sent
    omega
  returned := by
    have h₁ := h.returned
    have h₂ := h'.returned
    omega
  spent id := (h'.spent id).trans (h.spent id)
  lent id hid := (h'.lent id hid).trans (h.lent id hid)
  splices := h.splices.trans h'.splices

theorem Shut.of_flow {δ : Int} {d d' d'' : Dest} (h : Flow δ d d') (hs : Shut d' d'') :
    Shut d d'' where
  closed := hs.closed
  poolClosed := hs.poolClosed
  streams := hs.streams
  link := by
    obtain ⟨fs, hl⟩ := h.link
    rw [hs.link, hl, Link.destroy_admits]
  faults := faults_trans h.faults hs.faults

/-- A circuit after steps of the application, or closed. -/
def Flows (δ : Int) (d d' : Dest) : Prop := Shut d d' ∨ d'.Open ∧ Flow δ d d'

theorem Flows.refl {d : Dest} (h : d.Open) : Flows 0 d d := .inr ⟨h, .refl d⟩

/-- More steps; they leave a closed circuit alone. -/
theorem Flows.trans {δ δ' ε : Int} {d d' d'' : Dest} (h : Flows δ d d')
    (hopen : d'.Open → Flows δ' d' d'') (hshut : Shut d d' → d'' = d')
    (hε : δ + δ' = ε) : Flows ε d d'' := by
  subst hε
  rcases h with hs | ⟨ho, hf⟩
  · rw [hshut hs]
    exact .inl hs
  · rcases hopen ho with hs | ⟨ho', hf'⟩
    · exact .inl (.of_flow hf hs)
    · exact .inr ⟨ho', hf.trans hf'⟩

theorem Flows.andThen {δ : Int} {d d' d'' : Dest} (h : Flows δ d d')
    (hopen : d'.Open → Flows 0 d' d'') (hshut : Shut d d' → d'' = d') : Flows δ d d'' :=
  h.trans hopen hshut (Int.add_zero δ)

theorem Shift.flow {d d' : Dest} (h : Shift d d') : Flow 0 d d' := by
  have hlink : d'.link = d.link := by rw [h.rest]
  have hcredit : d'.receiveCredit = d.receiveCredit := by rw [h.rest]
  have hfaults : d'.faults = d.faults := by rw [h.rest]
  have hpending : d'.returnPending = d.returnPending := by rw [h.rest]
  have hsame : ∀ id, d'.spent id = d.spent id ∧ d'.lent id = d.lent id := by
    intro id
    unfold Dest.spent Dest.lent
    rw [hlink]
    cases hs : d.stream? id with
    | none =>
      rw [h.none id hs]
      exact ⟨rfl, rfl⟩
    | some s =>
      obtain ⟨s', hs', ha⟩ := h.some id s hs
      rw [hs']
      simp only [Option.elim_some, ha.sendCredit, ha.receiveCredit, and_self]
  refine ⟨by rw [h.rest], fun f hf => .inl (hfaults ▸ hf), ?_, ⟨[], hlink⟩, by rw [h.inFlight, hlink],
    by rw [hcredit, hlink], fun id => (hsame id).1.le, fun id _ => (hsame id).2.le, h.splices⟩
  simp only [creditSum, hcredit, hpending, h.total, Int.add_zero]

/-! ## Sending -/

theorem shut_destroy {d : Dest} (h : d.Open) : Shut d d.destroy := by
  unfold destroy
  rw [if_neg (by rw [h.live]; decide)]
  exact ⟨rfl, rfl, rfl, rfl, fun _ hf => .inl hf⟩

theorem Open.setLink {d : Dest} (h : d.Open) {l : Link} (hl : l.destroyed = false) :
    Open { d with link := l } :=
  ⟨h.live, h.pool, h.poolLive, hl, h.credit, h.legs, h.leg, h.sane, h.ids⟩

theorem sendOut_cases {d : Dest} (h : d.Open) (f : Frame) :
    Shut d (d.sendOut f) ∨
      Open { d with link := d.link.enqueue f } ∧ d.sendOut f = { d with link := d.link.enqueue f } := by
  unfold sendOut
  rw [if_neg (by rw [h.link]; decide)]
  split
  · exact .inl (shut_destroy h)
  · exact .inr ⟨h.setLink h.link, rfl⟩

theorem frames_of_stream {fs : List Frame} {id : Nat} (hfs : ∀ f ∈ fs, f.streamId = id) :
    (fs.map (Frame.dataOf id)).sum = (fs.map Frame.cells).sum ∧ ∀ id', id' ≠ id →
      (fs.map (Frame.dataOf id')).sum = 0 ∧ (fs.map (Frame.creditOf id')).sum = 0 := by
  induction fs with
  | nil => exact ⟨rfl, fun _ _ => ⟨rfl, rfl⟩⟩
  | cons f fs ih =>
    obtain ⟨h₁, h₂⟩ := ih fun f hf => hfs f (List.mem_cons_of_mem _ hf)
    have hf : f.streamId = id := hfs f List.mem_cons_self
    refine ⟨?_, fun id' hne => ?_⟩
    · rw [List.map_cons, List.sum_cons, h₁, List.map_cons, List.sum_cons]
      exact congrArg (· + _) (if_pos hf)
    · obtain ⟨h₃, h₄⟩ := h₂ id' hne
      rw [List.map_cons, List.sum_cons, h₃, List.map_cons, List.sum_cons, h₄,
        Frame.dataOf_of_ne (by rw [hf]; exact Ne.symm hne),
        Frame.creditOf_of_ne (by rw [hf]; exact Ne.symm hne)]
      exact ⟨rfl, rfl⟩

/-- A change of one stream and of the pool, with frames of the stream; the cells
among them are charged to both. -/
theorem flow_stream {d d' : Dest} {δ : Int} {id : Nat} {s s' : RouteStream} {fs : List Frame}
    (hs : d.stream? id = some s) (hid : id ≠ circuitStreamId)
    (hstreams : d'.streams = d.streams.set id (.logical s'))
    (hlink : d'.link = d.link.admits fs) (hfs : ∀ f ∈ fs, f.streamId = id)
    (hlast : d'.lastStreamId = d.lastStreamId) (hfaults : d'.faults = d.faults)
    (hcredit : (d'.creditSum : Int) = d.creditSum + δ) (hrc : d'.receiveCredit = d.receiveCredit)
    (hin : d'.sendPool.inFlight = d.sendPool.inFlight + (fs.map Frame.cells).sum)
    (hsend : s'.sendCredit + (fs.map Frame.cells).sum = s.sendCredit)
    (hrecv : s'.receiveCredit = s.receiveCredit + (fs.map (Frame.creditOf id)).sum) :
    Flow δ d d' := by
  have hget : ∀ id', d'.stream? id' = if id' = id then some s' else d.stream? id' := by
    intro id'
    rw [← stream?_set]
    unfold stream?
    rw [hstreams]
    rfl
  obtain ⟨hdata, hother⟩ := frames_of_stream hfs
  have hspent : ∀ id', d'.spent id' = d.spent id' := by
    intro id'
    unfold Dest.spent
    rw [hget, hlink, Link.total_admits]
    split
    · next he =>
      subst he
      rw [hs, hdata]
      simp only [Option.elim_some]
      omega
    · next he => rw [(hother id' he).1, Nat.add_zero]
  have hlent : ∀ id', d'.lent id' = d.lent id' := by
    intro id'
    unfold Dest.lent
    rw [hget, hlink, Link.total_admits]
    split
    · next he =>
      subst he
      rw [hs]
      simp only [Option.elim_some]
      omega
    · next he => rw [(hother id' he).2, Nat.add_zero]
  refine ⟨hlast, fun f hf => .inl (hfaults ▸ hf), hcredit, ⟨fs, hlink⟩, ?_, ?_,
    fun id' => (hspent id').le, fun id' _ => (hlent id').le, noSplice_set hstreams⟩
  · rw [hlink, Link.total_admits]
    omega
  · rw [hlink, Link.total_admits, (hother circuitStreamId (Ne.symm hid)).2, hrc, Nat.add_zero]

theorem Open.ne_circuit {d : Dest} (h : d.Open) {id : Nat} {s : RouteStream}
    (hs : d.stream? id = some s) : id ≠ circuitStreamId := by
  have := (h.ids id _ (stream?_eq_some.mp hs)).2.1
  rintro rfl
  exact absurd this (by decide)

theorem flow_setStream {d : Dest} (h : d.Open) {id : Nat} {s : RouteStream}
    (hs : d.stream? id = some s) (s' : RouteStream) {p : Pool Nat} (hin : p.inFlight = d.sendPool.inFlight)
    (hsend : s'.sendCredit = s.sendCredit) (hrecv : s'.receiveCredit = s.receiveCredit) :
    Flow ((s'.receivedOutstanding : Int) - s.receivedOutstanding) d
      ({ d with sendPool := p }.setStream id s') := by
  refine flow_stream hs (h.ne_circuit hs) (show _ = d.streams.set id (.logical s') from rfl)
    (show _ = d.link.admits [] from rfl) (by simp) rfl rfl ?_ rfl hin hsend (by simpa using hrecv)
  have := creditSum_setStream (d := { d with sendPool := p }) hs s'
  have hc : ({ d with sendPool := p } : Dest).creditSum = d.creditSum := rfl
  omega

/-- A frame of a stream that goes out with a change of the stream and the pool. -/
theorem flows_send {d : Dest} (h : d.Open) {id : Nat} {s s' : RouteStream}
    (hs : d.stream? id = some s) {p : Pool Nat}
    (ho : Open ({ d with sendPool := p }.setStream id s')) {f : Frame} (hf : f.streamId = id)
    (hin : p.inFlight = d.sendPool.inFlight + f.cells)
    (hsend : s'.sendCredit + f.cells = s.sendCredit)
    (hrecv : s'.receiveCredit = s.receiveCredit + f.creditOf id) :
    Flows ((s'.receivedOutstanding : Int) - s.receivedOutstanding) d
      (({ d with sendPool := p }.setStream id s').sendOut f) := by
  rcases sendOut_cases ho f with hsh | ⟨ho', he⟩
  · exact .inl ⟨hsh.closed, hsh.poolClosed, hsh.streams, hsh.link, hsh.faults⟩
  · rw [he]
    refine .inr ⟨ho', flow_stream hs (h.ne_circuit hs)
      (show _ = d.streams.set id (.logical s') from rfl)
      (show _ = d.link.admits [f] from rfl) (fun g hg => ?_) rfl rfl ?_ rfl ?_ ?_ ?_⟩
    · rw [List.mem_singleton.mp hg]
      exact hf
    · have := creditSum_setStream (d := { d with sendPool := p }) hs s'
      have hc : ({ d with sendPool := p } : Dest).creditSum = d.creditSum := rfl
      show (({ d with sendPool := p }.setStream id s').creditSum : Int) = _
      omega
    · rw [List.map_singleton, List.sum_singleton]
      exact hin
    · simpa using hsend
    · simpa using hrecv

theorem flow_enqueue (d : Dest) {f : Frame} (hcells : f.cells = 0) (hcredit : ∀ id, f.creditOf id = 0) :
    Flow 0 d { d with link := d.link.enqueue f } := by
  have hdata : ∀ id, f.dataOf id = 0 := by
    intro id
    unfold Frame.dataOf
    split
    · exact hcells
    · rfl
  have hsame : ∀ id, ({ d with link := d.link.enqueue f } : Dest).spent id = d.spent id ∧
      ({ d with link := d.link.enqueue f } : Dest).lent id = d.lent id := by
    intro id
    unfold Dest.spent Dest.lent
    rw [show ({ d with link := d.link.enqueue f } : Dest).link = d.link.enqueue f from rfl,
      Link.total_enqueue, Link.total_enqueue, hdata, hcredit]
    exact ⟨rfl, rfl⟩
  refine ⟨rfl, fun f hf => .inl hf, (Int.add_zero _).symm, ⟨[f], rfl⟩, ?_, ?_,
    fun id => (hsame id).1.le, fun id _ => (hsame id).2.le, noSplice_same rfl⟩
  · show _ = d.sendPool.inFlight + (d.link.enqueue f).total _
    rw [Link.total_enqueue, hcells, Nat.add_zero]
  · show _ = d.receiveCredit + (d.link.enqueue f).total _
    rw [Link.total_enqueue, hcredit, Nat.add_zero]

theorem flows_sendOut {d : Dest} (h : d.Open) {f : Frame} (hcells : f.cells = 0)
    (hcredit : ∀ id, f.creditOf id = 0) : Flows 0 d (d.sendOut f) := by
  rcases sendOut_cases h f with hs | ⟨ho, he⟩
  · exact .inl hs
  · rw [he]
    exact .inr ⟨ho, flow_enqueue d hcells hcredit⟩

/-- Circuit credit that goes out as it is added to the circuit's own. -/
theorem flow_return {d d' : Dest} {δ : Int} {fs : List Frame} (hstreams : d'.streams = d.streams)
    (hpool : d'.sendPool = d.sendPool) (hlink : d'.link = d.link.admits fs)
    (hlast : d'.lastStreamId = d.lastStreamId) (hfaults : d'.faults = d.faults)
    (hcredit : (d'.creditSum : Int) = d.creditSum + δ)
    (hrc : d'.receiveCredit = d.receiveCredit + (fs.map (Frame.creditOf circuitStreamId)).sum)
    (hfs : ∀ f ∈ fs, ∃ n, f = ⟨circuitStreamId, .credit n⟩) : Flow δ d d' := by
  have hget : ∀ id, d'.stream? id = d.stream? id := fun id => by
    unfold stream?
    rw [hstreams]
  have hweights : (fs.map Frame.cells).sum = 0 ∧ ∀ id, (fs.map (Frame.dataOf id)).sum = 0 ∧
      (id ≠ circuitStreamId → (fs.map (Frame.creditOf id)).sum = 0) := by
    clear hlink hrc
    induction fs with
    | nil => exact ⟨rfl, fun _ => ⟨rfl, fun _ => rfl⟩⟩
    | cons f fs ih =>
      obtain ⟨n, rfl⟩ := hfs f List.mem_cons_self
      obtain ⟨h₁, h₂⟩ := ih fun f hf => hfs f (List.mem_cons_of_mem _ hf)
      refine ⟨by simpa [Frame.cells, Body.isData] using h₁, fun id => ⟨?_, fun hid => ?_⟩⟩
      · simpa [Frame.dataOf, Frame.cells, Body.isData] using (h₂ id).1
      · simpa [Frame.creditOf, Ne.symm hid] using (h₂ id).2 hid
  obtain ⟨hcells, hother⟩ := hweights
  have hspent : ∀ id, d'.spent id = d.spent id := fun id => by
    unfold Dest.spent
    rw [hget, hlink, Link.total_admits, (hother id).1, Nat.add_zero]
  have hlent : ∀ id, id ≠ circuitStreamId → d'.lent id = d.lent id := fun id hid => by
    unfold Dest.lent
    rw [hget, hlink, Link.total_admits, (hother id).2 hid, Nat.add_zero]
  refine ⟨hlast, fun f hf => .inl (hfaults ▸ hf), hcredit, ⟨fs, hlink⟩, ?_, ?_,
    fun id => (hspent id).le, fun id hid => (hlent id hid).le, noSplice_same hstreams⟩
  · rw [hpool, hlink, Link.total_admits, hcells, Nat.add_zero]
  · rw [hlink, Link.total_admits, hrc]
    omega

theorem flows_consumed {d : Dest} (h : d.Open) (amount : Nat)
    (hsum : d.creditSum + amount ≤ circuitWindow) (flush : Bool) :
    Flows amount d (d.consumed amount flush) := by
  have hopen : ∀ (link : Link) (credit pending : Nat) (timer : Bool), link.destroyed = false →
      credit + pending = d.receiveCredit + d.returnPending + amount →
      Open { d with
        link, receiveCredit := credit, returnPending := pending, returnTimer := timer } := by
    intro link credit pending timer hlink hpending
    refine ⟨h.live, h.pool, h.poolLive, hlink, ?_, h.legs, h.leg, h.sane, h.ids⟩
    simp only [creditSum] at hsum ⊢
    omega
  have hwindow : d.receiveCredit + (d.returnPending + amount) ≤ circuitWindow := by
    simp only [creditSum] at hsum
    omega
  unfold consumed
  rw [if_neg (by rw [h.live]; decide)]
  dsimp only
  split
  · next hzero =>
    have hzero' : amount = 0 := by omega
    rw [hzero']
    exact .refl h
  · next hpos =>
    split
    · refine .inr ⟨hopen d.link _ _ _ h.link (by omega), flow_return rfl rfl
        (show _ = d.link.admits [] from rfl) rfl rfl ?_ rfl (by simp)⟩
      simp only [creditSum]
      omega
    · rw [if_neg (by omega)]
      have hpre := hopen d.link (d.receiveCredit + (d.returnPending + amount)) 0 false h.link
        (by omega)
      rcases sendOut_cases hpre ⟨circuitStreamId, .credit (d.returnPending + amount)⟩ with
        hs | ⟨ho, he⟩
      · exact .inl ⟨hs.closed, hs.poolClosed, hs.streams, hs.link, hs.faults⟩
      · rw [he]
        refine .inr ⟨ho, flow_return rfl rfl (show _ = d.link.admits [_] from rfl) rfl rfl ?_ ?_
          fun f hf => ⟨_, List.mem_singleton.mp hf⟩⟩
        · simp only [creditSum]
          omega
        · simp [Frame.creditOf]

/-! ## Writing -/

theorem flows_held {d : Dest} (h : d.Open) {id : Nat} {s s' : RouteStream}
    (hs : d.stream? id = some s) (hh : s.Held s') : Flows 0 d (d.setStream id s') := by
  have hsum := h.credit
  refine .inr ⟨h.setStream hs hh.torn hh.circuitCredit hh.circuitRequested hh.destroying
    (hh.sane (h.sane id s hs)) (by rw [hh.receivedOutstanding]; omega), ?_⟩
  have hflow := flow_setStream h hs s' (p := d.sendPool) rfl hh.sendCredit hh.receiveCredit
  rw [hh.receivedOutstanding, Int.sub_self] at hflow
  exact hflow

theorem flows_modify {d : Dest} (h : d.Open) (id : Nat) {f : RouteStream → RouteStream}
    (hf : ∀ s : RouteStream, s.Held (f s)) : Flows 0 d (d.modify id f) := by
  unfold modify
  split
  · exact .refl h
  · next s hs => exact flows_held h hs (hf s)

theorem flows_failWrite {d : Dest} (h : d.Open) (now : Int) (id : Nat) :
    Flows 0 d (failWrite now d id) :=
  flows_modify h id fun s => (s.held_writer .failed).trans (RouteStream.held_scheduleIdle _ _ _)

theorem modify_of_none {d : Dest} {id : Nat} (h : d.stream? id = none)
    (f : RouteStream → RouteStream) : d.modify id f = d := by
  unfold modify
  rw [h]

theorem Shut.stream? {d d' : Dest} (h : Shut d d') (id : Nat) : d'.stream? id = none := by
  unfold Dest.stream?
  rw [h.streams]
  rfl

theorem sendBatch_of_none {d : Dest} {id : Nat} (h : d.stream? id = none) (now : Int) (n : Nat)
    (rest : List UInt8) : sendBatch now id n d rest = d := by
  cases n with
  | zero => exact modify_of_none h _
  | succ n =>
    unfold sendBatch
    rw [h]

theorem flow_fault (d : Dest) : Flow 0 d (d.fault (.stream .totals)) where
  lastStreamId := rfl
  faults f hf := by
    rcases List.mem_append.mp hf with hf | hf
    · exact .inl hf
    · exact .inr (List.mem_singleton.mp hf)
  credit := (Int.add_zero _).symm
  link := ⟨[], rfl⟩
  sent := rfl
  returned := rfl
  spent _ := le_rfl
  lent _ _ := le_rfl
  splices := noSplice_same rfl

theorem Open.fault {d : Dest} (h : d.Open) (f : DestFault) : (d.fault f).Open :=
  ⟨h.live, h.pool, h.poolLive, h.link, h.credit, h.legs, h.leg, h.sane, h.ids⟩

theorem flows_sendBatch (now : Int) (id : Nat) (n : Nat) : ∀ {d : Dest} (_ : d.Open)
    {s : RouteStream} (_ : d.stream? id = some s) (_ : s.destroying = false)
    (_ : n ≤ s.sendCredit) (_ : n ≤ s.circuitCredit) (rest : List UInt8),
    Flows 0 d (sendBatch now id n d rest) := by
  induction n with
  | zero =>
    intro d h s _ _ _ _ rest
    exact flows_modify h id fun s => s.held_writer (.draining rest)
  | succ n ih =>
    intro d h s hs hd hsend hcirc rest
    obtain ⟨leg, hl⟩ := h.leg id s hs hd
    obtain ⟨ht, hm⟩ := h.matches_leg hs hl
    have hgr := hm.granted hd
    have hwa := hm.wanted hd
    have hsum := h.credit
    have hsane := h.sane id s hs
    unfold sendBatch
    rw [hs]
    dsimp only
    split
    · have hcount := flows_held h hs (s.held_countCell (rest.take maxLogicalPayload).length)
      refine (hcount.andThen (fun ho => .inr ⟨ho.fault _, flow_fault _⟩) fun hsh => ?_).andThen
        (fun ho => flows_failWrite ho now id) fun hsh => modify_of_none (hsh.stream? id) _
      exact absurd (hsh.closed.symm.trans h.live) (by decide)
    · obtain ⟨q, hq⟩ := Pool.sent_ok hl h.poolLive (by omega) now
      have hcons := (Pool.conserved_sent h.pool hq).1
      rw [hq]
      dsimp only
      obtain ⟨leg₀, hl₀, -, -, -, rfl⟩ := Pool.sent_cases hq
      obtain rfl := Option.some.inj (hl.symm.trans hl₀)
      -- the stream with the cell paid for
      generalize hs₁ : (s.countCell (rest.take maxLogicalPayload).length).spendCell = s₁
      have hsend₁ : s₁.sendCredit + 1 = s.sendCredit := by
        rw [← hs₁]
        show s.sendCredit - 1 + 1 = s.sendCredit
        omega
      have hcirc₁ : s₁.circuitCredit + 1 = s.circuitCredit := by
        rw [← hs₁]
        show s.circuitCredit - 1 + 1 = s.circuitCredit
        omega
      have hreq₁ : s₁.circuitRequested = s.circuitRequested := by rw [← hs₁]; rfl
      have hout₁ : s₁.receivedOutstanding = s.receivedOutstanding := by rw [← hs₁]; rfl
      have hrecv₁ : s₁.receiveCredit = s.receiveCredit := by rw [← hs₁]; rfl
      have htorn₁ : s₁.torn = s.torn := by rw [← hs₁]; rfl
      have hd₁ : s₁.destroying = s.destroying := by rw [← hs₁]; rfl
      have hsane₁ : s₁.Sane := by
        rw [← hs₁]
        exact ⟨hsane.torn, hsane.queue, hsane.reading, hsane.window⟩
      have ho := h.update hs hcons h.poolLive (fun id' hne => JsMap.get?_set_ne _ _ hne)
        (fun leg' hl' => by
          obtain rfl := Option.some.inj ((JsMap.get?_set_self _ _ _).symm.trans hl')
          refine ⟨htorn₁.trans ht, ?_, fun _ => ?_, fun _ => hwa.trans hreq₁.symm⟩
          · show s₁.circuitCredit ≤ leg.granted - 1
            omega
          · show leg.granted - 1 = s₁.circuitCredit
            omega)
        (fun _ => ⟨_, JsMap.get?_set_self _ _ _⟩) hsane₁ (by omega)
      have hstep := flows_send h hs ho
        (f := ⟨id, .data (rest.take maxLogicalPayload)⟩) rfl rfl hsend₁
        (by simpa [Frame.creditOf] using hrecv₁)
      rw [hout₁, Int.sub_self] at hstep
      rcases hstep with hsh | ⟨ho', hf⟩
      · rw [sendBatch_of_none (hsh.stream? id)]
        exact .inl hsh
      · refine Flows.andThen (.inr ⟨ho', hf⟩) (fun _ => ih ho' ?_ (hd₁.trans hd) (by omega) (by omega) _)
          fun hsh => absurd (hsh.closed.symm.trans ho'.live) (by decide)
        rcases sendOut_cases ho ⟨id, .data (rest.take maxLogicalPayload)⟩ with hsh | ⟨-, he⟩
        · exact absurd (hsh.closed.symm.trans ho'.live) (by decide)
        · rw [he]
          exact stream?_set_self _ id s₁

/-- The loop of `_sendData` from its head to the next await. -/
theorem flows_resume {d : Dest} (h : d.Open) (now : Int) (id : Nat) (rest : List UInt8) :
    Flows 0 d (resume now d id rest) := by
  unfold resume
  split
  · exact .refl h
  · next s hs =>
    split
    · exact flows_held h hs ((s.held_writer .idle).trans (RouteStream.held_scheduleIdle _ _ _))
    · split
      · exact flows_failWrite h now id
      · next hd =>
        have hd : s.destroying = false := by
          simp only [not_or, Bool.not_eq_true] at hd
          exact hd.1
        obtain ⟨leg, hl⟩ := h.leg id s hs hd
        have hask : (if s.sendCredit = 0 then releaseCircuit now d id
              else requestCircuit now d id).2 = false ∧
            (if s.sendCredit = 0 then releaseCircuit now d id
              else requestCircuit now d id).1.Open ∧
            Shift d (if s.sendCredit = 0 then releaseCircuit now d id
              else requestCircuit now d id).1 := by
          split
          · exact releaseCircuit_shift h now hl
          · exact requestCircuit_shift h now id
        obtain ⟨hflag, ho, hsh⟩ := hask
        split
        · next d' he =>
          rw [he] at hflag
          cases hflag
        · next d' he =>
          rw [he] at ho hsh
          obtain ⟨s', hs', ha⟩ := hsh.some id s hs
          have hstep : Flows 0 d d' := .inr ⟨ho, hsh.flow⟩
          refine hstep.andThen (fun _ => ?_) fun hsh => absurd (hsh.closed.symm.trans ho.live) (by decide)
          rw [hs']
          dsimp only
          split
          · split
            · exact flows_failWrite ho now id
            · exact flows_held ho hs' (s'.held_writer _)
          · refine flows_sendBatch now id _ ho hs' (ha.destroying.trans hd) ?_ ?_ rest
            · unfold RouteStream.batch
              omega
            · unfold RouteStream.batch
              omega

theorem flows_write {d : Dest} (h : d.Open) (now : Int) (id : Nat) (data : List UInt8) :
    Flows 0 d (write now d id data) := by
  unfold write
  split
  · exact .refl h
  · next s hs =>
    split
    · exact .refl h
    · split
      · exact flows_held h hs (s.held_writer _)
      · have hh : s.Held { s with writer := .woken data, idleTimer := none } :=
          ⟨rfl, rfl, rfl, rfl, rfl, rfl, rfl, rfl, rfl, fun hd => hd, fun hs =>
            ⟨hs.torn, hs.queue, hs.reading, hs.window⟩⟩
        refine (flows_held h hs hh).andThen (fun ho => flows_resume ho now id data) fun hsh => ?_
        exact absurd (hsh.closed.symm.trans h.live) (by decide)

theorem flows_destroyStream {d : Dest} (h : d.Open) (id : Nat) : Flows 0 d (d.destroyStream id) :=
  flows_modify h id RouteStream.held_destroy

theorem flows_resumed {d : Dest} (h : d.Open) (now : Int) (id : Nat) (ok : Bool) :
    Flows 0 d (resumed now d id ok) := by
  unfold resumed
  split
  · exact .refl h
  · split
    · exact flows_resume h now id _
    · split
      · exact flows_resume h now id _
      · exact flows_failWrite h now id
    · exact flows_destroyStream h id
    · exact .refl h

theorem cells_eq_zero (id : Nat) {b : Body} (hb : b = .fin ∨ b = .reset ∨ ∃ u, b = .spliceReady u) :
    (⟨id, b⟩ : Frame).cells = 0 ∧ ∀ id', (⟨id, b⟩ : Frame).creditOf id' = 0 := by
  rcases hb with rfl | rfl | ⟨u, rfl⟩
  · exact ⟨rfl, fun _ => rfl⟩
  · exact ⟨rfl, fun _ => rfl⟩
  · exact ⟨rfl, fun _ => rfl⟩

theorem flows_reset {d : Dest} (h : d.Open) (id : Nat) : Flows 0 d (d.sendOut ⟨id, .reset⟩) :=
  have hw := cells_eq_zero id (.inr (.inl rfl))
  flows_sendOut h hw.1 hw.2

theorem flows_final {d : Dest} (h : d.Open) (now : Int) (id : Nat) : Flows 0 d (final now d id) := by
  unfold final
  split
  · exact .refl h
  · next s hs =>
    split
    · exact .refl h
    · next hd =>
      simp only [not_or, Bool.not_eq_true] at hd
      have hh : s.Held { s with localEnded := true } :=
        ⟨rfl, rfl, rfl, rfl, rfl, rfl, rfl, rfl, rfl, fun hd => hd, fun hs =>
          ⟨hs.torn, hs.queue, hs.reading, hs.window⟩⟩
      refine (flows_held h hs hh).andThen (fun ho => ?_) fun hsh =>
        absurd (hsh.closed.symm.trans h.live) (by decide)
      obtain ⟨leg, hl⟩ := ho.leg id _ (stream?_set_self d id _) hd.1
      obtain ⟨hflag, ho', hsh⟩ := releaseCircuit_shift ho now hl
      split
      · next d' he =>
        rw [he] at hflag
        cases hflag
      · next d' he =>
        rw [he] at ho' hsh
        have hstep : Flows 0 (d.setStream id { s with localEnded := true }) d' :=
          .inr ⟨ho', hsh.flow⟩
        have hw := cells_eq_zero id (.inl rfl)
        exact hstep.andThen (fun _ => flows_sendOut ho' hw.1 hw.2) fun hsh =>
          absurd (hsh.closed.symm.trans ho'.live) (by decide)

/-! ## Reading -/

theorem consumed_of_closed {d : Dest} (h : d.closed = true) (amount : Nat) (flush : Bool) :
    d.consumed amount flush = d := by
  unfold consumed
  rw [if_pos h]

theorem flows_readBack {d : Dest} (h : d.Open) {id : Nat} {s : RouteStream}
    (hs : d.stream? id = some s) (hd : s.destroying = false) : Flows 0 d (d.readBack id s) := by
  have hsane := h.sane id s hs
  have hsum := h.credit
  unfold readBack
  split
  · next hdel =>
    have hqueue := hsane.queue hd
    rw [if_pos hdel] at hqueue
    have hwindow := hsane.window
    have hread : ∀ (pending : Nat) (credit : Int), credit + pending = s.receiveCredit +
        s.streamReturnPending + 1 → Open (d.setStream id { s with
          delivered := false
          receivedOutstanding := s.receivedOutstanding - 1
          streamReturnPending := pending
          receiveCredit := credit }) := by
      intro pending credit hcredit
      refine h.setStream hs rfl rfl rfl (fun hd => hd) ⟨fun ht => ?_, fun _ => ?_, fun _ => rfl,
        ?_⟩ ?_
      · exact absurd (ht.symm.trans (hsane.torn_eq_false hd)) (by decide)
      · dsimp only
        rw [hqueue]
        rfl
      · dsimp only
        omega
      · dsimp only
        omega
    have hout : ((s.receivedOutstanding - 1 : Nat) : Int) - s.receivedOutstanding = -1 := by omega
    have hback : ∀ {d' : Dest}, Flows (-1) d d' → d'.Open → d'.creditSum + 1 ≤ circuitWindow := by
      intro d' hf ho
      rcases hf with hsh | ⟨-, hf⟩
      · exact absurd (hsh.closed.symm.trans ho.live) (by decide)
      · have := hf.credit
        omega
    dsimp only
    split
    · have hstep := flows_send h hs (p := d.sendPool)
        (hread 0 (s.receiveCredit + (s.streamReturnPending + 1 : Nat)) (by push_cast; omega))
        (f := ⟨id, .credit (s.streamReturnPending + 1)⟩) rfl rfl rfl (by simp [Frame.creditOf])
      rw [hout] at hstep
      exact hstep.trans (fun ho => flows_consumed ho 1 (hback hstep ho) false)
        (fun hsh => consumed_of_closed hsh.closed _ _) rfl
    · have ho := hread (s.streamReturnPending + 1) s.receiveCredit (by push_cast; omega)
      have hstep : Flows (-1) d (d.setStream id { s with
          delivered := false
          receivedOutstanding := s.receivedOutstanding - 1
          streamReturnPending := s.streamReturnPending + 1 }) := by
        refine .inr ⟨ho, ?_⟩
        rw [← hout]
        exact flow_setStream h hs { s with
          delivered := false
          receivedOutstanding := s.receivedOutstanding - 1
          streamReturnPending := s.streamReturnPending + 1 } (p := d.sendPool) rfl rfl rfl
      exact hstep.trans (fun ho => flows_consumed ho 1 (hback hstep ho) false)
        (fun hsh => consumed_of_closed hsh.closed _ _) rfl
  · exact .refl h

theorem streams_destroy (d : Dest) : d.destroy.streams = d.streams ∨
    d.destroy.streams = .empty ∧ d.destroy.closed = true := by
  unfold destroy
  split
  · exact .inl rfl
  · exact .inr ⟨rfl, rfl⟩

theorem streams_sendOut (d : Dest) (f : Frame) : (d.sendOut f).streams = d.streams ∨
    (d.sendOut f).streams = .empty ∧ (d.sendOut f).closed = true := by
  unfold sendOut
  split
  · exact .inl rfl
  · split
    · exact streams_destroy d
    · exact .inl rfl

theorem streams_consumed (d : Dest) (amount : Nat) (flush : Bool) :
    (d.consumed amount flush).streams = d.streams ∨
    (d.consumed amount flush).streams = .empty ∧ (d.consumed amount flush).closed = true := by
  unfold consumed
  split
  · exact .inl rfl
  · dsimp only
    split
    · exact .inl rfl
    · split
      · exact .inl rfl
      · split
        · exact .inl rfl
        · exact streams_sendOut _ _

theorem stream?_of_streams {d d' : Dest} (h : d'.streams = d.streams ∨
    d'.streams = .empty ∧ d'.closed = true) {id : Nat} {s : RouteStream}
    (hs : d'.stream? id = some s) : d.stream? id = some s := by
  rcases h with h | ⟨h, -⟩
  · unfold stream? at hs ⊢
    rw [← h]
    exact hs
  · unfold stream? at hs
    rw [h] at hs
    cases hs

theorem delivered_readBack {d : Dest} {id : Nat} {s s' : RouteStream} (hs : d.stream? id = some s)
    (h : (d.readBack id s).stream? id = some s') : s'.delivered = false := by
  unfold readBack at h
  split at h
  · dsimp only at h
    split at h
    · have h' := stream?_of_streams (streams_sendOut _ _) (stream?_of_streams (streams_consumed _ _ _) h)
      rw [stream?_set_self] at h'
      cases h'
      rfl
    · have h' := stream?_of_streams (streams_consumed _ _ _) h
      rw [stream?_set_self] at h'
      cases h'
      rfl
  · next hdel =>
    obtain rfl := Option.some.inj (hs.symm.trans h)
    simpa using hdel

theorem flows_read {d : Dest} (h : d.Open) (id : Nat) : Flows 0 d (d.read id) := by
  unfold read
  split
  · exact .refl h
  · next s hs =>
    split
    · exact .refl h
    · next hd =>
      have hd : s.destroying = false := by simpa using hd
      refine (flows_readBack h hs hd).andThen (fun ho => ?_) fun hsh =>
        modify_of_none (hsh.stream? id) _
      unfold modify
      split
      · exact .refl ho
      · next s' hs' =>
        have hdel := delivered_readBack hs hs'
        refine flows_held ho hs' (RouteStream.Held.trans ?_ (RouteStream.held_drain _))
        exact ⟨rfl, rfl, rfl, rfl, rfl, rfl, rfl, rfl, rfl, fun hd => hd, fun hs =>
          ⟨hs.torn, hs.queue, fun _ => hdel, hs.window⟩⟩

/-! ## Closing a stream -/

/-- Taking out a stream that has no leg and nothing unread. -/
theorem flow_delete {d : Dest} (h : d.Open) {id : Nat} {st : DestStream}
    (hst : d.streams.get? id = some st) (hleg : d.sendPool.legs.get? id = none)
    (hout : st.outstanding = 0) :
    Open { d with streams := d.streams.delete id } ∧
      Flow 0 d { d with streams := d.streams.delete id } := by
  have hget : ∀ id', ({ d with streams := d.streams.delete id } : Dest).stream? id' =
      if id' = id then none else d.stream? id' := by
    intro id'
    unfold stream?
    dsimp only
    rw [JsMap.get?_delete]
    by_cases he : id' = id
    · rw [if_pos he, if_pos he]
    · rw [if_neg he, if_neg he]
  have htotal := JsMap.total_delete hst fun _ st => st.outstanding
  have hsum : ({ d with streams := d.streams.delete id } : Dest).creditSum = d.creditSum := by
    simp only [creditSum]
    omega
  have hspent : ∀ id', ({ d with streams := d.streams.delete id } : Dest).spent id' ≤ d.spent id' := by
    intro id'
    unfold Dest.spent
    rw [hget]
    split
    · exact Nat.add_le_add_right (Nat.zero_le _) _
    · exact le_rfl
  have hlent : ∀ id', ({ d with streams := d.streams.delete id } : Dest).lent id' ≤ d.lent id' := by
    intro id'
    unfold Dest.lent
    rw [hget]
    split
    · cases hs : d.stream? id' with
      | none => exact le_rfl
      | some s =>
        have := (h.sane id' s hs).window
        simp only [Option.elim_none, Option.elim_some]
        omega
    · exact le_rfl
  refine ⟨⟨h.live, h.pool, h.poolLive, h.link, by rw [hsum]; exact h.credit, ?_, ?_, ?_, ?_⟩,
    ⟨rfl, fun f hf => .inl hf, by rw [hsum, Int.add_zero], ⟨[], rfl⟩, rfl, rfl, hspent,
      fun id' _ => hlent id', fun id' b hb => ?_⟩⟩
  · intro id' leg hl
    have hne : id' ≠ id := by
      rintro rfl
      exact absurd (hl.symm.trans hleg) (by simp)
    rw [hget, if_neg hne]
    exact h.legs id' leg hl
  · intro id' s hs hd
    rw [hget] at hs
    split at hs
    · cases hs
    · exact h.leg id' s hs hd
  · intro id' s hs
    rw [hget] at hs
    split at hs
    · cases hs
    · exact h.sane id' s hs
  · intro id' st' hst'
    change (d.streams.delete id).get? id' = some st' at hst'
    rw [JsMap.get?_delete] at hst'
    split at hst'
    · cases hst'
    · exact h.ids id' st' hst'
  · change (d.streams.delete id).get? id' = _ at hb
    rw [JsMap.get?_delete] at hb
    split at hb
    · cases hb
    · exact ⟨b, hb⟩

theorem flows_closeIfEmpty {d : Dest} (h : d.Open) : Flows 0 d d.closeIfEmpty := by
  unfold closeIfEmpty
  split
  · exact .inl (shut_destroy h)
  · exact .refl h

theorem closeIfEmpty_of_closed {d : Dest} (h : d.closed = true) : d.closeIfEmpty = d := by
  unfold closeIfEmpty destroy
  rw [if_pos h, ite_self]

theorem Open.noLeg {d : Dest} (h : d.Open) {id : Nat} {s : RouteStream} (hs : d.stream? id = some s)
    (ht : s.torn = true) : d.sendPool.legs.get? id = none := by
  cases hl : d.sendPool.legs.get? id with
  | none => rfl
  | some leg => exact absurd ((h.matches_leg hs hl).1.symm.trans ht) (by decide)

theorem flows_finish {d : Dest} (h : d.Open) {id : Nat} {s : RouteStream}
    (hs : d.stream? id = some s) (ht : s.torn = true) : Flows 0 d (d.finish id) := by
  have hdel := flow_delete h (stream?_eq_some.mp hs) (h.noLeg hs ht) ((h.sane id s hs).torn ht).2
  exact Flows.andThen (.inr hdel) flows_closeIfEmpty fun hsh => closeIfEmpty_of_closed hsh.closed

theorem flows_closeStream {d : Dest} (h : d.Open) (id : Nat) : Flows 0 d (d.closeStream id) := by
  unfold closeStream
  split
  · exact .refl h
  · next s hs =>
    split
    · next ht => exact flows_finish h hs ht
    · exact .refl h

theorem flows_spliceClosed {d : Dest} (h : d.Open) (id : Nat) : Flows 0 d (d.spliceClosed id) := by
  unfold spliceClosed
  split
  · next remoteReset hst =>
    have hnone : d.stream? id = none := by
      unfold stream?
      rw [hst]
    have hleg : d.sendPool.legs.get? id = none := by
      cases hl : d.sendPool.legs.get? id with
      | none => rfl
      | some leg =>
        obtain ⟨s, hs, -⟩ := h.legs id leg hl
        exact absurd (hs.symm.trans hnone) (by simp)
    obtain ⟨ho, hf⟩ := flow_delete h hst hleg rfl
    have hreset : Flows 0 d (if remoteReset then { d with streams := d.streams.delete id }
        else ({ d with streams := d.streams.delete id } : Dest).sendOut ⟨id, .reset⟩) := by
      split
      · exact .inr ⟨ho, hf⟩
      · exact Flows.andThen (.inr ⟨ho, hf⟩) (fun ho => flows_reset ho id) fun hsh =>
          absurd (hsh.closed.symm.trans ho.live) (by decide)
    exact hreset.andThen flows_closeIfEmpty fun hsh => closeIfEmpty_of_closed hsh.closed
  · exact .refl h

/-- Taking out the leg of a stream that is being destroyed. -/
theorem removeLeg_shift {d : Dest} (h : d.Open) (now : Int) {id : Nat} {s : RouteStream}
    (hs : d.stream? id = some s) (hd : s.destroying = true) :
    (removeLeg now d id).2 = false ∧ (removeLeg now d id).1.Open ∧ Shift d (removeLeg now d id).1 ∧
      (removeLeg now d id).1.sendPool.legs.get? id = none := by
  cases hl : d.sendPool.legs.get? id with
  | none =>
    unfold removeLeg
    rw [Pool.remove_of_none hl]
    exact ⟨rfl, h, .refl d, hl⟩
  | some leg =>
    have hcons := (Pool.conserved_remove h.pool id).1
    obtain ⟨hb, hin, hcl, -, hlegs⟩ := Pool.remove_frame hl
    have ho : Open { d with sendPool := (d.sendPool.remove id).1 } := by
      refine ⟨h.live, hcons, hcl.trans h.poolLive, h.link, h.credit, fun id' leg' hl' => ?_,
        fun id' s' hs' hd' => ?_, h.sane, h.ids⟩
      · dsimp only at hl'
        rw [hlegs] at hl'
        split at hl'
        · cases hl'
        · exact h.legs id' leg' hl'
      · dsimp only
        rw [hlegs, if_neg ?_]
        · exact h.leg id' s' hs' hd'
        · rintro rfl
          obtain rfl := Option.some.inj (hs.symm.trans hs')
          exact absurd (hd.symm.trans hd') (by decide)
    have hsh : Shift d { d with sendPool := (d.sendPool.remove id).1 } := by
      refine shift_pool d hin fun id' hn => ?_
      rw [hlegs]
      split
      · rfl
      · exact hn
    obtain ⟨hflag, ho', hsh'⟩ := distribute_shift ho now
    have hnone : (d.sendPool.remove id).1.legs.get? id = none := by rw [hlegs, if_pos rfl]
    have he : removeLeg now d id = distribute now { d with sendPool := (d.sendPool.remove id).1 } := by
      unfold removeLeg
      rw [show d.sendPool.remove id = ((d.sendPool.remove id).1, true) from Prod.ext rfl hb]
    rw [he]
    exact ⟨hflag, ho', hsh.trans hsh', hsh'.noLeg id hnone⟩

/-- `_destroy` after its RESET: the leg is taken out and what was not read is
given back. -/
theorem flows_tearDown {d : Dest} (h : d.Open) (now : Int) {id : Nat} {s : RouteStream}
    (hs : d.stream? id = some s) (hd : s.destroying = true) :
    (tearDown now d id).2 = false ∧ Flows 0 d (tearDown now d id).1 ∧
      ((tearDown now d id).1.closed = false →
        ∃ s', (tearDown now d id).1.stream? id = some s' ∧ s'.torn = true) := by
  obtain ⟨hflag, ho, hsh, hnone⟩ := removeLeg_shift h now hs hd
  unfold tearDown
  rw [hs]
  dsimp only
  split
  · next d' he =>
    rw [he] at hflag
    cases hflag
  · next d' he =>
    rw [he] at ho hsh hnone
    dsimp only at ho hsh hnone
    obtain ⟨s', hs', ha⟩ := hsh.some id s hs
    have hsane := ho.sane id s' hs'
    have hd' : s'.destroying = true := ha.destroying.trans hd
    have hwindow : s'.receiveCredit + s'.streamReturnPending + (0 : Nat) ≤ streamWindow := by
      have := hsane.window
      omega
    have htorn : Open (d'.setStream id s'.tear) := by
      refine ho.update hs' ho.pool ho.poolLive (fun _ _ => rfl)
        (fun leg hl => absurd (hl.symm.trans hnone) (by simp))
        (fun hl => absurd (hd'.symm.trans hl) (by decide))
        ⟨fun _ => ⟨hd', rfl⟩, fun hl => absurd (hd'.symm.trans hl) (by decide), hsane.reading,
          hwindow⟩ ?_
      have := ho.credit
      show d'.creditSum + 0 ≤ _
      omega
    have hflow := hsh.flow.trans (flow_setStream ho hs' s'.tear (p := d'.sendPool) rfl rfl rfl)
    have hout : ((s'.tear.receivedOutstanding : Nat) : Int) = 0 := rfl
    rw [modify_of_some hs']
    refine ⟨rfl, Flows.trans (.inr ⟨htorn, hflow⟩) (fun ho => flows_consumed ho
      s.receivedOutstanding ?_ true) (fun hsh => consumed_of_closed hsh.closed _ _) ?_, fun hc => ?_⟩
    · have hcredit : ((d'.setStream id s'.tear).creditSum : Int) = _ := hflow.credit
      have hsum := h.credit
      rw [hout, ha.receivedOutstanding] at hcredit
      omega
    · rw [hout, ha.receivedOutstanding]
      omega
    · refine ⟨s'.tear, ?_, rfl⟩
      rcases streams_consumed (d'.setStream id s'.tear) s.receivedOutstanding true with he | ⟨-, he⟩
      · unfold stream?
        dsimp only at he ⊢
        rw [he]
        exact stream?_set_self d' id s'.tear
      · exact absurd (he.symm.trans hc) (by decide)

theorem finish_of_shut {d d' : Dest} (h : Shut d d') (id : Nat) : d'.finish id = d' := by
  unfold finish
  have hdel : d'.streams.delete id = d'.streams := by
    rw [h.streams]
    exact JsMap.delete_of_none rfl
  rw [hdel]
  exact closeIfEmpty_of_closed h.closed

theorem flows_runDestroy {d : Dest} (h : d.Open) (now : Int) (id : Nat) :
    Flows 0 d (runDestroy now d id) := by
  unfold runDestroy
  split
  · exact .refl h
  · next s hs =>
    split
    · exact .refl h
    · next hd =>
      have hd : s.destroying = true := by
        simp only [not_or, Bool.not_eq_false] at hd
        exact hd.1
      split
      · obtain ⟨hflag, hf, ht⟩ := flows_tearDown h now hs hd
        split
        · next d' he =>
          rw [he] at hflag
          cases hflag
        · next d' he =>
          rw [he] at hf ht
          refine hf.andThen (fun ho => ?_) fun hsh => finish_of_shut hsh id
          obtain ⟨s', hs', ht'⟩ := ht ho.live
          exact flows_finish ho hs' ht'
      · refine (flows_reset h id).andThen (fun ho => ?_) fun hsh => ?_
        · have hs' : (d.sendOut ⟨id, .reset⟩).stream? id = some s := by
            rcases streams_sendOut d ⟨id, .reset⟩ with he | ⟨-, he⟩
            · unfold stream?
              rw [he]
              exact hs
            · exact absurd (he.symm.trans ho.live) (by decide)
          exact (flows_tearDown ho now hs' hd).2.1
        · unfold tearDown
          rw [hsh.stream? id]

/-! ## Timers -/

theorem Open.alike {d : Dest} (h : d.Open) {p : Pool Nat} (hp : d.sendPool.Alike p) :
    Open { d with sendPool := p } := by
  refine ⟨h.live, hp.pool h.pool, hp.closed.trans h.poolLive, h.link, h.credit, fun id leg' hl' => ?_,
    fun id s hs hd => (hp.exists_iff id).mpr (h.leg id s hs hd), h.sane, h.ids⟩
  obtain ⟨leg, hl⟩ := (hp.exists_iff id).mp ⟨leg', hl'⟩
  obtain ⟨leg₁, hl₁, he⟩ := hp.some id leg hl
  obtain rfl := Option.some.inj (hl₁.symm.trans hl')
  obtain ⟨s, hs, ht, hm⟩ := h.legs id leg hl
  have hgr : leg₁.granted = leg.granted := by rw [he]
  have hwa : leg₁.wanted = leg.wanted := by rw [he]
  exact ⟨s, hs, ht, hgr ▸ hm.le, fun hd => hgr.trans (hm.granted hd),
    fun hd => hwa.trans (hm.wanted hd)⟩

theorem flows_idleFired {d : Dest} (h : d.Open) (now : Int) (id : Nat) :
    Flows 0 d (idleFired now d id) := by
  unfold idleFired
  split
  · exact .refl h
  · next s hs =>
    split
    · exact .refl h
    · have hh : s.Held { s with idleTimer := none } :=
        ⟨rfl, rfl, rfl, rfl, rfl, rfl, rfl, rfl, rfl, fun hd => hd, fun hs =>
          ⟨hs.torn, hs.queue, hs.reading, hs.window⟩⟩
      have hset := flows_held h hs hh
      dsimp only
      split
      · exact hset
      · next hd =>
        simp only [not_or, Bool.not_eq_true] at hd
        refine hset.andThen (fun ho => ?_) fun hsh =>
          absurd (hsh.closed.symm.trans h.live) (by decide)
        obtain ⟨leg, hl⟩ := ho.leg id _ (stream?_set_self d id _) hd.2
        obtain ⟨hflag, ho', hsh⟩ := releaseCircuit_shift ho now hl
        split
        · next d' he =>
          rw [he] at hflag
          cases hflag
        · next d' he =>
          rw [he] at ho' hsh
          exact .inr ⟨ho', hsh.flow⟩

theorem flows_grantIdle {d : Dest} (h : d.Open) (now : Int) (id : Nat) (busy : Bool) :
    Flows 0 d (grantIdle now d id busy) := by
  have hp := d.sendPool.alike_idleFired id busy now
  have ho := h.alike hp
  have hsh : Shift d { d with sendPool := (d.sendPool.idleFired id busy now).1 } :=
    shift_pool d hp.inFlight hp.none
  unfold grantIdle
  split
  · next p he =>
    rw [he] at ho hsh
    exact .inr ⟨ho, hsh.flow⟩
  · next p he =>
    rw [he] at ho hsh hp
    have hleg : ∃ leg, p.legs.get? id = some leg := by
      rw [hp.exists_iff]
      cases hl : d.sendPool.legs.get? id with
      | some leg => exact ⟨leg, rfl⟩
      | none =>
        unfold Pool.idleFired at he
        rw [hl] at he
        cases he
    obtain ⟨leg, hl⟩ := hleg
    obtain ⟨-, ho', hsh'⟩ := releaseCircuit_shift ho now hl
    exact .inr ⟨ho', (hsh.trans hsh').flow⟩

theorem flows_returnFired {d : Dest} (h : d.Open) : Flows 0 d d.returnFired := by
  unfold returnFired
  split
  · have ho : Open { d with returnTimer := false } :=
      ⟨h.live, h.pool, h.poolLive, h.link, h.credit, h.legs, h.leg, h.sane, h.ids⟩
    have hf : Flow 0 d { d with returnTimer := false } :=
      flow_return rfl rfl (show _ = d.link.admits [] from rfl) rfl rfl (Int.add_zero _).symm rfl
        (by simp)
    exact Flows.andThen (.inr ⟨ho, hf⟩) (fun ho => flows_consumed ho 0 ho.credit true) fun hsh =>
      absurd (hsh.closed.symm.trans h.live) (by decide)
  · exact .refl h

theorem flows_retire {d : Dest} (h : d.Open) : Flows 0 d d.retire := by
  unfold retire
  split
  · exact .refl h
  · have ho : Open { d with retired := true } :=
      ⟨h.live, h.pool, h.poolLive, h.link, h.credit, h.legs, h.leg, h.sane, h.ids⟩
    have hf : Flow 0 d { d with retired := true } :=
      flow_return rfl rfl (show _ = d.link.admits [] from rfl) rfl rfl (Int.add_zero _).symm rfl
        (by simp)
    exact Flows.andThen (.inr ⟨ho, hf⟩) flows_closeIfEmpty fun hsh =>
      absurd (hsh.closed.symm.trans h.live) (by decide)

end Dest

end HyperDht.Private
