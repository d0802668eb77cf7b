import HyperDht.Private.DestCredit

/-!
# Frames of a destination circuit

What a circuit does with the frames of its link (`Took`): DATA is charged to the
circuit and to its stream, circuit CREDIT goes back to the pool, and CREDIT of a
stream, or the OPEN that admits it, is what the stream may send. A frame that is
refused fails a check that its own contents decide (`Refuses`).
-/

namespace HyperDht.Private

/-- What a frame adds to what a stream may send: its credit, or the window of the
stream it opens. -/
def Frame.sendGain (id : Nat) (f : Frame) : Nat :=
  f.creditOf id + if f = ⟨id, .openStream⟩ then streamWindow else 0

def DestStream.logical? : DestStream → Option RouteStream
  | .logical s => some s
  | .spliced _ => none

namespace Dest

/-- The checks a frame can fail in a state, as far as they are about credit. -/
def Refuses (d : Dest) (f : Frame) : DestFault → Prop
  | .receiveCredit => f.cells = 1 ∧ d.receiveCredit = 0
  | .returned _ => d.sendPool.inFlight < f.creditOf circuitStreamId
  | .stream .window =>
    ∃ s, d.stream? f.streamId = some s ∧ s.receiveCredit < f.dataOf f.streamId
  | .stream .grantStream =>
    ∃ s, d.stream? f.streamId = some s ∧ streamWindow < s.sendCredit + f.creditOf f.streamId
  | .noReceive => f.body.isData = true ∧ ∃ b, d.streams.get? f.streamId = some (.spliced b)
  | .grant | .overflow | .stream .grantCircuit | .stream .cancelCircuit | .stream .overflow
  | .stream (.pool _) => False
  | _ => True

theorem stream?_eq_bind (d : Dest) (id : Nat) :
    d.stream? id = (d.streams.get? id).bind DestStream.logical? := by
  unfold stream?
  cases d.streams.get? id with
  | none => rfl
  | some st => cases st <;> rfl

theorem stream?_setAny (d : Dest) (id id' : Nat) (st : DestStream) :
    ({ d with streams := d.streams.set id st } : Dest).stream? id' =
      if id' = id then st.logical? else d.stream? id' := by
  rw [stream?_eq_bind, stream?_eq_bind]
  show ((d.streams.set id st).get? id').bind _ = _
  rw [JsMap.get?_set]
  by_cases he : id' = id
  · rw [if_pos he, if_pos he]
    rfl
  · rw [if_neg he, if_neg he]

/-- `d'` is `d` after a frame, with `δ` more receive credit accounted for. -/
structure Took (f : Frame) (δ : Int) (d d' : Dest) : Prop where
  faults : ∀ g ∈ d'.faults, g ∈ d.faults ∨ d.Refuses f g
  credit : (d'.creditSum : Int) = d.creditSum + δ
  link : ∃ fs, d'.link = d.link.admits fs
  sent : d'.sendPool.inFlight + d.link.total Frame.cells + f.creditOf circuitStreamId =
    d.sendPool.inFlight + d'.link.total Frame.cells
  returned : d'.receiveCredit + d.link.total (Frame.creditOf circuitStreamId) + f.cells =
    d.receiveCredit + d'.link.total (Frame.creditOf circuitStreamId)
  spent : ∀ id, id ≠ circuitStreamId → d'.spent id ≤ d.spent id + f.sendGain id
  lent : ∀ id, id ≠ circuitStreamId → d'.lent id ≤ d.lent id + f.dataOf id
  splices : f.splices = 0 → NoSplice d d'

/-- `d'` is `d` closed by a frame. -/
structure Ended (f : Frame) (d d' : Dest) : Prop where
  closed : d'.closed = true
  poolClosed : d'.sendPool.closed = true
  streams : d'.streams = .empty
  link : d'.link = d.link.destroy
  faults : ∀ g ∈ d'.faults, g ∈ d.faults ∨ d.Refuses f g

/-- What a frame does to an open circuit. -/
def Takes (f : Frame) (d d' : Dest) : Prop := Ended f d d' ∨ d'.Open ∧ Took f 0 d d'

theorem Flow.took {δ : Int} {d d' : Dest} (h : Flow δ d d') {f : Frame} (hcells : f.cells = 0)
    (hcircuit : f.creditOf circuitStreamId = 0) : Took f δ d d' where
  faults g hg := by
    rcases h.faults g hg with hg | rfl
    · exact .inl hg
    · exact .inr trivial
  credit := h.credit
  link := h.link
  sent := by rw [hcircuit, Nat.add_zero, h.sent]
  returned := by rw [hcells, Nat.add_zero, h.returned]
  spent id _ := (h.spent id).trans (Nat.le_add_right _ _)
  lent id hid := (h.lent id hid).trans (by omega)
  splices _ := h.splices

theorem Took.flow {f : Frame} {δ δ' : Int} {d d' d'' : Dest} (h : Took f δ d d')
    (h' : Flow δ' d' d'') : Took f (δ + δ') d d'' where
  faults g hg := by
    rcases h'.faults g hg with hg | rfl
    · exact h.faults g hg
    · exact .inr trivial
  credit := by rw [h'.credit, h.credit, Int.add_assoc]
  link := by
    obtain ⟨fs, hl⟩ := h.link
    obtain ⟨gs, hl'⟩ := h'.link
    exact ⟨fs ++ gs, by rw [hl', hl, Link.admits_append]⟩
  sent := by
    have h₁ := h.sent
    have h₂ := h'.sent
    omega
  returned := by
    have h₁ := h.returned
    have h₂ := h'.returned
    omega
  spent id hid := (h'.spent id).trans (h.spent id hid)
  lent id hid := (h'.lent id hid).trans (h.lent id hid)
  splices hf := (h.splices hf).trans h'.splices

theorem Took.ended {f : Frame} {δ : Int} {d d' d'' : Dest} (h : Took f δ d d')
    (h' : Shut d' d'') : Ended f d d'' where
  closed := h'.closed
  poolClosed := h'.poolClosed
  streams := h'.streams
  link := by
    obtain ⟨fs, hl⟩ := h.link
    rw [h'.link, hl, Link.destroy_admits]
  faults g hg := by
    rcases h'.faults g hg with hg | rfl
    · exact h.faults g hg
    · exact .inr trivial

theorem Took.flows {f : Frame} {δ δ' : Int} {d d' d'' : Dest} (h : Took f δ d d')
    (h' : Flows δ' d' d'') (hδ : δ + δ' = 0) : Takes f d d'' := by
  rcases h' with hs | ⟨ho, hf⟩
  · exact .inl (h.ended hs)
  · exact .inr ⟨ho, hδ ▸ h.flow hf⟩

theorem Took.fault {f : Frame} {δ : Int} {d d' : Dest} (h : Took f δ d d') {g : DestFault}
    (hg : d.Refuses f g) : Took f δ d (d'.fault g) where
  faults g' hg' := by
    rcases List.mem_append.mp hg' with hg' | hg'
    · exact h.faults g' hg'
    · rw [List.mem_singleton.mp hg']
      exact .inr hg
  credit := h.credit
  link := h.link
  sent := h.sent
  returned := h.returned
  spent := h.spent
  lent := h.lent
  splices := h.splices

theorem ended_fail {d : Dest} (h : d.Open) {f : Frame} {g : DestFault} (hg : d.Refuses f g) :
    Ended f d (d.fault g).destroy := by
  have hs := shut_destroy (h.fault g)
  refine ⟨hs.closed, hs.poolClosed, hs.streams, hs.link, fun g' hg' => ?_⟩
  rcases hs.faults g' hg' with hg' | rfl
  · rcases List.mem_append.mp hg' with hg' | hg'
    · exact .inl hg'
    · rw [List.mem_singleton.mp hg']
      exact .inr hg
  · exact .inr trivial

theorem took_stream {d : Dest} {f : Frame} {id : Nat} {s : RouteStream}
    (hs : d.stream? id = some s) (s' : RouteStream) {credit : Nat} (hf : f.streamId = id)
    (hid : id ≠ circuitStreamId) (hrc : credit + f.cells = d.receiveCredit)
    (hout : s'.receivedOutstanding = s.receivedOutstanding + f.cells)
    (hsend : s'.sendCredit ≤ s.sendCredit + f.creditOf id)
    (hrecv : s.receiveCredit ≤ s'.receiveCredit + f.dataOf id) :
    Took f 0 d ({ d with receiveCredit := credit }.setStream id s') where
  faults g hg := .inl hg
  credit := by
    have hsum := creditSum_setStream (d := { d with receiveCredit := credit }) hs s'
    simp only [creditSum] at hsum ⊢
    omega
  link := ⟨[], rfl⟩
  sent := by
    show d.sendPool.inFlight + d.link.total Frame.cells + _ = d.sendPool.inFlight + d.link.total _
    rw [Frame.creditOf_of_ne (by rw [hf]; exact hid)]
    omega
  returned := by
    show credit + d.link.total _ + f.cells = d.receiveCredit + d.link.total _
    omega
  spent id' _ := by
    unfold Dest.spent
    rw [show (({ d with receiveCredit := credit } : Dest).setStream id s').stream? id' = _ from
      stream?_set _ id id' s']
    show _ + d.link.total _ ≤ _
    split
    · next he =>
      subst he
      rw [hs]
      simp only [Option.elim_some, Frame.sendGain]
      omega
    · exact Nat.le_add_right _ _
  lent id' _ := by
    unfold Dest.lent
    rw [show (({ d with receiveCredit := credit } : Dest).setStream id s').stream? id' = _ from
      stream?_set _ id id' s']
    show _ + ((d.link.total _ : Nat) : Int) ≤ _
    split
    · next he =>
      subst he
      rw [hs]
      simp only [Option.elim_some]
      omega
    · exact Int.le_add_of_nonneg_right (Int.natCast_nonneg _)
  splices _ := noSplice_set rfl

theorem took_charge {d : Dest} {f : Frame} (hid : f.streamId ≠ circuitStreamId)
    (hcells : f.cells = 1) (hne : d.receiveCredit ≠ 0) :
    Took f (-1) d { d with receiveCredit := d.receiveCredit - 1 } where
  faults g hg := .inl hg
  credit := by
    simp only [creditSum]
    omega
  link := ⟨[], rfl⟩
  sent := by rw [Frame.creditOf_of_ne hid]; rfl
  returned := by
    show d.receiveCredit - 1 + d.link.total _ + f.cells = d.receiveCredit + d.link.total _
    omega
  spent id _ := Nat.le_add_right _ _
  lent id _ := Int.le_add_of_nonneg_right (Int.natCast_nonneg _)
  splices _ := noSplice_same rfl

theorem Open.charge {d : Dest} (h : d.Open) :
    Open { d with receiveCredit := d.receiveCredit - 1 } := by
  refine ⟨h.live, h.pool, h.poolLive, h.link, ?_, h.legs, h.leg, h.sane, h.ids⟩
  have := h.credit
  simp only [creditSum] at this ⊢
  omega

/-! ## DATA -/

theorem takes_receiveData {d : Dest} (h : d.Open) (hne : d.receiveCredit ≠ 0) {id : Nat}
    {s : RouteStream} (hs : d.stream? id = some s) (chunk : List UInt8) :
    Takes ⟨id, .data chunk⟩ d
      (receiveData { d with receiveCredit := d.receiveCredit - 1 } id s chunk) := by
  have hid := h.ne_circuit hs
  have hsum := h.credit
  have hcharge : Took ⟨id, .data chunk⟩ (-1) d { d with receiveCredit := d.receiveCredit - 1 } :=
    took_charge hid rfl hne
  have hback : Flows 1 { d with receiveCredit := d.receiveCredit - 1 }
      (Dest.consumed { d with receiveCredit := d.receiveCredit - 1 } 1 false) := by
    apply flows_consumed h.charge 1
    simp only [creditSum] at hsum ⊢
    omega
  unfold receiveData
  split
  · exact hcharge.flows hback rfl
  · next hd =>
    rw [Bool.not_eq_true] at hd
    split
    · rcases hcharge.flows hback rfl with he | ⟨ho, ht⟩
      · -- the circuit is closed; the fault and the destruction change nothing else
        refine .inl ⟨?_, ?_, ?_, ?_, ?_⟩
        all_goals unfold failStream destroyStream
        all_goals rw [modify_of_none (by unfold stream? fault; rw [he.streams]; rfl)]
        · exact he.closed
        · exact he.poolClosed
        · exact he.streams
        · exact he.link
        · intro g hg
          rcases List.mem_append.mp hg with hg | hg
          · exact he.faults g hg
          · rw [List.mem_singleton.mp hg]
            exact .inr trivial
      · exact (ht.fault (show d.Refuses _ (.stream .ended) from trivial)).flows
          (flows_destroyStream (ho.fault _) id) rfl
    · obtain ⟨⟨s', r⟩, hr⟩ : ∃ p, s.receiveOpen chunk = p := ⟨_, rfl⟩
      obtain ⟨hsane, htorn, hcc, hcr, hsend, hout, hrecv, hfault⟩ :=
        RouteStream.receiveOpen_spec (h.sane id s hs) hd hr
      have hopen : Open ({ d with receiveCredit := d.receiveCredit - 1 }.setStream id s') := by
        refine h.charge.setStream hs htorn hcc hcr (fun _ => hd) hsane ?_
        simp only [creditSum] at hsum ⊢
        omega
      have htook : Took ⟨id, .data chunk⟩ 0 d
          ({ d with receiveCredit := d.receiveCredit - 1 }.setStream id s') := by
        refine took_stream hs s' rfl hid (show d.receiveCredit - 1 + 1 = _ by omega) hout
          (by rw [hsend]; exact Nat.le_add_right _ _) ?_
        rw [hrecv]
        simp [Frame.dataOf, Frame.cells, Body.isData]
      rw [hr]
      rcases hfault with rfl | rfl | ⟨rfl, hover⟩
      · exact .inr ⟨hopen, htook⟩
      · exact .inr ⟨hopen.fault _, htook.fault trivial⟩
      · refine .inr ⟨hopen.fault _, htook.fault ⟨s, hs, ?_⟩⟩
        simpa [Frame.dataOf, Frame.cells, Body.isData] using hover

/-! ## Credit -/

theorem takes_grantStream {d : Dest} (h : d.Open) (now : Int) {id : Nat} {s : RouteStream}
    (hs : d.stream? id = some s) {amount : Nat} (hpos : 0 < amount) :
    Takes ⟨id, .credit amount⟩ d (grantStream now d id s amount) := by
  have hid := h.ne_circuit hs
  have hcells : (⟨id, .credit amount⟩ : Frame).cells = 0 := rfl
  have hcircuit : (⟨id, .credit amount⟩ : Frame).creditOf circuitStreamId = 0 :=
    Frame.creditOf_of_ne hid
  unfold grantStream
  split
  · exact .inr ⟨h, (Flow.refl d).took hcells hcircuit⟩
  · next hd =>
    split
    · next hover =>
      have hrefuse : d.Refuses ⟨id, .credit amount⟩ (.stream .grantStream) := by
        refine ⟨s, hs, ?_⟩
        rw [Frame.creditOf_self]
        omega
      exact (((Flow.refl d).took hcells hcircuit).fault hrefuse).flows
        (flows_destroyStream (h.fault _) id) rfl
    · have ho : Open (d.setStream id { s with sendCredit := s.sendCredit + amount }) := by
        have hsane := h.sane id s hs
        have hsum := h.credit
        refine h.setStream hs rfl rfl rfl (fun hd => hd)
          ⟨hsane.torn, hsane.queue, hsane.reading, hsane.window⟩ ?_
        show d.creditSum + s.receivedOutstanding ≤ _
        omega
      have ht : Took ⟨id, .credit amount⟩ 0 d
          (d.setStream id { s with sendCredit := s.sendCredit + amount }) := by
        refine took_stream hs _ rfl hid (show d.receiveCredit + 0 = d.receiveCredit from rfl) rfl
          (by rw [Frame.creditOf_self]) ?_
        exact Int.le_add_of_nonneg_right (Int.natCast_nonneg _)
      obtain ⟨hflag, ho', hsh⟩ := requestCircuit_shift ho now id
      dsimp only
      split
      · next d' he =>
        split at he
        · rw [he] at hflag
          cases hflag
        · cases he
      · next d' he =>
        split at he
        · rw [he] at ho' hsh
          exact (ht.flow hsh.flow).flows (flows_modify ho' id RouteStream.held_wakeWriter) rfl
        · cases he
          exact ht.flows (flows_modify ho id RouteStream.held_wakeWriter) rfl

theorem takes_returned {d : Dest} (h : d.Open) (now : Int) {amount : Nat} {pool : Pool Nat}
    (hp : d.sendPool.returned amount = .ok pool) :
    (distribute now { d with sendPool := pool }).2 = false ∧
      Takes ⟨circuitStreamId, .credit amount⟩ d (distribute now { d with sendPool := pool }).1 := by
  have hcons := (Pool.conserved_returned h.pool hp).1
  obtain ⟨-, -, hle, rfl⟩ := Pool.returned_cases hp
  have ho : Open { d with sendPool := { d.sendPool with
      inFlight := d.sendPool.inFlight - (amount : Int).toNat
      available := d.sendPool.available + (amount : Int).toNat } } :=
    ⟨h.live, hcons, h.poolLive, h.link, h.credit, h.legs, h.leg, h.sane, h.ids⟩
  have ht : Took ⟨circuitStreamId, .credit amount⟩ 0 d { d with sendPool := { d.sendPool with
      inFlight := d.sendPool.inFlight - (amount : Int).toNat
      available := d.sendPool.available + (amount : Int).toNat } } := by
    refine ⟨fun g hg => .inl hg, (Int.add_zero _).symm, ⟨[], rfl⟩, ?_, rfl,
      fun id _ => Nat.le_add_right _ _, fun id _ => Int.le_add_of_nonneg_right (Int.natCast_nonneg _),
      fun _ => noSplice_same rfl⟩
    show d.sendPool.inFlight - (amount : Int).toNat + d.link.total _ + _ = _ + d.link.total _
    rw [Frame.creditOf_self]
    omega
  obtain ⟨hflag, ho', hsh⟩ := distribute_shift ho now
  exact ⟨hflag, .inr ⟨ho', ht.flow hsh.flow⟩⟩

/-! ## Frames for an open stream -/

theorem takes_held {d : Dest} (h : d.Open) {id : Nat} {s s' : RouteStream}
    (hs : d.stream? id = some s) (hh : s.Held s') {f : Frame} (hcells : f.cells = 0)
    (hcircuit : f.creditOf circuitStreamId = 0) : Takes f d (d.setStream id s') := by
  rcases flows_held h hs hh with hsh | ⟨ho, hf⟩
  · exact .inl (((Flow.refl d).took hcells hcircuit).ended hsh)
  · exact .inr ⟨ho, hf.took hcells hcircuit⟩

theorem takes_failStream {d : Dest} (h : d.Open) (id : Nat) {f : Frame} (hcells : f.cells = 0)
    (hcircuit : f.creditOf circuitStreamId = 0) {g : StreamFault} (hg : d.Refuses f (.stream g)) :
    Takes f d (d.failStream id g) :=
  (((Flow.refl d).took hcells hcircuit).fault hg).flows (flows_destroyStream (h.fault _) id) rfl

theorem takes_spliceReset {d : Dest} (h : d.Open) {id : Nat} {b : Bool}
    (hst : d.streams.get? id = some (.spliced b)) {f : Frame} (hcells : f.cells = 0)
    (hcircuit : f.creditOf circuitStreamId = 0) :
    Open { d with streams := d.streams.set id (.spliced true) } ∧
      Took f 0 d { d with streams := d.streams.set id (.spliced true) } := by
  have hset : ∀ id', ({ d with streams := d.streams.set id (.spliced true) } : Dest).stream? id' =
      d.stream? id' := by
    intro id'
    rw [stream?_setAny]
    split
    · next he =>
      rw [he, stream?_eq_bind, hst]
      rfl
    · rfl
  have hsum : ({ d with streams := d.streams.set id (.spliced true) } : Dest).creditSum =
      d.creditSum := by
    have := JsMap.total_set hst (.spliced true) fun _ st => st.outstanding
    simp only [creditSum, DestStream.outstanding] at this ⊢
    omega
  refine ⟨⟨h.live, h.pool, h.poolLive, h.link, by rw [hsum]; exact h.credit, fun id' leg hl => ?_,
    fun id' s hs => ?_, fun id' s hs => ?_, fun id' st hst' => ?_⟩, ⟨fun g hg => .inl hg,
    by rw [hsum, Int.add_zero], ⟨[], rfl⟩, by rw [hcircuit]; rfl, by rw [hcells]; rfl,
    fun id' _ => ?_, fun id' _ => ?_, fun _ id' b' hb' => ?_⟩⟩
  · rw [hset]
    exact h.legs id' leg hl
  · rw [hset] at hs
    exact h.leg id' s hs
  · rw [hset] at hs
    exact h.sane id' s hs
  · change (d.streams.set id (.spliced true)).get? id' = some st at hst'
    rw [JsMap.get?_set] at hst'
    split at hst'
    · next he =>
      rw [he]
      exact h.ids id _ hst
    · exact h.ids id' st hst'
  · unfold Dest.spent
    rw [hset]
    exact Nat.le_add_right _ _
  · unfold Dest.lent
    rw [hset]
    exact Int.le_add_of_nonneg_right (Int.natCast_nonneg _)
  · rcases JsMap.get?_set_cases hb' with ⟨rfl, -⟩ | ⟨-, hb'⟩
    · exact ⟨b, hst⟩
    · exact ⟨b', hb'⟩

/-- A frame for an open stream, if it is no DATA frame. -/
theorem takes_deliver {d : Dest} (h : d.Open) (now : Int) {f : Frame} {st : DestStream}
    (hst : d.streams.get? f.streamId = some st) (hid : f.streamId ≠ circuitStreamId)
    (hdata : f.body.isData = false) (hpos : ∀ n, f.body = .credit n → 0 < n) :
    Takes f d (deliver now d f.streamId st f.body) := by
  have hcircuit : f.creditOf circuitStreamId = 0 := Frame.creditOf_of_ne hid
  have hcells : f.cells = 0 := by
    unfold Frame.cells
    rw [hdata]
    rfl
  have hnone : Took f 0 d d := (Flow.refl d).took hcells hcircuit
  obtain ⟨id, body⟩ := f
  cases st with
  | logical s =>
    have hs : d.stream? id = some s := stream?_eq_some.mpr hst
    cases body with
    | data chunk => cases hdata
    | fin => exact takes_held h hs (RouteStream.held_remoteFin s) hcells hcircuit
    | reset => exact takes_held h hs (RouteStream.held_remoteReset s) hcells hcircuit
    | credit amount => exact takes_grantStream h now hs (hpos amount rfl)
    | openStream | demand | release | spliceOpen | spliceReady =>
      exact takes_failStream h id hcells hcircuit trivial
  | spliced b =>
    cases body with
    | data chunk => cases hdata
    | fin | credit => exact .inr ⟨h, hnone⟩
    | reset =>
      exact .inr (takes_spliceReset h hst hcells hcircuit)
    | openStream | demand | release | spliceOpen | spliceReady =>
      exact .inr ⟨h.fault _, hnone.fault trivial⟩

/-! ## Opening a stream -/

theorem Open.addStream {d : Dest} (h : d.Open) {id : Nat} (hnew : d.streams.get? id = none)
    (hid : 0 < id ∧ id % 2 = 0 ∧ id ≤ d.lastStreamId) {st : DestStream} (hout : st.outstanding = 0)
    {p : Pool Nat} (hp : p.Conserved) (hpl : p.closed = false)
    (hother : ∀ id', id' ≠ id → p.legs.get? id' = d.sendPool.legs.get? id')
    (hleg : ∀ leg, p.legs.get? id = some leg → ∃ s, st = .logical s ∧ s.torn = false ∧ Matches s leg)
    (hstream : ∀ s, st = .logical s → s.Sane ∧ ∃ leg, p.legs.get? id = some leg) :
    Open { d with sendPool := p, streams := d.streams.set id st } := by
  have hget : ∀ id', ({ d with sendPool := p, streams := d.streams.set id st } : Dest).streams.get? id' =
      if id' = id then some st else d.streams.get? id' := fun id' => JsMap.get?_set _ _ _ _
  have hsome : ∀ id' s, ({ d with sendPool := p, streams := d.streams.set id st } : Dest).stream? id' =
      some s ↔ if id' = id then st = .logical s else d.stream? id' = some s := by
    intro id' s
    rw [stream?_eq_some, hget]
    by_cases he : id' = id
    · rw [if_pos he, if_pos he, Option.some.injEq]
    · rw [if_neg he, if_neg he, stream?_eq_some]
  refine ⟨h.live, hp, hpl, h.link, ?_, fun id' leg hl => ?_, fun id' s hs hd => ?_, fun id' s hs => ?_,
    fun id' st' hst' => ?_⟩
  · have hsum := h.credit
    simp only [creditSum, JsMap.total_set_new hnew, hout] at hsum ⊢
    omega
  · by_cases he : id' = id
    · subst he
      obtain ⟨s, hs, ht, hm⟩ := hleg leg hl
      exact ⟨s, (hsome id' s).mpr (by rw [if_pos rfl]; exact hs), ht, hm⟩
    · obtain ⟨s, hs, hm⟩ := h.legs id' leg ((hother id' he).symm.trans hl)
      exact ⟨s, (hsome id' s).mpr (by rw [if_neg he]; exact hs), hm⟩
  · rw [hsome] at hs
    split at hs
    · next he =>
      rw [he]
      exact (hstream s hs).2
    · next he =>
      obtain ⟨leg, hl⟩ := h.leg id' s hs hd
      exact ⟨leg, (hother id' he).trans hl⟩
  · rw [hsome] at hs
    split at hs
    · exact (hstream s hs).1
    · exact h.sane id' s hs
  · rw [hget] at hst'
    split at hst'
    · next he =>
      rw [he]
      exact hid
    · exact h.ids id' st' hst'

theorem cells_of_isOpen {f : Frame} (h : f.body.isOpen = true) : f.cells = 0 := by
  unfold Frame.cells
  cases hb : f.body <;> simp_all [Body.isData, Body.isOpen]

theorem creditOf_of_isOpen {f : Frame} (h : f.body.isOpen = true) (id : Nat) :
    f.creditOf id = 0 := by
  unfold Frame.creditOf
  cases hb : f.body <;> simp_all [Body.isOpen]

theorem took_open {d : Dest} {f : Frame} (hopen : f.body.isOpen = true)
    {id : Nat} (hf : f.streamId = id) (hnew : d.streams.get? id = none) {st : DestStream}
    (hout : st.outstanding = 0)
    (hst : ∀ s, st = .logical s → f = ⟨id, .openStream⟩ ∧ s = .new)
    (hsplice : ∀ b, st = .spliced b → f.splices = 1) {p : Pool Nat}
    (hin : p.inFlight = d.sendPool.inFlight) :
    Took f 0 d { d with lastStreamId := id, sendPool := p, streams := d.streams.set id st } := by
  have hcells : f.cells = 0 := cells_of_isOpen hopen
  have hcredit : f.creditOf circuitStreamId = 0 := creditOf_of_isOpen hopen _
  have hnone : d.stream? id = none := by
    unfold stream?
    rw [hnew]
  have hget : ∀ id', ({ d with
      lastStreamId := id, sendPool := p, streams := d.streams.set id st } : Dest).stream? id' =
      if id' = id then st.logical? else d.stream? id' := fun id' =>
    stream?_setAny { d with lastStreamId := id, sendPool := p } id id' st
  refine ⟨fun g hg => .inl hg, ?_, ⟨[], rfl⟩, ?_, by rw [hcells]; rfl, fun id' _ => ?_,
    fun id' _ => ?_, fun hzero => ?_⟩
  · simp only [creditSum, JsMap.total_set_new hnew, hout]
    omega
  · rw [hcredit]
    show p.inFlight + d.link.total _ + 0 = _ + d.link.total _
    rw [hin, Nat.add_zero]
  · unfold Dest.spent
    rw [hget]
    show _ + d.link.total _ ≤ _
    split
    · next he =>
      subst he
      rw [hnone]
      cases st with
      | logical s =>
        obtain ⟨rfl, rfl⟩ := hst s rfl
        show streamWindow + d.link.total _ ≤
          0 + d.link.total _ + (_ + if _ = _ then streamWindow else 0)
        rw [if_pos rfl]
        omega
      | spliced b => exact Nat.le_add_right _ _
    · exact Nat.le_add_right _ _
  · unfold Dest.lent
    rw [hget]
    show _ + ((d.link.total _ : Nat) : Int) ≤ _
    split
    · next he =>
      subst he
      rw [hnone]
      cases st with
      | logical s =>
        obtain ⟨-, rfl⟩ := hst s rfl
        show ((streamWindow : Int) - (streamWindow : Nat)) + (d.link.total _ : Nat) ≤
          0 + (d.link.total _ : Nat) + (_ : Nat)
        omega
      | spliced b => exact Int.le_add_of_nonneg_right (Int.natCast_nonneg _)
    · exact Int.le_add_of_nonneg_right (Int.natCast_nonneg _)
  · cases st with
    | logical s => exact noSplice_set rfl
    | spliced b => exact absurd ((hsplice b rfl).symm.trans hzero) (by decide)

theorem Open.setLast {d : Dest} (h : d.Open) {id : Nat} (hid : d.lastStreamId ≤ id) :
    Open { d with lastStreamId := id } := by
  refine ⟨h.live, h.pool, h.poolLive, h.link, h.credit, h.legs, h.leg, h.sane, fun id' st hst => ?_⟩
  obtain ⟨hpos, heven, hle⟩ := h.ids id' st hst
  exact ⟨hpos, heven, hle.trans hid⟩

theorem Open.get?_new {d : Dest} (h : d.Open) {id : Nat} (hid : d.lastStreamId < id) :
    d.streams.get? id = none := by
  cases hst : d.streams.get? id with
  | none => rfl
  | some st =>
    have := (h.ids id st hst).2.2
    omega

theorem took_last (d : Dest) {f : Frame} (hopen : f.body.isOpen = true) (id : Nat) :
    Took f 0 d { d with lastStreamId := id } := by
  refine ⟨fun g hg => .inl hg, (Int.add_zero _).symm, ⟨[], rfl⟩, ?_, ?_,
    fun id _ => Nat.le_add_right _ _, fun id _ => Int.le_add_of_nonneg_right (Int.natCast_nonneg _),
    fun _ => noSplice_same rfl⟩
  · rw [creditOf_of_isOpen hopen]
    rfl
  · rw [cells_of_isOpen hopen]
    rfl

theorem takes_resetOpen {d : Dest} (h : d.Open) {f : Frame} (hopen : f.body.isOpen = true) {id : Nat}
    (hlast : d.lastStreamId < id) :
    Takes f d (sendOut { d with lastStreamId := id } ⟨id, .reset⟩) :=
  (took_last d hopen id).flows (flows_reset (h.setLast hlast.le) id) rfl

/-- A circuit that fails to enqueue a stream is destroyed. -/
theorem ended_open {d : Dest} (h : d.Open) {f : Frame} (hopen : f.body.isOpen = true) {id : Nat}
    (hlast : d.lastStreamId < id) {g : DestFault} (hg : d.Refuses f g) :
    Ended f d (Dest.fault { d with lastStreamId := id } g).destroy :=
  ((took_last d hopen id).fault hg).ended (shut_destroy ((h.setLast hlast.le).fault g))

theorem takes_openLogical {d : Dest} (h : d.Open) {id : Nat} (hpos : 0 < id) (a : Acceptance) :
    Takes ⟨id, .openStream⟩ d (d.openLogical id a) := by
  unfold openLogical
  split
  · exact .inl (ended_fail h trivial)
  · next hid =>
    have heven : id % 2 = 0 := by omega
    have hlast : d.lastStreamId < id := by omega
    have hnew := h.get?_new hlast
    dsimp only
    split
    · exact takes_resetOpen h rfl hlast
    · split
      · exact .inl (ended_open h rfl hlast trivial)
      · next pool hp =>
        have hcons := (Pool.conserved_add h.pool hp).1
        obtain ⟨hleg, -, rfl⟩ := Pool.add_cases hp
        have ho := (h.setLast hlast.le).addStream hnew ⟨hpos, heven, le_rfl⟩
          (show (DestStream.logical .new).outstanding = 0 from rfl) hcons h.poolLive
          (fun id' hne => JsMap.get?_set_ne _ _ hne)
          (fun leg hl => by
            obtain rfl := Option.some.inj ((JsMap.get?_set_self _ _ _).symm.trans hl)
            exact ⟨.new, rfl, rfl, ⟨le_rfl, fun _ => rfl, fun _ => rfl⟩⟩)
          (fun s hs => by
            cases hs
            exact ⟨RouteStream.sane_new, _, JsMap.get?_set_self _ _ _⟩)
        have ht := took_open (d := d) (f := ⟨id, .openStream⟩) rfl rfl hnew
          (show (DestStream.logical .new).outstanding = 0 from rfl)
          (fun s hs => by cases hs; exact ⟨rfl, rfl⟩) (fun b hb => by cases hb) (p := { d.sendPool with
            legs := d.sendPool.legs.set id
              ⟨d.sendPool.nextSerial, 0, 0, false, 0, demandProgress, 0, false⟩
            nextSerial := d.sendPool.nextSerial + 1 }) rfl
        split
        · exact .inr ⟨ho, ht⟩
        · exact .inl ((ht.fault (show d.Refuses _ .acceptance from trivial)).ended
            (shut_destroy (ho.fault _)))

theorem takes_openSpliced {d : Dest} (h : d.Open) {id : Nat} (hpos : 0 < id) (guardDownId : Nat)
    (a : Acceptance) : Takes ⟨id, .spliceOpen guardDownId⟩ d (d.openSpliced id guardDownId a) := by
  unfold openSpliced
  split
  · exact .inl (ended_fail h trivial)
  · next hid =>
    have heven : id % 2 = 0 := by omega
    have hlast : d.lastStreamId < id := by omega
    have hnew := h.get?_new hlast
    dsimp only
    split
    · exact takes_resetOpen h rfl hlast
    · split
      · exact takes_resetOpen h rfl hlast
      · split
        · exact .inl (ended_open h rfl hlast trivial)
        · next udxId =>
          have ho := (h.setLast hlast.le).addStream hnew ⟨hpos, heven, le_rfl⟩
            (show (DestStream.spliced false).outstanding = 0 from rfl) h.pool h.poolLive
            (fun _ _ => rfl)
            (fun leg hl => by
              obtain ⟨s, hs, -⟩ := h.legs id leg hl
              rw [stream?_eq_bind, hnew] at hs
              cases hs)
            (fun s hs => by cases hs)
          have ht := took_open (d := d) (f := ⟨id, .spliceOpen guardDownId⟩) rfl rfl hnew
            (show (DestStream.spliced false).outstanding = 0 from rfl)
            (fun s hs => by cases hs) (fun _ _ => rfl) (p := d.sendPool) rfl
          split
          · exact ht.flows (flows_sendOut ho (cells_eq_zero _ (.inr (.inr ⟨_, rfl⟩))).1
              (cells_eq_zero _ (.inr (.inr ⟨_, rfl⟩))).2) rfl
          · exact .inl ((ht.fault (show d.Refuses _ .acceptance from trivial)).ended
              (shut_destroy (ho.fault _)))

/-! ## Every frame -/

/-- A frame is no DATA frame that is charged for the raw stream of a splice. -/
def Avoids (d : Dest) (f : Frame) : Prop :=
  d.receiveCredit ≠ 0 → ∀ b, d.streams.get? f.streamId = some (.spliced b) → f.body.isData = false

theorem takes_receiveCharged {d : Dest} (h : d.Open) (now : Int) {f : Frame}
    (hid : f.streamId ≠ circuitStreamId) (hdata : f.body.isData = false)
    (hpos : ∀ n, f.body = .credit n → 0 < n) : Takes f d (receiveCharged now d f) := by
  have hnone : Took f 0 d d := (Flow.refl d).took (by unfold Frame.cells; rw [hdata]; rfl)
    (Frame.creditOf_of_ne hid)
  unfold receiveCharged
  split
  · next st hst => exact takes_deliver h now hst hid hdata hpos
  · split
    · rw [if_neg (by rw [hdata]; decide)]
      exact .inr ⟨h, hnone⟩
    · split
      · exact .inr ⟨h, hnone⟩
      · exact .inl (ended_fail h trivial)

theorem takes_receiveData_charged {d : Dest} (h : d.Open) (now : Int) (hne : d.receiveCredit ≠ 0)
    {id : Nat} {chunk : List UInt8} (hid : id ≠ circuitStreamId)
    (havoid : d.Avoids ⟨id, .data chunk⟩) :
    Takes ⟨id, .data chunk⟩ d
      (receiveCharged now { d with receiveCredit := d.receiveCredit - 1 } ⟨id, .data chunk⟩) := by
  have hcharge : Took ⟨id, .data chunk⟩ (-1) d { d with receiveCredit := d.receiveCredit - 1 } :=
    took_charge hid rfl hne
  unfold receiveCharged
  split
  · next st hst =>
    cases st with
    | logical s => exact takes_receiveData h hne (stream?_eq_some.mpr hst) chunk
    | spliced b => exact absurd (havoid hne b hst) (by simp [Body.isData])
  · split
    · rw [if_pos (show Body.isData (.data chunk) = true from rfl)]
      refine hcharge.flows (flows_consumed h.charge 1 ?_ false) rfl
      have hsum := h.credit
      simp only [creditSum] at hsum ⊢
      omega
    · rw [if_neg (by simp)]
      exact .inl ((hcharge.fault (show d.Refuses _ .foreignId from trivial)).ended
        (shut_destroy (h.charge.fault _)))

theorem receive_undecoded {d : Dest} (h : d.Open) (now : Int) {payload : Payload}
    (hf : decodeLogical payload = none) (a : Acceptance) :
    receive now d payload a = (d.fault .decode).destroy := by
  unfold receive
  rw [if_neg (by rw [h.live]; decide), hf]

/-- **What a frame does to an open circuit.** -/
theorem takes_receive {d : Dest} (h : d.Open) (now : Int) {payload : Payload} {f : Frame}
    (hf : decodeLogical payload = some f) (havoid : d.Avoids f) (a : Acceptance) :
    Takes f d (receive now d payload a) := by
  obtain ⟨-, -, hvalid⟩ := decodeLogical_eq_some hf
  have hpos : ∀ n, f.body = .credit n → 0 < n := by
    intro n hn
    rw [hn] at hvalid
    simp only [validLogicalPayload, Bool.and_eq_true, bne_iff_ne] at hvalid
    omega
  unfold receive
  rw [if_neg (by rw [h.live]; decide), hf]
  dsimp only
  obtain ⟨id, body⟩ := f
  split
  · next hid =>
    change id = circuitStreamId at hid
    subst hid
    cases body with
    | credit amount =>
      dsimp only
      split
      · next fault he =>
        refine .inl (ended_fail h ?_)
        show d.sendPool.inFlight < Frame.creditOf _ _
        rw [Frame.creditOf_self]
        by_contra hle
        obtain ⟨q, hq⟩ := Pool.returned_ok h.poolLive (hpos amount rfl) (Nat.le_of_not_lt hle)
        rw [hq] at he
        cases he
      · next pool he =>
        obtain ⟨hflag, ht⟩ := takes_returned h now he
        split
        · next d' hd =>
          rw [hd] at hflag
          cases hflag
        · next d' hd =>
          rw [hd] at ht
          exact ht
    | data | openStream | fin | reset | demand | release | spliceOpen | spliceReady =>
      exact .inl (ended_fail h trivial)
  · next hid =>
    split
    · exact .inl (ended_fail h trivial)
    · next hzero =>
      cases body with
      | openStream => exact takes_openLogical h (Nat.pos_of_ne_zero hzero) a
      | spliceOpen down => exact takes_openSpliced h (Nat.pos_of_ne_zero hzero) down a
      | data chunk =>
        dsimp only
        split
        · next hne => exact .inl (ended_fail h ⟨rfl, hne⟩)
        · next hne => exact takes_receiveData_charged h now hne hid havoid
      | fin | reset | credit | demand | release | spliceReady =>
        exact takes_receiveCharged h now hid rfl hpos

end Dest

end HyperDht.Private
