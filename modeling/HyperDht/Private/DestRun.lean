import HyperDht.Private.DestReceive

/-!
# Receive credit of a destination circuit

Every event a circuit can see (`DestEvent`): frames of its link, valid or not,
reads, writes and destructions of its streams, timers and the progress of its
link. A run from a new circuit keeps the receive credit together, except where a
DATA frame comes for the raw stream of a splice: its cell is charged and never
given back.
-/

namespace HyperDht.Private

inductive DestEvent where
  | receive (now : Int) (payload : Payload) (a : Acceptance)
  | write (now : Int) (id : Nat) (data : List UInt8)
  | resumed (now : Int) (id : Nat) (ok : Bool)
  | final (now : Int) (id : Nat)
  | read (id : Nat)
  | destroyStream (id : Nat)
  | runDestroy (now : Int) (id : Nat)
  | closeStream (id : Nat)
  | spliceClosed (id : Nat)
  | idleTimer (now : Int) (id : Nat)
  | grantIdle (now : Int) (id : Nat) (busy : Bool)
  | returnTimer
  | retire
  | others (n : Nat)
  | nextSend
  | selectFrom (k : Nat)
  | settle (data : Bool)
  | destroy
  deriving DecidableEq, Repr

def DestEvent.isReceive : DestEvent → Bool
  | .receive .. => true
  | _ => false

namespace Dest

def step (d : Dest) : DestEvent → Dest
  | .receive now payload a => receive now d payload a
  | .write now id data => write now d id data
  | .resumed now id ok => resumed now d id ok
  | .final now id => final now d id
  | .read id => d.read id
  | .destroyStream id => d.destroyStream id
  | .runDestroy now id => runDestroy now d id
  | .closeStream id => d.closeStream id
  | .spliceClosed id => d.spliceClosed id
  | .idleTimer now id => idleFired now d id
  | .grantIdle now id busy => grantIdle now d id busy
  | .returnTimer => d.returnFired
  | .retire => d.retire
  | .others n => { d with others := n }
  | .nextSend => { d with link := d.link.nextSend }
  | .selectFrom k => { d with link := d.link.selectFrom k }
  | .settle data => { d with link := d.link.settle data }
  | .destroy => d.destroy

def run (d : Dest) (evs : List DestEvent) : Dest := evs.foldl step d

/-- The number of cells an event charges to `receiveCredit`. -/
def charges (d : Dest) : DestEvent → Nat
  | .receive _ payload _ =>
    match decodeLogical payload with
    | none => 0
    | some f =>
      if d.closed = false ∧ f.streamId ≠ circuitStreamId ∧ f.streamId ≠ 0 ∧ f.body.isData ∧
        d.receiveCredit ≠ 0 then 1 else 0
  | _ => 0

def charged (d : Dest) : List DestEvent → Nat
  | [] => 0
  | ev :: evs => d.charges ev + (d.step ev).charged evs

/-- The event is a DATA frame for the raw stream of a splice, and it is charged. -/
def hitsSplice (d : Dest) : DestEvent → Bool
  | .receive _ payload _ =>
    match decodeLogical payload with
    | none => false
    | some f =>
      match d.streams.get? f.streamId with
      | some (.spliced _) => f.body.isData && d.receiveCredit != 0
      | _ => false
  | _ => false

/-- No event of a run is a DATA frame that is charged for the raw stream of a splice. -/
def Clean (d : Dest) : List DestEvent → Prop
  | [] => True
  | ev :: evs => d.hitsSplice ev = false ∧ (d.step ev).Clean evs

structure Gone (d : Dest) : Prop where
  closed : d.closed = true
  poolClosed : d.sendPool.closed = true
  streams : d.streams = .empty
  link : d.link.destroyed = true

theorem Shut.gone {d d' : Dest} (h : Shut d d') : d'.Gone :=
  ⟨h.closed, h.poolClosed, h.streams, by rw [h.link]; rfl⟩

theorem Ended.gone {f : Frame} {d d' : Dest} (h : Ended f d d') : d'.Gone :=
  ⟨h.closed, h.poolClosed, h.streams, by rw [h.link]; rfl⟩

/-- The receive credit of an open circuit adds up, and what it has sent as circuit
CREDIT is what it has taken back of the `charged` cells. -/
structure Accounts (charged : Nat) (d : Dest) : Prop where
  credit : d.creditSum = circuitWindow
  returned : circuitWindow + d.link.total (Frame.creditOf circuitStreamId) =
    d.receiveCredit + charged
  overflow : .overflow ∉ d.faults

/-- The invariant of a run: closed, or open with the receive credit accounted for. -/
def Accounted (charged : Nat) (d : Dest) : Prop := d.Gone ∨ d.Open ∧ Accounts charged d

theorem accounted_new (others : Nat) : Accounted 0 (new others) := by
  refine .inr ⟨⟨rfl, Pool.conserved_new, rfl, rfl, le_rfl, ?_, ?_, ?_, ?_⟩, rfl, rfl, by simp [new]⟩
  · intro id leg hl
    cases hl
  · intro id s hs
    cases hs
  · intro id s hs
    cases hs
  · intro id st hst
    cases hst

theorem Flows.accounted {c : Nat} {d d' : Dest} (h : Flows 0 d d') (ha : Accounts c d) :
    Accounted c d' := by
  rcases h with hs | ⟨ho, hf⟩
  · exact .inl hs.gone
  · have h₁ := hf.credit
    have h₂ := hf.returned
    have h₃ := ha.credit
    have h₄ := ha.returned
    refine .inr ⟨ho, by omega, by omega, fun hov => ?_⟩
    rcases hf.faults _ hov with hov | hov
    · exact ha.overflow hov
    · cases hov

theorem Takes.accounted {c : Nat} {f : Frame} {d d' : Dest} (h : Takes f d d')
    (ha : Accounts c d) : Accounted (c + f.cells) d' := by
  rcases h with hs | ⟨ho, hf⟩
  · exact .inl hs.gone
  · have h₁ := hf.credit
    have h₂ := hf.returned
    have h₃ := ha.credit
    have h₄ := ha.returned
    refine .inr ⟨ho, by omega, by omega, fun hov => ?_⟩
    rcases hf.faults _ hov with hov | hov
    · exact ha.overflow hov
    · exact hov

/-! ## Steps -/

/-- What a circuit does by itself leaves its balances alone, or is the progress of its link. -/
theorem step_cases {d : Dest} (h : d.Open) {ev : DestEvent} (hev : ev.isReceive = false) :
    Flows 0 d (d.step ev) ∨ (∃ n, d.step ev = { d with others := n }) ∨
      ∃ lev : LinkEvent, lev ≠ .take ∧ d.step ev = { d with link := d.link.progress lev } := by
  cases ev with
  | receive now payload a => cases hev
  | write now id data => exact .inl (flows_write h now id data)
  | resumed now id ok => exact .inl (flows_resumed h now id ok)
  | final now id => exact .inl (flows_final h now id)
  | read id => exact .inl (flows_read h id)
  | destroyStream id => exact .inl (flows_destroyStream h id)
  | runDestroy now id => exact .inl (flows_runDestroy h now id)
  | closeStream id => exact .inl (flows_closeStream h id)
  | spliceClosed id => exact .inl (flows_spliceClosed h id)
  | idleTimer now id => exact .inl (flows_idleFired h now id)
  | grantIdle now id busy => exact .inl (flows_grantIdle h now id busy)
  | returnTimer => exact .inl (flows_returnFired h)
  | retire => exact .inl (flows_retire h)
  | others n => exact .inr (.inl ⟨n, rfl⟩)
  | nextSend => exact .inr (.inr ⟨.nextSend, nofun, rfl⟩)
  | selectFrom k => exact .inr (.inr ⟨.selectFrom k, nofun, rfl⟩)
  | settle data => exact .inr (.inr ⟨.settle data, nofun, rfl⟩)
  | destroy => exact .inl (.inl (shut_destroy h))

theorem Open.setOthers {d : Dest} (h : d.Open) (n : Nat) : Open { d with others := n } :=
  ⟨h.live, h.pool, h.poolLive, h.link, h.credit, h.legs, h.leg, h.sane, h.ids⟩

theorem Open.progress {d : Dest} (h : d.Open) (ev : LinkEvent) :
    Open { d with link := d.link.progress ev } :=
  h.setLink ((d.link.destroyed_progress ev).trans h.link)

theorem avoids_of_hitsSplice {d : Dest} {now : Int} {payload : Payload} {a : Acceptance} {f : Frame}
    (hf : decodeLogical payload = some f) (h : d.hitsSplice (.receive now payload a) = false) :
    d.Avoids f := by
  intro hne b hb
  simpa [hitsSplice, hf, hb, hne] using h

/-- A DATA frame is charged, or closes the circuit. -/
theorem charges_receive {d : Dest} (h : d.Open) {now : Int} {payload : Payload} {f : Frame}
    (hf : decodeLogical payload = some f) {a : Acceptance}
    (hopen : (receive now d payload a).closed = false) :
    d.charges (.receive now payload a) = f.cells := by
  obtain ⟨-, -, hvalid⟩ := decodeLogical_eq_some hf
  obtain ⟨id, body⟩ := f
  unfold charges receive at *
  rw [if_neg (by rw [h.live]; decide)] at hopen
  simp only [hf] at hopen ⊢
  cases body with
  | data chunk =>
    have hid : id ≠ circuitStreamId := by
      simp only [validLogicalPayload, Bool.and_eq_true, bne_iff_ne] at hvalid
      exact hvalid.2
    have hclosed : ∀ g, (d.fault g).destroy.closed = true := fun g =>
      (shut_destroy (h.fault g)).closed
    simp only [if_neg hid] at hopen
    split at hopen
    · rw [hclosed] at hopen
      cases hopen
    · next hzero =>
      split at hopen
      · rw [hclosed] at hopen
        cases hopen
      · next hcredit => exact if_pos ⟨h.live, hid, hzero, rfl, hcredit⟩
  | openStream | fin | reset | credit | demand | release | spliceOpen | spliceReady =>
    simp [Frame.cells, Body.isData]

theorem accounted_receive {c : Nat} {d : Dest} (h : d.Open) (ha : Accounts c d) {now : Int}
    {payload : Payload} {a : Acceptance} (hclean : d.hitsSplice (.receive now payload a) = false) :
    Accounted (c + d.charges (.receive now payload a)) (receive now d payload a) := by
  cases hf : decodeLogical payload with
  | none =>
    rw [receive_undecoded h now hf a]
    exact .inl (shut_destroy (h.fault _)).gone
  | some f =>
    rcases (takes_receive h now hf (avoids_of_hitsSplice hf hclean) a).accounted ha with hg | hacc
    · exact .inl hg
    · rw [charges_receive h hf hacc.1.live]
      exact .inr hacc

theorem charges_own (d : Dest) {ev : DestEvent} (hev : ev.isReceive = false) : d.charges ev = 0 := by
  cases ev with
  | receive now payload a => cases hev
  | _ => rfl

theorem accounted_step {c : Nat} {d : Dest} (h : d.Open) (ha : Accounts c d) {ev : DestEvent}
    (hclean : d.hitsSplice ev = false) : Accounted (c + d.charges ev) (d.step ev) := by
  cases hev : ev.isReceive with
  | true =>
    cases ev with
    | receive now payload a => exact accounted_receive h ha hclean
    | _ => cases hev
  | false =>
    rw [d.charges_own hev, Nat.add_zero]
    rcases step_cases h hev with hf | ⟨n, he⟩ | ⟨lev, hlev, he⟩
    · exact hf.accounted ha
    · rw [he]
      exact .inr ⟨h.setOthers n, ha.credit, ha.returned, ha.overflow⟩
    · rw [he]
      refine .inr ⟨h.progress lev, ha.credit, ?_, ha.overflow⟩
      show circuitWindow + (d.link.progress lev).total _ = _
      rw [d.link.total_progress hlev]
      exact ha.returned

/-! ## A closed circuit -/

theorem Gone.stream? {d : Dest} (h : d.Gone) (id : Nat) : d.stream? id = none := by
  rw [stream?_eq_bind, h.streams]
  rfl

theorem Gone.destroy {d : Dest} (h : d.Gone) : d.destroy = d := by
  unfold Dest.destroy
  exact if_pos h.closed

theorem Gone.releaseCircuit {d : Dest} (h : d.Gone) (now : Int) (id : Nat) :
    releaseCircuit now d id = (d, false) := by
  unfold Dest.releaseCircuit releaseWith
  rw [h.stream? id]

/-- A closed circuit does nothing more by itself, but its timers fire and its link goes on. -/
theorem Gone.own_cases {d : Dest} (h : d.Gone) {ev : DestEvent} (hev : ev.isReceive = false) :
    (∃ (p : Pool Nat) (b : Bool) (n : Nat), p.closed = true ∧ p.inFlight = d.sendPool.inFlight ∧
      d.step ev = { d with sendPool := p, returnTimer := b, others := n }) ∨
      ∃ lev : LinkEvent, lev ≠ .take ∧ d.step ev = { d with link := d.link.progress lev } := by
  have stay : ∀ {d' : Dest}, d' = d → ∃ (p : Pool Nat) (b : Bool) (n : Nat), p.closed = true ∧
      p.inFlight = d.sendPool.inFlight ∧ d' = { d with sendPool := p, returnTimer := b, others := n } :=
    fun he => ⟨_, _, _, h.poolClosed, rfl, he⟩
  cases ev with
  | receive now payload a => cases hev
  | write now id data => exact .inl (stay (show write now d id data = d by unfold write; rw [h.stream? id]))
  | resumed now id ok =>
    exact .inl (stay (show resumed now d id ok = d by unfold resumed; rw [h.stream? id]))
  | final now id => exact .inl (stay (show final now d id = d by unfold final; rw [h.stream? id]))
  | read id => exact .inl (stay (show d.read id = d by unfold read; rw [h.stream? id]))
  | destroyStream id =>
    exact .inl (stay (show d.destroyStream id = d from modify_of_none (h.stream? id) _))
  | runDestroy now id =>
    exact .inl (stay (show runDestroy now d id = d by unfold runDestroy; rw [h.stream? id]))
  | closeStream id =>
    exact .inl (stay (show d.closeStream id = d by unfold closeStream; rw [h.stream? id]))
  | spliceClosed id =>
    exact .inl (stay (show d.spliceClosed id = d by unfold spliceClosed; rw [h.streams]; rfl))
  | idleTimer now id =>
    exact .inl (stay (show idleFired now d id = d by unfold idleFired; rw [h.stream? id]))
  | grantIdle now id busy =>
    have hp := d.sendPool.alike_idleFired id busy now
    have hgone : ∀ {p : Pool Nat}, p = (d.sendPool.idleFired id busy now).1 →
        Gone { d with sendPool := p } := by
      rintro p rfl
      exact ⟨h.closed, hp.closed.trans h.poolClosed, h.streams, h.link⟩
    refine .inl ⟨_, d.returnTimer, d.others, hp.closed.trans h.poolClosed, hp.inFlight, ?_⟩
    show grantIdle now d id busy = _
    unfold grantIdle
    split
    · next p he => rw [he]
    · next p he => rw [(hgone (by rw [he])).releaseCircuit now id, he]
  | returnTimer =>
    have hfired : d.returnFired = { d with returnTimer := false } := by
      unfold returnFired
      split
      · exact consumed_of_closed (show ({ d with returnTimer := false } : Dest).closed = true from
          h.closed) _ _
      · next hoff =>
        rw [Bool.not_eq_true] at hoff
        rw [← hoff]
    exact .inl ⟨_, _, _, h.poolClosed, rfl, hfired⟩
  | retire => exact .inl (stay (show d.retire = d by unfold retire; exact if_pos (.inl h.closed)))
  | others n => exact .inl ⟨_, _, n, h.poolClosed, rfl, rfl⟩
  | nextSend => exact .inr ⟨.nextSend, nofun, rfl⟩
  | selectFrom k => exact .inr ⟨.selectFrom k, nofun, rfl⟩
  | settle data => exact .inr ⟨.settle data, nofun, rfl⟩
  | destroy => exact .inl (stay (show d.destroy = d from h.destroy))

theorem Gone.step {d : Dest} (h : d.Gone) (ev : DestEvent) : (d.step ev).Gone := by
  cases hev : ev.isReceive with
  | true =>
    cases ev with
    | receive now payload a =>
      rw [show d.step (.receive now payload a) = d from if_pos h.closed]
      exact h
    | _ => cases hev
  | false =>
    rcases h.own_cases hev with ⟨p, b, n, hp, -, he⟩ | ⟨lev, -, he⟩
    · exact he ▸ ⟨h.closed, hp, h.streams, h.link⟩
    · exact he ▸ ⟨h.closed, h.poolClosed, h.streams, (d.link.destroyed_progress lev).trans h.link⟩

/-! ## Runs -/

theorem accounted_run : ∀ (evs : List DestEvent) {c : Nat} {d : Dest}, Accounted c d → d.Clean evs →
    Accounted (c + d.charged evs) (d.run evs) := by
  intro evs
  induction evs with
  | nil => exact fun h _ => h
  | cons ev evs ih =>
    intro c d h hclean
    show Accounted (c + (d.charges ev + (d.step ev).charged evs)) ((d.step ev).run evs)
    rw [← Nat.add_assoc]
    apply ih _ hclean.2
    rcases h with hg | ⟨ho, ha⟩
    · exact .inl (hg.step ev)
    · exact accounted_step ho ha hclean.1

/-- **The receive credit of a circuit is neither lost nor minted** in a run in
which no DATA frame comes for the raw stream of a splice. While the circuit is
open its credit, what it holds back and what its streams have not read add up to
the circuit window; the circuit CREDIT it has sent is what it has taken back; and
the check in `consumed` never fails. -/
theorem receive_credit_conserved {others : Nat} {evs : List DestEvent}
    (hclean : (new others).Clean evs) (hopen : ((new others).run evs).closed = false) :
    ((new others).run evs).receiveCredit + ((new others).run evs).returnPending +
        (((new others).run evs).streams.total fun _ st => st.outstanding) = circuitWindow ∧
      circuitWindow + ((new others).run evs).link.total (Frame.creditOf circuitStreamId) =
        ((new others).run evs).receiveCredit + (new others).charged evs ∧
      .overflow ∉ ((new others).run evs).faults := by
  have h := accounted_run evs (accounted_new others) hclean
  rw [Nat.zero_add] at h
  rcases h with hg | ⟨-, ha⟩
  · exact absurd (hg.closed.symm.trans hopen) (by decide)
  · exact ⟨ha.credit, ha.returned, ha.overflow⟩

/-- A stream is opened and a chunk is read; the credit of the chunk is held back. -/
theorem receive_credit_conserved_read :
    let evs : List DestEvent := [.receive 0 (.frame ⟨2, .openStream⟩) ⟨true, none, true⟩, .read 2,
      .receive 0 (.frame ⟨2, .data [1, 2]⟩) ⟨true, none, true⟩, .read 2,
      .receive 0 (.frame ⟨2, .data [3]⟩) ⟨true, none, true⟩]
    ((new 0).run evs).receiveCredit = 2046 ∧ ((new 0).run evs).returnPending = 1 ∧
      ((new 0).run evs).receiveCredit + ((new 0).run evs).returnPending +
        (((new 0).run evs).streams.total fun _ st => st.outstanding) = circuitWindow :=
  ⟨by decide +kernel, by decide +kernel, (receive_credit_conserved
    (by refine ⟨?_, ?_, ?_, ?_, ?_, trivial⟩ <;> decide +kernel) (by decide +kernel)).1⟩

/-- A DATA frame for the raw stream of a splice: the circuit stays open with a
credit less. -/
theorem receive_credit_lost :
    let evs : List DestEvent := [.receive 0 (.frame ⟨2, .spliceOpen 7⟩) ⟨true, some 9, true⟩,
      .receive 0 (.frame ⟨2, .data [1]⟩) ⟨true, none, true⟩]
    ((new 0).run evs).closed = false ∧
      ((new 0).run evs).receiveCredit + ((new 0).run evs).returnPending +
        (((new 0).run evs).streams.total fun _ st => st.outstanding) ≠ circuitWindow := by
  decide +kernel

end Dest

end HyperDht.Private
