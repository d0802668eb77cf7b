import HyperDht.Private.Source
import HyperDht.Private.StreamCredit

/-!
# What a source can do

Every method of a source is a sequence of a few moves (`Move`): a frame goes out
together with the change of the counters it stands for (`Sends`), the link
closes, or nothing changes that a counter depends on. What holds over every move
holds over every method.
-/

namespace HyperDht.Private

namespace RouteStream

/-- `s'` has the counters of `s` that the entry has a share in. -/
structure Quiet (s s' : RouteStream) : Prop where
  sendCredit : s'.sendCredit = s.sendCredit
  receiveCredit : s'.receiveCredit = s.receiveCredit
  circuitCredit : s'.circuitCredit = s.circuitCredit
  circuitRequested : s'.circuitRequested = s.circuitRequested
  circuitCanceling : s'.circuitCanceling = s.circuitCanceling
  circuitReceiveCredit : s'.circuitReceiveCredit = s.circuitReceiveCredit
  destroying : s'.destroying = false → s.destroying = false

theorem Held.quiet {s s' : RouteStream} (h : Held s s') : Quiet s s' :=
  ⟨h.sendCredit, h.receiveCredit, h.circuitCredit, h.circuitRequested, h.circuitCanceling,
    h.circuitReceiveCredit, h.destroying⟩

end RouteStream

namespace Source

/-- A stream that sends a frame, with the counters the frame stands for. -/
inductive Sends : RouteStream → RouteStream → Frame → Prop
  | data (s : RouteStream) (chunk : List UInt8) (hs : 0 < s.sendCredit) (hc : 0 < s.circuitCredit) :
    Sends s s.spendCell ⟨0, .data chunk⟩
  | demand (s : RouteStream) (hd : s.destroying = false) (hr : s.circuitRequested = 0)
      (hc : s.circuitCanceling = false) (hle : s.circuitCredit ≤ circuitWindow / 2) :
    Sends s { s with circuitRequested := circuitWindow - s.circuitCredit }
      ⟨circuitStreamId, .demand (circuitWindow - s.circuitCredit)⟩
  | cancel (s : RouteStream) (hd : s.destroying = false) (hr : s.circuitRequested ≠ 0)
      (hc : s.circuitCanceling = false) :
    Sends s { s with circuitCanceling := true } ⟨circuitStreamId, .demand 0⟩
  | release (s : RouteStream) :
    Sends s { s with circuitCredit := 0 } ⟨circuitStreamId, .release s.circuitCredit⟩
  | credit (s : RouteStream) :
    Sends s { s with
      streamReturnPending := 0
      receiveCredit := s.receiveCredit + s.streamReturnPending } ⟨0, .credit s.streamReturnPending⟩
  | circuitCredit (s : RouteStream) :
    Sends s { s with
      circuitReturnPending := 0
      returnTimer := false
      circuitReceiveCredit := s.circuitReceiveCredit + s.circuitReturnPending }
      ⟨circuitStreamId, .credit s.circuitReturnPending⟩
  | fin (s : RouteStream) : Sends s s ⟨0, .fin⟩
  | reset (s : RouteStream) : Sends s s ⟨0, .reset⟩

inductive Move : Source → Source → Prop
  | quiet (s : Source) {st : RouteStream} (h : s.stream.Quiet st) : Move s { s with stream := st }
  | send (s : Source) {st : RouteStream} {f : Frame} (h : Sends s.stream st f) :
    Move s (sendOut { s with stream := st } f)
  | close (s : Source) : Move s s.close
  | fault (s : Source) {g : StreamFault} (h : g = .totals ∨ g = .ended) : Move s (s.fault g)

inductive Moves : Source → Source → Prop
  | refl (s : Source) : Moves s s
  | step {s s' s'' : Source} (h : Move s s') (hs : Moves s' s'') : Moves s s''

theorem Moves.trans {s s' s'' : Source} (h : Moves s s') (h' : Moves s' s'') : Moves s s'' := by
  induction h with
  | refl => exact h'
  | step hm _ ih => exact .step hm (ih h')

/-- What every move keeps is kept. -/
theorem Moves.keeps {P : Source → Prop} (hP : ∀ {s s'}, Move s s' → P s → P s') {s s' : Source}
    (h : Moves s s') (hs : P s) : P s' := by
  induction h with
  | refl => exact hs
  | step hm _ ih => exact ih (hP hm hs)

/-- A source between the calls of its methods. -/
structure Sane (s : Source) : Prop where
  stream : s.stream.Sane
  credit : s.stream.circuitReceiveCredit + s.stream.circuitReturnPending +
    s.stream.receivedOutstanding ≤ circuitWindow
  closed : s.link.destroyed = true → s.stream.destroying = true
  single : s.link.Single

/-- `s'` comes from `s` by moves and is sane. -/
def Goes (s s' : Source) : Prop := Moves s s' ∧ s'.Sane

theorem Goes.refl {s : Source} (h : s.Sane) : Goes s s := ⟨.refl s, h⟩

theorem Goes.trans {s s' s'' : Source} (h : Goes s s') (h' : s'.Sane → Goes s' s'') :
    Goes s s'' := by
  obtain ⟨hm, hs⟩ := h' h.2
  exact ⟨h.1.trans hm, hs⟩

theorem sane_new : (new : Source).Sane :=
  ⟨RouteStream.sane_new, by simp [new, RouteStream.new], fun h => (Bool.noConfusion h), Link.single_new⟩

/-! ## Single moves -/

theorem Sane.close {s : Source} (h : s.Sane) : s.close.Sane := by
  unfold Source.close
  split
  · exact h
  · have hh := RouteStream.held_destroy s.stream
    refine ⟨hh.sane h.stream, ?_, fun _ => RouteStream.destroying_destroy _,
      h.single.destroy⟩
    show s.stream.destroy.circuitReceiveCredit + s.stream.destroy.circuitReturnPending +
      s.stream.destroy.receivedOutstanding ≤ _
    rw [hh.circuitReceiveCredit, hh.circuitReturnPending, hh.receivedOutstanding]
    exact h.credit

theorem Sane.sendOut {s : Source} (h : s.Sane) (f : Frame) : (s.sendOut f).Sane := by
  unfold Source.sendOut
  split
  · exact h
  · split
    · exact h.close
    · exact ⟨h.stream, h.credit, h.closed, h.single.enqueue f⟩

theorem goes_close {s : Source} (h : s.Sane) : Goes s s.close :=
  ⟨.step (.close s) (.refl _), h.close⟩

theorem goes_fault {s : Source} (h : s.Sane) : Goes s (s.fault .totals) :=
  ⟨.step (.fault s (.inl rfl)) (.refl _), h.stream, h.credit, h.closed, h.single⟩

theorem goes_quiet {s : Source} (h : s.Sane) {st : RouteStream} (hq : s.stream.Quiet st)
    (hs : st.Sane) (hc : st.circuitReceiveCredit + st.circuitReturnPending +
      st.receivedOutstanding ≤ circuitWindow) : Goes s { s with stream := st } := by
  refine ⟨.step (.quiet s hq) (.refl _), hs, hc, fun hl => ?_, h.single⟩
  by_contra hd
  exact absurd ((h.closed hl).symm.trans (hq.destroying (Bool.eq_false_of_not_eq_true hd)))
    (by decide)

theorem goes_held {s : Source} (h : s.Sane) {st : RouteStream} (hh : s.stream.Held st) :
    Goes s { s with stream := st } := by
  refine goes_quiet h hh.quiet (hh.sane h.stream) ?_
  rw [hh.circuitReceiveCredit, hh.circuitReturnPending, hh.receivedOutstanding]
  exact h.credit

theorem goes_modify {s : Source} (h : s.Sane) {f : RouteStream → RouteStream}
    (hf : ∀ st : RouteStream, st.Held (f st)) : Goes s (s.modify f) :=
  goes_held h (hf s.stream)

theorem goes_scheduleIdle {s : Source} (h : s.Sane) (now : Int) : Goes s (scheduleIdle now s) :=
  goes_held h (RouteStream.held_scheduleIdle s.stream _ now)

theorem goes_send {s : Source} (h : s.Sane) {st : RouteStream} {f : Frame}
    (hs : Sends s.stream st f) (hst : st.Sane) (hc : st.circuitReceiveCredit +
      st.circuitReturnPending + st.receivedOutstanding ≤ circuitWindow)
    (hd : st.destroying = s.stream.destroying) : Goes s (sendOut { s with stream := st } f) := by
  have hsane : Sane { s with stream := st } := ⟨hst, hc, fun hl => hd.trans (h.closed hl), h.single⟩
  exact ⟨.step (.send s hs) (.refl _), hsane.sendOut f⟩

theorem goes_fin {s : Source} (h : s.Sane) : Goes s (s.sendOut ⟨0, .fin⟩) :=
  goes_send h (.fin s.stream) h.stream h.credit rfl

theorem goes_reset {s : Source} (h : s.Sane) : Goes s (s.sendOut ⟨0, .reset⟩) :=
  goes_send h (.reset s.stream) h.stream h.credit rfl

/-! ## Circuit credit -/

theorem goes_requestCircuit {s : Source} (h : s.Sane) : Goes s s.requestCircuit := by
  unfold requestCircuit
  split
  · exact .refl h
  · next hw =>
    simp only [RouteStream.wantsCircuit, Bool.not_eq_false, Bool.not_eq_true', Bool.or_eq_false_iff,
      bne_eq_false_iff_eq, decide_eq_false_iff_not, Nat.not_lt] at hw
    obtain ⟨⟨⟨⟨⟨⟨hd, -⟩, -⟩, -⟩, hc⟩, hr⟩, hle⟩ := hw
    exact goes_send h (.demand s.stream hd hr hc hle)
      ⟨h.stream.torn, h.stream.queue, h.stream.reading, h.stream.window⟩ h.credit rfl

theorem goes_cancelDemand {s : Source} (h : s.Sane) (hd : s.stream.destroying = false) :
    Goes s s.cancelDemand := by
  unfold cancelDemand
  split
  · next hr =>
    exact goes_send h (.cancel s.stream hd hr.1 hr.2)
      ⟨h.stream.torn, h.stream.queue, h.stream.reading, h.stream.window⟩ h.credit rfl
  · exact .refl h

theorem goes_releaseCircuit {s : Source} (h : s.Sane) (hd : s.stream.destroying = false) :
    Goes s s.releaseCircuit := by
  unfold releaseCircuit
  split
  · exact .refl h
  · refine (goes_cancelDemand h hd).trans fun h' => ?_
    dsimp only
    split
    · exact .refl h'
    · exact goes_send h' (.release _)
        ⟨h'.stream.torn, h'.stream.queue, h'.stream.reading, h'.stream.window⟩ h'.credit rfl

theorem goes_returnCircuit {s : Source} (h : s.Sane) (amount : Nat)
    (hsum : s.stream.circuitReceiveCredit + s.stream.circuitReturnPending +
      s.stream.receivedOutstanding + amount ≤ circuitWindow) (flush : Bool) :
    Goes s (s.returnCircuit amount flush) := by
  have hstream : ∀ (pending : Nat) (timer : Bool),
      ({ s.stream with circuitReturnPending := pending, returnTimer := timer } : RouteStream).Sane :=
    fun _ _ => ⟨h.stream.torn, h.stream.queue, h.stream.reading, h.stream.window⟩
  unfold returnCircuit
  split
  · exact .refl h
  · dsimp only
    split
    · exact .refl h
    · split
      · refine goes_quiet h ⟨rfl, rfl, rfl, rfl, rfl, rfl, fun hd => hd⟩ (hstream _ _) ?_
        show s.stream.circuitReceiveCredit + (s.stream.circuitReturnPending + amount : Nat) + _ ≤ _
        push_cast
        omega
      · have hle : ¬ (circuitWindow : Int) < s.stream.circuitReceiveCredit +
            (s.stream.circuitReturnPending + amount : Nat) := by
          push_cast
          omega
        refine (if_neg hle).symm ▸ ?_
        -- what comes back is first pending, then credit
        have hpend : Goes s { s with stream := { s.stream with
            circuitReturnPending := s.stream.circuitReturnPending + amount } } := by
          refine goes_quiet h ⟨rfl, rfl, rfl, rfl, rfl, rfl, fun hd => hd⟩ (hstream _ _) ?_
          show s.stream.circuitReceiveCredit + (s.stream.circuitReturnPending + amount : Nat) + _ ≤ _
          push_cast
          omega
        refine hpend.trans fun h' => ?_
        refine goes_send h' (.circuitCredit _)
          ⟨h.stream.torn, h.stream.queue, h.stream.reading, h.stream.window⟩ ?_ rfl
        show s.stream.circuitReceiveCredit + (s.stream.circuitReturnPending + amount : Nat) +
          (0 : Nat) + s.stream.receivedOutstanding ≤ _
        push_cast
        omega

/-! ## Writing -/

theorem goes_failWrite {s : Source} (h : s.Sane) (now : Int) : Goes s (failWrite now s) :=
  (goes_modify h fun st => RouteStream.held_writer st .failed).trans fun h' =>
    goes_scheduleIdle h' now

theorem held_sendOut (s : Source) (f : Frame) : s.stream.Held (s.sendOut f).stream := by
  unfold Source.sendOut Source.close
  split
  · exact .refl _
  · split
    · exact RouteStream.held_destroy _
    · exact .refl _

theorem goes_sendBatch (now : Int) (n : Nat) : ∀ {s : Source} (_ : s.Sane)
    (_ : n ≤ s.stream.sendCredit) (_ : n ≤ s.stream.circuitCredit) (rest : List UInt8),
    Goes s (sendBatch now n s rest) := by
  induction n with
  | zero => exact fun h _ _ rest => goes_modify h fun st => RouteStream.held_writer st _
  | succ n ih =>
    intro s h hs hc rest
    unfold sendBatch
    dsimp only
    refine (goes_modify h fun st =>
      RouteStream.held_countCell st (rest.take maxLogicalPayload).length).trans fun h' => ?_
    split
    · exact (goes_fault h').trans fun h'' => goes_failWrite h'' now
    · have hcs : (s.modify fun st => st.countCell (rest.take maxLogicalPayload).length).stream.sendCredit
          = s.stream.sendCredit := rfl
      have hcc : (s.modify fun st =>
          st.countCell (rest.take maxLogicalPayload).length).stream.circuitCredit
          = s.stream.circuitCredit := rfl
      refine (goes_send h' (.data _ (rest.take maxLogicalPayload) (by omega) (by omega))
        ⟨h'.stream.torn, h'.stream.queue, h'.stream.reading, h'.stream.window⟩ h'.credit
        rfl).trans fun h'' => ?_
      apply ih h''
      · rw [(held_sendOut _ _).sendCredit]
        show n ≤ s.stream.sendCredit - 1
        omega
      · rw [(held_sendOut _ _).circuitCredit]
        show n ≤ s.stream.circuitCredit - 1
        omega

theorem goes_resume {s : Source} (h : s.Sane) (now : Int) (rest : List UInt8) :
    Goes s (resume now s rest) := by
  unfold resume
  split
  · exact (goes_modify h fun st => RouteStream.held_writer st .idle).trans fun h' =>
      goes_scheduleIdle h' now
  · split
    · exact goes_failWrite h now
    · next hd =>
      have hd' : s.stream.destroying = false := by
        simp only [not_or, Bool.not_eq_true] at hd
        exact hd.1
      have hask : Goes s (if s.stream.sendCredit = 0 then s.releaseCircuit else s.requestCircuit) := by
        split
        · exact goes_releaseCircuit h hd'
        · exact goes_requestCircuit h
      dsimp only
      generalize (if s.stream.sendCredit = 0 then s.releaseCircuit else s.requestCircuit) = s' at hask ⊢
      refine hask.trans fun h' => ?_
      split
      · split
        · exact goes_failWrite h' now
        · exact goes_modify h' fun st => RouteStream.held_writer st _
      · apply goes_sendBatch now _ h'
        · exact (Nat.min_le_right _ _).trans (Nat.min_le_left _ _)
        · exact (Nat.min_le_right _ _).trans ((Nat.min_le_right _ _).trans (Nat.min_le_left _ _))

theorem goes_write {s : Source} (h : s.Sane) (now : Int) (data : List UInt8) :
    Goes s (write now s data) := by
  unfold write
  split
  · exact .refl h
  · split
    · exact goes_modify h fun st => RouteStream.held_writer st .failed
    · have hstart : Goes s
          (s.modify fun st => { st with writer := .woken data, idleTimer := none }) :=
        goes_held h ⟨rfl, rfl, rfl, rfl, rfl, rfl, rfl, rfl, rfl, fun hd => hd, fun hs =>
          ⟨hs.torn, hs.queue, hs.reading, hs.window⟩⟩
      exact hstart.trans fun h' => goes_resume h' now data

theorem goes_resumed {s : Source} (h : s.Sane) (now : Int) (ok : Bool) :
    Goes s (resumed now s ok) := by
  unfold resumed
  split
  · exact goes_resume h now _
  · split
    · exact goes_resume h now _
    · exact goes_failWrite h now
  · exact goes_modify h RouteStream.held_destroy
  · exact .refl h

theorem goes_final {s : Source} (h : s.Sane) : Goes s s.final := by
  unfold final
  split
  · exact .refl h
  · next hd =>
    have hd' : s.stream.destroying = false := by
      simp only [not_or, Bool.not_eq_true] at hd
      exact hd.1
    have hend : Goes s (s.modify fun st => { st with localEnded := true }) :=
      goes_held h ⟨rfl, rfl, rfl, rfl, rfl, rfl, rfl, rfl, rfl, fun hd => hd, fun hs =>
        ⟨hs.torn, hs.queue, hs.reading, hs.window⟩⟩
    exact (hend.trans fun h' => goes_releaseCircuit h' hd').trans goes_fin

/-! ## Reading, closing and timers -/

theorem goes_readBack {s : Source} (h : s.Sane) (hd : s.stream.destroying = false) :
    Goes s s.readBack := by
  unfold readBack
  split
  · next hdel =>
    have hq := h.stream.queue hd
    have hw := h.stream.window
    have hc := h.credit
    rw [if_pos hdel] at hq
    have hback : Goes s (s.modify fun st => { st with
        delivered := false
        receivedOutstanding := st.receivedOutstanding - 1
        streamReturnPending := s.stream.streamReturnPending + 1 }) := by
      refine goes_quiet h ⟨rfl, rfl, rfl, rfl, rfl, rfl, fun hd => hd⟩
        ⟨fun ht => absurd (ht.symm.trans (h.stream.torn_eq_false hd)) (by decide), fun _ => ?_,
          fun _ => rfl, ?_⟩ ?_
      · show s.stream.receivedOutstanding - 1 = s.stream.queue.length + 0
        omega
      · show s.stream.receiveCredit + (s.stream.streamReturnPending + 1 : Nat) +
          (s.stream.receivedOutstanding - 1 : Nat) ≤ _
        push_cast
        omega
      · show s.stream.circuitReceiveCredit + s.stream.circuitReturnPending +
          (s.stream.receivedOutstanding - 1 : Nat) ≤ _
        omega
    have hroom : ∀ s' : Source,
        s'.stream.circuitReceiveCredit = s.stream.circuitReceiveCredit →
        s'.stream.circuitReturnPending = s.stream.circuitReturnPending →
        s'.stream.receivedOutstanding = s.stream.receivedOutstanding - 1 → s'.Sane →
        Goes s' (s'.returnCircuit 1 false) := by
      intro s' h₁ h₂ h₃ h'
      apply goes_returnCircuit h' 1
      rw [h₁, h₂, h₃]
      omega
    dsimp only
    refine hback.trans fun h' => ?_
    split
    · refine (goes_send h' (.credit _) ⟨h'.stream.torn, h'.stream.queue, h'.stream.reading, ?_⟩
        h'.credit rfl).trans (hroom _ (held_sendOut _ _).circuitReceiveCredit
          (held_sendOut _ _).circuitReturnPending (held_sendOut _ _).receivedOutstanding)
      show s.stream.receiveCredit + (s.stream.streamReturnPending + 1 : Nat) + (0 : Nat) +
        (s.stream.receivedOutstanding - 1 : Nat) ≤ _
      push_cast
      omega
    · exact hroom _ rfl rfl rfl h'
  · exact .refl h

theorem delivered_sendOut (s : Source) (f : Frame) :
    (s.sendOut f).stream.delivered = s.stream.delivered := by
  unfold Source.sendOut Source.close RouteStream.destroy
  split
  · rfl
  · split
    · split <;> rfl
    · rfl

theorem delivered_returnCircuit (s : Source) (amount : Nat) (flush : Bool) :
    (s.returnCircuit amount flush).stream.delivered = s.stream.delivered := by
  unfold returnCircuit
  split
  · rfl
  · dsimp only
    split
    · rfl
    · split
      · rfl
      · split
        · rfl
        · exact delivered_sendOut _ _

theorem delivered_readBack (s : Source) : s.readBack.stream.delivered = false := by
  unfold readBack
  split
  · dsimp only
    rw [delivered_returnCircuit]
    split
    · exact delivered_sendOut _ _
    · rfl
  · next hd => exact Bool.eq_false_of_not_eq_true hd

theorem goes_read {s : Source} (h : s.Sane) : Goes s s.read := by
  unfold read
  split
  · exact .refl h
  · next hd =>
    refine (goes_readBack h (Bool.eq_false_of_not_eq_true hd)).trans fun h' => ?_
    have hdel := s.delivered_readBack
    refine goes_held h' (RouteStream.Held.trans ?_ (RouteStream.held_drain _))
    exact ⟨rfl, rfl, rfl, rfl, rfl, rfl, rfl, rfl, rfl, fun hd => hd, fun hs =>
      ⟨hs.torn, hs.queue, fun _ => hdel, hs.window⟩⟩

/-- The stream is torn down and what was not read is given back. -/
theorem goes_tear {s : Source} (h : s.Sane) (hd : s.stream.destroying = true) :
    Goes s ((s.modify .tear).returnCircuit s.stream.receivedOutstanding true) := by
  have hw := h.stream.window
  have hc := h.credit
  have htear : Goes s (s.modify .tear) := by
    refine goes_quiet h ⟨rfl, rfl, rfl, rfl, rfl, rfl, fun hd => hd⟩ ⟨fun _ => ⟨hd, rfl⟩,
      fun hd' => absurd (hd.symm.trans hd') (by decide), h.stream.reading, ?_⟩ ?_
    · show s.stream.receiveCredit + s.stream.streamReturnPending + (0 : Nat) ≤ _
      omega
    · show s.stream.circuitReceiveCredit + s.stream.circuitReturnPending + (0 : Nat) ≤ _
      omega
  refine htear.trans fun h' => goes_returnCircuit h' _ ?_ true
  show s.stream.circuitReceiveCredit + s.stream.circuitReturnPending + (0 : Nat) + _ ≤ _
  omega

theorem goes_runDestroy {s : Source} (h : s.Sane) : Goes s s.runDestroy := by
  unfold runDestroy
  split
  · exact .refl h
  · next hd =>
    have hd' : s.stream.destroying = true := by
      simp only [not_or, Bool.not_eq_false] at hd
      exact hd.1
    split
    · exact (goes_tear h hd').trans goes_close
    · refine (goes_reset h).trans fun h' => ?_
      have hh := held_sendOut s ⟨0, .reset⟩
      have := goes_tear h' (by
        by_contra hn
        exact absurd (hh.destroying (Bool.eq_false_of_not_eq_true hn)) (by rw [hd']; decide))
      rwa [hh.receivedOutstanding] at this

theorem goes_closeStream {s : Source} (h : s.Sane) : Goes s s.closeStream := by
  unfold closeStream
  split
  · exact goes_close h
  · exact .refl h

theorem goes_idleFired {s : Source} (h : s.Sane) : Goes s s.idleFired := by
  unfold idleFired
  split
  · exact .refl h
  · have hclear : Goes s (s.modify fun st => { st with idleTimer := none }) :=
      goes_held h ⟨rfl, rfl, rfl, rfl, rfl, rfl, rfl, rfl, rfl, fun hd => hd, fun hs =>
        ⟨hs.torn, hs.queue, hs.reading, hs.window⟩⟩
    dsimp only
    refine hclear.trans fun h' => ?_
    split
    · exact .refl h'
    · next hd =>
      simp only [not_or, Bool.not_eq_true] at hd
      exact goes_releaseCircuit h' hd.2

theorem goes_returnFired {s : Source} (h : s.Sane) : Goes s s.returnFired := by
  unfold returnFired
  split
  · have hclear : Goes s (s.modify fun st => { st with returnTimer := false }) :=
      goes_held h ⟨rfl, rfl, rfl, rfl, rfl, rfl, rfl, rfl, rfl, fun hd => hd, fun hs =>
        ⟨hs.torn, hs.queue, hs.reading, hs.window⟩⟩
    refine hclear.trans fun h' => goes_returnCircuit h' 0 ?_ true
    exact (Int.add_zero _).le.trans h'.credit
  · exact .refl h

theorem goes_destroy {s : Source} (h : s.Sane) : Goes s s.destroy :=
  goes_modify h RouteStream.held_destroy

/-! ## Frames -/

/-- The checks a frame can fail, as far as they are about credit. -/
def Refuses (s : Source) (f : Frame) : StreamFault → Prop
  | .circuitReceiveCredit => s.stream.circuitReceiveCredit < f.dataOf 0
  | .window => s.stream.receiveCredit < f.dataOf 0
  | .grantStream => streamWindow < s.stream.sendCredit + f.creditOf 0
  | .grantCircuit => s.stream.circuitRequested < f.creditOf circuitStreamId ∨
      circuitWindow < s.stream.circuitCredit + f.creditOf circuitStreamId
  | .cancelCircuit => f = ⟨circuitStreamId, .demand 0⟩ ∧ s.stream.circuitCanceling = false
  | .overflow | .pool _ => False
  | _ => True

/-- `s'` is `s` with a frame of its link taken. -/
structure Took (f : Frame) (s s' : Source) : Prop where
  sane : s'.Sane
  link : s'.link = s.link
  faults : ∀ g ∈ s'.faults, g ∈ s.faults ∨ s.Refuses f g
  destroying : s'.stream.destroying = false → s.stream.destroying = false
  sendCredit : s'.stream.sendCredit ≤ s.stream.sendCredit + f.creditOf 0 ∧
    (s'.stream.destroying = false → s'.stream.sendCredit = s.stream.sendCredit + f.creditOf 0)
  receiveCredit : s.stream.receiveCredit ≤ s'.stream.receiveCredit + f.dataOf 0 ∧
    (s'.stream.destroying = false → s.stream.receiveCredit = s'.stream.receiveCredit + f.dataOf 0)
  circuitReceiveCredit :
    s.stream.circuitReceiveCredit ≤ s'.stream.circuitReceiveCredit + f.dataOf 0
  circuitCredit :
    s'.stream.circuitCredit ≤ s.stream.circuitCredit + f.creditOf circuitStreamId ∧
    (s'.stream.destroying = false →
      s'.stream.circuitCredit = s.stream.circuitCredit + f.creditOf circuitStreamId)
  demand : (s.stream.circuitRequested ≤ s'.stream.circuitRequested + f.creditOf circuitStreamId ∧
      s'.stream.circuitRequested ≤ s.stream.circuitRequested ∧
      s'.stream.circuitCanceling = s.stream.circuitCanceling) ∨
    f = ⟨circuitStreamId, .demand 0⟩ ∧ s'.stream.circuitRequested = 0 ∧
      s'.stream.circuitCanceling = false

theorem took_held {s : Source} (h : s.Sane) {st : RouteStream} (hh : s.stream.Held st) {f : Frame}
    (hcredit : ∀ id, f.creditOf id = 0) (hdata : f.dataOf 0 = 0) :
    Took f s { s with stream := st } where
  sane := (goes_held h hh).2
  link := rfl
  faults _ hg := .inl hg
  destroying := hh.destroying
  sendCredit := by
    rw [hcredit]
    exact ⟨hh.sendCredit.le, fun _ => hh.sendCredit⟩
  receiveCredit := by
    rw [hdata]
    show s.stream.receiveCredit ≤ st.receiveCredit + (0 : Nat) ∧ (_ → _ = st.receiveCredit + (0 : Nat))
    rw [hh.receiveCredit]
    exact ⟨(Int.add_zero _).ge, fun _ => (Int.add_zero _).symm⟩
  circuitReceiveCredit := by
    rw [hdata]
    show s.stream.circuitReceiveCredit ≤ st.circuitReceiveCredit + (0 : Nat)
    rw [hh.circuitReceiveCredit]
    exact (Int.add_zero _).ge
  circuitCredit := by
    rw [hcredit]
    exact ⟨hh.circuitCredit.le, fun _ => hh.circuitCredit⟩
  demand := .inl ⟨by rw [hcredit, hh.circuitRequested]; exact le_rfl, hh.circuitRequested.le,
    hh.circuitCanceling⟩

theorem took_dropped {s : Source} (h : s.Sane) (hd : s.stream.destroying = true) (f : Frame) :
    Took f s s where
  sane := h
  link := rfl
  faults _ hg := .inl hg
  destroying hd' := hd'
  sendCredit := ⟨Nat.le_add_right _ _, fun hd' => absurd (hd.symm.trans hd') (by decide)⟩
  receiveCredit := ⟨by omega, fun hd' => absurd (hd.symm.trans hd') (by decide)⟩
  circuitReceiveCredit := by omega
  circuitCredit := ⟨Nat.le_add_right _ _, fun hd' => absurd (hd.symm.trans hd') (by decide)⟩
  demand := .inl ⟨Nat.le_add_right _ _, le_rfl, rfl⟩

theorem took_fail {s : Source} (h : s.Sane) {f : Frame} {g : StreamFault} (hg : s.Refuses f g) :
    Took f s (s.fail g) := by
  have hh := RouteStream.held_destroy s.stream
  have hd : (s.fail g).stream.destroying = true := RouteStream.destroying_destroy _
  refine ⟨⟨hh.sane h.stream, ?_, fun _ => hd, h.single⟩, rfl, fun g' hg' => ?_, hh.destroying,
    ⟨?_, fun hd' => absurd (hd.symm.trans hd') (by decide)⟩,
    ⟨?_, fun hd' => absurd (hd.symm.trans hd') (by decide)⟩, ?_,
    ⟨?_, fun hd' => absurd (hd.symm.trans hd') (by decide)⟩, .inl ⟨?_, ?_, hh.circuitCanceling⟩⟩
  · show s.stream.destroy.circuitReceiveCredit + s.stream.destroy.circuitReturnPending +
      s.stream.destroy.receivedOutstanding ≤ _
    rw [hh.circuitReceiveCredit, hh.circuitReturnPending, hh.receivedOutstanding]
    exact h.credit
  · rcases List.mem_append.mp hg' with hg' | hg'
    · exact .inl hg'
    · rw [List.mem_singleton.mp hg']
      exact .inr hg
  · exact hh.sendCredit.le.trans (Nat.le_add_right _ _)
  · show s.stream.receiveCredit ≤ s.stream.destroy.receiveCredit + _
    rw [hh.receiveCredit]
    omega
  · show s.stream.circuitReceiveCredit ≤ s.stream.destroy.circuitReceiveCredit + _
    rw [hh.circuitReceiveCredit]
    omega
  · exact hh.circuitCredit.le.trans (Nat.le_add_right _ _)
  · exact hh.circuitRequested.ge.trans (Nat.le_add_right _ _)
  · exact hh.circuitRequested.le

theorem creditOf_circuit {n : Nat} :
    (⟨circuitStreamId, .credit n⟩ : Frame).creditOf 0 = 0 ∧
      (⟨circuitStreamId, .credit n⟩ : Frame).creditOf circuitStreamId = n ∧
      (⟨circuitStreamId, .credit n⟩ : Frame).dataOf 0 = 0 := by
  refine ⟨?_, ?_, ?_⟩ <;> simp [Frame.creditOf, Frame.dataOf, circuitStreamId]

theorem creditOf_stream {n : Nat} :
    (⟨0, .credit n⟩ : Frame).creditOf 0 = n ∧
      (⟨0, .credit n⟩ : Frame).creditOf circuitStreamId = 0 ∧
      (⟨0, .credit n⟩ : Frame).dataOf 0 = 0 := by
  refine ⟨?_, ?_, ?_⟩ <;> simp [Frame.creditOf, Frame.dataOf, circuitStreamId, Frame.cells,
    Body.isData]

theorem receive_grantCircuit {s : Source} (h : s.Sane) (now : Int) {amount : Nat}
    (hpos : 0 < amount) : ∃ s', Took ⟨circuitStreamId, .credit amount⟩ s s' ∧
      Goes s' (grantCircuit now s amount) := by
  obtain ⟨h0, hc, hdata⟩ := @creditOf_circuit amount
  unfold grantCircuit
  split
  · next hd => exact ⟨s, took_dropped h hd _, .refl h⟩
  · next hd =>
    have hd' : s.stream.destroying = false := Bool.eq_false_of_not_eq_true hd
    split
    · next hover =>
      have ht := took_fail h (f := ⟨circuitStreamId, .credit amount⟩) (g := .grantCircuit) (by
        show _ < Frame.creditOf _ _ ∨ _ < _ + Frame.creditOf _ _
        rw [hc]
        omega)
      exact ⟨_, ht, .refl ht.sane⟩
    · next hok =>
      have hs₁ : Sane (s.modify fun st => { st with
          circuitRequested := st.circuitRequested - amount
          circuitCredit := st.circuitCredit + amount }) :=
        ⟨⟨h.stream.torn, h.stream.queue, h.stream.reading, h.stream.window⟩, h.credit, h.closed,
          h.single⟩
      refine ⟨_, ⟨hs₁, rfl, fun _ hg => .inl hg, fun hd => hd, ?_, ?_, ?_, ?_, .inl ⟨?_, ?_, rfl⟩⟩, ?_⟩
      · rw [h0]
        exact ⟨le_rfl, fun _ => rfl⟩
      · rw [hdata]
        exact ⟨(Int.add_zero _).ge, fun _ => (Int.add_zero _).symm⟩
      · rw [hdata]
        exact (Int.add_zero _).ge
      · rw [hc]
        exact ⟨le_rfl, fun _ => rfl⟩
      · rw [hc]
        show s.stream.circuitRequested ≤ s.stream.circuitRequested - amount + amount
        omega
      · exact Nat.sub_le _ _
      · have hd₁ : (s.modify fun st => { st with
            circuitRequested := st.circuitRequested - amount
            circuitCredit := st.circuitCredit + amount }).stream.destroying = false := hd'
        dsimp only
        generalize (s.modify fun st => { st with
          circuitRequested := st.circuitRequested - amount
          circuitCredit := st.circuitCredit + amount }) = s₁ at hs₁ hd₁ ⊢
        have hgive : Goes s₁ (if s₁.stream.sendCredit = 0 ∨ s₁.stream.localEnded = true then
            s₁.releaseCircuit else s₁.modify .wakeWriter) := by
          split
          · exact goes_releaseCircuit hs₁ hd₁
          · exact goes_modify hs₁ RouteStream.held_wakeWriter
        generalize (if s₁.stream.sendCredit = 0 ∨ s₁.stream.localEnded = true then
          s₁.releaseCircuit else s₁.modify .wakeWriter) = s₂ at hgive ⊢
        refine hgive.trans fun h' => ?_
        split
        · exact .refl h'
        · exact goes_scheduleIdle h' now

theorem receive_cancelCircuit {s : Source} (h : s.Sane) :
    ∃ s', Took ⟨circuitStreamId, .demand 0⟩ s s' ∧ Goes s' s.cancelCircuit := by
  unfold cancelCircuit
  split
  · next hd => exact ⟨s, took_dropped h hd _, .refl h⟩
  · next hd =>
    have hd' : s.stream.destroying = false := Bool.eq_false_of_not_eq_true hd
    split
    · next hc =>
      have ht := took_fail h (f := ⟨circuitStreamId, .demand 0⟩) (g := .cancelCircuit) ⟨rfl, hc⟩
      exact ⟨_, ht, .refl ht.sane⟩
    · have hs₁ : Sane (s.modify fun st => { st with
          circuitCanceling := false, circuitRequested := 0 }) :=
        ⟨⟨h.stream.torn, h.stream.queue, h.stream.reading, h.stream.window⟩, h.credit, h.closed,
          h.single⟩
      refine ⟨_, ⟨hs₁, rfl, fun _ hg => .inl hg, fun hd => hd, ⟨le_rfl, fun _ => rfl⟩,
        ⟨(Int.add_zero _).ge, fun _ => (Int.add_zero _).symm⟩, (Int.add_zero _).ge,
        ⟨le_rfl, fun _ => rfl⟩, .inr ⟨rfl, rfl, rfl⟩⟩, ?_⟩
      dsimp only
      refine Goes.trans ?_ fun h' => goes_modify h' RouteStream.held_wakeWriter
      split
      · exact goes_releaseCircuit hs₁ hd'
      · exact goes_requestCircuit hs₁

theorem receive_grantStream {s : Source} (h : s.Sane) {amount : Nat} (hpos : 0 < amount) :
    ∃ s', Took ⟨0, .credit amount⟩ s s' ∧ Goes s' (s.grantStream amount) := by
  obtain ⟨h0, hc, hdata⟩ := @creditOf_stream amount
  unfold grantStream
  split
  · next hd => exact ⟨s, took_dropped h hd _, .refl h⟩
  · split
    · next hover =>
      have ht := took_fail h (f := ⟨0, .credit amount⟩) (g := .grantStream) (by
        show _ < _ + Frame.creditOf _ _
        rw [h0]
        omega)
      exact ⟨_, ht, .refl ht.sane⟩
    · have hs₁ : Sane (s.modify fun st => { st with sendCredit := st.sendCredit + amount }) :=
        ⟨⟨h.stream.torn, h.stream.queue, h.stream.reading, h.stream.window⟩, h.credit, h.closed,
          h.single⟩
      refine ⟨_, ⟨hs₁, rfl, fun _ hg => .inl hg, fun hd => hd, ?_, ?_, ?_, ?_, .inl ⟨?_, le_rfl, rfl⟩⟩,
        ?_⟩
      · rw [h0]
        exact ⟨le_rfl, fun _ => rfl⟩
      · rw [hdata]
        exact ⟨(Int.add_zero _).ge, fun _ => (Int.add_zero _).symm⟩
      · rw [hdata]
        exact (Int.add_zero _).ge
      · rw [hc]
        exact ⟨le_rfl, fun _ => rfl⟩
      · rw [hc]
        exact le_rfl
      · dsimp only
        refine Goes.trans ?_ fun h' => goes_modify h' RouteStream.held_wakeWriter
        split
        · exact goes_requestCircuit hs₁
        · exact .refl hs₁

/-- A cell charged to the circuit, and to the stream if it is open. -/
theorem took_data {s : Source} {st : RouteStream} {fs : List StreamFault} {chunk : List UInt8}
    (hsane : Sane { s with stream := st, faults := fs })
    (hfaults : ∀ g ∈ fs, g ∈ s.faults ∨ s.Refuses ⟨0, .data chunk⟩ g)
    (hd : st.destroying = false → s.stream.destroying = false)
    (hsend : st.sendCredit = s.stream.sendCredit)
    (hrecv : s.stream.receiveCredit ≤ st.receiveCredit + 1 ∧
      (st.destroying = false → s.stream.receiveCredit = st.receiveCredit + 1))
    (hcirc : st.circuitReceiveCredit = s.stream.circuitReceiveCredit - 1)
    (hcc : st.circuitCredit = s.stream.circuitCredit)
    (hcr : st.circuitRequested = s.stream.circuitRequested)
    (hcan : st.circuitCanceling = s.stream.circuitCanceling) :
    Took ⟨0, .data chunk⟩ s { s with stream := st, faults := fs } := by
  have hdata : (⟨0, .data chunk⟩ : Frame).dataOf 0 = 1 := rfl
  refine ⟨hsane, rfl, hfaults, hd, ⟨hsend.le, fun _ => hsend⟩, ?_, ?_, ⟨hcc.le, fun _ => hcc⟩,
    .inl ⟨hcr.ge, hcr.le, hcan⟩⟩
  · rw [hdata]
    exact hrecv
  · rw [hdata]
    show s.stream.circuitReceiveCredit ≤ st.circuitReceiveCredit + (1 : Nat)
    omega

/-- A stream that fails a check after it gave credit back might as well have failed
it before. -/
theorem fail_returnCircuit {s : Source} (hd : s.stream.destroying = false) (amount : Nat)
    (hsum : s.stream.circuitReceiveCredit + (s.stream.circuitReturnPending + amount : Nat) ≤
      circuitWindow) (flush : Bool) (g : StreamFault) : (s.returnCircuit amount flush).fail g =
      ((s.fail g).returnCircuit amount flush).modify fun st => { st with returnTimer := false } := by
  have hle : ¬ (circuitWindow : Int) < s.stream.circuitReceiveCredit +
      (s.stream.circuitReturnPending + amount : Nat) := by omega
  unfold returnCircuit fail fault modify sendCredit sendOut close RouteStream.destroy
  by_cases hl : s.link.destroyed = true
  · simp [hl, hd]
  · by_cases hp : s.stream.circuitReturnPending + amount = 0
    · simp [hl, hp, hd]
    · by_cases hb : flush = false ∧ s.stream.circuitReturnPending + amount < circuitCreditBatch
      · simp only [hl, hp, hb.1, hb.2, hd, if_true, Bool.false_eq_true, if_false, and_self]
      · simp only [hl, hp, hb, hle, hd, Bool.false_eq_true, if_false]
        by_cases hf : s.link.full
            ⟨circuitStreamId, .credit (s.stream.circuitReturnPending + amount)⟩ = true
        · simp [hf]
        · simp [hf]

theorem took_charged {s : Source} (h : (s.modify .chargeCell).Sane) (chunk : List UInt8)
    {g : StreamFault} (hg : s.Refuses ⟨0, .data chunk⟩ g) :
    Took ⟨0, .data chunk⟩ s ((s.modify .chargeCell).fail g) := by
  have hh := RouteStream.held_destroy s.stream.chargeCell
  have hd := RouteStream.destroying_destroy s.stream.chargeCell
  have hsane := (took_fail h (show (s.modify .chargeCell).Refuses ⟨0, .fin⟩ .unexpected from
    trivial)).sane
  refine took_data ⟨hsane.stream, hsane.credit, hsane.closed, hsane.single⟩ (fun g' hg' => ?_)
    hh.destroying hh.sendCredit ⟨?_, fun hd' => absurd (hd.symm.trans hd') (by decide)⟩
    hh.circuitReceiveCredit hh.circuitCredit hh.circuitRequested hh.circuitCanceling
  · rcases List.mem_append.mp hg' with hg' | hg'
    · exact .inl hg'
    · rw [List.mem_singleton.mp hg']
      exact .inr hg
  · have hrc : s.stream.chargeCell.destroy.receiveCredit = s.stream.receiveCredit := hh.receiveCredit
    show s.stream.receiveCredit ≤ s.stream.chargeCell.destroy.receiveCredit + 1
    omega

theorem receive_data {s : Source} (h : s.Sane) (chunk : List UInt8) :
    ∃ s', Took ⟨0, .data chunk⟩ s s' ∧ Goes s' (s.receiveData chunk) := by
  have hw := h.stream.window
  have hc := h.credit
  have hcirc : (s.modify .chargeCell).stream.circuitReceiveCredit =
      s.stream.circuitReceiveCredit - 1 := rfl
  have hpend : (s.modify .chargeCell).stream.circuitReturnPending =
      s.stream.circuitReturnPending := rfl
  have hout : (s.modify .chargeCell).stream.receivedOutstanding = s.stream.receivedOutstanding := rfl
  have hcharge : (s.modify .chargeCell).Sane := by
    refine ⟨⟨h.stream.torn, h.stream.queue, h.stream.reading, h.stream.window⟩, ?_, h.closed,
      h.single⟩
    rw [hcirc, hpend, hout]
    omega
  have hback : ∀ s' : Source, s'.Sane →
      s'.stream.circuitReceiveCredit = s.stream.circuitReceiveCredit - 1 →
      s'.stream.circuitReturnPending = s.stream.circuitReturnPending →
      s'.stream.receivedOutstanding = s.stream.receivedOutstanding →
      Goes s' (s'.returnCircuit 1 false) := by
    intro s' h' h₁ h₂ h₃
    apply goes_returnCircuit h' 1
    rw [h₁, h₂, h₃]
    omega
  unfold receiveData
  dsimp only
  split
  · next hneg =>
    rw [hcirc] at hneg
    have ht := took_charged hcharge chunk (g := .circuitReceiveCredit) (by
      show s.stream.circuitReceiveCredit < (1 : Nat)
      omega)
    exact ⟨_, ht, .refl ht.sane⟩
  · split
    · next hd =>
      refine ⟨_, took_data hcharge (fun _ hg => .inl hg) (fun hd => hd) rfl ⟨?_, fun hd' =>
        absurd (hd.symm.trans hd') (by decide)⟩ rfl rfl rfl rfl, hback _ hcharge rfl rfl rfl⟩
      show s.stream.receiveCredit ≤ s.stream.receiveCredit + 1
      omega
    · next hd =>
      have hd' : s.stream.destroying = false := Bool.eq_false_of_not_eq_true hd
      split
      · have ht := took_charged hcharge chunk (g := .ended) trivial
        refine ⟨_, ht, ?_⟩
        have hlive : (s.modify .chargeCell).stream.destroying = false := hd'
        rw [fail_returnCircuit hlive 1 (by rw [hcirc, hpend]; push_cast; omega)]
        have hh := RouteStream.held_destroy s.stream.chargeCell
        refine (hback _ ht.sane hh.circuitReceiveCredit hh.circuitReturnPending
          hh.receivedOutstanding).trans fun h' => goes_held h' ?_
        exact ⟨rfl, rfl, rfl, rfl, rfl, rfl, rfl, rfl, rfl, fun hd => hd, fun hs =>
          ⟨hs.torn, hs.queue, hs.reading, hs.window⟩⟩
      · obtain ⟨⟨st, r⟩, hr⟩ : ∃ p, (s.modify .chargeCell).stream.receiveOpen chunk = p := ⟨_, rfl⟩
        obtain ⟨hsane, -, hcc, hcr, hsend, hout', hrecv, hfault⟩ :=
          RouteStream.receiveOpen_spec hcharge.stream hd' hr
        obtain ⟨hcan, hcrc, hpd⟩ := RouteStream.receiveOpen_circuit hr
        have hrecv' : st.receiveCredit = s.stream.receiveCredit - 1 := hrecv
        have hst : ∀ fs, Sane { s with stream := st, faults := fs } := by
          intro fs
          refine ⟨hsane, ?_, fun hl => ?_, h.single⟩
          · show st.circuitReceiveCredit + st.circuitReturnPending + st.receivedOutstanding ≤ _
            rw [hcrc, hpd, hout', hcirc, hpend, hout]
            push_cast
            omega
          · exact absurd ((h.closed hl).symm.trans hd') (by decide)
        have htook : ∀ fs, (∀ g ∈ fs, g ∈ s.faults ∨ s.Refuses ⟨0, .data chunk⟩ g) →
            Took ⟨0, .data chunk⟩ s { s with stream := st, faults := fs } := fun fs hfs =>
          took_data (hst fs) hfs (fun _ => hd') hsend ⟨by omega, fun _ => by omega⟩ hcrc hcc hcr hcan
        have hrefused : ∀ g, s.Refuses ⟨0, .data chunk⟩ g → ∃ s', Took ⟨0, .data chunk⟩ s s' ∧
            Goes s' { s with stream := st, faults := s.faults ++ [g] } := by
          intro g hg
          refine ⟨_, htook (s.faults ++ [g]) fun g' hg' => ?_, .refl (hst _)⟩
          rcases List.mem_append.mp hg' with hg' | hg'
          · exact .inl hg'
          · rw [List.mem_singleton.mp hg']
            exact .inr hg
        rw [hr]
        rcases hfault with rfl | rfl | ⟨rfl, hover⟩
        · exact ⟨_, htook s.faults fun g hg => .inl hg, .refl (hst _)⟩
        · exact hrefused .totals trivial
        · exact hrefused .window hover

/-- **What a frame of its link does to a source**: the frame is taken, and moves
follow. -/
theorem receive_takes {s : Source} (h : s.Sane) (hl : s.link.destroyed = false) (now : Int)
    {payload : Payload} {f : Frame} (hf : decodeLogical payload = some f) :
    ∃ s', Took f s s' ∧ Goes s' (receive now s payload) := by
  obtain ⟨-, -, hvalid⟩ := decodeLogical_eq_some hf
  have hpos : ∀ n, f.body = .credit n → 0 < n := by
    intro n hn
    rw [hn] at hvalid
    simp only [validLogicalPayload, Bool.and_eq_true, bne_iff_ne] at hvalid
    omega
  have hfail : ∀ g, s.Refuses f g → ∃ s', Took f s s' ∧ Goes s' (s.fail g) := fun g hg =>
    ⟨_, took_fail h hg, .refl (took_fail h hg).sane⟩
  unfold receive
  rw [if_neg (by rw [hl]; decide), hf]
  obtain ⟨id, body⟩ := f
  dsimp only
  split
  · next hid =>
    subst hid
    cases body with
    | credit n => exact receive_grantCircuit h now (hpos n rfl)
    | demand n =>
      dsimp only
      split
      · next hn =>
        subst hn
        exact receive_cancelCircuit h
      · exact hfail .unexpected trivial
    | data | openStream | fin | reset | release | spliceOpen | spliceReady =>
      exact hfail .unexpected trivial
  · split
    · exact hfail .unexpected trivial
    · next hid =>
      have hid' : id = 0 := of_not_not hid
      subst hid'
      cases body with
      | data chunk => exact receive_data h chunk
      | fin =>
        have ht := took_held h (RouteStream.held_remoteFin s.stream) (f := ⟨0, .fin⟩)
          (fun _ => rfl) rfl
        exact ⟨_, ht, .refl ht.sane⟩
      | reset =>
        have ht := took_held h (RouteStream.held_remoteReset s.stream) (f := ⟨0, .reset⟩)
          (fun _ => rfl) rfl
        exact ⟨_, ht, .refl ht.sane⟩
      | credit n => exact receive_grantStream h (hpos n rfl)
      | openStream | demand | release | spliceOpen | spliceReady => exact hfail .unexpected trivial

end Source

end HyperDht.Private
