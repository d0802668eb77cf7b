import HyperDht.Private.ReceiveSide
import Mathlib.Algebra.Order.Ring.Int
import Mathlib.Data.List.Induction

/-!
# The receive side as a queue

Until the stream is destroyed the ring holds the chunks that were received and not
yet pushed (`Settled`), and the credit of every chunk is with the peer, pending, or
outstanding. So what the reader gets is what came before the FIN, in order and as
soon as it asks for it, and the end comes after the last chunk was taken
(`receive_fifo`).
-/

namespace HyperDht.Private

namespace ReceiveSide

/-! ## Calls that leave the stream -/

/-- From `s` to `s'` nothing is pushed or taken. -/
structure Still (s s' : ReceiveSide) : Prop where
  pushed : s'.pushed = s.pushed
  taken : s'.taken = s.taken
  ends : s'.ends = s.ends
  remoteEnded : s'.remoteEnded = s.remoteEnded
  destroying : s.destroying = true → s'.destroying = true

/-- `s'` is `s` as far as the queue and its books go, or destroyed. -/
structure Quiet (s s' : ReceiveSide) : Prop extends Still s s' where
  queue : s'.destroying = false → s'.ring = s.ring ∧ s'.queuedBytes = s.queuedBytes ∧
    s'.receivedOutstanding = s.receivedOutstanding ∧ s'.receiveCredit = s.receiveCredit ∧
    s'.streamReturnPending = s.streamReturnPending ∧ s'.delivered = s.delivered ∧
    s'.wantRead = s.wantRead ∧ s'.asked = s.asked

theorem Still.refl (s : ReceiveSide) : Still s s := ⟨rfl, rfl, rfl, rfl, id⟩

theorem Still.trans {s s' s'' : ReceiveSide} (h : Still s s') (h' : Still s' s'') : Still s s'' :=
  ⟨h'.pushed.trans h.pushed, h'.taken.trans h.taken, h'.ends.trans h.ends,
    h'.remoteEnded.trans h.remoteEnded, h'.destroying ∘ h.destroying⟩

theorem Still.not_destroying {s s' : ReceiveSide} (h : Still s s') (hd : s'.destroying = false) :
    s.destroying = false := by
  cases hs : s.destroying with
  | false => rfl
  | true => exact (h.destroying hs).symm.trans hd

theorem Quiet.refl (s : ReceiveSide) : Quiet s s :=
  ⟨.refl s, fun _ => ⟨rfl, rfl, rfl, rfl, rfl, rfl, rfl, rfl⟩⟩

theorem Quiet.trans {s s' s'' : ReceiveSide} (h : Quiet s s') (h' : Quiet s' s'') : Quiet s s'' := by
  refine ⟨h.toStill.trans h'.toStill, fun hd => ?_⟩
  obtain ⟨q₁, q₂, q₃, q₄, q₅, q₆, q₇, q₈⟩ := h.queue (h'.not_destroying hd)
  obtain ⟨p₁, p₂, p₃, p₄, p₅, p₆, p₇, p₈⟩ := h'.queue hd
  exact ⟨p₁.trans q₁, p₂.trans q₂, p₃.trans q₃, p₄.trans q₄, p₅.trans q₅, p₆.trans q₆, p₇.trans q₇,
    p₈.trans q₈⟩

theorem destroying_destroy (s : ReceiveSide) : s.destroy.destroying = true := by
  unfold destroy
  split
  · assumption
  · rfl

theorem still_destroy (s : ReceiveSide) : Still s s.destroy := by
  refine ⟨?_, ?_, ?_, ?_, fun _ => s.destroying_destroy⟩
  all_goals
    unfold destroy
    split <;> rfl

theorem quiet_destroy (s : ReceiveSide) : Quiet s s.destroy :=
  ⟨still_destroy s, fun hd => absurd (s.destroying_destroy.symm.trans hd) (by decide)⟩

theorem quiet_after (s : ReceiveSide) (outcome : CallOutcome) : Quiet s (s.after outcome).1 := by
  cases outcome with
  | returns => exact .refl s
  | destroys => exact quiet_destroy s
  | throws => exact .refl s

theorem quiet_returnCircuit (s : ReceiveSide) (around : Around) (amount : Int) (flush : Bool) :
    Quiet s (s.returnCircuit around amount flush).1 := by
  have hsame : ∀ {s' : ReceiveSide}, s' = { s with
      circuitReturnPending := s'.circuitReturnPending
      circuitReceiveCredit := s'.circuitReceiveCredit
      returnTimer := s'.returnTimer } → Quiet s s' := by
    intro s' he
    rw [he]
    exact ⟨⟨rfl, rfl, rfl, rfl, id⟩, fun _ => ⟨rfl, rfl, rfl, rfl, rfl, rfl, rfl, rfl⟩⟩
  unfold returnCircuit
  split
  · exact quiet_after s _
  · split
    · exact .refl s
    · dsimp only
      split
      · exact hsame rfl
      · split
        · exact hsame rfl
        · split
          · exact hsame rfl
          · exact (hsame rfl).trans (quiet_after _ _)

/-! ## The books -/

/-- The ring holds `queued`, and the books agree with it. -/
structure Books (sent queued : List (List UInt8)) (s : ReceiveSide) : Prop where
  ring : s.ring.Holds streamWindow queued
  order : s.pushed ++ queued = sent
  bytes : s.queuedBytes = (queued.map fun data => (data.length : Int)).sum
  outstanding : s.receivedOutstanding = s.queueLength + (if s.delivered then 1 else 0)
  credit : s.receiveCredit + s.streamReturnPending + s.receivedOutstanding = streamWindow
  pending : 0 ≤ s.streamReturnPending
  wants : s.wantRead = true → s.delivered = false
  taken : s.delivered = false → s.taken = s.pushed.length

/-- What the reader has asked for, while it may ask for more. -/
structure Asking (s : ReceiveSide) : Prop where
  delivered : s.delivered = true → s.asked = s.pushed.length ∧ 0 < s.pushed.length
  waiting : s.wantRead = true → s.asked = s.pushed.length + 1
  idle : s.delivered = false → s.wantRead = false → s.pushed = [] ∧ s.asked = 0

/-- The books after `_drain`: a reader that waits has got what there is, and the end is
pushed when all is taken. -/
structure Settled (sent queued : List (List UInt8)) (s : ReceiveSide) : Prop extends
    Books sent queued s where
  asking : s.ends = 0 → Asking s
  finished : s.ends = 1 → s.pushed = [] ∨ s.asked = s.pushed.length + 1
  waits : s.wantRead = true → queued = []
  ended : s.ends = if s.remoteEnded = true ∧ queued = [] ∧ s.delivered = false then 1 else 0

theorem Books.quiet {sent queued : List (List UInt8)} {s s' : ReceiveSide}
    (h : Books sent queued s) (hq : Quiet s s') (hd : s'.destroying = false) :
    Books sent queued s' := by
  obtain ⟨q₁, q₂, q₃, q₄, q₅, q₆, q₇, -⟩ := hq.queue hd
  have hlen : s'.queueLength = s.queueLength := congrArg RingBuffer.length q₁
  refine ⟨q₁ ▸ h.ring, hq.pushed ▸ h.order, q₂ ▸ h.bytes, ?_, ?_, q₅ ▸ h.pending, ?_, ?_⟩
  · rw [q₃, hlen, q₆]
    exact h.outstanding
  · rw [q₃, q₄, q₅]
    exact h.credit
  · rw [q₆, q₇]
    exact h.wants
  · rw [q₆, hq.taken, hq.pushed]
    exact h.taken

theorem Asking.quiet {s s' : ReceiveSide} (h : Asking s) (hq : Quiet s s')
    (hd : s'.destroying = false) : Asking s' := by
  obtain ⟨-, -, -, -, -, q₆, q₇, q₈⟩ := hq.queue hd
  refine ⟨?_, ?_, ?_⟩
  · rw [q₆, q₈, hq.pushed]
    exact h.delivered
  · rw [q₇, q₈, hq.pushed]
    exact h.waiting
  · rw [q₆, q₇, q₈, hq.pushed]
    exact h.idle

theorem Settled.quiet {sent queued : List (List UInt8)} {s s' : ReceiveSide}
    (h : Settled sent queued s) (hq : Quiet s s') (hd : s'.destroying = false) :
    Settled sent queued s' := by
  obtain ⟨-, -, -, -, -, q₆, q₇, q₈⟩ := hq.queue hd
  refine ⟨h.toBooks.quiet hq hd, fun he => (h.asking (hq.ends ▸ he)).quiet hq hd, ?_, ?_, ?_⟩
  · rw [hq.ends, hq.pushed, q₈]
    exact h.finished
  · rw [q₇]
    exact h.waits
  · rw [hq.ends, hq.remoteEnded, q₆]
    exact h.ended

theorem Books.queueLength {sent queued : List (List UInt8)} {s : ReceiveSide}
    (h : Books sent queued s) : s.queueLength = queued.length := h.ring.length

/-! ## Draining -/

/-- Draining a chunk: the ring gives its oldest one if the reader waits. -/
theorem Books.drainChunk {sent queued : List (List UInt8)} {s : ReceiveSide}
    (h : Books sent queued s) (ha : Asking s) : ∃ queued', Books sent queued' s.drainChunk ∧
      Asking s.drainChunk ∧ (s.drainChunk.wantRead = true → queued' = []) ∧ s.drainChunk.ends = s.ends ∧
      s.drainChunk.remoteEnded = s.remoteEnded ∧ s.drainChunk.destroying = s.destroying := by
  have hlen := h.queueLength
  unfold ReceiveSide.drainChunk
  split
  · next hw =>
    obtain ⟨hw, hpos⟩ := hw
    cases queued with
    | nil =>
      rw [List.length_nil] at hlen
      omega
    | cons data queued =>
      have hpeek : (s.queue[s.queueHead]?).join = some data := h.ring.peek
      rw [hpeek]
      dsimp only
      have hdel := h.wants hw
      have hout := h.outstanding
      have hcredit := h.credit
      rw [hdel, if_neg (by decide)] at hout
      have hasked := ha.waiting hw
      refine ⟨queued, ⟨h.ring.pop, ?_, ?_, ?_, hcredit, h.pending, fun hf => (by cases hf),
        fun hf => (by cases hf)⟩, ⟨fun _ => ?_, fun hf => (by cases hf), fun hf => (by cases hf)⟩,
        fun hf => (by cases hf), rfl, rfl, rfl⟩
      · rw [List.append_assoc]
        exact h.order
      · have hb := h.bytes
        rw [List.map_cons, List.sum_cons] at hb
        show s.queuedBytes - _ = _
        omega
      · show s.receivedOutstanding = ((s.queueLength - 1 : Nat) : Int) + 1
        omega
      · rw [List.length_append, List.length_singleton]
        exact ⟨hasked, Nat.succ_pos _⟩
  · next hw =>
    refine ⟨queued, h, ha, fun hwant => ?_, rfl, rfl, rfl⟩
    have hzero : ¬0 < s.queueLength := fun hpos => hw ⟨hwant, hpos⟩
    exact List.eq_nil_of_length_eq_zero (by omega)

theorem Books.drain {sent queued : List (List UInt8)} {s : ReceiveSide} (h : Books sent queued s)
    (ha : Asking s) (hd : s.destroying = false) (he : s.ends = 0) :
    (∃ queued', Settled sent queued' s.drain) ∧ s.drain.remoteEnded = s.remoteEnded ∧
      s.drain.destroying = false := by
  obtain ⟨queued', hb, ha', hwait, hends, hrem, hdes⟩ := h.drainChunk ha
  have hlen := hb.queueLength
  unfold ReceiveSide.drain
  rw [if_neg (by simp [hd])]
  unfold drainEnd
  split
  · next hend =>
    obtain ⟨hr, hzero, hdel⟩ := hend
    have hnil : queued' = [] := List.eq_nil_of_length_eq_zero (by omega)
    refine ⟨⟨queued', ⟨⟨hb.ring, hb.order, hb.bytes, hb.outstanding, hb.credit, hb.pending,
      fun hf => (by cases hf), hb.taken⟩, fun hf => ?_, fun _ => ?_, fun hf => (by cases hf), ?_⟩⟩,
      hrem, hdes.trans hd⟩
    · have : s.drainChunk.ends + 1 = 0 := hf
      omega
    · cases hw : s.drainChunk.wantRead with
      | true => exact .inr (ha'.waiting hw)
      | false => exact .inl (ha'.idle hdel hw).1
    · show s.drainChunk.ends + 1 = _
      rw [if_pos ⟨hr, hnil, hdel⟩, hends, he]
  · next hend =>
    refine ⟨⟨queued', ⟨hb, fun _ => ha', fun hf => ?_, hwait, ?_⟩⟩, hrem, hdes.trans hd⟩
    · rw [hends, he] at hf
      cases hf
    rw [if_neg, hends, he]
    rintro ⟨hr, rfl, hdel⟩
    exact hend ⟨hr, hlen, hdel⟩

/-! ## What every event keeps -/

/-- What holds in every state: `sent` is what came before the FIN, `all` what came. -/
structure Faithful (sent all : List (List UInt8)) (s : ReceiveSide) : Prop where
  queue : s.destroying = false → sent = all ∧ ∃ queued, Settled sent queued s
  inOrder : s.pushed <+: sent
  taken : s.taken ≤ s.pushed.length
  once : s.ends ≤ 1
  last : s.ends = 1 → s.remoteEnded = true ∧ s.pushed = sent ∧ s.taken = s.pushed.length

theorem Faithful.destroyed {sent all sent' : List (List UInt8)} {s s' : ReceiveSide}
    (h : Faithful sent all s) (all' : List (List UInt8)) (hq : Still s s')
    (hd : s'.destroying = true) (hgrow : sent <+: sent')
    (hfin : s.remoteEnded = true → sent' = sent) : Faithful sent' all' s' := by
  refine ⟨fun hf => absurd (hd.symm.trans hf) (by decide), hq.pushed ▸ h.inOrder.trans hgrow, ?_,
    hq.ends ▸ h.once, fun he => ?_⟩
  · rw [hq.pushed, hq.taken]
    exact h.taken
  · rw [hq.ends] at he
    obtain ⟨hr, hp, ht⟩ := h.last he
    rw [hq.remoteEnded, hq.pushed, hq.taken, hfin hr]
    exact ⟨hr, hp, ht⟩

theorem Faithful.quiet {sent all : List (List UInt8)} {s s' : ReceiveSide} (h : Faithful sent all s)
    (hq : Quiet s s') : Faithful sent all s' := by
  cases hd : s'.destroying with
  | true => exact h.destroyed all hq.toStill hd (List.prefix_refl _) fun _ => rfl
  | false =>
    obtain ⟨hsent, queued, hset⟩ := h.queue (hq.not_destroying hd)
    refine ⟨fun _ => ⟨hsent, queued, hset.quiet hq hd⟩, hq.pushed ▸ h.inOrder, ?_, hq.ends ▸ h.once, ?_⟩
    · rw [hq.pushed, hq.taken]
      exact h.taken
    · rw [hq.pushed, hq.taken, hq.ends, hq.remoteEnded]
      exact h.last

/-- In a state with its books in order everything holds. -/
theorem Settled.faithful {sent queued : List (List UInt8)} {s : ReceiveSide}
    (h : Settled sent queued s) (ht : s.taken ≤ s.pushed.length) : Faithful sent sent s := by
  refine ⟨fun _ => ⟨rfl, queued, h⟩, ⟨queued, h.order⟩, ht, ?_, fun he => ?_⟩
  · rw [h.ended]
    split <;> omega
  · have hended := h.ended
    rw [he] at hended
    split at hended
    · next hend =>
      obtain ⟨hr, hnil, hdel⟩ := hend
      have horder := h.order
      rw [hnil, List.append_nil] at horder
      exact ⟨hr, horder, h.taken hdel⟩
    · omega

theorem taken_drain_le {s : ReceiveSide} (h : s.taken ≤ s.pushed.length) :
    s.drain.taken ≤ s.drain.pushed.length := by
  have hchunk : s.drainChunk.taken ≤ s.drainChunk.pushed.length := by
    unfold drainChunk
    split
    · split
      · exact h
      · show s.taken ≤ (s.pushed ++ [_]).length
        rw [List.length_append]
        omega
    · exact h
  unfold drain
  split
  · exact h
  · unfold drainEnd
    split
    · exact hchunk
    · exact hchunk

theorem Faithful.drain {sent queued : List (List UInt8)} {s : ReceiveSide}
    (h : Books sent queued s) (ha : Asking s) (hd : s.destroying = false) (he : s.ends = 0)
    (ht : s.taken ≤ s.pushed.length) : Faithful sent sent s.drain := by
  obtain ⟨⟨queued', hset⟩, -, -⟩ := h.drain ha hd he
  exact hset.faithful (taken_drain_le ht)

theorem remoteEnded_drain (s : ReceiveSide) : s.drain.remoteEnded = s.remoteEnded := by
  have hchunk : s.drainChunk.remoteEnded = s.remoteEnded := by
    unfold drainChunk
    split
    · split <;> rfl
    · rfl
  unfold ReceiveSide.drain
  split
  · rfl
  · unfold drainEnd
    split
    · exact hchunk
    · exact hchunk

/-! ## The events -/

/-- A cell of the circuit is counted, or a cell of the stream: the queue is as before. -/
theorem quiet_counted (s : ReceiveSide) (credit : Int) :
    Quiet s (if s.circuit then s else { s with circuitReceiveCredit := credit }) := by
  split
  · exact .refl s
  · exact ⟨⟨rfl, rfl, rfl, rfl, id⟩, fun _ => ⟨rfl, rfl, rfl, rfl, rfl, rfl, rfl, rfl⟩⟩

theorem Books.receive {sent queued : List (List UInt8)} {s : ReceiveSide} (h : Books sent queued s)
    (data : List UInt8) (bytes frames : Nat) (hroom : ¬streamWindow ≤ s.queueLength) :
    Books (sent ++ [data]) (queued ++ [data]) { s with
      receivedBytes := bytes
      receivedFrames := frames
      receivedOutstanding := s.receivedOutstanding + 1
      receiveCredit := s.receiveCredit - 1
      queuedBytes := s.queuedBytes + data.length
      queue := s.queue.set ((s.queueHead + s.queueLength) % streamWindow) (some data)
      queueLength := s.queueLength + 1 } := by
  have hlen := h.queueLength
  have hout := h.outstanding
  have hcredit := h.credit
  refine ⟨h.ring.push data (by omega), ?_, ?_, ?_, ?_, h.pending, h.wants, h.taken⟩
  · rw [← List.append_assoc]
    exact congrArg (· ++ [data]) h.order
  · rw [List.map_append, List.sum_append, List.map_singleton, List.sum_singleton, ← h.bytes]
  · show s.receivedOutstanding + 1 = ((s.queueLength + 1 : Nat) : Int) + if s.delivered then 1 else 0
    omega
  · rw [← hcredit]
    show s.receiveCredit - 1 + s.streamReturnPending + (s.receivedOutstanding + 1) = _
    omega

theorem Faithful.receive {sent all : List (List UInt8)} {s : ReceiveSide} (h : Faithful sent all s)
    (around : Around) (data : List UInt8) :
    Faithful (if s.remoteEnded then sent else sent ++ [data]) (all ++ [data]) (s.receive around data) ∧
      (s.receive around data).remoteEnded = s.remoteEnded := by
  generalize hsent' : (if s.remoteEnded then sent else sent ++ [data]) = sent'
  -- a refusal destroys the stream and pushes nothing
  have hrefused : ∀ {s' : ReceiveSide}, Still s s' → s'.destroying = true →
      Faithful sent' (all ++ [data]) s' ∧ s'.remoteEnded = s.remoteEnded := by
    intro s' hq hd
    refine ⟨h.destroyed _ hq hd ?_ fun hr => hsent' ▸ if_pos hr, hq.remoteEnded⟩
    rw [← hsent']
    split
    · exact List.prefix_refl _
    · exact List.prefix_append _ _
  have hcounted := quiet_counted s (s.circuitReceiveCredit - 1)
  unfold ReceiveSide.receive
  generalize (if s.circuit then s else { s with circuitReceiveCredit := s.circuitReceiveCredit - 1 }) = c
    at hcounted
  dsimp only
  split
  · exact hrefused (hcounted.toStill.trans (still_destroy c)) c.destroying_destroy
  · split
    · exact hrefused ((hcounted.trans (quiet_returnCircuit c around 1 false)).toStill.trans
        (still_destroy _)) (destroying_destroy _)
    · next hopen =>
      obtain ⟨hd, hr⟩ := not_or.mp hopen
      rw [Bool.not_eq_true] at hd hr
      obtain ⟨rfl, queued, hset⟩ := h.queue (hcounted.not_destroying hd)
      have hbooks := hset.toBooks.quiet hcounted hd
      rw [hcounted.remoteEnded] at hr
      rw [if_neg (by simp [hr])] at hsent'
      subst hsent'
      have hends : s.ends = 0 := by
        rw [hset.ended, if_neg (by simp [hr])]
      split
      · refine hrefused (hcounted.toStill.trans (Still.trans ?_ (still_destroy _))) (destroying_destroy _)
        exact ⟨rfl, rfl, rfl, rfl, id⟩
      · next hroom =>
        have hcell := hbooks.receive data (c.receivedBytes + data.length) (c.receivedFrames + 1)
          fun hge => hroom (.inr (.inr (.inr hge)))
        have htaken : c.taken ≤ c.pushed.length := by
          rw [hcounted.taken, hcounted.pushed]
          exact h.taken
        have hasking := (hset.asking hends).quiet hcounted hd
        exact ⟨Faithful.drain hcell ⟨hasking.delivered, hasking.waiting, hasking.idle⟩ hd
            (hcounted.ends.trans hends) htaken,
          (remoteEnded_drain _).trans hcounted.remoteEnded⟩

theorem Faithful.remoteFin {sent all : List (List UInt8)} {s : ReceiveSide}
    (h : Faithful sent all s) : Faithful sent all s.remoteFin ∧ s.remoteFin.remoteEnded = true := by
  unfold ReceiveSide.remoteFin
  split
  · next hr => exact ⟨h, hr⟩
  · next hr =>
    refine ⟨?_, remoteEnded_drain _⟩
    rw [Bool.not_eq_true] at hr
    have hends : s.ends = 0 := by
      by_contra hne
      have hone := h.once
      obtain ⟨hr', -⟩ := h.last (by omega)
      rw [hr] at hr'
      cases hr'
    by_cases hd : s.destroying = true
    · have he : ReceiveSide.drain { s with remoteEnded := true } = { s with remoteEnded := true } :=
        if_pos hd
      rw [he]
      refine ⟨fun hf => absurd (hd.symm.trans hf) (by decide), h.inOrder, h.taken, h.once, fun ho => ?_⟩
      have : s.ends = 1 := ho
      omega
    · rw [Bool.not_eq_true] at hd
      obtain ⟨rfl, queued, hset⟩ := h.queue hd
      have hasking := hset.asking hends
      exact Faithful.drain (s := { s with remoteEnded := true })
        ⟨hset.ring, hset.order, hset.bytes, hset.outstanding, hset.credit, hset.pending, hset.wants,
          hset.toBooks.taken⟩
        ⟨hasking.delivered, hasking.waiting, hasking.idle⟩ hd hends h.taken

theorem Books.returnStream {sent queued : List (List UInt8)} {s : ReceiveSide}
    (h : Books sent queued s) (around : Around) (hd : (s.returnStream around).1.destroying = false) :
    Books sent queued (s.returnStream around).1 ∧
      (s.returnStream around).1.delivered = s.delivered ∧
      (s.returnStream around).1.asked = s.asked := by
  unfold ReceiveSide.returnStream at hd ⊢
  split at hd
  · next hbatch =>
    rw [if_pos hbatch]
    have hcredit := h.credit
    have hquiet := quiet_after { s with
      streamReturnPending := 0
      receiveCredit := s.receiveCredit + s.streamReturnPending } around.streamReturn
    have hbooks : Books sent queued { s with
        streamReturnPending := 0
        receiveCredit := s.receiveCredit + s.streamReturnPending } := by
      refine ⟨h.ring, h.order, h.bytes, h.outstanding, ?_, le_rfl, h.wants, h.taken⟩
      show s.receiveCredit + s.streamReturnPending + 0 + s.receivedOutstanding = (streamWindow : Int)
      omega
    obtain ⟨-, -, -, -, -, q₆, -, q₈⟩ := hquiet.queue hd
    exact ⟨hbooks.quiet hquiet hd, q₆, q₈⟩
  · next hbatch =>
    rw [if_neg hbatch]
    exact ⟨h, rfl, rfl⟩

theorem Books.readBack {sent queued : List (List UInt8)} {s : ReceiveSide}
    (h : Books sent queued s) (hall : s.taken = s.pushed.length) (around : Around)
    (hd : (s.readBack around).1.destroying = false) :
    Books sent queued (s.readBack around).1 ∧ (s.readBack around).1.delivered = false ∧
      (s.readBack around).1.asked = s.asked := by
  unfold ReceiveSide.readBack at hd ⊢
  by_cases hdel : s.delivered = true
  · rw [if_pos hdel] at hd ⊢
    have hout := h.outstanding
    have hcredit := h.credit
    rw [hdel, if_pos rfl] at hout
    have hbooks : Books sent queued { s with
        delivered := false
        receivedOutstanding := s.receivedOutstanding - 1
        streamReturnPending := s.streamReturnPending + 1 } := by
      refine ⟨h.ring, h.order, h.bytes, ?_, ?_, Int.add_nonneg h.pending (by decide), fun _ => rfl,
        fun _ => hall⟩
      · show s.receivedOutstanding - 1 = (s.queueLength : Int) + 0
        omega
      · show s.receiveCredit + (s.streamReturnPending + 1) + (s.receivedOutstanding - 1) =
          (streamWindow : Int)
        omega
    have hret := hbooks.returnStream around
    generalize ReceiveSide.returnStream { s with
        delivered := false
        receivedOutstanding := s.receivedOutstanding - 1
        streamReturnPending := s.streamReturnPending + 1 } around = r at hret hd ⊢
    obtain ⟨c, thrown⟩ := r
    cases thrown with
    | true => exact hret hd
    | false =>
      have hquiet := quiet_returnCircuit c around 1 false
      obtain ⟨hb, hdel', hasked⟩ := hret (hquiet.not_destroying hd)
      obtain ⟨-, -, -, -, -, q₆, -, q₈⟩ := hquiet.queue hd
      exact ⟨hb.quiet hquiet hd, q₆.trans hdel', q₈.trans hasked⟩
  · rw [if_neg hdel] at hd ⊢
    exact ⟨h, by simpa using hdel, rfl⟩

theorem still_returnStream (s : ReceiveSide) (around : Around) :
    Still s (s.returnStream around).1 := by
  have hstill : Still s { s with
      streamReturnPending := 0
      receiveCredit := s.receiveCredit + s.streamReturnPending } := ⟨rfl, rfl, rfl, rfl, id⟩
  unfold returnStream
  split
  · exact hstill.trans (quiet_after _ _).toStill
  · exact .refl s

/-- The first part of `_read` pushes nothing, whether the stream is destroyed or not. -/
theorem still_readBack (s : ReceiveSide) (around : Around) : Still s (s.readBack around).1 := by
  have hstill : Still s { s with
      delivered := false
      receivedOutstanding := s.receivedOutstanding - 1
      streamReturnPending := s.streamReturnPending + 1 } := ⟨rfl, rfl, rfl, rfl, id⟩
  unfold readBack
  split
  · have hret := hstill.trans (still_returnStream _ around)
    generalize returnStream { s with
        delivered := false
        receivedOutstanding := s.receivedOutstanding - 1
        streamReturnPending := s.streamReturnPending + 1 } around = r at hret
    obtain ⟨c, thrown⟩ := r
    cases thrown with
    | true => exact hret
    | false => exact hret.trans (quiet_returnCircuit c around 1 false).toStill
  · exact .refl s

theorem Faithful.pull {sent all : List (List UInt8)} {s : ReceiveSide} (h : Faithful sent all s)
    (around : Around) : Faithful sent all (s.pull around) ∧
      (s.pull around).remoteEnded = s.remoteEnded := by
  unfold ReceiveSide.pull
  split
  · next hp =>
    obtain ⟨hall, hends⟩ := hp
    let a : ReceiveSide := { s with asked := s.pushed.length + 1 }
    have hask : Still s a := ⟨rfl, rfl, rfl, rfl, id⟩
    have hstill := hask.trans (still_readBack a around)
    have hbooks : (a.readBack around).1.destroying = false → sent = all ∧ ∃ queued,
        Books sent queued (a.readBack around).1 ∧ (a.readBack around).1.delivered = false ∧
          (a.readBack around).1.asked = s.pushed.length + 1 := by
      intro hd
      obtain ⟨hsent, queued, hset⟩ := h.queue (hstill.not_destroying hd)
      have ha : Books sent queued a := ⟨hset.ring, hset.order, hset.bytes, hset.outstanding,
        hset.credit, hset.pending, hset.wants, hset.toBooks.taken⟩
      exact ⟨hsent, queued, ha.readBack hall around hd⟩
    show Faithful sent all (a.read around) ∧ (a.read around).remoteEnded = s.remoteEnded
    unfold ReceiveSide.read
    generalize a.readBack around = r at hstill hbooks
    obtain ⟨c, thrown⟩ := r
    cases thrown with
    | true =>
      have hstill' := hstill.trans (still_destroy c)
      exact ⟨h.destroyed all hstill' c.destroying_destroy (List.prefix_refl _) fun _ => rfl,
        hstill'.remoteEnded⟩
    | false =>
      refine ⟨?_, (remoteEnded_drain _).trans hstill.remoteEnded⟩
      dsimp only at hstill hbooks ⊢
      by_cases hd : c.destroying = true
      · have he : ReceiveSide.drain { c with wantRead := true } = { c with wantRead := true } := if_pos hd
        rw [he]
        have hwant : Still c { c with wantRead := true } := ⟨rfl, rfl, rfl, rfl, id⟩
        exact h.destroyed all (hstill.trans hwant) hd (List.prefix_refl _) fun _ => rfl
      · rw [Bool.not_eq_true] at hd
        obtain ⟨rfl, queued, hb, hdel, hasked⟩ := hbooks hd
        have hasking : Asking { c with wantRead := true } := by
          refine ⟨fun hf => absurd (hdel.symm.trans hf) (by decide), fun _ => ?_,
            fun _ hf => (by cases hf)⟩
          show c.asked = c.pushed.length + 1
          rw [hasked, hstill.pushed]
        refine Faithful.drain (s := { c with wantRead := true })
          ⟨hb.ring, hb.order, hb.bytes, hb.outstanding, hb.credit, hb.pending, fun _ => hdel, hb.taken⟩
          hasking hd (hstill.ends.trans hends) ?_
        show c.taken ≤ c.pushed.length
        rw [hstill.taken, hstill.pushed]
        exact h.taken
  · exact ⟨h, rfl⟩

theorem Faithful.take {sent all : List (List UInt8)} {s : ReceiveSide} (h : Faithful sent all s) :
    Faithful sent all s.take ∧ s.take.remoteEnded = s.remoteEnded := by
  unfold ReceiveSide.take
  split
  · next hlt =>
    refine ⟨⟨fun hd => ?_, h.inOrder, hlt, h.once, fun he => ?_⟩, rfl⟩
    · obtain ⟨hsent, queued, hset⟩ := h.queue hd
      have hdel : s.delivered = true := by
        cases hs : s.delivered with
        | true => rfl
        | false =>
          have := hset.toBooks.taken hs
          omega
      exact ⟨hsent, queued, ⟨hset.ring, hset.order, hset.bytes, hset.outstanding, hset.credit,
        hset.pending, hset.wants, fun hf => absurd (hdel.symm.trans hf) (by decide)⟩,
        fun hz => ⟨(hset.asking hz).delivered, (hset.asking hz).waiting, (hset.asking hz).idle⟩,
        hset.finished, hset.waits, hset.ended⟩
    · obtain ⟨-, -, ht⟩ := h.last he
      omega
  · exact ⟨h, rfl⟩

/-- The chunks before the FIN after an event. -/
def sentAfter (s : ReceiveSide) (sent : List (List UInt8)) : ReceiveEvent → List (List UInt8)
  | .receive data _ => if s.remoteEnded then sent else sent ++ [data]
  | _ => sent

/-- An event that pushes nothing and neither receives nor ends. -/
theorem Faithful.other {sent all : List (List UInt8)} {s s' : ReceiveSide} (h : Faithful sent all s)
    (hq : Quiet s s') : Faithful sent (all ++ []) s' ∧ s'.remoteEnded = s.remoteEnded :=
  ⟨(List.append_nil all).symm ▸ h.quiet hq, hq.remoteEnded⟩

theorem quiet_remoteReset (s : ReceiveSide) : Quiet s s.remoteReset := by
  unfold remoteReset
  split
  · exact .refl s
  · have hset : Quiet s { s with remoteResetReceived := true } :=
      ⟨⟨rfl, rfl, rfl, rfl, id⟩, fun _ => ⟨rfl, rfl, rfl, rfl, rfl, rfl, rfl, rfl⟩⟩
    exact hset.trans (quiet_destroy _)

theorem quiet_tear (s : ReceiveSide) (around : Around) : Quiet s (s.tear around) := by
  unfold tear
  split
  · next hd =>
    have hcleared : Quiet s { s with
        queue := []
        queueLength := 0
        queuedBytes := 0
        receivedOutstanding := 0 } :=
      ⟨⟨rfl, rfl, rfl, rfl, id⟩, fun hf => absurd (hd.symm.trans hf) (by decide)⟩
    exact hcleared.trans (quiet_returnCircuit _ _ _ _)
  · exact .refl s

theorem quiet_returnFired (s : ReceiveSide) (around : Around) : Quiet s (s.returnFired around) := by
  unfold returnFired
  split
  · have hset : Quiet s { s with returnTimer := false } :=
      ⟨⟨rfl, rfl, rfl, rfl, id⟩, fun _ => ⟨rfl, rfl, rfl, rfl, rfl, rfl, rfl, rfl⟩⟩
    exact hset.trans (quiet_returnCircuit _ _ _ _)
  · exact .refl s

theorem Faithful.step {sent all : List (List UInt8)} {s : ReceiveSide} (h : Faithful sent all s)
    (e : ReceiveEvent) :
    Faithful (s.sentAfter sent e) (all ++ received [e]) (s.step e) ∧
      ((s.step e).remoteEnded = true ↔ s.remoteEnded = true ∨ e = .remoteFin) := by
  have hkeep : ∀ {s' : ReceiveSide}, e ≠ .remoteFin → s'.remoteEnded = s.remoteEnded →
      (s'.remoteEnded = true ↔ s.remoteEnded = true ∨ e = .remoteFin) := by
    intro s' hne hr
    rw [hr]
    exact ⟨.inl, fun ho => ho.resolve_right hne⟩
  cases e with
  | receive data around =>
    obtain ⟨hf, hr⟩ := h.receive around data
    exact ⟨hf, hkeep (by simp) hr⟩
  | remoteFin =>
    obtain ⟨hf, hr⟩ := h.remoteFin
    exact ⟨(List.append_nil all).symm ▸ hf, iff_of_true hr (.inr rfl)⟩
  | remoteReset =>
    obtain ⟨hf, hr⟩ := h.other (quiet_remoteReset s)
    exact ⟨hf, hkeep (by simp) hr⟩
  | pull around =>
    obtain ⟨hf, hr⟩ := h.pull around
    exact ⟨(List.append_nil all).symm ▸ hf, hkeep (by simp) hr⟩
  | take =>
    obtain ⟨hf, hr⟩ := h.take
    exact ⟨(List.append_nil all).symm ▸ hf, hkeep (by simp) hr⟩
  | destroy =>
    obtain ⟨hf, hr⟩ := h.other (quiet_destroy s)
    exact ⟨hf, hkeep (by simp) hr⟩
  | tear around =>
    obtain ⟨hf, hr⟩ := h.other (quiet_tear s around)
    exact ⟨hf, hkeep (by simp) hr⟩
  | returnFired around =>
    obtain ⟨hf, hr⟩ := h.other (quiet_returnFired s around)
    exact ⟨hf, hkeep (by simp) hr⟩

/-! ## The credit of the circuit -/

/-- A stream without a circuit has no more circuit credit out than the window. -/
def Backed (s : ReceiveSide) : Prop :=
  s.destroying = false → s.circuit = false →
    s.circuitReceiveCredit + s.circuitReturnPending + s.receivedOutstanding ≤ circuitWindow

theorem backed_of_destroying {s : ReceiveSide} (h : s.destroying = true) : s.Backed :=
  fun hd => absurd (h.symm.trans hd) (by decide)

theorem backed_destroy (s : ReceiveSide) : s.destroy.Backed :=
  backed_of_destroying s.destroying_destroy

theorem Backed.after {s : ReceiveSide} (h : s.Backed) (outcome : CallOutcome) :
    (s.after outcome).1.Backed := by
  cases outcome with
  | returns => exact h
  | destroys => exact backed_destroy s
  | throws => exact h

theorem Backed.drain {s : ReceiveSide} (h : s.Backed) : s.drain.Backed := by
  have hchunk : s.drainChunk.Backed := by
    unfold drainChunk
    split
    · split <;> exact h
    · exact h
  unfold ReceiveSide.drain
  split
  · exact h
  · unfold drainEnd
    split <;> exact hchunk

/-- Credit that is returned was counted before, so the window is not exceeded. -/
theorem backed_returnCircuit {s : ReceiveSide} {amount : Int}
    (h : { s with circuitReturnPending := s.circuitReturnPending + amount }.Backed)
    (hs : s.Backed) (around : Around) (flush : Bool) :
    (s.returnCircuit around amount flush).1.Backed := by
  unfold returnCircuit
  split
  · exact hs.after _
  · split
    · exact hs
    · dsimp only
      split
      · exact h
      · split
        · exact h
        · have hmoved : Backed { s with
              circuitReturnPending := 0
              returnTimer := false
              circuitReceiveCredit :=
                s.circuitReceiveCredit + (s.circuitReturnPending + amount) } := by
            intro hd hc
            have := h hd hc
            dsimp only at this ⊢
            omega
          split
          · exact hmoved
          · exact hmoved.after _

theorem readBack_of_delivered {s : ReceiveSide} (h : s.delivered = true) (around : Around) :
    let r := returnStream { s with
      delivered := false
      receivedOutstanding := s.receivedOutstanding - 1
      streamReturnPending := s.streamReturnPending + 1 } around
    s.readBack around = if r.2 = true then (r.1, true) else r.1.returnCircuit around 1 false := by
  intro r
  rw [ReceiveSide.readBack, if_pos h]
  split
  · next c hc => rw [show r = (c, true) from hc, if_pos rfl]
  · next c hc =>
    rw [show r = (c, false) from hc]
    rfl

theorem Backed.readBack {s : ReceiveSide} (h : s.Backed) (around : Around) :
    (s.readBack around).1.Backed := by
  by_cases hdel : s.delivered = true
  · let t : ReceiveSide := { s with
      delivered := false
      receivedOutstanding := s.receivedOutstanding - 1
      streamReturnPending := s.streamReturnPending + 1 }
    have hpaid : ∀ c : ReceiveSide, c = (t.returnStream around).1 →
        Backed { c with circuitReturnPending := c.circuitReturnPending + 1 } ∧ c.Backed := by
      have htaken : Backed { t with circuitReturnPending := t.circuitReturnPending + 1 } := by
        intro hd hc
        have := h hd hc
        show s.circuitReceiveCredit + (s.circuitReturnPending + 1) + (s.receivedOutstanding - 1) ≤ _
        omega
      have hless : t.Backed := by
        intro hd hc
        have := h hd hc
        show s.circuitReceiveCredit + s.circuitReturnPending + (s.receivedOutstanding - 1) ≤ _
        omega
      rintro c rfl
      unfold returnStream
      split
      · cases around.streamReturn with
        | returns => exact ⟨htaken, hless⟩
        | destroys =>
          exact ⟨backed_of_destroying (destroying_destroy _), backed_destroy _⟩
        | throws => exact ⟨htaken, hless⟩
      · exact ⟨htaken, hless⟩
    obtain ⟨hone, hc⟩ := hpaid _ rfl
    rw [readBack_of_delivered hdel]
    split
    · exact hc
    · exact backed_returnCircuit hone hc around false
  · rw [ReceiveSide.readBack, if_neg hdel]
    exact h

theorem Backed.read {s : ReceiveSide} (h : s.Backed) (around : Around) : (s.read around).Backed := by
  have hback := h.readBack around
  unfold ReceiveSide.read
  split
  · exact backed_destroy _
  · next c hc =>
    rw [hc] at hback
    have hwant : Backed { c with wantRead := true } := hback
    exact hwant.drain

theorem Backed.receive {s : ReceiveSide} (h : s.Backed) (around : Around) (data : List UInt8) :
    (s.receive around data).Backed := by
  have hcounted : ∀ c : ReceiveSide,
      c = (if s.circuit then s else { s with circuitReceiveCredit := s.circuitReceiveCredit - 1 }) →
      c.destroying = false → c.circuit = false →
      c.circuitReceiveCredit + c.circuitReturnPending + (c.receivedOutstanding + 1) ≤
        circuitWindow := by
    rintro c rfl
    split
    · next hc => exact fun _ hf => absurd (hc.symm.trans hf) (by decide)
    · intro hd hc
      have := h hd hc
      dsimp only
      omega
  unfold ReceiveSide.receive
  generalize (if s.circuit then s else { s with circuitReceiveCredit := s.circuitReceiveCredit - 1 }) = c
    at hcounted
  dsimp only
  split
  · exact backed_destroy _
  · split
    · exact backed_destroy _
    · split
      · exact backed_destroy _
      · exact Backed.drain fun hd hc => hcounted c rfl hd hc

theorem Backed.step {s : ReceiveSide} (h : s.Backed) (e : ReceiveEvent) : (s.step e).Backed := by
  cases e with
  | receive data around => exact h.receive around data
  | remoteFin =>
    show s.remoteFin.Backed
    unfold ReceiveSide.remoteFin
    split
    · exact h
    · exact Backed.drain (s := { s with remoteEnded := true }) h
  | remoteReset =>
    show s.remoteReset.Backed
    unfold ReceiveSide.remoteReset
    split
    · exact h
    · exact backed_destroy _
  | pull around =>
    show (s.pull around).Backed
    unfold ReceiveSide.pull
    split
    · exact Backed.read (s := { s with asked := s.pushed.length + 1 }) h around
    · exact h
  | take =>
    show s.take.Backed
    unfold ReceiveSide.take
    split <;> exact h
  | destroy => exact backed_destroy s
  | tear around =>
    by_cases hd : s.destroying = true
    · exact backed_of_destroying ((quiet_tear s around).destroying hd)
    · show (s.tear around).Backed
      rw [ReceiveSide.tear, if_neg hd]
      exact h
  | returnFired around =>
    show (s.returnFired around).Backed
    unfold ReceiveSide.returnFired
    split
    · have hstill : Backed { s with returnTimer := false } := h
      refine backed_returnCircuit (fun hd hc => ?_) hstill around true
      have := h hd hc
      show s.circuitReceiveCredit + (s.circuitReturnPending + 0) + s.receivedOutstanding ≤ _
      omega
    · exact h

theorem backed_run (circuit : Bool) (events : List ReceiveEvent) :
    ((new circuit).run events).Backed := by
  induction events using List.reverseRecOn with
  | nil => exact fun _ _ => le_rfl
  | append_singleton events e ih =>
    rw [run, List.foldl_append]
    exact ih.step e

/-! ## Events that leave the stream open -/

theorem destroying_drain (s : ReceiveSide) : s.drain.destroying = s.destroying := by
  have hchunk : s.drainChunk.destroying = s.destroying := by
    unfold drainChunk
    split
    · split <;> rfl
    · rfl
  unfold ReceiveSide.drain
  split
  · rfl
  · unfold drainEnd
    split <;> exact hchunk

theorem returnStream_returns (s : ReceiveSide) {around : Around} (h : around.streamReturn = .returns) :
    (s.returnStream around).2 = false ∧ (s.returnStream around).1.destroying = s.destroying := by
  unfold returnStream
  rw [h]
  split <;> exact ⟨rfl, rfl⟩

theorem returnCircuit_returns {s : ReceiveSide} {around : Around} {amount : Int} {flush : Bool}
    (hroom : s.circuit = false →
      s.circuitReceiveCredit + (s.circuitReturnPending + amount) ≤ circuitWindow)
    (h : around.circuitReturn = .returns) :
    (s.returnCircuit around amount flush).2 = false ∧
      (s.returnCircuit around amount flush).1.destroying = s.destroying := by
  unfold returnCircuit
  rw [h]
  split
  · exact ⟨rfl, rfl⟩
  · next hc =>
    split
    · exact ⟨rfl, rfl⟩
    · dsimp only
      split
      · exact ⟨rfl, rfl⟩
      · split
        · exact ⟨rfl, rfl⟩
        · rw [if_neg (not_lt.mpr (hroom (by simpa using hc)))]
          exact ⟨rfl, rfl⟩

theorem asked_drain (s : ReceiveSide) : s.drain.asked = s.asked := by
  have hchunk : s.drainChunk.asked = s.asked := by
    unfold drainChunk
    split
    · split <;> rfl
    · rfl
  unfold ReceiveSide.drain
  split
  · rfl
  · unfold drainEnd
    split <;> exact hchunk

theorem Books.asked_read {sent queued : List (List UInt8)} {s : ReceiveSide}
    (h : Books sent queued s) (hall : s.taken = s.pushed.length) {around : Around}
    (hd : (s.read around).destroying = false) : (s.read around).asked = s.asked := by
  have hback := h.readBack hall around
  unfold ReceiveSide.read at hd ⊢
  generalize s.readBack around = r at hback hd ⊢
  obtain ⟨c, thrown⟩ := r
  cases thrown with
  | true => exact absurd (c.destroying_destroy.symm.trans hd) (by decide)
  | false =>
    have hopen : c.destroying = false := (destroying_drain { c with wantRead := true }).symm.trans hd
    exact (asked_drain { c with wantRead := true }).trans (hback hopen).2.2

theorem destroying_read {s : ReceiveSide} {sent queued : List (List UInt8)} (h : Books sent queued s)
    (hb : s.Backed) (hd : s.destroying = false) {around : Around}
    (hstream : around.streamReturn = .returns) (hcircuit : around.circuitReturn = .returns) :
    (s.read around).destroying = false := by
  have hback : (s.readBack around).2 = false ∧ (s.readBack around).1.destroying = false := by
    by_cases hdel : s.delivered = true
    · let t : ReceiveSide := { s with
        delivered := false
        receivedOutstanding := s.receivedOutstanding - 1
        streamReturnPending := s.streamReturnPending + 1 }
      obtain ⟨hthrew, hopen⟩ := returnStream_returns t hstream
      have hsame : (t.returnStream around).1.circuit = s.circuit ∧
          (t.returnStream around).1.circuitReceiveCredit = s.circuitReceiveCredit ∧
          (t.returnStream around).1.circuitReturnPending = s.circuitReturnPending := by
        unfold returnStream
        rw [hstream]
        split <;> exact ⟨rfl, rfl, rfl⟩
      have hroom : (t.returnStream around).1.circuit = false →
          (t.returnStream around).1.circuitReceiveCredit +
            ((t.returnStream around).1.circuitReturnPending + 1) ≤ circuitWindow := by
        intro hc
        have hwindow := hb hd (hsame.1.symm.trans hc)
        have hout := h.outstanding
        rw [hdel, if_pos rfl] at hout
        rw [hsame.2.1, hsame.2.2]
        omega
      obtain ⟨hthrew', hopen'⟩ := returnCircuit_returns hroom hcircuit
      rw [readBack_of_delivered hdel, if_neg (by rw [hthrew]; decide)]
      exact ⟨hthrew', hopen'.trans (hopen.trans hd)⟩
    · rw [ReceiveSide.readBack, if_neg hdel]
      exact ⟨rfl, hd⟩
  unfold ReceiveSide.read
  generalize s.readBack around = r at hback
  obtain ⟨c, thrown⟩ := r
  obtain ⟨rfl, hopen⟩ := hback
  exact (destroying_drain { c with wantRead := true }).trans hopen

/-! ## Runs -/

theorem beforeFin_append {events : List ReceiveEvent} (e : ReceiveEvent) :
    beforeFin (events ++ [e]) =
      if .remoteFin ∈ events then beforeFin events else beforeFin events ++ received [e] := by
  induction events with
  | nil => cases e <;> rfl
  | cons e' events ih =>
    cases e' with
    | remoteFin => simp [beforeFin]
    | receive data around =>
      simp only [List.cons_append, beforeFin, ih, List.mem_cons, reduceCtorEq, false_or]
      split <;> rfl
    | remoteReset | pull _ | take | destroy | tear _ | returnFired _ =>
      simp only [List.cons_append, beforeFin, ih, List.mem_cons, reduceCtorEq, false_or]

theorem faithful_run (circuit : Bool) (events : List ReceiveEvent) :
    Faithful (beforeFin events) (received events) ((new circuit).run events) ∧
      (((new circuit).run events).remoteEnded = true ↔ .remoteFin ∈ events) := by
  induction events using List.reverseRecOn with
  | nil =>
    have hasking : Asking (new circuit) :=
      ⟨fun hf => (by cases hf), fun hf => (by cases hf), fun _ _ => ⟨rfl, rfl⟩⟩
    refine ⟨Settled.faithful ⟨⟨?_, rfl, rfl, rfl, rfl, le_rfl, fun hf => (by cases hf),
      fun _ => rfl⟩, fun _ => hasking, fun hf => (by cases hf), fun _ => rfl, rfl⟩ (Nat.le_refl 0),
      iff_of_false Bool.false_ne_true List.not_mem_nil⟩
    exact RingBuffer.holds_empty (by decide)
  | append_singleton events e ih =>
    obtain ⟨hf, hr⟩ := ih
    obtain ⟨hf', hr'⟩ := hf.step e
    have hrun : (new circuit).run (events ++ [e]) = ((new circuit).run events).step e := by
      rw [run, List.foldl_append]
      rfl
    have hsent : ((new circuit).run events).sentAfter (beforeFin events) e = beforeFin (events ++ [e]) := by
      rw [beforeFin_append]
      by_cases hm : .remoteFin ∈ events
      · have hended := hr.mpr hm
        rw [if_pos hm]
        cases e <;> simp [sentAfter, hended]
      · have hopen : ((new circuit).run events).remoteEnded = false := by
          simpa using fun hended => hm (hr.mp hended)
        rw [if_neg hm]
        cases e <;> simp [sentAfter, hopen, received]
    have hall : received events ++ received [e] = received (events ++ [e]) :=
      (List.filterMap_append ..).symm
    rw [hrun, ← hsent, ← hall, hr', hr, List.mem_append, List.mem_singleton]
    exact ⟨hf', or_congr_right eq_comm⟩

theorem destroying_receive {s : ReceiveSide} {sent queued : List (List UInt8)}
    (h : Books sent queued s) (hd : s.destroying = false) (hr : s.remoteEnded = false)
    (around : Around) {data : List UInt8} (hcredit : 0 < s.receiveCredit)
    (hcircuit : s.circuit = false → 0 < s.circuitReceiveCredit)
    (hbytes : s.receivedBytes + data.length ≤ maxStreamBytes)
    (hframes : s.receivedFrames < maxStreamDataFrames) :
    (s.receive around data).destroying = false := by
  have hroom : s.queueLength < streamWindow := by
    have hout := h.outstanding
    have := h.credit
    have := h.pending
    split at hout <;> omega
  unfold ReceiveSide.receive
  by_cases hc : s.circuit = true
  · simp only [if_pos hc]
    rw [if_neg (by simp [hc]), if_neg (by simp [hd, hr]), if_neg (by omega)]
    exact (destroying_drain _).trans hd
  · have hpos := hcircuit (by simpa using hc)
    simp only [if_neg hc]
    rw [if_neg (by omega), if_neg (by simp [hd, hr]), if_neg (by omega)]
    exact (destroying_drain _).trans hd

/-- What the reader of an open stream was given after `events`, and how the stream keeps the
rest. -/
structure Queueing (events : List ReceiveEvent) (s : ReceiveSide) : Prop where
  sent : received events = beforeFin events
  pushed : s.pushed = (received events).take s.asked
  ended : s.ends = 1 ↔
    .remoteFin ∈ events ∧ (received events = [] ∨ (received events).length < s.asked)
  length : s.queueLength = ((received events).drop s.pushed.length).length
  fits : s.queueLength ≤ streamWindow
  slots : ∀ k < s.queueLength, s.queue[(s.queueHead + k) % streamWindow]? =
    some (received events)[s.pushed.length + k]?
  used : ∀ i : Nat, (∃ data, s.queue[i]? = some (some data)) ↔
    ∃ k < s.queueLength, i = (s.queueHead + k) % streamWindow
  bytes : s.queuedBytes =
    (((received events).drop s.pushed.length).map fun data => (data.length : Int)).sum
  credit : s.receiveCredit + s.streamReturnPending + s.receivedOutstanding = streamWindow
  outstanding : s.receivedOutstanding = s.queueLength + (if s.delivered then 1 else 0)
  atEnd : s.ends = 1 ↔ s.remoteEnded = true ∧ s.queueLength = 0 ∧ s.delivered = false
  /-- A pull pushes the next chunk or the end, if it is there, and destroys nothing. -/
  pull : s.taken = s.pushed.length → s.ends = 0 → ∀ around : Around,
    around.streamReturn = .returns → around.circuitReturn = .returns →
    (s.pull around).destroying = false ∧
      (s.pull around).pushed = (received events).take (s.pushed.length + 1) ∧
      ((s.pull around).ends = 1 ↔
        .remoteFin ∈ events ∧ (received events).length = s.pushed.length)
  /-- A chunk within the credit and the limits of a stream destroys nothing. -/
  receives : s.remoteEnded = false → 0 < s.receiveCredit →
    (s.circuit = false → 0 < s.circuitReceiveCredit) → s.receivedFrames < maxStreamDataFrames →
    ∀ (around : Around) (data : List UInt8), s.receivedBytes + data.length ≤ maxStreamBytes →
      (s.receive around data).destroying = false

/-- What was asked for was pushed as far as it came, and the end after it. -/
theorem Settled.asked {sent queued : List (List UInt8)} {s : ReceiveSide}
    (h : Settled sent queued s) : s.pushed = sent.take s.asked ∧
      (s.ends = 1 ↔ s.remoteEnded = true ∧ (sent = [] ∨ sent.length < s.asked)) := by
  have horder := h.order
  have hends := h.ended
  split at hends
  · next hend =>
    obtain ⟨hr, rfl, hdel⟩ := hend
    rw [List.append_nil] at horder
    rw [← horder]
    rcases h.finished hends with hnil | hasked
    · rw [hnil]
      exact ⟨List.take_nil.symm, iff_of_true hends ⟨hr, .inl rfl⟩⟩
    · rw [List.take_of_length_le (by omega)]
      exact ⟨rfl, iff_of_true hends ⟨hr, .inr (by omega)⟩⟩
  · next hend =>
    have hasking := h.asking hends
    have hlen : sent.length = s.pushed.length + queued.length := by
      rw [← horder, List.length_append]
    cases hdel : s.delivered with
    | true =>
      obtain ⟨hasked, hpos⟩ := hasking.delivered hdel
      refine ⟨by rw [← horder, hasked, List.take_left], iff_of_false (by omega) ?_⟩
      rintro ⟨-, rfl | hlt⟩
      · rw [List.length_nil] at hlen
        omega
      · omega
    | false =>
      cases hw : s.wantRead with
      | true =>
        have hasked := hasking.waiting hw
        obtain rfl := h.waits hw
        rw [List.append_nil] at horder
        rw [← horder, List.take_of_length_le (by omega)]
        exact ⟨rfl, iff_of_false (by omega) fun ⟨hr, _⟩ => hend ⟨hr, rfl, hdel⟩⟩
      | false =>
        obtain ⟨hnil, hasked⟩ := hasking.idle hdel hw
        rw [hnil, hasked]
        refine ⟨List.take_zero.symm, iff_of_false (by omega) ?_⟩
        rintro ⟨hr, rfl | hlt⟩
        · exact hend ⟨hr, (List.append_eq_nil_iff.mp horder).2, hdel⟩
        · omega

theorem received_pull (events : List ReceiveEvent) (around : Around) :
    received (events ++ [.pull around]) = received events := by
  rw [received, List.filterMap_append]
  exact List.append_nil _

/-- The receive side is a faithful bounded queue. In every state of every run: the chunks
pushed are what came before the FIN, in order, up to some point; the end is pushed at most
once, after all of them were pushed and taken. Until the stream is destroyed the reader has
got as many chunks as it asked for and as came, and the ring holds the rest (`Queueing`). -/
theorem receive_fifo (circuit : Bool) (events : List ReceiveEvent) :
    let s := (new circuit).run events
    s.pushed <+: beforeFin events ∧ s.ends ≤ 1 ∧
    (s.ends = 1 → s.pushed = beforeFin events ∧ s.taken = s.pushed.length) ∧
    (s.destroying = false → Queueing events s) := by
  intro s
  obtain ⟨h, hfin⟩ : Faithful (beforeFin events) (received events) s ∧
    (s.remoteEnded = true ↔ .remoteFin ∈ events) := faithful_run circuit events
  refine ⟨h.inOrder, h.once, fun he => (h.last he).2, fun hd => ?_⟩
  obtain ⟨hsent, queued, hset⟩ := h.queue hd
  rw [hsent] at hset
  obtain ⟨hpushed, hended⟩ := hset.asked
  have hlen := hset.toBooks.queueLength
  have horder : s.pushed ++ queued = received events := hset.order
  have hqueued : (received events).drop s.pushed.length = queued := by
    rw [← horder, List.drop_left]
  refine ⟨hsent.symm, hpushed, hended.trans (and_congr_left' hfin), hqueued ▸ hlen, hlen ▸ hset.ring.fits,
    fun k hk => ?_, fun i => hset.ring.used_iff, hqueued ▸ hset.bytes, hset.credit,
    hset.outstanding, ?_, fun htaken hends around hstream hcircuit => ?_,
    fun hr hcredit hroom hframes around data hbytes =>
      destroying_receive hset.toBooks hd hr around hcredit hroom hbytes hframes⟩
  · have hslot : s.queue[(s.queueHead + k) % streamWindow]? = some queued[k]? :=
      hset.ring.slot_of_place (hlen ▸ hk)
    rw [hslot, ← horder, List.getElem?_append_right (by omega), Nat.add_sub_cancel_left]
  · rw [hset.ended, hlen, List.length_eq_zero_iff]
    split
    · next hend => exact iff_of_true rfl hend
    · next hend => exact iff_of_false (by decide) hend
  · let a : ReceiveSide := { s with asked := s.pushed.length + 1 }
    have ha : Books (received events) queued a := ⟨hset.ring, hset.order, hset.bytes,
      hset.outstanding, hset.credit, hset.pending, hset.wants, hset.toBooks.taken⟩
    have hpull : s.pull around = a.read around := if_pos ⟨htaken, hends⟩
    have hopen : (s.pull around).destroying = false :=
      hpull ▸ destroying_read ha (backed_run circuit events) hd hstream hcircuit
    have hasked : (s.pull around).asked = s.pushed.length + 1 := by
      rw [hpull] at hopen ⊢
      exact ha.asked_read htaken hopen
    have hrun : (new circuit).run (events ++ [.pull around]) = s.pull around := by
      rw [run, List.foldl_append]
      rfl
    obtain ⟨h', hfin'⟩ := faithful_run circuit (events ++ [.pull around])
    rw [hrun] at h' hfin'
    obtain ⟨hsent', queued', hset'⟩ := h'.queue hopen
    rw [hsent', received_pull] at hset'
    obtain ⟨hpushed', hended'⟩ := hset'.asked
    rw [hasked] at hpushed' hended'
    refine ⟨hopen, hpushed', hended'.trans ?_⟩
    have hfin'' : (s.pull around).remoteEnded = true ↔ .remoteFin ∈ events := by
      rw [hfin', List.mem_append, List.mem_singleton]
      exact or_iff_left (by simp)
    have hle : s.pushed.length ≤ (received events).length := by
      rw [← horder, List.length_append]
      omega
    rw [hfin'', ← List.length_eq_zero_iff]
    exact and_congr_right' (by omega)

-- Two chunks and the FIN come before the reader takes the first chunk.
example :
    let around : Around := ⟨false, .returns, .returns⟩
    let s := (new true).run [.pull around, .receive [1] around, .receive [2, 3] around, .remoteFin,
      .take, .pull around, .take, .pull around]
    s.pushed = [[1], [2, 3]] ∧ s.ends = 1 ∧ s.receiveCredit = 510 ∧ s.queueLength = 0 := by
  decide +kernel

end ReceiveSide

end HyperDht.Private
