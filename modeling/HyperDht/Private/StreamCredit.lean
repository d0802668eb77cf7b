import HyperDht.Private.RouteStream
import Mathlib.Tactic.Common

/-!
# Windows of a route stream

`RouteStream.Sane` is what holds of a stream between the calls of its methods:
what it has received and not given back stays within its window. Most methods
leave its windows and its circuit credit alone (`Held`); a chunk that comes in
counts against them whether it is taken or not.
-/

namespace HyperDht.Private

namespace RouteStream

/-- A stream between the calls of its methods. -/
structure Sane (s : RouteStream) : Prop where
  torn : s.torn = true → s.destroying = true ∧ s.receivedOutstanding = 0
  queue : s.destroying = false →
    s.receivedOutstanding = s.queue.length + if s.delivered then 1 else 0
  reading : s.wantRead = true → s.delivered = false
  window : s.receiveCredit + s.streamReturnPending + s.receivedOutstanding ≤ streamWindow

theorem sane_new : (new : RouteStream).Sane :=
  ⟨fun h => (Bool.noConfusion h), fun _ => rfl, fun h => (Bool.noConfusion h), by
    simp [new]⟩

theorem Sane.torn_eq_false {s : RouteStream} (h : s.Sane) (hd : s.destroying = false) :
    s.torn = false := by
  cases ht : s.torn with
  | false => rfl
  | true => exact absurd ((h.torn ht).1.symm.trans hd) (by decide)

/-- `s'` differs from `s` only in its circuit credit, its writer and its idle timer. -/
def Alike (s s' : RouteStream) : Prop :=
  s' = { s with
    circuitCredit := s'.circuitCredit
    circuitRequested := s'.circuitRequested
    writer := s'.writer
    idleTimer := s'.idleTimer }

theorem Alike.refl (s : RouteStream) : Alike s s := rfl

theorem Alike.trans {s s' s'' : RouteStream} (h : Alike s s') (h' : Alike s' s'') :
    Alike s s'' := by
  unfold Alike at h h' ⊢
  rw [h', h]

section

variable {s s' : RouteStream} (h : Alike s s')
include h

theorem Alike.sendCredit : s'.sendCredit = s.sendCredit := by rw [h]
theorem Alike.receiveCredit : s'.receiveCredit = s.receiveCredit := by rw [h]
theorem Alike.receivedOutstanding : s'.receivedOutstanding = s.receivedOutstanding := by rw [h]
theorem Alike.destroying : s'.destroying = s.destroying := by rw [h]
theorem Alike.torn : s'.torn = s.torn := by rw [h]
theorem Alike.localEnded : s'.localEnded = s.localEnded := by rw [h]

theorem Alike.sane (hs : s.Sane) : s'.Sane := by
  rw [h]
  exact ⟨hs.torn, hs.queue, hs.reading, hs.window⟩

end

theorem alike_wakeWriter (s : RouteStream) : Alike s s.wakeWriter := by
  unfold wakeWriter
  split
  · split <;> rfl
  · rfl

theorem alike_scheduleIdle (s : RouteStream) (b : Bool) (now : Int) :
    Alike s (s.scheduleIdle b now) := by
  unfold scheduleIdle
  split <;> rfl

@[simp] theorem circuitCredit_wakeWriter (s : RouteStream) :
    s.wakeWriter.circuitCredit = s.circuitCredit := by
  unfold wakeWriter
  split
  · split <;> rfl
  · rfl

@[simp] theorem circuitRequested_wakeWriter (s : RouteStream) :
    s.wakeWriter.circuitRequested = s.circuitRequested := by
  unfold wakeWriter
  split
  · split <;> rfl
  · rfl

@[simp] theorem circuitCredit_scheduleIdle (s : RouteStream) (b : Bool) (now : Int) :
    (s.scheduleIdle b now).circuitCredit = s.circuitCredit := by
  unfold scheduleIdle
  split <;> rfl

@[simp] theorem circuitRequested_scheduleIdle (s : RouteStream) (b : Bool) (now : Int) :
    (s.scheduleIdle b now).circuitRequested = s.circuitRequested := by
  unfold scheduleIdle
  split <;> rfl

/-- `s'` has the windows and the circuit credit of `s`. -/
structure Held (s s' : RouteStream) : Prop where
  sendCredit : s'.sendCredit = s.sendCredit
  receiveCredit : s'.receiveCredit = s.receiveCredit
  receivedOutstanding : s'.receivedOutstanding = s.receivedOutstanding
  torn : s'.torn = s.torn
  circuitCredit : s'.circuitCredit = s.circuitCredit
  circuitRequested : s'.circuitRequested = s.circuitRequested
  circuitCanceling : s'.circuitCanceling = s.circuitCanceling
  circuitReceiveCredit : s'.circuitReceiveCredit = s.circuitReceiveCredit
  circuitReturnPending : s'.circuitReturnPending = s.circuitReturnPending
  destroying : s'.destroying = false → s.destroying = false
  sane : s.Sane → s'.Sane

theorem Held.refl (s : RouteStream) : Held s s :=
  ⟨rfl, rfl, rfl, rfl, rfl, rfl, rfl, rfl, rfl, fun hd => hd, fun hs => hs⟩

theorem Held.trans {s s' s'' : RouteStream} (h : Held s s') (h' : Held s' s'') : Held s s'' where
  sendCredit := h'.sendCredit.trans h.sendCredit
  receiveCredit := h'.receiveCredit.trans h.receiveCredit
  receivedOutstanding := h'.receivedOutstanding.trans h.receivedOutstanding
  torn := h'.torn.trans h.torn
  circuitCredit := h'.circuitCredit.trans h.circuitCredit
  circuitRequested := h'.circuitRequested.trans h.circuitRequested
  circuitCanceling := h'.circuitCanceling.trans h.circuitCanceling
  circuitReceiveCredit := h'.circuitReceiveCredit.trans h.circuitReceiveCredit
  circuitReturnPending := h'.circuitReturnPending.trans h.circuitReturnPending
  destroying hd := h.destroying (h'.destroying hd)
  sane hs := h'.sane (h.sane hs)

theorem Alike.held {s s' : RouteStream} (h : Alike s s') (hc : s'.circuitCredit = s.circuitCredit)
    (hr : s'.circuitRequested = s.circuitRequested) : Held s s' :=
  ⟨h.sendCredit, h.receiveCredit, h.receivedOutstanding, h.torn, hc, hr, by rw [h], by rw [h], by rw [h], fun hd => h.destroying ▸ hd,
    h.sane⟩

theorem held_scheduleIdle (s : RouteStream) (b : Bool) (now : Int) :
    Held s (s.scheduleIdle b now) :=
  (alike_scheduleIdle s b now).held (by simp) (by simp)

theorem held_wakeWriter (s : RouteStream) : Held s s.wakeWriter :=
  (alike_wakeWriter s).held (by simp) (by simp)

theorem held_writer (s : RouteStream) (w : Writer) : Held s { s with writer := w } :=
  ⟨rfl, rfl, rfl, rfl, rfl, rfl, rfl, rfl, rfl, fun hd => hd, fun hs => ⟨hs.torn, hs.queue, hs.reading, hs.window⟩⟩

theorem held_countCell (s : RouteStream) (n : Nat) : Held s (s.countCell n) :=
  ⟨rfl, rfl, rfl, rfl, rfl, rfl, rfl, rfl, rfl, fun hd => hd, fun hs => ⟨hs.torn, hs.queue, hs.reading, hs.window⟩⟩

theorem held_destroy (s : RouteStream) : Held s s.destroy := by
  unfold destroy
  split
  · exact .refl _
  · exact ⟨rfl, rfl, rfl, rfl, rfl, rfl, rfl, rfl, rfl, fun hd => (Bool.noConfusion hd), fun hs =>
      ⟨fun ht => ⟨rfl, (hs.torn ht).2⟩, fun hd => (Bool.noConfusion hd), hs.reading, hs.window⟩⟩

@[simp] theorem destroying_destroy (s : RouteStream) : s.destroy.destroying = true := by
  unfold destroy
  split
  · next h => exact h
  · rfl

theorem held_drain (s : RouteStream) : Held s s.drain := by
  have hend : ∀ s : RouteStream, Held s
      (if s.remoteEnded ∧ s.queue = [] ∧ s.delivered = false then { s with wantRead := false }
        else s) := by
    intro s
    split
    · exact ⟨rfl, rfl, rfl, rfl, rfl, rfl, rfl, rfl, rfl, fun hd => hd, fun hs =>
        ⟨hs.torn, hs.queue, fun hw => (Bool.noConfusion hw), hs.window⟩⟩
    · exact .refl _
  unfold drain
  split
  · exact .refl _
  · dsimp only
    split
    · next c queue hw hq =>
      refine Held.trans ?_ (hend _)
      refine ⟨rfl, rfl, rfl, rfl, rfl, rfl, rfl, rfl, rfl, fun hd => hd, fun hs =>
        ⟨hs.torn, fun hd => ?_, fun hw => (Bool.noConfusion hw), hs.window⟩⟩
      have := hs.queue hd
      rw [hq, hs.reading hw] at this
      simpa using this
    · exact hend s

theorem held_remoteFin (s : RouteStream) : Held s s.remoteFin := by
  unfold remoteFin
  split
  · exact .refl _
  · refine Held.trans ?_ (held_drain _)
    exact ⟨rfl, rfl, rfl, rfl, rfl, rfl, rfl, rfl, rfl, fun hd => hd, fun hs =>
      ⟨hs.torn, hs.queue, hs.reading, hs.window⟩⟩

theorem held_remoteReset (s : RouteStream) : Held s s.remoteReset := by
  unfold remoteReset
  split
  · exact .refl _
  · refine Held.trans ?_ (held_destroy _)
    exact ⟨rfl, rfl, rfl, rfl, rfl, rfl, rfl, rfl, rfl, fun hd => hd, fun hs =>
      ⟨hs.torn, hs.queue, hs.reading, hs.window⟩⟩

/-- What a chunk does to its stream; only one over the stream's window fails the
check of the window. -/
theorem receiveOpen_spec {s s' : RouteStream} {r : Option StreamFault} (hsane : s.Sane)
    (hd : s.destroying = false) {chunk : List UInt8} (h : s.receiveOpen chunk = (s', r)) :
    s'.Sane ∧ s'.torn = s.torn ∧ s'.circuitCredit = s.circuitCredit ∧
      s'.circuitRequested = s.circuitRequested ∧ s'.sendCredit = s.sendCredit ∧
      s'.receivedOutstanding = s.receivedOutstanding + 1 ∧
      s'.receiveCredit = s.receiveCredit - 1 ∧
      (r = none ∨ r = some .totals ∨ r = some .window ∧ s.receiveCredit < 1) := by
  have ht := hsane.torn_eq_false hd
  have hw := hsane.window
  have hq := hsane.queue hd
  -- the chunk is counted first, whether it is taken or not
  have hcount : ∀ s₁ : RouteStream, s₁ = { s with
      receivedBytes := s.receivedBytes + chunk.length
      receivedFrames := s.receivedFrames + 1
      receivedOutstanding := s.receivedOutstanding + 1
      receiveCredit := s.receiveCredit - 1 } → s₁.destroy.Sane ∧ s₁.Held s₁.destroy := by
    rintro s₁ rfl
    refine ⟨?_, held_destroy _⟩
    unfold destroy
    rw [if_neg (by rw [hd]; decide)]
    refine ⟨fun h => absurd (h.symm.trans ht) (by decide), fun h => (Bool.noConfusion h),
      hsane.reading, ?_⟩
    show s.receiveCredit - 1 + s.streamReturnPending + (s.receivedOutstanding + 1 : Nat) ≤ _
    push_cast
    omega
  unfold receiveOpen at h
  dsimp only at h
  split at h
  · cases h
    obtain ⟨hs, hh⟩ := hcount _ rfl
    exact ⟨hs, hh.torn, hh.circuitCredit, hh.circuitRequested, hh.sendCredit,
      hh.receivedOutstanding, hh.receiveCredit, .inr (.inl rfl)⟩
  · split at h
    · next hover =>
      cases h
      obtain ⟨hs, hh⟩ := hcount _ rfl
      refine ⟨hs, hh.torn, hh.circuitCredit, hh.circuitRequested, hh.sendCredit,
        hh.receivedOutstanding, hh.receiveCredit, .inr (.inr ⟨rfl, ?_⟩)⟩
      omega
    · cases h
      have hh := held_drain { s with
        receivedBytes := s.receivedBytes + chunk.length
        receivedFrames := s.receivedFrames + 1
        receivedOutstanding := s.receivedOutstanding + 1
        receiveCredit := s.receiveCredit - 1
        queue := s.queue ++ [chunk] }
      refine ⟨hh.sane ⟨fun h => absurd (h.symm.trans ht) (by decide), fun _ => ?_, hsane.reading, ?_⟩,
        hh.torn, hh.circuitCredit, hh.circuitRequested, hh.sendCredit, hh.receivedOutstanding,
        hh.receiveCredit, .inl rfl⟩
      · show s.receivedOutstanding + 1 =
          (s.queue ++ [chunk]).length + if s.delivered then 1 else 0
        rw [List.length_append, List.length_singleton]
        omega
      · show s.receiveCredit - 1 + s.streamReturnPending + (s.receivedOutstanding + 1 : Nat) ≤ _
        push_cast
        omega

/-- A chunk leaves the circuit counters of a stream alone. -/
theorem receiveOpen_circuit {s s' : RouteStream} {r : Option StreamFault} {chunk : List UInt8}
    (h : s.receiveOpen chunk = (s', r)) : s'.circuitCanceling = s.circuitCanceling ∧
      s'.circuitReceiveCredit = s.circuitReceiveCredit ∧
      s'.circuitReturnPending = s.circuitReturnPending := by
  unfold receiveOpen at h
  dsimp only at h
  split at h
  · cases h
    have hh := held_destroy { s with
      receivedBytes := s.receivedBytes + chunk.length
      receivedFrames := s.receivedFrames + 1
      receivedOutstanding := s.receivedOutstanding + 1
      receiveCredit := s.receiveCredit - 1 }
    exact ⟨hh.circuitCanceling, hh.circuitReceiveCredit, hh.circuitReturnPending⟩
  · split at h
    · cases h
      have hh := held_destroy { s with
        receivedBytes := s.receivedBytes + chunk.length
        receivedFrames := s.receivedFrames + 1
        receivedOutstanding := s.receivedOutstanding + 1
        receiveCredit := s.receiveCredit - 1 }
      exact ⟨hh.circuitCanceling, hh.circuitReceiveCredit, hh.circuitReturnPending⟩
    · cases h
      have hh := held_drain { s with
        receivedBytes := s.receivedBytes + chunk.length
        receivedFrames := s.receivedFrames + 1
        receivedOutstanding := s.receivedOutstanding + 1
        receiveCredit := s.receiveCredit - 1
        queue := s.queue ++ [chunk] }
      exact ⟨hh.circuitCanceling, hh.circuitReceiveCredit, hh.circuitReturnPending⟩

end RouteStream

end HyperDht.Private
