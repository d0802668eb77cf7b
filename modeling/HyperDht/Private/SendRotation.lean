import HyperDht.Lib.RingTurns
import HyperDht.Private.CellCodec
import HyperDht.Private.SharedFunding

/-!
# The rotation of a link

`send` and `_nextSend` of a `CircuitLink` over the bytes of the payloads: on a
multiplexed link each stream has a queue, and the queues are served in rounds
of `sendQuantum` cells. A payload that finds the queue of its stream empty waits
for one such turn of each other queue, whatever is sent meanwhile
(`bypass_bounded`): a queue that empties and fills again is behind it.

The events run in any order: `_flushSends` selects a batch at a time, between
which anything else may happen, and every failure of it destroys the link.
-/

namespace HyperDht.Private

def dataFlag : UInt8 := 0

/-- What `send` and `_nextSend` use of a `CircuitLink`. -/
structure SendSide where
  multiplexed : Bool
  destroyed : Bool
  pendingData : Nat
  pendingControl : Nat
  sends : Ring Nat Bytes

namespace SendSide

def new (multiplexed : Bool) : SendSide := ⟨multiplexed, false, 0, 0, .empty⟩

def isData (payload : Bytes) : Bool :=
  logicalHeaderBytes ≤ payload.length && payload[4]? = some dataFlag

def accepts (s : SendSide) (payload : Bytes) : Bool :=
  payload.length ≤ maxCellPayload && !s.destroyed &&
    if isData payload then s.pendingData < circuitWindow else s.pendingControl < controlReserve

def streamId (s : SendSide) (payload : Bytes) : Nat :=
  if s.multiplexed && logicalHeaderBytes ≤ payload.length then readU32 payload else 0

/-- `destroy`: the queues are cleared and every job is settled. -/
def destroy (s : SendSide) : SendSide :=
  { s with destroyed := true, pendingData := 0, pendingControl := 0, sends := .empty }

/-- `send`: a payload that is not admitted destroys the link. -/
def send (s : SendSide) (payload : Bytes) : SendSide :=
  if s.accepts payload then
    { s with
      pendingData := if isData payload then s.pendingData + 1 else s.pendingData
      pendingControl := if isData payload then s.pendingControl else s.pendingControl + 1
      sends := s.sends.enqueue (s.streamId payload) payload }
  else s.destroy

/-- `_nextSend`: the payload it selects with its stream. -/
def nextSend (s : SendSide) : SendSide × Option (Nat × Bytes) :=
  match s.sends.next sendQuantum with
  | none => (s, none)
  | some (streamId, payload, sends) => ({ s with sends }, some (streamId, payload))

/-- `_settleSend` of a DATA payload or of another one. -/
def settle (s : SendSide) (data : Bool) : SendSide :=
  if data then { s with pendingData := s.pendingData - 1 }
  else { s with pendingControl := s.pendingControl - 1 }

/-- What can happen to a link, as far as its queues are concerned. -/
inductive Event where
  | send (payload : Bytes)
  | nextSend
  | settle (data : Bool)
  | destroy
  deriving DecidableEq, Repr

def step (s : SendSide) : Event → SendSide × Option (Nat × Bytes)
  | .send payload => (s.send payload, none)
  | .nextSend => s.nextSend
  | .settle data => (s.settle data, none)
  | .destroy => (s.destroy, none)

def run (s : SendSide) (events : List Event) : SendSide := events.foldl (fun s ev => (s.step ev).1) s

/-- The payloads that are selected during a run, with their streams. -/
def selected (s : SendSide) : List Event → List (Nat × Bytes)
  | [] => []
  | ev :: events => (s.step ev).2.toList ++ (s.step ev).1.selected events

def streams (s : SendSide) : List Nat := s.sends.keys

/-! ## One payload among the others -/

theorem within_step {s : SendSide} (h : RoundRobin.Within sendQuantum s.sends.queues) (ev : Event) :
    RoundRobin.Within sendQuantum (s.step ev).1.sends.queues := by
  have hempty : RoundRobin.Within sendQuantum (Ring.empty : Ring Nat Bytes).queues :=
    fun q hq => (List.not_mem_nil hq).elim
  cases ev with
  | send payload =>
    show RoundRobin.Within sendQuantum (s.send payload).sends.queues
    unfold send
    split
    · exact RoundRobin.within_insert h
    · exact hempty
  | nextSend =>
    show RoundRobin.Within sendQuantum s.nextSend.1.sends.queues
    unfold nextSend
    split
    · exact h
    · next hn => exact RoundRobin.within_serve (Ring.serve_of_next hn) h
  | settle data => cases data <;> exact h
  | destroy => exact hempty

theorem within_run (multiplexed : Bool) (events : List Event) :
    RoundRobin.Within sendQuantum ((new multiplexed).run events).sends.queues := by
  have hrun : ∀ (events : List Event) (s : SendSide), RoundRobin.Within sendQuantum s.sends.queues →
      RoundRobin.Within sendQuantum (s.run events).sends.queues := by
    intro events
    induction events with
    | nil => exact fun s h => h
    | cons ev events ih => exact fun s h => ih _ (within_step h ev)
  exact hrun events _ fun q hq => (List.not_mem_nil hq).elim

/-- At most `n` of the selected jobs come before `payload`, the first of its stream. -/
structure Before (n k : Nat) (payload : Bytes) (jobs : List (Nat × Bytes)) : Prop where
  length : (jobs.takeWhile fun job => job.1 ≠ k).length ≤ n
  first : ∀ payload', jobs.find? (fun job => job.1 = k) = some (k, payload') → payload' = payload

theorem before_nil (n k : Nat) (payload : Bytes) : Before n k payload [] :=
  ⟨Nat.zero_le _, fun _ h => by cases h⟩

/-- A link without payloads selects none of those that wait. -/
theorem selected_of_destroyed {s : SendSide} (hd : s.destroyed = true) (hs : s.sends.queues = [])
    (events : List Event) : s.selected events = [] := by
  induction events generalizing s with
  | nil => rfl
  | cons ev events ih =>
    have hempty : (Ring.empty : Ring Nat Bytes).queues = [] := rfl
    have hrefuse : ∀ payload, s.send payload = s.destroy := fun payload => by
      rw [send, if_neg (by simp [accepts, hd])]
    cases ev with
    | send payload =>
      show (s.send payload).selected events = []
      rw [hrefuse]
      exact ih rfl hempty
    | nextSend =>
      have hn : s.nextSend = (s, none) := by
        unfold nextSend
        split
        · rfl
        · next hn =>
          have := Ring.serve_of_next hn
          rw [hs] at this
          cases this
      rw [selected, step, hn]
      exact ih hd hs
    | settle data => cases data <;> exact ih hd hs
    | destroy => exact ih rfl hempty

/-- The payloads of other streams that come before one that waits. -/
theorem selected_before {k : Nat} {payload : Bytes} (events : List Event) :
    ∀ {s : SendSide} {n : Nat}, s.sends.Waiting sendQuantum k payload n →
      Before n k payload (s.selected events) := by
  induction events with
  | nil => exact fun _ => before_nil _ _ _
  | cons ev events ih =>
    intro s n h
    have hgone : Before n k payload (s.destroy.selected events) := by
      rw [selected_of_destroyed rfl rfl]
      exact before_nil _ _ _
    cases ev with
    | send other =>
      show Before n k payload ((s.send other).selected events)
      unfold send
      split
      · exact ih (h.enqueue (s.streamId other) other)
      · exact hgone
    | settle data => cases data <;> exact ih h
    | destroy => exact hgone
    | nextSend =>
      rw [selected, step]
      unfold nextSend
      split
      · exact ih h
      · next k' b r' hn =>
        rcases h.next (by decide) hn with ⟨rfl, rfl⟩ | ⟨hk, hpos, hw⟩
        · refine ⟨?_, fun payload' hf => ?_⟩
          · simp
          · simp only [Option.toList_some, List.singleton_append, List.find?_cons, decide_true] at hf
            exact (Prod.mk.inj (Option.some.inj hf)).2.symm
        · have hrest := ih (s := { s with sends := r' }) hw
          refine ⟨?_, fun payload' hf => hrest.first payload' ?_⟩
          · have hlen := hrest.length
            simp only [Option.toList_some, List.singleton_append, List.takeWhile_cons, ne_eq, hk,
              not_false_eq_true, decide_true, if_true, List.length_cons] at hlen ⊢
            omega
          · simpa [hk] using hf

/-- **How long a stream can be bypassed.** On a link that ran in any way, a payload is
admitted for a stream without queued payloads while `m` other streams have some. In every
continuation at most `4 * m` payloads of other streams are selected before it, and it is the
first of its stream. -/
theorem bypass_bounded (multiplexed : Bool) (before : List Event) (payload : Bytes)
    (after : List Event) :
    let s := (new multiplexed).run before
    let k := s.streamId payload
    s.accepts payload = true → s.sends.jobs k = [] →
      s.streams.Nodup ∧ (∀ id, id ∈ s.streams ↔ s.sends.jobs id ≠ []) ∧
      (((s.send payload).selected after).takeWhile fun job => job.1 ≠ k).length ≤
        4 * s.streams.length ∧
      ∀ payload', ((s.send payload).selected after).find? (fun job => job.1 = k) =
        some (k, payload') → payload' = payload := by
  intro s k hacc hk
  have hw : (s.send payload).sends.Waiting sendQuantum k payload (4 * s.streams.length) := by
    rw [send, if_pos hacc]
    exact Ring.waiting_enqueue (within_run multiplexed before) hk payload
  have hbefore := selected_before after hw
  exact ⟨s.sends.nodup, fun id => Ring.mem_keys, hbefore.length, hbefore.first⟩

/-- Six payloads of one stream, of which one is selected. -/
def shortTurn : List Event := List.replicate 6 (.send [0, 0, 0, 1, 0]) ++ [.nextSend]

/-- A stream joins while another one is in the middle of its turn. -/
theorem bypass_bounded_short_turn :
    ((((new true).run shortTurn).send [0, 0, 0, 2, 0]).selected
      (List.replicate 5 .nextSend) |>.takeWhile fun job => job.1 ≠ 2).length ≤
      4 * ((new true).run shortTurn).streams.length := by
  have hk : ((new true).run shortTurn).streamId [0, 0, 0, 2, 0] = 2 := by decide +kernel
  have h := bypass_bounded true shortTurn [0, 0, 0, 2, 0] (List.replicate 5 .nextSend)
    (by decide +kernel) (by decide +kernel)
  rw [hk] at h
  exact h.2.2.1

/-! ## The link over frames -/

/-- A `Link` with its frames as the bytes of their payloads. -/
def ofLink (l : Link) : SendSide :=
  ⟨l.multiplexed, l.destroyed, l.pendingData, l.pendingControl, l.sends.map encodeLogical⟩

theorem isData_encodeLogical (f : Frame) : isData (encodeLogical f) = f.body.isData := by
  have hflag : (encodeLogical f)[4]? = some f.body.flag := rfl
  have hlen : logicalHeaderBytes ≤ (encodeLogical f).length := Nat.le_add_left 5 f.body.bytes.length
  rw [isData, hflag, decide_eq_true hlen, Bool.true_and]
  cases f.body <;> rfl

theorem send_encodeLogical {l : Link} {f : Frame} (hid : f.streamId < 2 ^ 32)
    (hlen : (encodeLogical f).length ≤ maxCellPayload) (hd : l.destroyed = false)
    (hfull : l.full f = false) : (ofLink l).send (encodeLogical f) = ofLink (l.enqueue f) := by
  have hacc : (ofLink l).accepts (encodeLogical f) = true := by
    rw [accepts, isData_encodeLogical, decide_eq_true hlen, show (ofLink l).destroyed = _ from hd]
    show (true && !false && if f.body.isData then decide (l.pendingData < circuitWindow)
      else decide (l.pendingControl < controlReserve)) = true
    unfold Link.full at hfull
    split at hfull
    · next h => simpa [h] using hfull
    · next h => simpa [h] using hfull
  have hheader : logicalHeaderBytes ≤ (encodeLogical f).length :=
    Nat.le_add_left 5 f.body.bytes.length
  have hqueue : (ofLink l).streamId (encodeLogical f) = l.queueOf f := by
    rw [streamId, decide_eq_true hheader, Bool.and_true, readU32_encodeLogical hid]
    rfl
  rw [send, if_pos hacc, hqueue, isData_encodeLogical]
  show SendSide.mk _ _ _ _ ((l.sends.map encodeLogical).enqueue (l.queueOf f) (encodeLogical f)) = _
  rw [Ring.enqueue_map]
  rfl

/-- A link over frames selects as the link over their bytes does. -/
theorem nextSend_ofLink (l : Link) : (ofLink l).nextSend.1 = ofLink l.nextSend := by
  have hn := Ring.next_map encodeLogical l.sends sendQuantum
  unfold nextSend Link.nextSend
  rw [show (ofLink l).sends.next sendQuantum = _ from hn]
  cases l.sends.next sendQuantum with
  | none => rfl
  | some out => rfl

end SendSide

end HyperDht.Private
