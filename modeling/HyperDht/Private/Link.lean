import HyperDht.Lib.RoundRobin
import HyperDht.Private.Logical

/-!
# The sending side of a circuit link

What `CircuitLink` does with the frames its owner sends: `send` admits a frame
while fewer than a circuit window of DATA frames, or fewer than the control
reserve of other frames, are pending, and destroys the link otherwise. Admitted
frames wait in one queue per stream id (one queue in all on a link that is not
multiplexed) until they are selected and written; `wire` holds what is written
and not yet read by the other end. A frame stops being pending when its write
completes, at some later time (`settle`).
-/

namespace HyperDht.Private

/-- `SEND_QUANTUM_BYTES` in cells. -/
def sendQuantum : Nat := 4

structure Link where
  multiplexed : Bool
  destroyed : Bool
  pendingData : Nat
  pendingControl : Nat
  sends : Ring Nat Frame
  wire : List Frame

namespace Link

def new (multiplexed : Bool) : Link := ⟨multiplexed, false, 0, 0, .empty, []⟩

def queueOf (l : Link) (f : Frame) : Nat := if l.multiplexed then f.streamId else 0

/-- The admission check of `send`. -/
def full (l : Link) (f : Frame) : Bool :=
  if f.body.isData then circuitWindow ≤ l.pendingData else controlReserve ≤ l.pendingControl

def enqueue (l : Link) (f : Frame) : Link :=
  { l with
    pendingData := if f.body.isData then l.pendingData + 1 else l.pendingData
    pendingControl := if f.body.isData then l.pendingControl else l.pendingControl + 1
    sends := l.sends.enqueue (l.queueOf f) f }

/-- `destroy`: every job is settled, and what is not written is dropped. -/
def destroy (l : Link) : Link :=
  { l with destroyed := true, pendingData := 0, pendingControl := 0, sends := .empty }

/-- `_nextSend`: write the next frame in turn. -/
def nextSend (l : Link) : Link :=
  match l.sends.next sendQuantum with
  | none => l
  | some (_, f, sends) => { l with sends, wire := l.wire ++ [f] }

/-- Write the next frame of one queue. -/
def selectFrom (l : Link) (k : Nat) : Link :=
  match l.sends.pick k with
  | none => l
  | some (f, sends) => { l with sends, wire := l.wire ++ [f] }

/-- `_settleSend` of a DATA frame or of another one. -/
def settle (l : Link) (data : Bool) : Link :=
  if data then { l with pendingData := l.pendingData - 1 }
  else { l with pendingControl := l.pendingControl - 1 }

/-- The other end reads the next frame. -/
def take (l : Link) : Option (Frame × Link) :=
  match l.wire with
  | [] => none
  | f :: wire => some (f, { l with wire })

/-- The sum of a weight over the frames in flight. -/
def total (l : Link) (w : Frame → Nat) : Nat := (l.wire.map w).sum + l.sends.total w

/-- The frames in flight of one queue, in order. -/
def inOrder (l : Link) (k : Nat) : List Frame :=
  l.wire.filter (fun f => l.queueOf f = k) ++ l.sends.jobs k

@[simp] theorem destroyed_enqueue (l : Link) (f : Frame) : (l.enqueue f).destroyed = l.destroyed := rfl
@[simp] theorem multiplexed_enqueue (l : Link) (f : Frame) :
    (l.enqueue f).multiplexed = l.multiplexed := rfl

theorem total_enqueue (l : Link) (f : Frame) (w : Frame → Nat) :
    (l.enqueue f).total w = l.total w + w f := by
  simp only [total, enqueue, Ring.total_enqueue]
  omega

theorem total_selectFrom (l : Link) (k : Nat) (w : Frame → Nat) :
    (l.selectFrom k).total w = l.total w := by
  unfold selectFrom
  split
  · rfl
  · next f sends h =>
    simp only [total, Ring.total_pick h, List.map_append, List.map_singleton, List.sum_append,
      List.sum_singleton]
    omega

theorem total_nextSend (l : Link) (w : Frame → Nat) : l.nextSend.total w = l.total w := by
  unfold nextSend
  split
  · rfl
  · next f sends h =>
    simp only [total, Ring.total_next h, List.map_append, List.map_singleton, List.sum_append,
      List.sum_singleton]
    omega

theorem total_take {l l' : Link} {f : Frame} (h : l.take = some (f, l')) (w : Frame → Nat) :
    l.total w = l'.total w + w f := by
  unfold take at h
  split at h
  · cases h
  · next g wire hw =>
    cases h
    simp only [total, hw, List.map_cons, List.sum_cons]
    omega

def admits (l : Link) (fs : List Frame) : Link := fs.foldl enqueue l

@[simp] theorem admits_nil (l : Link) : l.admits [] = l := rfl

theorem admits_append (l : Link) (fs gs : List Frame) :
    l.admits (fs ++ gs) = (l.admits fs).admits gs :=
  List.foldl_append

theorem admits_singleton (l : Link) (f : Frame) : l.admits [f] = l.enqueue f := rfl

@[simp] theorem destroyed_admits (l : Link) (fs : List Frame) :
    (l.admits fs).destroyed = l.destroyed := by
  induction fs generalizing l with
  | nil => rfl
  | cons f fs ih => exact ih (l.enqueue f)

@[simp] theorem wire_admits (l : Link) (fs : List Frame) : (l.admits fs).wire = l.wire := by
  induction fs generalizing l with
  | nil => rfl
  | cons f fs ih => exact ih (l.enqueue f)

@[simp] theorem multiplexed_admits (l : Link) (fs : List Frame) :
    (l.admits fs).multiplexed = l.multiplexed := by
  induction fs generalizing l with
  | nil => rfl
  | cons f fs ih => exact ih (l.enqueue f)

theorem total_admits (l : Link) (fs : List Frame) (w : Frame → Nat) :
    (l.admits fs).total w = l.total w + (fs.map w).sum := by
  induction fs generalizing l with
  | nil => rfl
  | cons f fs ih =>
    rw [show l.admits (f :: fs) = (l.enqueue f).admits fs from rfl, ih, total_enqueue, List.map_cons,
      List.sum_cons, Nat.add_assoc]

@[simp] theorem destroy_admits (l : Link) (fs : List Frame) : (l.admits fs).destroy = l.destroy := by
  simp [destroy]

@[simp] theorem destroy_destroy (l : Link) : l.destroy.destroy = l.destroy := rfl

end Link

/-- The progress of a link: a frame is written, a write completes, the other
end reads a frame. -/
inductive LinkEvent where
  | nextSend
  | selectFrom (k : Nat)
  | settle (data : Bool)
  | take
  deriving DecidableEq, Repr

namespace Link

def progress (l : Link) : LinkEvent → Link
  | .nextSend => l.nextSend
  | .selectFrom k => l.selectFrom k
  | .settle data => l.settle data
  | .take => (l.take.map Prod.snd).getD l

theorem destroyed_nextSend (l : Link) : l.nextSend.destroyed = l.destroyed := by
  unfold nextSend
  split <;> rfl

theorem destroyed_selectFrom (l : Link) (k : Nat) : (l.selectFrom k).destroyed = l.destroyed := by
  unfold selectFrom
  split <;> rfl

theorem destroyed_progress (l : Link) (ev : LinkEvent) :
    (l.progress ev).destroyed = l.destroyed := by
  cases ev with
  | nextSend => exact l.destroyed_nextSend
  | selectFrom k => exact l.destroyed_selectFrom k
  | settle data => cases data <;> rfl
  | take =>
    show ((l.take.map Prod.snd).getD l).destroyed = l.destroyed
    unfold take
    split <;> rfl

theorem total_progress (l : Link) {ev : LinkEvent} (hev : ev ≠ .take) (w : Frame → Nat) :
    (l.progress ev).total w = l.total w := by
  cases ev with
  | nextSend => exact l.total_nextSend w
  | selectFrom k => exact l.total_selectFrom k w
  | settle data => cases data <;> rfl
  | take => exact absurd rfl hev

/-! ## A link with one queue -/

structure Single (l : Link) : Prop where
  multiplexed : l.multiplexed = false
  jobs : ∀ k, k ≠ 0 → l.sends.jobs k = []

/-- The frames in flight on a link with one queue, in order. -/
def frames (l : Link) : List Frame := l.wire ++ l.sends.jobs 0

theorem single_new : (new false).Single := ⟨rfl, fun _ _ => rfl⟩

theorem frames_destroy (l : Link) : l.destroy.frames = l.wire := List.append_nil _

theorem Single.destroy {l : Link} (h : l.Single) : l.destroy.Single :=
  ⟨h.multiplexed, fun _ _ => rfl⟩

theorem Single.queueOf {l : Link} (h : l.Single) (f : Frame) : l.queueOf f = 0 := by
  unfold Link.queueOf
  rw [h.multiplexed]
  rfl

theorem Single.enqueue {l : Link} (h : l.Single) (f : Frame) : (l.enqueue f).Single := by
  refine ⟨h.multiplexed, fun k hk => ?_⟩
  show (l.sends.enqueue (l.queueOf f) f).jobs k = []
  rw [Ring.jobs_enqueue, h.queueOf, if_neg hk]
  exact h.jobs k hk

theorem Single.frames_enqueue {l : Link} (h : l.Single) (f : Frame) :
    (l.enqueue f).frames = l.frames ++ [f] := by
  show l.wire ++ (l.sends.enqueue (l.queueOf f) f).jobs 0 = l.wire ++ l.sends.jobs 0 ++ [f]
  rw [Ring.jobs_enqueue, h.queueOf, if_pos rfl, List.append_assoc]

theorem Single.admits {l : Link} (h : l.Single) (fs : List Frame) : (l.admits fs).Single := by
  induction fs generalizing l with
  | nil => exact h
  | cons f fs ih => exact ih (h.enqueue f)

theorem Single.frames_admits {l : Link} (h : l.Single) (fs : List Frame) :
    (l.admits fs).frames = l.frames ++ fs := by
  induction fs generalizing l with
  | nil => exact (List.append_nil _).symm
  | cons f fs ih =>
    show ((l.enqueue f).admits fs).frames = _
    rw [ih (h.enqueue f), h.frames_enqueue, List.append_assoc]
    rfl

theorem frames_take {l l' : Link} {f : Frame} (h : l.take = some (f, l')) :
    l.frames = f :: l'.frames := by
  unfold take at h
  split at h
  · cases h
  · next g wire hw =>
    cases h
    show l.wire ++ _ = f :: (wire ++ _)
    rw [hw]
    rfl

theorem Single.take {l l' : Link} {f : Frame} (h : l.Single) (ht : l.take = some (f, l')) :
    l'.Single := by
  unfold Link.take at ht
  split at ht
  · cases ht
  · cases ht
    exact ⟨h.multiplexed, h.jobs⟩

/-- Writing a frame, or completing a write, leaves the frames in flight as they are. -/
theorem Single.write {l : Link} (h : l.Single) {k : Nat} {f : Frame} {sends : Ring Nat Frame}
    (hj : ∀ k', l.sends.jobs k' = if k' = k then f :: sends.jobs k' else sends.jobs k') :
    Single { l with sends, wire := l.wire ++ [f] } ∧
      frames { l with sends, wire := l.wire ++ [f] } = l.frames := by
  have hk : k = 0 := by
    by_contra hne
    have := hj k
    rw [h.jobs k hne, if_pos rfl] at this
    cases this
  subst hk
  refine ⟨⟨h.multiplexed, fun k' hk' => ?_⟩, ?_⟩
  · have := hj k'
    rw [if_neg hk'] at this
    rw [← this]
    exact h.jobs k' hk'
  · show l.wire ++ [f] ++ sends.jobs 0 = l.wire ++ l.sends.jobs 0
    rw [hj 0, if_pos rfl, List.append_assoc]
    rfl

theorem Single.nextSend {l : Link} (h : l.Single) :
    l.nextSend.Single ∧ l.nextSend.frames = l.frames := by
  unfold Link.nextSend
  split
  · exact ⟨h, rfl⟩
  · next k f sends he => exact h.write (Ring.jobs_next he)

theorem Single.selectFrom {l : Link} (h : l.Single) (k : Nat) :
    (l.selectFrom k).Single ∧ (l.selectFrom k).frames = l.frames := by
  unfold Link.selectFrom
  split
  · exact ⟨h, rfl⟩
  · next f sends he => exact h.write (Ring.jobs_pick he)

theorem Single.settle {l : Link} (h : l.Single) (data : Bool) :
    (l.settle data).Single ∧ (l.settle data).frames = l.frames := by
  cases data <;> exact ⟨⟨h.multiplexed, h.jobs⟩, rfl⟩

end Link

end HyperDht.Private
