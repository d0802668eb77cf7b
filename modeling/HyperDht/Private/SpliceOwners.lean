import HyperDht.Private.Relay
import HyperDht.Private.SplicePairs

/-!
# Bridges and entries as owners of splice pairs

`transformBridge` keeps its pairs in the map `splices`, an `EntryCircuit` keeps the pair of
a source in `record.splice`. Both make two raw streams one after the other and only then
the pair that owns them. Frames, the close events of links and of raw streams, the idle
timers and the teardown come in any order, and each call that may throw may throw.

`splices_accounted` says exactly in which runs every state is accounted for: those in which
the second `_createSpliceStream` never throws where the first has returned, and no
SPLICE_OPEN of the inbox is replayed to a bridge that is already closed.
-/

namespace HyperDht.Private.Splicing

/-! ## What owners have in common -/

/-- An owner of pairs: its heap, and the `onDestroy` it gives to a pair. `held` is the pair
it holds under a stream id, or in a record. -/
structure Holder (σ : Type) where
  heap : σ → Heap
  setHeap : Heap → σ → σ
  onDestroy : Pair → σ → σ
  held : σ → Nat → Option Nat
  heap_setHeap : ∀ h s, heap (setHeap h s) = h
  heap_onDestroy : ∀ pair s, heap (onDestroy pair s) = heap s
  held_setHeap : ∀ h s, held (setHeap h s) = held s
  held_onDestroy : ∀ {s p pair}, ((heap s).pairs[p]?).map Pair.up = some pair.up →
    held s pair.owner = some p ∨ held s pair.owner = none →
      held (onDestroy pair s) = Function.update (held s) pair.owner none

namespace Holder

variable {σ : Type} (w : Holder σ)

def closePair (s : σ) (p : Nat) : σ :=
  match (w.heap s).pairs[p]? with
  | none => s
  | some pair =>
    if pair.destroyed then s else w.onDestroy pair (w.setHeap ((w.heap s).close p pair) s)

/-- The close event of a raw stream, which comes once. -/
def streamClosed (s : σ) (i : Nat) : σ :=
  match (w.heap s).streams[i]? with
  | none => s
  | some stream =>
    if stream.destroyed then s
    else
      let s' := w.setHeap ((w.heap s).ended i) s
      match (w.heap s).watcher i with
      | none => s'
      | some p => w.closePair s' p

/-- The idle timer of a pair, which `close` clears. -/
def poll (s : σ) (p rx : Nat) (now : Int) : σ :=
  match (w.heap s).pairs[p]? with
  | none => s
  | some pair =>
    if pair.destroyed then s
    else
      match (w.heap s).poll p pair rx now with
      | (heap, true) => w.closePair (w.setHeap heap s) p
      | (heap, false) => w.setHeap heap s

/-! ## Owners keep what they hold -/

/-- The owner holds its open pairs, and their streams have not closed. -/
structure Sound (s : σ) : Prop where
  owned : Owned (w.heap s) (w.held s)
  live : Live (w.heap s) none

variable {w} {s : σ} {p i o : Nat} {pair : Pair}

/-- A property that the parts of `close` keep is kept by whatever closes pairs. -/
theorem closePair_keeps {P : σ → Prop} (hset : ∀ h s, P s → P (w.setHeap h s))
    (hdestroy : ∀ pair s, P s → P (w.onDestroy pair s)) (hs : P s) : P (w.closePair s p) := by
  unfold closePair
  split
  · exact hs
  · split
    · exact hs
    · exact hdestroy _ _ (hset _ _ hs)

theorem streamClosed_keeps {P : σ → Prop} (hset : ∀ h s, P s → P (w.setHeap h s))
    (hdestroy : ∀ pair s, P s → P (w.onDestroy pair s)) (hs : P s) : P (w.streamClosed s i) := by
  unfold streamClosed
  split
  · exact hs
  · split
    · exact hs
    · dsimp only
      split
      · exact hset _ _ hs
      · exact closePair_keeps hset hdestroy (hset _ _ hs)

theorem poll_keeps {P : σ → Prop} (hset : ∀ h s, P s → P (w.setHeap h s))
    (hdestroy : ∀ pair s, P s → P (w.onDestroy pair s)) {rx : Nat} {now : Int} (hs : P s) :
    P (w.poll s p rx now) := by
  unfold poll
  split
  · exact hs
  · split
    · exact hs
    · split
      · exact closePair_keeps hset hdestroy (hset _ _ hs)
      · exact hset _ _ hs

/-- An open pair that its owner holds, or has just given up, is closed. -/
theorem closePair_of_open (hp : (w.heap s).pairs[p]? = some pair) (hd : pair.destroyed = false)
    (hheld : w.held s pair.owner = some p ∨ w.held s pair.owner = none) :
    w.heap (w.closePair s p) = (w.heap s).close p pair ∧
      w.held (w.closePair s p) = Function.update (w.held s) pair.owner none := by
  unfold closePair
  rw [hp]
  simp only [hd, Bool.false_eq_true, if_false]
  constructor
  · rw [w.heap_onDestroy, w.heap_setHeap]
  · rw [w.held_onDestroy (p := p), w.held_setHeap]
    · rw [w.heap_setHeap, Heap.pairs_close, hp]
      simp [Pair.closed]
    · rw [w.held_setHeap]
      exact hheld

theorem closePair_of_closed (hp : ∀ {pair : Pair}, (w.heap s).pairs[p]? = some pair →
    pair.destroyed = true) : w.closePair s p = s := by
  unfold closePair
  split
  · rfl
  · next pair hpair => simp [hp hpair]

theorem open_or (s : σ) (p : Nat) :
    (∃ pair, (w.heap s).pairs[p]? = some pair ∧ pair.destroyed = false) ∨
      ∀ {pair : Pair}, (w.heap s).pairs[p]? = some pair → pair.destroyed = true := by
  cases hp : (w.heap s).pairs[p]? with
  | none => exact .inr nofun
  | some pair =>
    cases hd : pair.destroyed with
    | false => exact .inl ⟨pair, rfl, hd⟩
    | true => exact .inr fun h => by rwa [← Option.some.inj h]

theorem Sound.closePair (hs : w.Sound s) (p : Nat) : w.Sound (w.closePair s p) := by
  rcases open_or (w := w) s p with ⟨pair, hp, hd⟩ | hclosed
  · obtain ⟨hheap, hheld⟩ := closePair_of_open hp hd (.inl (hs.owned.open_held hp hd))
    exact ⟨by rw [hheap, hheld]; exact hs.owned.close hp hd,
      by rw [hheap]; exact hs.live.close hs.owned hp (.inl rfl)⟩
  · rw [closePair_of_closed hclosed]
    exact hs

theorem Sound.closeHeld (hs : w.Sound s) {k : Nat} (hk : w.held s k = some p) {t : σ}
    (hheap : w.heap t = w.heap s) (hheld : w.held t = Function.update (w.held s) k none) :
    w.Sound (w.closePair t p) ∧
      w.held (w.closePair t p) = Function.update (w.held s) k none ∧
      ∃ pair, (w.heap s).pairs[p]? = some pair ∧
        w.heap (w.closePair t p) = (w.heap s).close p pair := by
  obtain ⟨pair, hp, rfl, hd⟩ := hs.owned.held_open hk
  obtain ⟨hheap', hheld'⟩ := closePair_of_open (s := t) (by rw [hheap]; exact hp) hd
    (.inr (by rw [hheld, Function.update_self]))
  rw [hheld, Function.update_idem] at hheld'
  rw [hheap] at hheap'
  refine ⟨⟨?_, ?_⟩, hheld', pair, hp, hheap'⟩
  · rw [hheap', hheld']
    exact hs.owned.close hp hd
  · rw [hheap']
    exact hs.live.close hs.owned hp (.inl rfl)

theorem Sound.streamClosed (hs : w.Sound s) (i : Nat) : w.Sound (w.streamClosed s i) := by
  unfold Holder.streamClosed
  split
  · exact hs
  split
  · exact hs
  have ho := hs.owned.ended i
  have hl := hs.live.ended hs.owned i
  dsimp only
  split
  · next hw =>
    rw [hw] at hl
    exact ⟨by rw [w.heap_setHeap, w.held_setHeap]; exact ho, by rw [w.heap_setHeap]; exact hl⟩
  · next p hw =>
    rw [hw] at hl
    rcases open_or (w := w) (w.setHeap ((w.heap s).ended i) s) p with ⟨pair, hp, hd⟩ | hclosed
    · rw [w.heap_setHeap] at hp
      have hheld := ho.open_held hp hd
      obtain ⟨hheap', hheld'⟩ := closePair_of_open (w := w)
        (s := w.setHeap ((w.heap s).ended i) s) (by rw [w.heap_setHeap]; exact hp) hd
        (.inl (by rw [w.held_setHeap]; exact hheld))
      rw [w.heap_setHeap] at hheap'
      rw [w.held_setHeap] at hheld'
      exact ⟨by rw [hheap', hheld']; exact ho.close hp hd,
        by rw [hheap']; exact hl.close ho hp (.inr rfl)⟩
    · rw [closePair_of_closed hclosed]
      rw [w.heap_setHeap] at hclosed
      refine ⟨by rw [w.heap_setHeap, w.held_setHeap]; exact ho, ?_⟩
      rw [w.heap_setHeap]
      constructor
      intro q j x t hx hxd _ hj ht
      refine hl.alive hx hxd ?_ hj ht
      rintro heq
      cases heq
      rw [hclosed hx] at hxd
      cases hxd

theorem Sound.setTouched (hs : w.Sound s) {f : Pair → Pair} (hf : ∀ x, (f x).Alike x) :
    w.Sound (w.setHeap ((w.heap s).touch p f) s) := by
  constructor
  · rw [w.heap_setHeap, w.held_setHeap]
    exact hs.owned.touch hf
  · rw [w.heap_setHeap]
    exact hs.live.touch hf

/-- The timer notes what was received, and may close the pair. -/
theorem poll_cases (s : σ) (p rx : Nat) (now : Int) :
    w.poll s p rx now = s ∨ w.poll s p rx now = w.closePair (w.setHeap (w.heap s) s) p ∨
      w.poll s p rx now = w.setHeap (w.heap s) s ∨
      w.poll s p rx now = w.setHeap ((w.heap s).touch p fun pair =>
        { pair with lastRx := rx, lastActiveAt := now }) s := by
  unfold poll
  split
  · exact .inl rfl
  split
  · exact .inl rfl
  unfold Heap.poll
  split
  · next heap hrx =>
    split at hrx
    · cases hrx
    · obtain rfl : w.heap s = heap := congrArg Prod.fst hrx
      exact .inr (.inl rfl)
  · next heap hrx =>
    split at hrx
    · cases hrx
      exact .inr (.inr (.inr rfl))
    · obtain rfl : w.heap s = heap := congrArg Prod.fst hrx
      exact .inr (.inr (.inl rfl))

theorem Sound.setSame (hs : w.Sound s) : w.Sound (w.setHeap (w.heap s) s) :=
  ⟨by rw [w.heap_setHeap, w.held_setHeap]; exact hs.owned, by rw [w.heap_setHeap]; exact hs.live⟩

theorem Sound.poll (hs : w.Sound s) (p rx : Nat) (now : Int) : w.Sound (w.poll s p rx now) := by
  rcases poll_cases (w := w) s p rx now with heq | heq | heq | heq <;> rw [heq]
  · exact hs
  · exact hs.setSame.closePair p
  · exact hs.setSame
  · exact hs.setTouched fun _ => ⟨rfl, rfl, rfl, rfl, rfl⟩

/-! Closing pairs makes no orphans and takes none away. -/

theorem orphan_closePair (hs : w.Sound s) :
    Orphan o (w.heap (w.closePair s p)) i ↔ Orphan o (w.heap s) i := by
  rcases open_or (w := w) s p with ⟨pair, hp, hd⟩ | hclosed
  · rw [(closePair_of_open hp hd (.inl (hs.owned.open_held hp hd))).1]
    exact orphan_close hs.owned hp
  · rw [closePair_of_closed hclosed]

theorem orphan_of_streamClosed {j : Nat} (hs : w.Sound s)
    (hi : Orphan o (w.heap (w.streamClosed s j)) i) : Orphan o (w.heap s) i := by
  unfold streamClosed at hi
  split at hi
  · exact hi
  split at hi
  · exact hi
  dsimp only at hi
  split at hi
  · rw [w.heap_setHeap] at hi
    exact orphan_of_ended hi
  · next q _ =>
    rcases open_or (w := w) (w.setHeap ((w.heap s).ended j) s) q with ⟨pair, hp, hd⟩ | hclosed
    · have hp' := hp
      rw [w.heap_setHeap] at hp'
      have ho := hs.owned.ended j
      rw [(closePair_of_open hp hd (.inl (by rw [w.held_setHeap]; exact ho.open_held hp' hd))).1,
        w.heap_setHeap, orphan_close ho hp'] at hi
      exact orphan_of_ended hi
    · rw [closePair_of_closed hclosed, w.heap_setHeap] at hi
      exact orphan_of_ended hi

theorem orphan_of_poll {rx : Nat} {now : Int} (hs : w.Sound s)
    (hi : Orphan o (w.heap (w.poll s p rx now)) i) : Orphan o (w.heap s) i := by
  rcases poll_cases (w := w) s p rx now with heq | heq | heq | heq <;> rw [heq] at hi
  · exact hi
  · rw [orphan_closePair hs.setSame, w.heap_setHeap] at hi
    exact hi
  · rwa [w.heap_setHeap] at hi
  · rw [w.heap_setHeap] at hi
    refine (Orphan.touch ?_).mp hi
    exact fun _ => ⟨rfl, rfl, rfl, rfl, rfl⟩

/-- What is still held after `close` is another pair that was held before. -/
theorem held_closePair (hs : w.Sound s) {k q : Nat} (hk : w.held (w.closePair s p) k = some q) :
    w.held s k = some q ∧ q ≠ p := by
  rcases open_or (w := w) s p with ⟨pair, hp, hd⟩ | hclosed
  · rw [(closePair_of_open hp hd (.inl (hs.owned.open_held hp hd))).2] at hk
    by_cases hko : k = pair.owner
    · subst hko
      simp at hk
    rw [Function.update_of_ne hko] at hk
    refine ⟨hk, ?_⟩
    rintro rfl
    obtain ⟨x, hx, rfl, -⟩ := hs.owned.held_open hk
    exact hko (congrArg Pair.owner (Option.some.inj (hx.symm.trans hp)))
  · rw [closePair_of_closed hclosed] at hk
    refine ⟨hk, ?_⟩
    rintro rfl
    obtain ⟨x, hx, -, hxd⟩ := hs.owned.held_open hk
    rw [hclosed hx] at hxd
    cases hxd

theorem Sound.closeAll {ps : List Nat} (hs : w.Sound s)
    (hall : ∀ {k p : Nat}, w.held s k = some p → p ∈ ps) :
    w.Sound (ps.foldl w.closePair s) ∧ w.held (ps.foldl w.closePair s) = (fun _ => none) ∧
      ∀ o i, Orphan o (w.heap (ps.foldl w.closePair s)) i ↔ Orphan o (w.heap s) i := by
  induction ps generalizing s with
  | nil =>
    refine ⟨hs, funext fun k => ?_, fun o i => Iff.rfl⟩
    cases hk : w.held s k with
    | none => exact hk
    | some p => exact absurd (hall hk) List.not_mem_nil
  | cons p ps ih =>
    obtain ⟨hs', hheld, horphan⟩ := ih (hs.closePair p) fun hk => by
      obtain ⟨hk, hne⟩ := held_closePair hs hk
      exact (List.mem_cons.mp (hall hk)).resolve_left hne
    exact ⟨hs', hheld, fun o i => (horphan o i).trans (orphan_closePair hs)⟩

end Holder

/-! ## Bridges -/

structure Bridge where
  closed : Bool
  splices : JsMap Nat Nat
  heap : Heap

namespace Bridge

def new : Bridge := ⟨false, .empty, .empty⟩

def holder : Holder Bridge where
  heap := heap
  setHeap heap b := { b with heap }
  onDestroy pair b := { b with splices := b.splices.delete pair.owner }
  held b := b.splices.get?
  heap_setHeap _ _ := rfl
  heap_onDestroy _ _ := rfl
  held_setHeap _ _ := rfl
  held_onDestroy {b p pair} _ _ := by
    funext k
    rw [JsMap.get?_delete, Function.update_apply]

/-- `close`. The loop meets each pair of the map once, and takes it out. -/
def close (b : Bridge) : Bridge :=
  if b.closed then b
  else { b.splices.values.foldl holder.closePair { b with closed := true } with
    splices := .empty }

def isSpliceOpen (payload : Bytes) : Bool :=
  payload[4]? = some spliceOpenFlag ∧ payload.length = logicalHeaderBytes + 4

def spliceOpen (b : Bridge) (streamId : Nat) (calls : Calls) : Bridge :=
  if b.splices.has streamId ∨ maxSplicedRouteStreams ≤ b.splices.size then b.close
  else
    match b.heap.openPair streamId calls with
    | (heap, none) => { b with heap }.close
    | (heap, some p) =>
      let b := { b with heap, splices := b.splices.set streamId p }
      if calls.connect then b else b.close

def spliceReady (b : Bridge) (streamId : Nat) (calls : Calls) : Bridge :=
  match b.splices.get? streamId with
  | none => b.close
  | some p =>
    if (b.heap.pairs[p]?).any Pair.active then b.close
    else
      let b := { b with heap := b.heap.activate p }
      if calls.connect ∧ calls.relayUp ∧ calls.relayDown then b else b.close

/-- `forward`, without the frame it sends on. A send that fails closes the bridge in a
turn of its own. -/
def forward (b : Bridge) (payload : Bytes) (calls : Calls) : Bridge :=
  let streamId := readU32 payload
  if isSpliceOpen payload then b.spliceOpen streamId calls
  else if payload[4]? = some Relay.spliceReadyFlag ∧ payload.length = logicalHeaderBytes + 4 then
    b.spliceReady streamId calls
  else if payload[4]? = some Relay.resetFlag ∧ payload.length = logicalHeaderBytes then
    match b.splices.get? streamId with
    | none => b
    | some p => holder.closePair { b with splices := b.splices.delete streamId } p
  else b

/-- `payload` is one that a link opens, which a destroyed link no longer does. `replay` is one
that the inbox of `_handleExtendSource` held: it is emitted whether or not the bridge has
closed meanwhile. `close` is a link that closes, a send that fails, or `bridge.destroy`. -/
inductive Event where
  | payload (payload : Bytes) (calls : Calls)
  | replay (payload : Bytes) (calls : Calls)
  | close
  | streamClosed (i : Nat)
  | poll (p rx : Nat) (now : Int)
  deriving DecidableEq, Repr

def step (b : Bridge) : Event → Bridge
  | .payload payload calls => if b.closed then b else b.forward payload calls
  | .replay payload calls => b.forward payload calls
  | .close => b.close
  | .streamClosed i => holder.streamClosed b i
  | .poll p rx now => holder.poll b p rx now

def run (b : Bridge) (events : List Event) : Bridge := events.foldl step b

end Bridge

/-! ## Entries -/

/-- `destroyed` is that of the record's link. -/
structure Record where
  streamId : Nat
  splice : Option Nat
  destroyed : Bool
  deriving DecidableEq, Repr

/-- `records` are all records ever made. -/
structure EntryCircuit where
  spliced : Bool
  closed : Bool
  retired : Bool
  nextStreamId : Nat
  records : List Record
  sources : JsMap Nat Nat
  heap : Heap

/-- Do the checks on a frame that do not concern splices pass, those of the circuit and those
of its stream? -/
structure Checks where
  circuit : Bool
  stream : Bool
  deriving DecidableEq, Repr

namespace EntryCircuit

def new (spliced : Bool) : EntryCircuit := ⟨spliced, false, false, 2, [], .empty, .empty⟩

def setRecord (e : EntryCircuit) (r : Nat) (f : Record → Record) : EntryCircuit :=
  { e with records := e.records.modify r f }

/-- The `onDestroy` of a pair takes it out of its record if it is the one there. -/
def holder : Holder EntryCircuit where
  heap := heap
  setHeap heap e := { e with heap }
  onDestroy pair e := e.setRecord pair.owner fun record =>
    if (record.splice.bind (e.heap.pairs[·]?)).any (·.up = pair.up) then
      { record with splice := none }
    else record
  held e r := (e.records[r]?).bind Record.splice
  heap_setHeap _ _ := rfl
  heap_onDestroy _ _ := rfl
  held_setHeap _ _ := rfl
  held_onDestroy {e p pair} hup hheld := by
    funext k
    simp only [setRecord, List.getElem?_modify, Function.update_apply]
    by_cases hk : k = pair.owner
    · subst hk
      cases hr : e.records[pair.owner]? with
      | none => simp
      | some record =>
        rw [hr] at hheld
        rcases hheld with hs | hs
        · have hs : record.splice = some p := hs
          obtain ⟨pair', hp, hup⟩ := Option.map_eq_some_iff.mp hup
          simp [hs, hp, hup]
        · have hs : record.splice = none := hs
          simp [hs]
    · rw [if_neg hk]
      cases hr : e.records[k]? with
      | none => rfl
      | some record => simp [Ne.symm hk]

def closeSplice (e : EntryCircuit) (r : Nat) : EntryCircuit :=
  match holder.held e r with
  | none => e
  | some p => holder.closePair (e.setRecord r fun record => { record with splice := none }) p

/-- `record.link.destroy` with the close handler of the link. -/
def closeLeg (e : EntryCircuit) (r : Nat) : EntryCircuit :=
  match e.records[r]? with
  | none => e
  | some record =>
    if record.destroyed then e
    else
      let e := e.setRecord r fun record => { record with destroyed := true }
      if e.sources.get? record.streamId = some r then
        { e with sources := e.sources.delete record.streamId }.closeSplice r
      else e

def destroy (e : EntryCircuit) : EntryCircuit :=
  if e.closed then e
  else { e.sources.values.foldl (fun e r => (e.closeSplice r).closeLeg r)
      { e with closed := true } with sources := .empty }

/-- The number of sources `activate` admits. -/
def limit (e : EntryCircuit) : Nat := if e.spliced then maxSplicedRouteStreams else maxRouteStreams

def register (e : EntryCircuit) : EntryCircuit :=
  { e with
    nextStreamId := e.nextStreamId + 2
    records := e.records ++ [⟨e.nextStreamId, none, false⟩]
    sources := e.sources.set e.nextStreamId e.records.length }

def activate (e : EntryCircuit) : EntryCircuit :=
  if e.closed ∨ e.retired ∨ e.limit ≤ e.sources.size ∨ circuitStreamId ≤ e.nextStreamId then e
  else e.register

/-- `_fromSource`, without the frames it sends and the credit it moves. A link that a send
or the pool destroys closes in a turn of its own. -/
def _fromSource (e : EntryCircuit) (r : Nat) (payload : Payload) (calls : Calls)
    (checks : Checks) : EntryCircuit :=
  match e.records[r]? with
  | none => e
  | some record =>
    if record.destroyed then e
    else
      match decodeLogical payload with
      | none => e.closeLeg r
      | some f =>
        if f.streamId = circuitStreamId then if checks.circuit then e else e.closeLeg r
        else if f.streamId ≠ 0 then e.closeLeg r
        else
          match f.body with
          | .openStream =>
            if e.spliced = false ∨ record.splice.isSome then e.closeLeg r else e
          | .spliceOpen _ =>
            if record.splice.isSome then e.closeLeg r
            else
              match e.heap.openPair r calls with
              | (heap, none) => { e with heap }.closeLeg r
              | (heap, some p) =>
                let e := { e with heap }.setRecord r fun record => { record with splice := some p }
                if calls.connect then e else e.closeLeg r
          | .reset => e.closeSplice r
          | _ => if checks.stream then e else e.closeLeg r

/-- The part of `_receive` for a frame of a registered source. -/
def deliver (e : EntryCircuit) (r : Nat) (body : Body) (calls : Calls) (checks : Checks) :
    EntryCircuit :=
  match body with
  | .openStream | .spliceOpen _ => e.closeLeg r
  | .spliceReady _ =>
    match holder.held e r with
    | none => e.closeLeg r
    | some p =>
      if (e.heap.pairs[p]?).any Pair.active then e.closeLeg r
      else
        let e := { e with heap := e.heap.activate p }
        if calls.connect ∧ calls.relayUp ∧ calls.relayDown then e else e.closeLeg r
  | .reset => e.closeSplice r
  | _ => if checks.stream then e else e.closeLeg r

/-- `_receive`, without the frames it sends and the credit it moves. -/
def _receive (e : EntryCircuit) (payload : Payload) (calls : Calls) (checks : Checks) :
    EntryCircuit :=
  if e.closed then e
  else
    match decodeLogical payload with
    | none => e.destroy
    | some f =>
      if f.streamId = circuitStreamId then
        match f.body with
        | .credit _ => if checks.circuit then e else e.destroy
        | _ => e.destroy
      else if f.body.isData ∧ checks.circuit = false then e.destroy
      else
        match e.sources.get? f.streamId with
        | some r => e.deliver r f.body calls checks
        | none =>
          if 0 < f.streamId ∧ f.streamId % 2 = 0 ∧ f.streamId < e.nextStreamId then e
          else if f.body = .fin ∨ f.body = .reset then e
          else e.destroy

/-- `legClosed` is a record's link that closes, for any reason: its stream, a send that
fails, an idle leg of the pool. `destroy` is the shared link that closes. -/
inductive Event where
  | activate
  | retire
  | fromSource (r : Nat) (payload : Payload) (calls : Calls) (checks : Checks)
  | receive (payload : Payload) (calls : Calls) (checks : Checks)
  | legClosed (r : Nat)
  | destroy
  | streamClosed (i : Nat)
  | poll (p rx : Nat) (now : Int)

def step (e : EntryCircuit) : Event → EntryCircuit
  | .activate => e.activate
  | .retire => { e with retired := true }
  | .fromSource r payload calls checks => e._fromSource r payload calls checks
  | .receive payload calls checks => e._receive payload calls checks
  | .legClosed r => e.closeLeg r
  | .destroy => e.destroy
  | .streamClosed i => holder.streamClosed e i
  | .poll p rx now => holder.poll e p rx now

def run (e : EntryCircuit) (events : List Event) : EntryCircuit := events.foldl step e

end EntryCircuit

end HyperDht.Private.Splicing
