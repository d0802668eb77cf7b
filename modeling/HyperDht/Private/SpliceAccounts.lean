import HyperDht.Lib.Runs
import HyperDht.Private.SpliceOwners

/-!
# Every splice stream is accounted for

What a bridge and an entry owe their raw streams in every state, and the runs in which they
keep it. The invariant is that of `Owned` together with the absence of orphans; a step can
break it in one place only, where the second `_createSpliceStream` of a SPLICE_OPEN throws
after the first has returned a stream. A closed bridge moreover makes a pair that nobody
closes when it is handed a SPLICE_OPEN of the inbox.
-/

namespace HyperDht.Private.Splicing

/-! ## Accounts -/

/-- A pair and its two streams: untouched as long as the pair is open, and once it is closed
both gone, by a `close` that ran once. -/
def Together (pair : Pair) (up down : RawStream) : Prop :=
  if pair.destroyed then
    pair.closes = 1 ∧ (up.gone = true ∧ up.destroys ≤ 1) ∧ down.gone = true ∧ down.destroys ≤ 1
  else pair.closes = 0 ∧ up = .new pair.owner ∧ down = .new pair.owner

/-- Both streams of every pair are closed together, and once. -/
def Heap.Paired (h : Heap) : Prop :=
  ∀ pair ∈ h.pairs, ∃ up down, h.streams[pair.up]? = some up ∧ h.streams[pair.down]? = some down ∧
    Together pair up down

/-- The number of a pair that is not closed. -/
def Heap.IsOpen (h : Heap) (p : Nat) : Prop :=
  ∃ pair, h.pairs[p]? = some pair ∧ pair.destroyed = false

structure Bridge.Accounted (b : Bridge) : Prop where
  closed : b.closed = true → ∀ s ∈ b.heap.streams, s.gone = true
  paired : b.heap.Paired
  splices : ∀ id p, b.splices.get? id = some p → b.heap.IsOpen p
  size : b.splices.size ≤ maxSplicedRouteStreams

/-- What an entry owes: a source leg is closed with its link, and all are with the entry. -/
structure EntryCircuit.Accounted (e : EntryCircuit) : Prop where
  closed : ∀ (r : Nat) record, e.records[r]? = some record → record.destroyed = true ∨ e.closed = true →
    ∀ s ∈ e.heap.streams, s.owner = r → s.gone = true
  paired : e.heap.Paired
  splice : ∀ (r : Nat) record p, e.records[r]? = some record → record.splice = some p →
    e.heap.IsOpen p

/-! ## The condition -/

/-- Does the payload reach the calls of `_createSpliceStream`? -/
def Bridge.opens (b : Bridge) (payload : Bytes) : Bool :=
  isSpliceOpen payload && !b.splices.has (readU32 payload) &&
    b.splices.size < maxSplicedRouteStreams

/-- Where the first call returns, so does the second; and a payload of the inbox that makes
streams finds the bridge open. -/
def Bridge.Meets (b : Bridge) : Bridge.Event → Prop
  | .payload payload calls => b.closed = false → b.opens payload = true →
      calls.up.made = true → calls.down.made = true
  | .replay payload calls => b.opens payload = true →
      calls.up.made = true → calls.down.made = true ∧ b.closed = false
  | _ => True

/-- Does the payload reach the calls of `_createSpliceStream`? -/
def EntryCircuit.opens (e : EntryCircuit) (r : Nat) (payload : Payload) : Prop :=
  ∃ record f udxId, e.records[r]? = some record ∧ record.destroyed = false ∧
    record.splice = none ∧ decodeLogical payload = some f ∧ f.streamId = 0 ∧
    f.body = .spliceOpen udxId

def EntryCircuit.Meets (e : EntryCircuit) : EntryCircuit.Event → Prop
  | .fromSource r payload calls _ =>
    e.opens r payload → calls.up.made = true → calls.down.made = true
  | _ => True

/-! ## The accounts of an owner -/

section

variable {σ : Type} {w : Holder σ} {s : σ}

theorem Holder.Sound.paired (hs : w.Sound s) : (w.heap s).Paired := by
  intro pair hmem
  obtain ⟨p, hp⟩ := List.mem_iff_getElem?.mp hmem
  obtain ⟨up, hup, hsideUp⟩ := hs.owned.side hp (.inl rfl)
  obtain ⟨down, hdown, hsideDown⟩ := hs.owned.side hp (.inr rfl)
  refine ⟨up, down, hup, hdown, ?_⟩
  have hcloses := hs.owned.closes hp
  unfold Together
  split
  · next hd =>
    rw [hd] at hcloses
    have h₁ := hsideUp.destroys
    have h₂ := hsideDown.destroys
    rw [hcloses] at h₁ h₂
    exact ⟨hcloses, ⟨hsideUp.gone hd, h₁⟩, hsideDown.gone hd, h₂⟩
  · next hd =>
    have hd : pair.destroyed = false := by simpa using hd
    rw [hd] at hcloses
    -- A stream of an open pair is as new: not closed by itself, and never destroyed.
    have hnew : ∀ {i stream}, pair.Has i → (w.heap s).streams[i]? = some stream →
        Side pair stream → stream = .new pair.owner := by
      intro i stream hi hstream hside
      have hlive := hs.live.alive hp hd nofun hi hstream
      have hle := hside.destroys
      rw [hcloses] at hle
      obtain ⟨owner, destroys, destroyed⟩ := stream
      obtain rfl : owner = pair.owner := hside.owner
      obtain rfl : destroyed = false := hlive
      obtain rfl : destroys = 0 := Nat.le_zero.mp hle
      rfl
    exact ⟨hcloses, hnew (.inl rfl) hup hsideUp, hnew (.inr rfl) hdown hsideDown⟩

theorem Holder.Sound.isOpen (hs : w.Sound s) {k p : Nat} (hk : w.held s k = some p) :
    (w.heap s).IsOpen p := by
  obtain ⟨pair, hp, -, hd⟩ := hs.owned.held_open hk
  exact ⟨pair, hp, hd⟩

/-- Without orphans, the streams of an owner that holds nothing are gone. -/
theorem Holder.Sound.gone (hs : w.Sound s) (hcover : ∀ o i, ¬ Orphan o (w.heap s) i) {k : Nat}
    (hk : w.held s k = none) {stream : RawStream} (hmem : stream ∈ (w.heap s).streams)
    (howner : stream.owner = k) : stream.gone = true := by
  obtain ⟨i, hi⟩ := List.mem_iff_getElem?.mp hmem
  cases hg : stream.gone with
  | true => rfl
  | false =>
    refine absurd ⟨⟨stream, hi, hg, rfl⟩, fun {p pair} hp hhas => ?_⟩ (hcover _ i)
    obtain ⟨t, ht, hside⟩ := hs.owned.side hp hhas
    obtain rfl : stream = t := Option.some.inj (hi.symm.trans ht)
    cases hd : pair.destroyed with
    | false =>
      have := hs.owned.open_held hp hd
      rw [← hside.owner, howner, hk] at this
      cases this
    | true =>
      rw [hside.gone hd] at hg
      cases hg

end

/-! ## Bridges -/

namespace Bridge

structure Inv (b : Bridge) : Prop where
  sound : holder.Sound b
  closed : b.closed = true → ∀ id, b.splices.get? id = none
  size : b.splices.size ≤ maxSplicedRouteStreams

variable {b : Bridge} {payload : Bytes} {calls : Calls} {p i : Nat}

theorem Inv.new : Inv new where
  sound := ⟨owned_empty, ⟨fun hp => by simp [holder, Bridge.new, Heap.empty] at hp⟩⟩
  closed := nofun
  size := Nat.zero_le _

theorem Inv.accounted (hb : b.Inv) (hcover : ∀ o i, ¬ Orphan o b.heap i) : b.Accounted where
  closed hc s hs := hb.sound.gone hcover (hb.closed hc s.owner) hs rfl
  paired := hb.sound.paired
  splices _ _ hk := hb.sound.isOpen hk
  size := hb.size

/-- What the map keeps when pairs go. -/
structure Frame (b b' : Bridge) : Prop where
  closed : b'.closed = b.closed
  none : ∀ id, b.splices.get? id = none → b'.splices.get? id = none
  size : b'.splices.size ≤ b.splices.size

theorem Frame.refl (b : Bridge) : Frame b b := ⟨rfl, fun _ h => h, le_rfl⟩

theorem Frame.inv {b' : Bridge} (hf : Frame b b') (hb : b.Inv) (hs : holder.Sound b') : b'.Inv :=
  ⟨hs, fun hc id => hf.none id (hb.closed (hf.closed ▸ hc) id), hf.size.trans hb.size⟩

theorem size_delete_le (m : JsMap Nat Nat) (k : Nat) : (m.delete k).size ≤ m.size := by
  cases hk : m.get? k with
  | none => rw [JsMap.delete_of_none hk]
  | some v =>
    have := JsMap.size_delete hk
    omega

theorem frame_setHeap (b : Bridge) : ∀ h b', Frame b b' → Frame b (holder.setHeap h b') :=
  fun _ _ hf => ⟨hf.closed, hf.none, hf.size⟩

theorem Frame.delete {b' : Bridge} (hf : Frame b b') (k : Nat) :
    Frame b { b' with splices := b'.splices.delete k } := by
  refine ⟨hf.closed, fun id hid => ?_, (size_delete_le _ _).trans hf.size⟩
  rw [JsMap.get?_delete]
  split
  · rfl
  · exact hf.none id hid

theorem frame_onDestroy (b : Bridge) :
    ∀ pair b', Frame b b' → Frame b (holder.onDestroy pair b') :=
  fun pair _ hf => hf.delete pair.owner

theorem Inv.close (hb : b.Inv) :
    b.close.Inv ∧ b.close.closed = true ∧ ∀ o i, Orphan o b.close.heap i ↔ Orphan o b.heap i := by
  unfold Bridge.close
  split
  · next hc => exact ⟨hb, hc, fun o i => Iff.rfl⟩
  have hs : holder.Sound { b with closed := true } := ⟨hb.sound.owned, hb.sound.live⟩
  obtain ⟨hs', hheld, horphan⟩ := hs.closeAll fun hk => JsMap.mem_values.mpr ⟨_, hk⟩
  refine ⟨⟨⟨?_, hs'.live⟩, fun _ _ => rfl, Nat.zero_le _⟩, ?_, horphan⟩
  · have := hs'.owned
    rw [hheld] at this
    exact this
  · have : ∀ (ps : List Nat) (b : Bridge), b.closed = true →
        (ps.foldl holder.closePair b).closed = true := by
      intro ps
      induction ps with
      | nil => exact fun b hb => hb
      | cons p ps ih =>
        intro b hb
        exact ih _ (Holder.closePair_keeps (P := fun b : Bridge => b.closed = true) (fun _ _ h => h)
          (fun _ _ h => h) hb)
    exact this _ _ rfl

/-- Does a SPLICE_OPEN reach the calls of `_createSpliceStream`? -/
def reaches (b : Bridge) (streamId : Nat) : Prop :=
  b.splices.get? streamId = none ∧ b.splices.size < maxSplicedRouteStreams

theorem not_reaches {streamId : Nat}
    (h : ¬ (b.splices.has streamId ∨ maxSplicedRouteStreams ≤ b.splices.size)) :
    b.reaches streamId := by
  rw [not_or, Nat.not_le] at h
  exact ⟨by simpa [JsMap.has] using h.1, h.2⟩

theorem Inv.opened {streamId : Nat} {heap : Heap} (hb : b.Inv) (hreach : b.reaches streamId)
    (hclosed : b.closed = false) (heq : b.heap.openPair streamId calls = (heap, some p)) :
    Inv { b with heap, splices := b.splices.set streamId p } := by
  obtain ⟨ho, hl⟩ := openPair_some hb.sound.owned hb.sound.live hreach.1 heq
  refine ⟨⟨?_, hl⟩, fun hc => ?_, ?_⟩
  · have hheld : Function.update (holder.held b) streamId (some p) =
        (b.splices.set streamId p).get? := by
      funext k
      rw [JsMap.get?_set, Function.update_apply]
      rfl
    rw [hheld] at ho
    exact ho
  · rw [hclosed] at hc
    cases hc
  · have := JsMap.size_set_new hreach.1 p
    have := hreach.2
    dsimp only
    omega

theorem Inv.unopened {streamId : Nat} {heap : Heap} (hb : b.Inv)
    (heq : b.heap.openPair streamId calls = (heap, none)) : Inv { b with heap } := by
  obtain ⟨ho, hl⟩ := openPair_none hb.sound.owned hb.sound.live heq
  exact ⟨⟨ho, hl⟩, hb.closed, hb.size⟩

/-- A step that keeps the invariant and makes no orphan. -/
structure Kept (b b' : Bridge) : Prop where
  inv : b'.Inv
  orphan : ∀ {o i : Nat}, Orphan o b'.heap i → Orphan o b.heap i

theorem Kept.refl (hb : b.Inv) : Kept b b := ⟨hb, fun hi => hi⟩

theorem Kept.close {b' : Bridge} (hk : Kept b b') : Kept b b'.close :=
  ⟨hk.inv.close.1, fun {o i} hi => hk.orphan ((hk.inv.close.2.2 o i).mp hi)⟩

theorem Inv.kept_spliceOpen {streamId : Nat} (hb : b.Inv)
    (hmeets : b.reaches streamId → calls.up.made = true →
      calls.down.made = true ∧ b.closed = false) : Kept b (b.spliceOpen streamId calls) := by
  unfold spliceOpen
  split
  · exact (Kept.refl hb).close
  next hrefuse =>
  have hreach := not_reaches hrefuse
  split
  · next heap heq =>
    have hk : Kept b { b with heap } := ⟨hb.unopened heq,
      orphan_of_openPair heq fun hup => (hmeets hreach hup).1⟩
    exact hk.close
  · next heap p heq =>
    have hup := made_of_openPair heq
    have hk : Kept b { b with heap, splices := b.splices.set streamId p } :=
      ⟨hb.opened hreach (hmeets hreach hup).2 heq,
        orphan_of_openPair heq fun hup => (hmeets hreach hup).1⟩
    dsimp only
    split
    · exact hk
    · exact hk.close

theorem Inv.kept_spliceReady (hb : b.Inv) (streamId : Nat) (calls : Calls) :
    Kept b (b.spliceReady streamId calls) := by
  unfold spliceReady
  split
  · exact (Kept.refl hb).close
  · next p _ =>
    split
    · exact (Kept.refl hb).close
    · have hs : holder.Sound { b with heap := b.heap.activate p } :=
        hb.sound.setTouched fun _ => ⟨rfl, rfl, rfl, rfl, rfl⟩
      have hk : Kept b { b with heap := b.heap.activate p } := by
        refine ⟨⟨hs, hb.closed, hb.size⟩, fun hi => ?_⟩
        refine (Orphan.touch ?_).mp hi
        exact fun _ => ⟨rfl, rfl, rfl, rfl, rfl⟩
      dsimp only
      split
      · exact hk
      · exact hk.close

theorem Inv.kept_reset {streamId : Nat} (hb : b.Inv) (hget : b.splices.get? streamId = some p) :
    Kept b (holder.closePair { b with splices := b.splices.delete streamId } p) := by
  have hheld : holder.held { b with splices := b.splices.delete streamId } =
      Function.update (holder.held b) streamId none := by
    funext k
    rw [Function.update_apply]
    exact JsMap.get?_delete _ _ _
  have hheap : holder.heap { b with splices := b.splices.delete streamId } = holder.heap b := rfl
  obtain ⟨hs, -, pair, hp, hclose⟩ := hb.sound.closeHeld hget hheap hheld
  refine ⟨?_, fun {o i} hi => ?_⟩
  · exact (Holder.closePair_keeps (frame_setHeap b) (frame_onDestroy b)
      ((Frame.refl b).delete streamId)).inv hb hs
  · have hi : Orphan o ((holder.heap b).close p pair) i := hclose ▸ hi
    exact (orphan_close hb.sound.owned hp).mp hi

theorem opens_iff : b.opens payload = true ↔
    isSpliceOpen payload = true ∧ b.reaches (readU32 payload) := by
  simp [opens, reaches, JsMap.has, and_assoc]

theorem Inv.kept_forward (hb : b.Inv)
    (hmeets : b.opens payload = true → calls.up.made = true →
      calls.down.made = true ∧ b.closed = false) : Kept b (b.forward payload calls) := by
  unfold forward
  dsimp only
  split
  · next hopen => exact hb.kept_spliceOpen fun hr => hmeets (opens_iff.mpr ⟨hopen, hr⟩)
  split
  · exact hb.kept_spliceReady _ _
  split
  · split
    · exact .refl hb
    · next hget => exact hb.kept_reset hget
  · exact .refl hb

theorem Inv.kept_step (hb : b.Inv) {event : Event} (hmeets : b.Meets event) :
    Kept b (b.step event) := by
  cases event with
  | payload payload calls =>
    unfold step
    dsimp only
    split
    · exact .refl hb
    · next hc =>
      have hc : b.closed = false := by simpa using hc
      exact hb.kept_forward fun ho hup => ⟨hmeets hc ho hup, hc⟩
  | replay payload calls => exact hb.kept_forward hmeets
  | close => exact (Kept.refl hb).close
  | streamClosed i =>
    exact ⟨(Holder.streamClosed_keeps (frame_setHeap b) (frame_onDestroy b) (.refl b)).inv hb
      (hb.sound.streamClosed i), Holder.orphan_of_streamClosed hb.sound⟩
  | poll p rx now =>
    exact ⟨(Holder.poll_keeps (frame_setHeap b) (frame_onDestroy b) (.refl b)).inv hb
      (hb.sound.poll p rx now), Holder.orphan_of_poll hb.sound⟩

/-- A SPLICE_OPEN that does not meet the condition leaves a closed bridge with a stream that
is not gone. -/
theorem Inv.not_accounted_spliceOpen {streamId : Nat} (hb : b.Inv) (hreach : b.reaches streamId)
    (hup : calls.up.made = true) (hnot : calls.down.made = false ∨ b.closed = true) :
    ¬ (b.spliceOpen streamId calls).Accounted := by
  intro hacc
  have hadmit : ¬ (b.splices.has streamId ∨ maxSplicedRouteStreams ≤ b.splices.size) := by
    simp [JsMap.has, hreach.1, hreach.2]
  unfold spliceOpen at hacc
  rw [if_neg hadmit] at hacc
  rcases hmade : b.heap.openPair streamId calls with ⟨heap, made⟩
  rw [hmade] at hacc
  cases made with
  | none =>
    have hinv := hb.unopened hmade
    obtain ⟨-, hclosed, horphan⟩ := hinv.close
    cases hdown : calls.down.made with
    | false =>
      -- The stream of the first call belongs to no pair, and `close` does not reach it.
      obtain ⟨-, i, ho⟩ := exists_orphan_openPair hb.sound.owned hmade hup hdown
      obtain ⟨⟨s, hs, hg, -⟩, -⟩ := (horphan _ i).mpr ho
      have := hacc.closed hclosed s (List.mem_of_getElem? hs)
      rw [hg] at this
      cases this
    | true =>
      have hc : b.closed = true := hnot.resolve_left (by simp [hdown])
      obtain ⟨s, hs, hg⟩ := exists_open_openPair hb.sound.owned hmade hup
      have heq : Bridge.close { b with heap } = { b with heap } := if_pos hc
      dsimp only at hacc
      rw [heq] at hacc
      have := hacc.closed hc s hs
      rw [hg] at this
      cases this
  | some p =>
    obtain ⟨s, hs, hg⟩ := exists_open_openPair hb.sound.owned hmade hup
    cases hdown : calls.down.made with
    | false =>
      obtain ⟨hnone, -⟩ := exists_orphan_openPair hb.sound.owned hmade hup hdown
      cases hnone
    | true =>
      have hc : b.closed = true := hnot.resolve_left (by simp [hdown])
      have heq : Bridge.close { b with heap, splices := b.splices.set streamId p } =
          { b with heap, splices := b.splices.set streamId p } := if_pos hc
      dsimp only at hacc
      rw [heq, ite_self] at hacc
      have := hacc.closed hc s hs
      rw [hg] at this
      cases this

theorem Inv.not_accounted_step (hb : b.Inv) {event : Event} (hnot : ¬ b.Meets event) :
    ¬ (b.step event).Accounted := by
  cases event with
  | payload payload calls =>
    simp only [Meets, Classical.not_imp] at hnot
    obtain ⟨hc, hopens, hup, hdown⟩ := hnot
    obtain ⟨hopen, hreach⟩ := opens_iff.mp hopens
    simp only [step, hc, Bool.false_eq_true, if_false, forward, hopen, if_true]
    exact hb.not_accounted_spliceOpen hreach hup (.inl (by simpa using hdown))
  | replay payload calls =>
    simp only [Meets, Classical.not_imp] at hnot
    obtain ⟨hopens, hup, hnot⟩ := hnot
    obtain ⟨hopen, hreach⟩ := opens_iff.mp hopens
    simp only [step, forward, hopen, if_true]
    refine hb.not_accounted_spliceOpen hreach hup ?_
    rw [not_and_or] at hnot
    simpa using hnot
  | close => exact absurd trivial hnot
  | streamClosed i => exact absurd trivial hnot
  | poll p rx now => exact absurd trivial hnot

/-- The invariant of a run whose steps meet the condition. -/
def Whole (b : Bridge) : Prop := b.Inv ∧ ∀ o i, ¬ Orphan o b.heap i

theorem whole_new : Whole new := ⟨.new, fun o i hi => by
  obtain ⟨⟨s, hs, -⟩, -⟩ := hi
  simp [new, Heap.empty] at hs⟩

theorem allGood_iff (events : List Event) :
    AllGood step Accounted new events ↔ AllMeet step Meets new events := by
  refine allGood_iff_allMeet (I := Whole) whole_new ?_ ?_ ?_ events
  · intro b event hb hmeets
    have hk := hb.1.kept_step hmeets
    exact ⟨hk.inv, fun o i hi => hb.2 o i (hk.orphan hi)⟩
  · exact fun b hb => hb.1.accounted hb.2
  · exact fun b event hb hnot => hb.1.not_accounted_step hnot

end Bridge

/-! ## Entries -/

namespace EntryCircuit

/-- What closing a splice leaves of a record. -/
def core (record : Record) : Nat × Bool := (record.streamId, record.destroyed)

def cores (e : EntryCircuit) : List (Nat × Bool) := e.records.map core

variable {e e' : EntryCircuit} {r p i id : Nat} {d : Bool}

theorem cores_setRecord {f : Record → Record} (hf : ∀ record, core (f record) = core record)
    (e : EntryCircuit) (r : Nat) : (e.setRecord r f).cores = e.cores :=
  map_modify_of_same fun record _ => hf record

/-- Only the splices of the records may differ, and those that go. -/
structure Frame (e e' : EntryCircuit) : Prop where
  closed : e'.closed = e.closed
  nextStreamId : e'.nextStreamId = e.nextStreamId
  sources : e'.sources = e.sources
  cores : e'.cores = e.cores
  none : ∀ k, holder.held e k = none → holder.held e' k = none

theorem Frame.refl (e : EntryCircuit) : Frame e e := ⟨rfl, rfl, rfl, rfl, fun _ h => h⟩

theorem Frame.setRecord (hf : Frame e e') {f : Record → Record}
    (hcore : ∀ record, core (f record) = core record)
    (hnone : ∀ record, record.splice = .none → (f record).splice = .none) (r : Nat) :
    Frame e (e'.setRecord r f) := by
  refine ⟨hf.closed, hf.nextStreamId, hf.sources, (cores_setRecord hcore e' r).trans hf.cores,
    fun k hk => ?_⟩
  have hk := hf.none k hk
  simp only [holder, EntryCircuit.setRecord, List.getElem?_modify] at hk ⊢
  cases hr : e'.records[k]? with
  | none => rfl
  | some record =>
    rw [hr] at hk
    have hk : record.splice = .none := hk
    by_cases hrk : r = k
    · simp [hrk, hnone record hk]
    · simp [hrk, hk]

theorem frame_setHeap (e : EntryCircuit) : ∀ h e', Frame e e' → Frame e (holder.setHeap h e') :=
  fun _ _ hf => ⟨hf.closed, hf.nextStreamId, hf.sources, hf.cores, hf.none⟩

theorem frame_onDestroy (e : EntryCircuit) :
    ∀ pair e', Frame e e' → Frame e (holder.onDestroy pair e') := by
  intro pair e' hf
  refine hf.setRecord ?_ ?_ pair.owner
  · intro record
    split <;> rfl
  · intro record hnone
    split
    · rfl
    · exact hnone

theorem held_setSplice (e : EntryCircuit) (r : Nat) (splice : Option Nat) (hr : r < e.records.length) :
    holder.held (e.setRecord r fun record => { record with splice }) =
      Function.update (holder.held e) r splice := by
  funext k
  simp only [holder, EntryCircuit.setRecord, List.getElem?_modify, Function.update_apply]
  by_cases hk : k = r
  · subst hk
    simp [hr]
  · rw [if_neg hk]
    cases e.records[k]? with
    | none => rfl
    | some record => simp [Ne.symm hk]

/-- `closeSplice` takes the splice of one record and destroys no other stream. -/
theorem closeSplice_spec (hs : holder.Sound e) (r : Nat) :
    holder.Sound (e.closeSplice r) ∧
      holder.held (e.closeSplice r) = Function.update (holder.held e) r none ∧
      Frame e (e.closeSplice r) ∧ ∀ o i, Orphan o (e.closeSplice r).heap i ↔ Orphan o e.heap i := by
  unfold closeSplice
  split
  · next hnone =>
    exact ⟨hs, by rw [← hnone, Function.update_eq_self], .refl e, fun o i => Iff.rfl⟩
  · next p hheld =>
    have hr : r < e.records.length := by
      obtain ⟨record, hrecord, -⟩ := Option.bind_eq_some_iff.mp hheld
      exact (List.getElem?_eq_some_iff.mp hrecord).1
    have hheap : holder.heap (e.setRecord r fun record => { record with splice := none }) =
        holder.heap e := rfl
    obtain ⟨hs', hheld', pair, hp, hclose⟩ :=
      hs.closeHeld hheld hheap (held_setSplice e r none hr)
    refine ⟨hs', hheld', ?_, fun o i => ?_⟩
    · refine Holder.closePair_keeps (frame_setHeap e) (frame_onDestroy e) ?_
      refine (Frame.refl e).setRecord ?_ ?_ r
      · exact fun _ => rfl
      · exact fun _ _ => rfl
    · have horphan := orphan_close (o := o) (i := i) hs.owned hp
      rw [← hclose] at horphan
      exact horphan

/-! ### Closing legs -/

/-- The invariant, but for what a closed entry adds. -/
structure Legs (e : EntryCircuit) : Prop where
  sound : holder.Sound e
  live_source : ∀ {r id : Nat}, e.cores[r]? = some (id, false) → e.sources.get? id = some r
  held_none : ∀ {r id : Nat}, e.cores[r]? = some (id, true) → holder.held e r = none
  ids : ∀ {r id : Nat} {d : Bool}, e.cores[r]? = some (id, d) → id < e.nextStreamId

theorem Legs.closeSplice (he : e.Legs) (r : Nat) : (e.closeSplice r).Legs := by
  obtain ⟨hs, hheld, hf, -⟩ := closeSplice_spec he.sound r
  refine ⟨hs, fun hc => ?_, fun {q id} hc => ?_, fun hc => ?_⟩
  · rw [hf.cores] at hc
    rw [hf.sources]
    exact he.live_source hc
  · rw [hf.cores] at hc
    rw [hheld, Function.update_apply]
    split
    · rfl
    · exact he.held_none hc
  · rw [hf.cores] at hc
    rw [hf.nextStreamId]
    exact he.ids hc

theorem held_setRecord {f : Record → Record} (hf : ∀ record, (f record).splice = record.splice)
    (e : EntryCircuit) (r : Nat) : holder.held (e.setRecord r f) = holder.held e := by
  funext k
  simp only [holder, EntryCircuit.setRecord, List.getElem?_modify]
  cases e.records[k]? with
  | none => rfl
  | some record =>
    by_cases hk : r = k
    · simp [hk, hf]
    · simp [hk]

/-- A closed leg in the list of `cores`. -/
def shut (c : Nat × Bool) : Nat × Bool := (c.1, true)

theorem cores_get {record : Record} (hr : e.records[r]? = some record) :
    e.cores[r]? = some (core record) := by
  rw [cores, List.getElem?_map, hr]
  rfl

theorem modify_shut_self (h : ∀ c, e.cores[r]? = some c → shut c = c) :
    e.cores = e.cores.modify r shut := by
  have := map_modify_of_same (g := id) h
  rw [List.map_id, List.map_id] at this
  exact this.symm

theorem Legs.closed {record : Record} (he : e.Legs) (hr : e.records[r]? = some record)
    (hopen : record.destroyed = false) :
    let t := { e.setRecord r (fun record => { record with destroyed := true }) with
      sources := e.sources.delete record.streamId }
    (t.closeSplice r).Legs ∧ (t.closeSplice r).closed = e.closed ∧
      (t.closeSplice r).cores = e.cores.modify r shut ∧
      ∀ o i, Orphan o (t.closeSplice r).heap i ↔ Orphan o e.heap i := by
  intro t
  have hcore : e.cores[r]? = some (record.streamId, false) := by
    rw [cores_get hr, core, hopen]
  have hheld : holder.held t = holder.held e := by
    refine (held_setRecord ?_ e r : holder.held (e.setRecord r _) = _)
    exact fun _ => rfl
  have ht : holder.Sound t := ⟨hheld ▸ he.sound.owned, he.sound.live⟩
  have hcores : t.cores = e.cores.modify r shut := by
    apply List.ext_getElem?
    intro k
    simp only [t, cores, EntryCircuit.setRecord, List.getElem?_map, List.getElem?_modify]
    cases e.records[k]? with
    | none => rfl
    | some record =>
      by_cases hk : r = k
      · simp [hk, core, shut]
      · simp [hk]
  obtain ⟨hs, hheld', hf, horphan⟩ := closeSplice_spec ht r
  have hcores' := hf.cores.trans hcores
  refine ⟨⟨hs, fun {q id} hq => ?_, fun {q id} hq => ?_, fun {q id d} hq => ?_⟩, hf.closed,
    hcores', horphan⟩
  · rw [hcores', List.getElem?_modify] at hq
    obtain ⟨c, hc, hcq⟩ := Option.map_eq_some_iff.mp hq
    by_cases hk : r = q
    · rw [if_pos hk] at hcq
      cases hcq
    rw [if_neg hk] at hcq
    subst hcq
    have hsource := he.live_source hc
    rw [hf.sources]
    -- The id is another one: the closed leg's is that of `r`.
    rw [JsMap.get?_delete_ne, hsource]
    rintro rfl
    exact hk (Option.some.inj ((he.live_source hcore).symm.trans hsource))
  · rw [hcores', List.getElem?_modify] at hq
    rw [hheld', hheld, Function.update_apply]
    split
    · rfl
    · next hne =>
      simp only [if_neg (Ne.symm hne)] at hq
      exact he.held_none (by simpa using hq)
  · rw [hcores', List.getElem?_modify] at hq
    obtain ⟨c, hc, hcq⟩ := Option.map_eq_some_iff.mp hq
    have hid : c.1 = id := by
      split at hcq
      · exact congrArg Prod.fst hcq
      · exact congrArg Prod.fst hcq
    rw [hf.nextStreamId]
    exact hid ▸ he.ids hc

theorem closeLeg_spec (he : e.Legs) (r : Nat) :
    (e.closeLeg r).Legs ∧ (e.closeLeg r).closed = e.closed ∧
      (e.closeLeg r).cores = e.cores.modify r shut ∧
      ∀ o i, Orphan o (e.closeLeg r).heap i ↔ Orphan o e.heap i := by
  unfold closeLeg
  split
  · next hnone =>
    refine ⟨he, rfl, modify_shut_self fun c hc => ?_, fun o i => Iff.rfl⟩
    rw [cores, List.getElem?_map, hnone] at hc
    cases hc
  · next record hr =>
    split
    · next hd =>
      refine ⟨he, rfl, modify_shut_self fun c hc => ?_, fun o i => Iff.rfl⟩
      rw [cores_get hr, core, hd] at hc
      cases hc
      rfl
    · next hd =>
      have hd : record.destroyed = false := by simpa using hd
      have hsource : e.sources.get? record.streamId = some r :=
        he.live_source (by rw [cores_get hr, core, hd])
      dsimp only
      rw [if_pos (show (e.setRecord r _).sources.get? record.streamId = some r from hsource)]
      exact he.closed hr hd

/-! ### Closing the entry -/

theorem get?_shutAll (rs : List Nat) (cs : List (Nat × Bool)) (q : Nat) :
    (rs.foldl (fun cs r => cs.modify r shut) cs)[q]? =
      (cs[q]?).map fun c => if q ∈ rs then shut c else c := by
  induction rs generalizing cs with
  | nil => simp
  | cons r rs ih =>
    rw [List.foldl_cons, ih, List.getElem?_modify, Option.map_eq_map, Option.map_map]
    congr 1
    funext c
    by_cases hq : r = q
    · subst hq
      by_cases hr : r ∈ rs
      · simp [hr, shut]
      · simp [hr]
    · simp [hq, Ne.symm hq]

theorem closeAll_spec (he : e.Legs) (rs : List Nat) :
    let e' := rs.foldl (fun e r => (e.closeSplice r).closeLeg r) e
    e'.Legs ∧ e'.closed = e.closed ∧
      e'.cores = rs.foldl (fun cs r => cs.modify r shut) e.cores ∧
      ∀ o i, Orphan o e'.heap i ↔ Orphan o e.heap i := by
  induction rs generalizing e with
  | nil => exact ⟨he, rfl, rfl, fun o i => Iff.rfl⟩
  | cons r rs ih =>
    obtain ⟨-, -, hf, horphan₁⟩ := closeSplice_spec he.sound r
    obtain ⟨he₂, hclosed₂, hcores₂, horphan₂⟩ := closeLeg_spec (he.closeSplice r) r
    obtain ⟨he₃, hclosed₃, hcores₃, horphan₃⟩ := ih he₂
    refine ⟨he₃, ?_, ?_, fun o i => ?_⟩
    · exact hclosed₃.trans (hclosed₂.trans hf.closed)
    · rw [List.foldl_cons, List.foldl_cons]
      refine hcores₃.trans ?_
      rw [hcores₂, hf.cores]
    · exact (horphan₃ o i).trans ((horphan₂ o i).trans (horphan₁ o i))

structure Inv (e : EntryCircuit) : Prop where
  legs : e.Legs
  closed : e.closed = true → ∀ {r id : Nat} {d : Bool}, e.cores[r]? = some (id, d) → d = true

theorem Inv.new (spliced : Bool) : Inv (new spliced) where
  legs := by
    refine ⟨⟨owned_empty, ⟨fun hp => ?_⟩⟩, fun hc => ?_, fun hc => ?_, fun hc => ?_⟩
    · simp [holder, EntryCircuit.new, Heap.empty] at hp
    · simp [cores, EntryCircuit.new] at hc
    · simp [cores, EntryCircuit.new] at hc
    · simp [cores, EntryCircuit.new] at hc
  closed := nofun

/-- A step that keeps the invariant and makes no orphan. -/
structure Kept (e e' : EntryCircuit) : Prop where
  inv : e'.Inv
  orphan : ∀ {o i : Nat}, Orphan o e'.heap i → Orphan o e.heap i

theorem Kept.refl (he : e.Inv) : Kept e e := ⟨he, fun hi => hi⟩

theorem Inv.closeSplice (he : e.Inv) (r : Nat) : (e.closeSplice r).Inv := by
  obtain ⟨-, -, hf, -⟩ := closeSplice_spec he.legs.sound r
  refine ⟨he.legs.closeSplice r, fun hc => ?_⟩
  rw [hf.closed] at hc
  rw [hf.cores]
  exact he.closed hc

theorem Kept.closeSplice (hk : Kept e e') (r : Nat) : Kept e (e'.closeSplice r) :=
  ⟨hk.inv.closeSplice r, fun {o i} hi =>
    hk.orphan (((closeSplice_spec hk.inv.legs.sound r).2.2.2 o i).mp hi)⟩

theorem Kept.closeLeg (hk : Kept e e') (r : Nat) : Kept e (e'.closeLeg r) := by
  obtain ⟨hlegs, hclosed, hcores, horphan⟩ := closeLeg_spec hk.inv.legs r
  refine ⟨⟨hlegs, fun hc {q id d} hq => ?_⟩, fun {o i} hi => hk.orphan ((horphan o i).mp hi)⟩
  rw [hclosed] at hc
  rw [hcores, List.getElem?_modify] at hq
  obtain ⟨c, hcq, heq⟩ := Option.map_eq_some_iff.mp hq
  split at heq
  · cases heq
    rfl
  · subst heq
    exact hk.inv.closed hc hcq

theorem Kept.destroy (hk : Kept e e') : Kept e e'.destroy := by
  unfold EntryCircuit.destroy
  split
  · exact hk
  have hlegs := hk.inv.legs
  have hlegs' : Legs { e' with closed := true } :=
    ⟨⟨hlegs.sound.owned, hlegs.sound.live⟩, hlegs.live_source, hlegs.held_none, hlegs.ids⟩
  obtain ⟨hl, hclosed, hcores, horphan⟩ := closeAll_spec hlegs' e'.sources.values
  -- A leg that the loop did not close was closed before: an open one is in `sources`.
  have hshut : ∀ {r id : Nat} {d : Bool},
      (cores (e'.sources.values.foldl (fun (e : EntryCircuit) r => (e.closeSplice r).closeLeg r)
        { e' with closed := true }))[r]? = some (id, d) → d = true := by
    intro r id d hr
    rw [hcores, get?_shutAll] at hr
    obtain ⟨c, hc, heq⟩ := Option.map_eq_some_iff.mp hr
    split at heq
    · cases heq
      rfl
    · next hmem =>
      subst heq
      cases d with
      | true => rfl
      | false => exact absurd (JsMap.mem_values.mpr ⟨id, hlegs.live_source hc⟩) hmem
  refine ⟨⟨⟨⟨hl.sound.owned, hl.sound.live⟩, fun hr => ?_, hl.held_none, hl.ids⟩, fun _ => hshut⟩,
    fun {o i} hi => hk.orphan ((horphan o i).mp hi)⟩
  cases hshut hr

/-! ### The steps of an entry -/

theorem cores_register {c : Nat × Bool} (hc : e.register.cores[r]? = some c) :
    e.cores[r]? = some c ∨ r = e.records.length ∧ c = (e.nextStreamId, false) := by
  unfold cores register at hc
  rw [List.map_append] at hc
  simpa [cores, core] using getElem?_concat_iff.mp hc

theorem held_register (e : EntryCircuit) : holder.held e.register = holder.held e := by
  funext k
  show ((e.records ++ [_])[k]?).bind Record.splice = (e.records[k]?).bind Record.splice
  rcases Nat.lt_trichotomy k e.records.length with hk | rfl | hk
  · rw [List.getElem?_append_left hk]
  · simp
  · rw [List.getElem?_eq_none (by simp; omega), List.getElem?_eq_none hk.le]

theorem Legs.register (he : e.Legs) : e.register.Legs := by
  refine ⟨⟨?_, he.sound.live⟩, fun {r id} hc => ?_, fun {r id} hc => ?_, fun {r id d} hc => ?_⟩
  · rw [held_register]
    exact he.sound.owned
  · rcases cores_register hc with hc | ⟨rfl, heq⟩
    · have := he.ids hc
      refine (JsMap.get?_set_ne _ _ ?_).trans (he.live_source hc)
      omega
    · cases heq
      exact JsMap.get?_set_self _ _ _
  · rcases cores_register hc with hc | ⟨-, heq⟩
    · rw [held_register]
      exact he.held_none hc
    · cases heq
  · have hnext : e.register.nextStreamId = e.nextStreamId + 2 := rfl
    rcases cores_register hc with hc | ⟨-, heq⟩
    · have := he.ids hc
      omega
    · cases heq
      omega

theorem Inv.kept_activate (he : e.Inv) : Kept e e.activate := by
  unfold activate
  split
  · exact .refl he
  next hadmit =>
  exact ⟨⟨he.legs.register, fun hc {r id d} _ => absurd (.inl hc) hadmit⟩, fun hi => hi⟩

theorem Kept.opened {record : Record} {heap : Heap} {calls : Calls} (he : e.Inv)
    (hr : e.records[r]? = some record) (hd : record.destroyed = false)
    (hsplice : record.splice = none) (hc : calls.up.made = true → calls.down.made = true)
    (heq : e.heap.openPair r calls = (heap, some p)) :
    Kept e ({ e with heap }.setRecord r fun record => { record with splice := some p }) := by
  have hlt := (List.getElem?_eq_some_iff.mp hr).1
  have hheld : holder.held e r = none := by
    show (e.records[r]?).bind Record.splice = none
    rw [hr]
    exact hsplice
  obtain ⟨ho, hl⟩ := openPair_some he.legs.sound.owned he.legs.sound.live hheld heq
  have hheld' := held_setSplice { e with heap } r (some p) hlt
  have hcores : cores ({ e with heap }.setRecord r fun record => { record with splice := some p }) =
      e.cores := by
    refine (cores_setRecord ?_ _ _).trans rfl
    exact fun _ => rfl
  refine ⟨⟨⟨⟨?_, hl⟩, fun hq => ?_, fun {q id} hq => ?_, fun hq => ?_⟩, fun hcl => ?_⟩,
    orphan_of_openPair heq hc⟩
  · rw [hheld']
    exact ho
  · rw [hcores] at hq
    exact he.legs.live_source hq
  · rw [hcores] at hq
    rw [hheld', Function.update_of_ne]
    · exact he.legs.held_none hq
    · rintro rfl
      rw [cores_get hr, core, hd] at hq
      cases hq
  · rw [hcores] at hq
    exact he.legs.ids hq
  · rw [hcores]
    exact he.closed hcl

theorem Inv.unopened {heap : Heap} {calls : Calls} (he : e.Inv)
    (heq : e.heap.openPair r calls = (heap, none)) : Inv { e with heap } := by
  obtain ⟨ho, hl⟩ := openPair_none he.legs.sound.owned he.legs.sound.live heq
  exact ⟨⟨⟨ho, hl⟩, he.legs.live_source, he.legs.held_none, he.legs.ids⟩, he.closed⟩

theorem Inv.kept_fromSource {payload : Payload} {calls : Calls} (checks : Checks) (he : e.Inv)
    (hmeets : e.opens r payload → calls.up.made = true → calls.down.made = true) :
    Kept e (e._fromSource r payload calls checks) := by
  have hclose := (Kept.refl he).closeLeg r
  unfold _fromSource
  split
  · exact .refl he
  next record hr =>
  split
  · exact .refl he
  next hd =>
  split
  · exact hclose
  next f hf =>
  split
  · split
    · exact .refl he
    · exact hclose
  split
  · exact hclose
  next hid =>
  split
  · split
    · exact hclose
    · exact .refl he
  · next udxId hbody =>
    split
    · exact hclose
    next hsplice =>
    have hd : record.destroyed = false := by simpa using hd
    have hsplice : record.splice = none := by simpa using hsplice
    have hc := hmeets ⟨record, f, udxId, hr, hd, hsplice, hf, by simpa using hid, hbody⟩
    split
    · next heap heq =>
      have hk : Kept e { e with heap } := ⟨he.unopened heq, orphan_of_openPair heq hc⟩
      exact hk.closeLeg r
    · next heap p heq =>
      have hk := Kept.opened he hr hd hsplice hc heq
      dsimp only
      split
      · exact hk
      · exact hk.closeLeg r
  · exact (Kept.refl he).closeSplice r
  · split
    · exact .refl he
    · exact hclose

theorem Inv.kept_deliver (he : e.Inv) (r : Nat) (body : Body) (calls : Calls) (checks : Checks) :
    Kept e (e.deliver r body calls checks) := by
  have hclose := (Kept.refl he).closeLeg r
  unfold deliver
  split
  · exact hclose
  · exact hclose
  · split
    · exact hclose
    · next p _ =>
      split
      · exact hclose
      · have hs : holder.Sound { e with heap := e.heap.activate p } :=
          he.legs.sound.setTouched fun _ => ⟨rfl, rfl, rfl, rfl, rfl⟩
        have hk : Kept e { e with heap := e.heap.activate p } := by
          refine ⟨⟨⟨hs, he.legs.live_source, he.legs.held_none, he.legs.ids⟩, he.closed⟩,
            fun hi => ?_⟩
          refine (Orphan.touch ?_).mp hi
          exact fun _ => ⟨rfl, rfl, rfl, rfl, rfl⟩
        dsimp only
        split
        · exact hk
        · exact hk.closeLeg r
  · exact (Kept.refl he).closeSplice r
  · split
    · exact .refl he
    · exact hclose

theorem Inv.kept_receive (he : e.Inv) (payload : Payload) (calls : Calls) (checks : Checks) :
    Kept e (e._receive payload calls checks) := by
  have hdestroy := (Kept.refl he).destroy
  unfold _receive
  split
  · exact .refl he
  split
  · exact hdestroy
  split
  · split
    · split
      · exact .refl he
      · exact hdestroy
    · exact hdestroy
  split
  · exact hdestroy
  split
  · exact he.kept_deliver _ _ _ _
  split
  · exact .refl he
  split
  · exact .refl he
  · exact hdestroy

theorem Frame.inv (hf : Frame e e') (he : e.Inv) (hs : holder.Sound e') : e'.Inv := by
  refine ⟨⟨hs, fun hc => ?_, fun hc => ?_, fun hc => ?_⟩, fun hcl => ?_⟩
  · rw [hf.cores] at hc
    rw [hf.sources]
    exact he.legs.live_source hc
  · rw [hf.cores] at hc
    exact hf.none _ (he.legs.held_none hc)
  · rw [hf.cores] at hc
    rw [hf.nextStreamId]
    exact he.legs.ids hc
  · rw [hf.closed] at hcl
    rw [hf.cores]
    exact he.closed hcl

theorem Inv.kept_step (he : e.Inv) {event : Event} (hmeets : e.Meets event) :
    Kept e (e.step event) := by
  cases event with
  | activate => exact he.kept_activate
  | retire =>
    have hs : holder.Sound { e with retired := true } := ⟨he.legs.sound.owned, he.legs.sound.live⟩
    exact ⟨⟨⟨hs, he.legs.live_source, he.legs.held_none, he.legs.ids⟩, he.closed⟩, fun hi => hi⟩
  | fromSource r payload calls checks => exact he.kept_fromSource checks hmeets
  | receive payload calls checks => exact he.kept_receive payload calls checks
  | legClosed r => exact (Kept.refl he).closeLeg r
  | destroy => exact (Kept.refl he).destroy
  | streamClosed i =>
    exact ⟨(Holder.streamClosed_keeps (frame_setHeap e) (frame_onDestroy e) (.refl e)).inv he
      (he.legs.sound.streamClosed i), Holder.orphan_of_streamClosed he.legs.sound⟩
  | poll p rx now =>
    exact ⟨(Holder.poll_keeps (frame_setHeap e) (frame_onDestroy e) (.refl e)).inv he
      (he.legs.sound.poll p rx now), Holder.orphan_of_poll he.legs.sound⟩

theorem Inv.accounted (he : e.Inv) (hcover : ∀ o i, ¬ Orphan o e.heap i) : e.Accounted where
  closed r record hr hclosed s hs howner := by
    have hcore := cores_get hr
    have hd : record.destroyed = true := by
      rcases hclosed with hd | hc
      · exact hd
      · exact he.closed hc hcore
    rw [core, hd] at hcore
    exact he.legs.sound.gone hcover (he.legs.held_none hcore) hs howner
  paired := he.legs.sound.paired
  splice r record p hr hsplice := by
    refine he.legs.sound.isOpen (k := r) ?_
    show (e.records[r]?).bind Record.splice = some p
    rw [hr]
    exact hsplice

/-- Where the second creation throws, the leg is closed with a stream that is not gone. -/
theorem Inv.not_accounted_step (he : e.Inv) {event : Event} (hnot : ¬ e.Meets event) :
    ¬ (e.step event).Accounted := by
  cases event with
  | fromSource r payload calls checks =>
    simp only [Meets, Classical.not_imp] at hnot
    obtain ⟨⟨record, f, udxId, hr, hd, hsplice, hf, hid, hbody⟩, hup, hdown⟩ := hnot
    rcases hmade : e.heap.openPair r calls with ⟨heap, made⟩
    obtain ⟨rfl, i, horphan⟩ := exists_orphan_openPair he.legs.sound.owned hmade hup
      (by simpa using hdown)
    have hstep : e.step (.fromSource r payload calls checks) = closeLeg { e with heap } r := by
      have hne : (0 : Nat) ≠ circuitStreamId := by decide
      simp [step, _fromSource, hr, hd, hf, hid, hne, hbody, hsplice, hmade]
    obtain ⟨-, -, hcores, horphan'⟩ := closeLeg_spec (he.unopened hmade).legs r
    rw [hstep]
    intro hacc
    obtain ⟨⟨s, hs, hg, howner⟩, -⟩ := (horphan' _ i).mpr horphan
    have hcore : (closeLeg { e with heap } r).cores[r]? = some (shut (core record)) := by
      rw [hcores, List.getElem?_modify_eq, show cores { e with heap } = e.cores from rfl,
        cores_get hr]
      rfl
    rw [cores, List.getElem?_map] at hcore
    obtain ⟨record', hr', heq⟩ := Option.map_eq_some_iff.mp hcore
    have := hacc.closed r record' hr' (.inl (congrArg Prod.snd heq)) s (List.mem_of_getElem? hs)
      howner
    rw [hg] at this
    cases this
  | activate => exact absurd trivial hnot
  | retire => exact absurd trivial hnot
  | receive payload calls checks => exact absurd trivial hnot
  | legClosed r => exact absurd trivial hnot
  | destroy => exact absurd trivial hnot
  | streamClosed i => exact absurd trivial hnot
  | poll p rx now => exact absurd trivial hnot

/-- The invariant of a run whose steps meet the condition. -/
def Whole (e : EntryCircuit) : Prop := e.Inv ∧ ∀ o i, ¬ Orphan o e.heap i

theorem whole_new (spliced : Bool) : Whole (new spliced) := ⟨.new spliced, fun o i hi => by
  obtain ⟨⟨s, hs, -⟩, -⟩ := hi
  simp [new, Heap.empty] at hs⟩

theorem allGood_iff (spliced : Bool) (events : List Event) :
    AllGood step Accounted (new spliced) events ↔ AllMeet step Meets (new spliced) events := by
  refine allGood_iff_allMeet (I := Whole) (whole_new spliced) ?_ ?_ ?_ events
  · intro e event he hmeets
    have hk := he.1.kept_step hmeets
    exact ⟨hk.inv, fun o i hi => he.2 o i (hk.orphan hi)⟩
  · exact fun e he => he.1.accounted he.2
  · exact fun e event he hnot => he.1.not_accounted_step hnot

end EntryCircuit

/-! ## The runs in which every stream is accounted for -/

/-- The accounts of a bridge, and of an entry, are right in every state of a run if and only
if its steps meet the condition. -/
theorem splices_accounted (events : List Bridge.Event) (spliced : Bool)
    (turns : List EntryCircuit.Event) :
    (AllGood Bridge.step Bridge.Accounted .new events ↔
      AllMeet Bridge.step Bridge.Meets .new events) ∧
    (AllGood EntryCircuit.step EntryCircuit.Accounted (.new spliced) turns ↔
      AllMeet EntryCircuit.step EntryCircuit.Meets (.new spliced) turns) :=
  ⟨Bridge.allGood_iff events, EntryCircuit.allGood_iff spliced turns⟩

/-- All calls return but the second `_createSpliceStream`. -/
def secondThrows : Calls := ⟨⟨0, true⟩, ⟨0, false⟩, 0, true, true, true⟩

def allReturn : Calls := ⟨⟨0, true⟩, ⟨0, true⟩, 0, true, true, true⟩

/-- The first stream survives the bridge, and the source leg, that failed to make the second
one; and so do both streams of a SPLICE_OPEN that the inbox replays after a repeated one has
closed the bridge. -/
theorem splice_streams_leak :
    ¬ (Bridge.run .new [.payload [0, 0, 0, 2, 7, 0, 0, 0, 9] secondThrows]).Accounted ∧
    ¬ (Bridge.run .new [.replay [0, 0, 0, 2, 7, 0, 0, 0, 9] allReturn,
      .replay [0, 0, 0, 2, 7, 0, 0, 0, 9] allReturn,
      .replay [0, 0, 0, 4, 7, 0, 0, 0, 9] allReturn]).Accounted ∧
    ¬ (EntryCircuit.run (.new true) [.activate,
      .fromSource 0 (.frame ⟨0, .spliceOpen 9⟩) secondThrows ⟨true, true⟩]).Accounted := by
  refine ⟨fun h => ?_, fun h => ?_, fun h => ?_⟩
  · have := h.closed (by decide +kernel) ⟨2, 0, false⟩ (by decide +kernel)
    cases this
  · have := h.closed (by decide +kernel) ⟨4, 0, false⟩ (by decide +kernel)
    cases this
  · have := h.closed 0 ⟨2, none, true⟩ (by decide +kernel) (.inl rfl) ⟨0, 0, false⟩
      (by decide +kernel) rfl
    cases this

end HyperDht.Private.Splicing
