import HyperDht.Lib.Framing
import HyperDht.Private.ControlBytes

/-!
# Cutting cells

`_receive` is one piece for a framer of cells of 1200 bytes (`receive_spec`): its
three parts, the cell begun before, the cells in place, and the bytes kept for the
next piece, are one cut of the bytes kept and the chunk.
-/

namespace HyperDht.Private

open BufferHeap

namespace CellInput

variable {opens : List Bytes → Bytes → Bool}

/-- The bytes kept for the next piece. -/
def pending (s : CellInput) : Bytes :=
  match s.incoming with
  | none => []
  | some i => (load s.heap i).take s.incomingBytes

def framer (s : CellInput) : Framer UInt8 := ⟨s.cells, s.pending, s.destroyed⟩

/-- The buffer of the link for a cell. -/
structure Kept (s : CellInput) : Prop where
  there : ∀ i, s.incoming = some i → i < s.heap.length ∧ (load s.heap i).length = cellSize
  none : s.incoming = none → s.incomingBytes = 0
  short : s.incomingBytes < cellSize

/-- What the input of a chunk leaves as it was: the reader, and all buffers but the one of
the link. -/
structure Inputs (s s' : CellInput) : Prop where
  kept : s'.Kept
  leaves : Leaves s.incoming.toList s.heap s'.heap
  incoming : ∀ i, s'.incoming = some i → s.incoming = some i ∨ s.heap.length ≤ i
  queue : s'.queue = s.queue
  known : s'.known = s.known
  buffered : s'.buffered = s.buffered
  reading : s'.reading = s.reading
  returned : s'.returned = s.returned
  started : s'.started = s.started
  flowing : s'.flowing = (s.flowing && !s'.destroyed)

theorem inputs_refl {s : CellInput} (h : s.Kept) (hd : s.destroyed = false) : Inputs s s :=
  ⟨h, .refl _ _, fun _ hi => .inl hi, rfl, rfl, rfl, rfl, rfl, rfl, by simp [hd]⟩

theorem Inputs.trans {s s' s'' : CellInput} (h : Inputs s s') (h' : Inputs s' s'')
    (hd : s'.destroyed = false) : Inputs s s'' := by
  refine ⟨h'.kept, h.leaves.trans_new h'.leaves fun i hi => ?_, fun i hi => ?_, h'.queue.trans h.queue,
    h'.known.trans h.known, h'.buffered.trans h.buffered, h'.reading.trans h.reading,
    h'.returned.trans h.returned, h'.started.trans h.started, ?_⟩
  · rcases h.incoming i (by simpa using hi) with he | he
    · exact .inl (by simp [he])
    · exact .inr he
  · rcases h'.incoming i hi with he | he
    · exact h.incoming i he
    · exact .inr (Nat.le_trans h.leaves.grows he)
  · rw [h'.flowing, h.flowing, hd]
    simp

theorem inputs_destroy {s : CellInput} : Inputs s s.destroy := by
  refine ⟨⟨fun i hi => (by cases hi), fun _ => rfl, Nat.succ_pos _⟩, ?_, fun i hi => (by cases hi), rfl, rfl,
    rfl, rfl, rfl, rfl, by simp [destroy]⟩
  unfold destroy
  dsimp only
  cases s.incoming with
  | none => exact .refl _ _
  | some i => exact leaves_modify _ _ _

/-! ## Opening cells -/

theorem openCell_spec (opens : List Bytes → Bytes → Bool) {s : CellInput} (h : s.Kept) (hd : s.destroyed = false) (cell : Bytes) :
    Inputs s (s.openCell opens cell) ∧
      if opens s.cells cell then s.openCell opens cell = { s with cells := s.cells ++ [cell] }
      else (s.openCell opens cell).framer = ⟨s.cells ++ [cell], [], true⟩ := by
  unfold openCell
  dsimp only
  split
  · exact ⟨⟨⟨h.there, h.none, h.short⟩, .refl _ _, fun _ hi => .inl hi, rfl, rfl, rfl, rfl, rfl, rfl,
      by simp [hd]⟩, rfl⟩
  · have hdes := inputs_destroy (s := { s with cells := s.cells ++ [cell] })
    exact ⟨⟨hdes.kept, hdes.leaves, hdes.incoming, rfl, rfl, rfl, rfl, rfl, rfl, hdes.flowing⟩, rfl⟩

/-- What the loop over the cells of a chunk does, as a cut of the rest of the chunk. -/
structure Cuts (c : Framer UInt8) (bytes : Bytes) (s : CellInput) (x : CellInput × Nat) : Prop where
  inputs : Inputs s x.1
  ended : x.1.destroyed = c.ended
  frames : x.1.cells = c.frames
  dead : x.1.destroyed = true → x.1.pending = []
  alive : x.1.destroyed = false → x.1 = { s with cells := x.1.cells } ∧ x.2 ≤ bytes.length ∧
    bytes.drop x.2 = c.pending

theorem openLoop_destroyed {chunk : Nat} {s : CellInput} (hd : s.destroyed = true) (fuel offset : Nat) :
    s.openLoop opens chunk fuel offset = (s, offset) := by
  cases fuel with
  | zero => rfl
  | succ fuel => rw [openLoop, if_neg (by simp [hd])]

theorem openLoop_spec (opens : List Bytes → Bytes → Bool) (chunk : Nat) :
    ∀ (fuel : Nat) {s : CellInput} {offset : Nat}, s.Kept →
    s.destroyed = false → offset ≤ (load s.heap chunk).length →
      Cuts (Framer.cut cellSize opens fuel s.cells ((load s.heap chunk).drop offset))
        (load s.heap chunk) s (openLoop opens chunk fuel s offset) := by
  intro fuel
  induction fuel with
  | zero =>
    intro s offset h hd hoff
    exact ⟨inputs_refl h hd, hd, rfl, fun hf => absurd (hd.symm.trans hf) (by decide),
      fun _ => ⟨rfl, hoff, rfl⟩⟩
  | succ fuel ih =>
    intro s offset h hd hoff
    rw [openLoop]
    by_cases hlong : offset + cellSize ≤ (load s.heap chunk).length
    · rw [if_pos ⟨hd, hlong⟩, Framer.cut, if_pos (by rw [List.length_drop]; omega)]
      obtain ⟨hin, hcell⟩ := openCell_spec opens h hd
        (((load s.heap chunk).drop offset).take cellSize)
      by_cases ho : opens s.cells (((load s.heap chunk).drop offset).take cellSize) = true
      · rw [if_pos ho] at hcell ⊢
        rw [hcell, List.drop_drop]
        have hkept : Kept { s with cells := s.cells ++ [((load s.heap chunk).drop offset).take cellSize] } :=
          ⟨h.there, h.none, h.short⟩
        have hstep := ih (s := { s with
          cells := s.cells ++ [((load s.heap chunk).drop offset).take cellSize] }) hkept hd hlong
        refine ⟨?_, hstep.ended, hstep.frames, hstep.dead, hstep.alive⟩
        have := hstep.inputs
        exact ⟨this.kept, this.leaves, this.incoming, this.queue, this.known, this.buffered,
          this.reading, this.returned, this.started, this.flowing⟩
      · rw [if_neg ho] at hcell ⊢
        have hdes : (s.openCell opens (((load s.heap chunk).drop offset).take cellSize)).destroyed = true :=
          congrArg Framer.ended hcell
        rw [openLoop_destroyed hdes]
        exact ⟨hin, hdes, congrArg Framer.frames hcell, fun _ => congrArg Framer.pending hcell,
          fun hf => absurd (hdes.symm.trans hf) (by decide)⟩
    · rw [if_neg fun hc => hlong hc.2, Framer.cut_short (by rw [List.length_drop]; omega)]
      exact ⟨inputs_refl h hd, hd, rfl, fun hf => absurd (hd.symm.trans hf) (by decide),
      fun _ => ⟨rfl, hoff, rfl⟩⟩

/-! ## A chunk -/

theorem allocate_spec {s : CellInput} (h : s.Kept) (hd : s.destroyed = false) :
    Inputs s s.allocate ∧ (∃ i, s.allocate.incoming = some i) ∧ s.allocate.cells = s.cells ∧
      s.allocate.destroyed = false ∧ Leaves [] s.heap s.allocate.heap := by
  unfold allocate
  split
  · next hi => exact ⟨inputs_refl h hd, Option.isSome_iff_exists.mp hi, rfl, hd, .refl _ _⟩
  · next hi =>
    have hnone : s.incoming = none := by simpa using hi
    refine ⟨⟨⟨fun i hi => ?_, fun hn => (by cases hn), h.short⟩, ?_, fun i hi => ?_, rfl, rfl, rfl, rfl,
      rfl, rfl, by simp [hd]⟩, ⟨_, rfl⟩, rfl, hd, leaves_alloc _ _⟩
    · obtain rfl := Option.some.inj hi
      show s.heap.length < (s.heap ++ [_]).length ∧ (load (s.heap ++ [_]) s.heap.length).length = cellSize
      rw [load_alloc, List.length_append, List.length_replicate]
      exact ⟨Nat.lt_succ_self _, rfl⟩
    · rw [hnone]
      exact leaves_alloc _ _
    · obtain rfl := Option.some.inj hi
      exact .inr (Nat.le_refl _)

/-- The bytes after the last complete cell are kept in the buffer of the link. -/
theorem keep_spec {s : CellInput} (h : s.Kept) (hd : s.destroyed = false) {chunk offset : Nat}
    (hc : chunk < s.heap.length) (hshort : ((load s.heap chunk).drop offset).length < cellSize) :
    Inputs s (s.keep chunk offset) ∧
      (s.keep chunk offset).framer = ⟨s.cells, (load s.heap chunk).drop offset, false⟩ := by
  obtain ⟨hin, ⟨i, hi⟩, hcells, hd', hleaves⟩ := allocate_spec h hd
  have hload : load s.allocate.heap chunk = load s.heap chunk := hleaves.load_eq hc List.not_mem_nil
  obtain ⟨hlt, hlen⟩ := hin.kept.there i hi
  have hfit : 0 + ((load s.heap chunk).drop offset).length ≤ (load s.allocate.heap i).length := by omega
  have hkeep : s.keep chunk offset = { s.allocate with
      heap := copyInto s.allocate.heap i 0 ((load s.heap chunk).drop offset)
      incomingBytes := ((load s.heap chunk).drop offset).length } := by
    unfold keep
    dsimp only
    rw [hi, hload, List.length_drop]
    rfl
  have hheap : (copyInto s.allocate.heap i 0 ((load s.heap chunk).drop offset)).length =
      s.allocate.heap.length := List.length_modify ..
  have hstep : Inputs s.allocate (s.keep chunk offset) := by
    rw [hkeep]
    refine ⟨⟨fun j hj => ?_, fun hn => ?_, hshort⟩, ?_, fun j hj => .inl hj, rfl, rfl, rfl, rfl, rfl, rfl,
      by simp [hd']⟩
    · obtain rfl := Option.some.inj (hi.symm.trans hj)
      exact ⟨hheap.symm ▸ hlt, (length_copyInto hlt hfit).trans hlen⟩
    · have hn' : s.allocate.incoming = none := hn
      rw [hi] at hn'
      cases hn'
    · rw [hi]
      exact leaves_modify _ _ _
  refine ⟨hin.trans hstep hd', ?_⟩
  have htake := take_copyInto hlt hfit
  rw [Nat.zero_add, List.take_zero, List.nil_append] at htake
  rw [hkeep]
  unfold framer pending
  dsimp only
  rw [hi, hcells, hd']
  dsimp only
  rw [htake]

/-- From an offset on, with no cell begun: the complete cells, and the rest is kept. -/
theorem receiveFrom_spec (opens : List Bytes → Bytes → Bool) {s : CellInput} {chunk : Nat}
    (offset : Nat) (h : s.Kept) (hd : s.destroyed = false)
    (hc : chunk < s.heap.length) (hzero : s.incomingBytes = 0)
    (hoff : offset ≤ (load s.heap chunk).length) :
    Inputs s (s.receiveFrom opens chunk offset) ∧ (s.receiveFrom opens chunk offset).framer =
      Framer.cut cellSize opens (load s.heap chunk).length s.cells ((load s.heap chunk).drop offset) := by
  have hcut := openLoop_spec opens chunk (load s.heap chunk).length h hd hoff
  have hshort : (Framer.cut cellSize opens (load s.heap chunk).length s.cells
      ((load s.heap chunk).drop offset)).pending.length < cellSize :=
    Framer.pending_cut (by decide) (by rw [List.length_drop]; omega)
  have hend : (Framer.cut cellSize opens (load s.heap chunk).length s.cells
      ((load s.heap chunk).drop offset)).ended = true → (Framer.cut cellSize opens
        (load s.heap chunk).length s.cells ((load s.heap chunk).drop offset)).pending = [] :=
    Framer.pending_of_ended
  unfold receiveFrom
  generalize Framer.cut cellSize opens (load s.heap chunk).length s.cells
    ((load s.heap chunk).drop offset) = c at hcut hshort hend ⊢
  generalize openLoop opens chunk (load s.heap chunk).length s offset = x at hcut ⊢
  obtain ⟨t, o⟩ := x
  obtain ⟨hin, hended, hframes, hdead, halive⟩ := hcut
  dsimp only at hin hended hframes hdead halive ⊢
  by_cases hdes : t.destroyed = true
  · rw [if_neg (by simp [hdes])]
    refine ⟨hin, ?_⟩
    obtain ⟨frames, pend, ended⟩ := c
    dsimp only at hended hframes hend
    have hp : pend = [] := hend (hended.symm.trans hdes)
    unfold framer
    rw [hframes, hdead hdes, hended, hp]
  · rw [Bool.not_eq_true] at hdes
    obtain ⟨ht, hle, hdrop⟩ := halive hdes
    obtain ⟨frames, pend, ended⟩ := c
    dsimp only at hended hframes hdrop hshort ht
    rw [hdes] at hended
    generalize t.cells = cells at hframes ht
    subst hended hframes hdrop ht
    have hkept : Kept { s with cells := cells } := ⟨h.there, h.none, h.short⟩
    by_cases hrest : o < (load s.heap chunk).length
    · rw [if_pos ⟨hd, hrest⟩]
      obtain ⟨hk, hf⟩ := keep_spec (s := { s with cells := cells }) hkept hd hc hshort
      exact ⟨hin.trans hk hd, hf⟩
    · rw [if_neg fun hc => hrest hc.2]
      refine ⟨hin, ?_⟩
      have hnil : (load s.heap chunk).drop o = [] := List.drop_eq_nil_of_le (by omega)
      have hpend : pending { s with cells := cells } = [] := by
        unfold pending
        dsimp only
        rw [hzero]
        split
        · rfl
        · exact List.take_zero
      unfold framer
      rw [hpend, hnil, hd]

theorem receiveFrom_destroyed {s : CellInput} (hd : s.destroyed = true) (chunk offset : Nat) :
    s.receiveFrom opens chunk offset = s := by
  unfold receiveFrom
  rw [openLoop_destroyed hd]
  exact if_neg (by simp [hd])

/-- The held cell is complete: it is opened and cleared, and the chunk goes on from `offset`. -/
theorem openHeld_spec (opens : List Bytes → Bytes → Bool) {s : CellInput} {i chunk : Nat}
    (offset : Nat) (h : s.Kept) (hd : s.destroyed = false) (hi : s.incoming = some i) (hzero : s.incomingBytes = 0)
    (hc : chunk < s.heap.length) (hci : i ≠ chunk) (hoff : offset ≤ (load s.heap chunk).length) :
    let opened := s.openCell opens (load s.heap i)
    let s' := { opened with heap := clear opened.heap i }.receiveFrom opens chunk offset
    Inputs s s' ∧ s'.framer = if opens s.cells (load s.heap i) then
        Framer.cut cellSize opens (load s.heap chunk).length (s.cells ++ [load s.heap i])
          ((load s.heap chunk).drop offset)
      else ⟨s.cells ++ [load s.heap i], [], true⟩ := by
  intro opened s'
  obtain ⟨hlt, hlen⟩ := h.there i hi
  have htouched : s.incoming.toList = [i] := by rw [hi]; rfl
  obtain ⟨hin, hcell⟩ := openCell_spec opens h hd (load s.heap i)
  by_cases ho : opens s.cells (load s.heap i) = true
  · rw [if_pos ho] at hcell ⊢
    have hclear : Leaves [i] s.heap (clear s.heap i) := leaves_modify _ _ _
    have hkept : Kept { s with heap := clear s.heap i, cells := s.cells ++ [load s.heap i] } := by
      refine ⟨fun j hj => ?_, fun hn => hzero, h.short⟩
      obtain rfl := Option.some.inj (hi.symm.trans hj)
      refine ⟨Nat.lt_of_lt_of_le hlt hclear.grows, ?_⟩
      show (load (s.heap.modify i fun b => List.replicate b.length default) i).length = cellSize
      rw [load_modify_self _ hlt, List.length_replicate]
      exact hlen
    have hload : load (clear s.heap i) chunk = load s.heap chunk :=
      hclear.load_eq hc fun hm => hci (List.mem_singleton.mp hm).symm
    have hsecond : Inputs s { s with heap := clear s.heap i, cells := s.cells ++ [load s.heap i] } :=
      ⟨hkept, htouched ▸ hclear, fun j hj => .inl hj, rfl, rfl, rfl, rfl, rfl, rfl, by simp [hd]⟩
    obtain ⟨hin', hf⟩ := receiveFrom_spec opens offset hkept hd
      (Nat.lt_of_lt_of_le hc hclear.grows) hzero (hload.symm ▸ hoff)
    have hs' : s' = receiveFrom opens
        { s with heap := clear s.heap i, cells := s.cells ++ [load s.heap i] } chunk offset := by
      show receiveFrom opens { opened with heap := clear opened.heap i } chunk offset = _
      rw [show opened = _ from hcell]
    rw [hs']
    refine ⟨hsecond.trans hin' hd, hf.trans ?_⟩
    dsimp only
    rw [hload]
  · rw [if_neg ho]
    have hopened : opened = destroy { s with cells := s.cells ++ [load s.heap i] } := if_neg ho
    have hs' : s' = { opened with heap := clear opened.heap i } :=
      receiveFrom_destroyed (by rw [hopened]; rfl) chunk offset
    have hleaves : Leaves [i] s.heap (clear opened.heap i) :=
      (htouched ▸ hin.leaves).trans (leaves_modify _ _ _)
    rw [hopened] at hleaves
    rw [hs', hopened]
    exact ⟨⟨⟨fun j hj => (by cases hj), fun _ => rfl, Nat.succ_pos _⟩, htouched ▸ hleaves,
      fun j hj => (by cases hj), rfl, rfl, rfl, rfl, rfl, rfl, by simp [destroy]⟩, rfl⟩

/-- A chunk that the link takes is one piece for the framer. -/
theorem receive_spec (opens : List Bytes → Bytes → Bool) {s : CellInput} {chunk : Nat} (h : s.Kept) (hd : s.destroyed = false)
    (hc : chunk < s.heap.length) (hne : s.incoming ≠ some chunk) (hsome : load s.heap chunk ≠ []) :
    Inputs s (s.receive opens true chunk) ∧
      (s.receive opens true chunk).framer = s.framer.feed cellSize opens (load s.heap chunk) := by
  have hpos : (load s.heap chunk).length ≠ 0 := fun he => hsome (List.eq_nil_of_length_eq_zero he)
  have hfeed : s.framer.feed cellSize opens (load s.heap chunk) =
      Framer.cut cellSize opens (s.pending.length + (load s.heap chunk).length) s.cells
        (s.pending ++ load s.heap chunk) := by
    unfold Framer.feed framer
    dsimp only
    rw [hd, if_neg Bool.false_ne_true]
  rw [hfeed]
  unfold receive
  rw [if_neg (by simp [hd]), if_neg (by simp [hpos])]
  by_cases hzero : s.incomingBytes = 0
  · rw [if_pos hzero]
    have hpend : s.pending = [] := by
      unfold pending
      rw [hzero]
      split
      · rfl
      · exact List.take_zero
    obtain ⟨hin, hf⟩ := receiveFrom_spec opens 0 h hd hc hzero (Nat.zero_le _)
    rw [hpend, List.length_nil, Nat.zero_add, List.nil_append]
    exact ⟨hin, hf⟩
  · rw [if_neg hzero]
    obtain ⟨i, hi⟩ : ∃ i, s.incoming = some i :=
      Option.ne_none_iff_exists'.mp fun hn => hzero (h.none hn)
    obtain ⟨hlt, hlen⟩ := h.there i hi
    have hci : i ≠ chunk := fun he => hne (he ▸ hi)
    have hshort := h.short
    have hget : s.incoming.getD 0 = i := by rw [hi]; rfl
    have hpend : s.pending = (load s.heap i).take s.incomingBytes := by
      unfold pending
      rw [hi]
    dsimp only
    rw [hget]
    generalize hlength : min (cellSize - s.incomingBytes) (load s.heap chunk).length = length
    have htaken : ((load s.heap chunk).take length).length = length := by
      rw [List.length_take]
      omega
    have hfit : s.incomingBytes + ((load s.heap chunk).take length).length ≤ (load s.heap i).length := by
      omega
    have hfilled := take_copyInto hlt hfit
    have hkeeps := length_copyInto hlt hfit
    have hleaves : Leaves [i] s.heap (copyInto s.heap i s.incomingBytes ((load s.heap chunk).take length)) :=
      leaves_modify _ _ _
    have hsize : (copyInto s.heap i s.incomingBytes ((load s.heap chunk).take length)).length =
        s.heap.length := List.length_modify ..
    rw [htaken, ← hpend] at hfilled
    generalize copyInto s.heap i s.incomingBytes ((load s.heap chunk).take length) = heap
      at hfilled hkeeps hleaves hsize ⊢
    have hchunk : load heap chunk = load s.heap chunk :=
      hleaves.load_eq hc fun hm => hci (List.mem_singleton.mp hm).symm
    have hthere : ∀ j, s.incoming = some j → j < heap.length ∧ (load heap j).length = cellSize := by
      intro j hj
      obtain rfl := Option.some.inj (hi.symm.trans hj)
      exact ⟨hsize.symm ▸ hlt, hkeeps.trans hlen⟩
    by_cases hfull : s.incomingBytes + length = cellSize
    · rw [if_neg (fun hn => hn hfull)]
      -- the cell that was begun is complete
      have hkept : Kept { s with heap, incomingBytes := 0 } := ⟨hthere, fun _ => rfl, Nat.succ_pos _⟩
      have hfirst : Inputs s { s with heap, incomingBytes := 0 } :=
        ⟨hkept, hi ▸ hleaves, fun j hj => .inl hj, rfl, rfl, rfl, rfl, rfl, rfl, by simp [hd]⟩
      obtain ⟨hin, hf⟩ := openHeld_spec opens length hkept hd hi rfl (hsize.symm ▸ hc) hci
        (by rw [show load heap chunk = _ from hchunk]; omega)
      refine ⟨hfirst.trans hin hd, hf.trans ?_⟩
      dsimp only
      rw [hchunk]
      have hsplit : s.pending ++ load s.heap chunk =
          load heap i ++ (load s.heap chunk).drop length := by
        have hframe : load heap i = s.pending ++ (load s.heap chunk).take length := by
          rw [← hfilled, hfull, List.take_of_length_le (by omega)]
        rw [hframe, List.append_assoc, List.take_append_drop]
      have hbytes : (load heap i).length + ((load s.heap chunk).drop length).length ≤
          s.pending.length + (load s.heap chunk).length := by
        rw [← List.length_append, ← hsplit, List.length_append]
      rw [hsplit, Framer.cut_frame (by decide) (hkeeps.trans hlen) hbytes]
      split
      · exact (Framer.cut_fuel (by decide) (by omega) (by rw [List.length_drop]; omega)).symm
      · rfl
    · rw [if_pos hfull]
      -- the chunk ends before the cell does
      have hall : length = (load s.heap chunk).length := by omega
      have hkept : Kept { s with heap, incomingBytes := s.incomingBytes + length } := by
        refine ⟨hthere, fun hn => ?_, ?_⟩
        · have hn' : s.incoming = none := hn
          rw [hi] at hn'
          cases hn'
        · show s.incomingBytes + length < cellSize
          omega
      refine ⟨⟨hkept, hi ▸ hleaves, fun j hj => .inl hj, rfl, rfl, rfl, rfl, rfl, rfl, by simp [hd]⟩, ?_⟩
      have hbytes : (s.pending ++ load s.heap chunk).length < cellSize := by
        rw [List.length_append, hpend, List.length_take]
        omega
      rw [Framer.cut_short hbytes]
      unfold framer pending
      dsimp only
      rw [hi]
      dsimp only
      rw [hfilled, hall, List.take_length, hd]
      unfold pending
      rw [hi]

end CellInput

end HyperDht.Private
