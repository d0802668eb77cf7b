import HyperDht.Private.CellInput

/-!
# Reading control messages

Until the link starts, the buffers returned, the part of the next one that is
filled, and what was not read yet are together the bytes that came (`Control`).
No buffer is cleared while it holds any of them.
-/

namespace HyperDht.Private

open BufferHeap

namespace CellInput

/-- What came and was not read: what is left of a chunk, then the chunks. -/
def chunks (s : CellInput) : List Nat := s.buffered.toList ++ s.queue

/-- The buffers that belong to the reader or to its caller. -/
def owned (s : CellInput) : List Nat :=
  s.returned.map Prod.snd ++ (s.reading.map ControlRead.output).toList ++ s.chunks

/-- What the buffers returned hold. -/
def returnedBytes (s : CellInput) : List Bytes := s.returned.map fun x => load s.heap x.2

/-- The filled part of a buffer that is read into. -/
def readPart (s : CellInput) : Bytes :=
  match s.reading with
  | none => []
  | some r => (load s.heap r.output).take r.offset

def unread (s : CellInput) : Bytes := (s.chunks.map (load s.heap)).flatten

/-- `ok` says that no chunk that came is empty. -/
structure Control (ok : Bool) (bytes : Bytes) (s : CellInput) : Prop where
  nodup : s.owned.Nodup
  bound : ∀ i ∈ s.owned, i < s.heap.length
  sizes : ∀ x ∈ s.returned, (load s.heap x.2).length = x.1
  read : ∀ r, s.reading = some r → (load s.heap r.output).length = r.size ∧ r.offset ≤ r.size
  left : ∀ i, s.buffered = some i → load s.heap i ≠ []
  chunk : ok = true → ∀ i ∈ s.queue, load s.heap i ≠ []
  whole : s.returnedBytes.flatten ++ s.readPart ++ s.unread = bytes

/-- What `consume` does to the buffers. -/
structure Consumes (heap heap' : List Bytes) (r : ControlRead) (chunk consumed : Nat)
    (left : Option Nat) : Prop where
  leaves : Leaves [r.output, chunk] heap heap'
  size : (load heap' r.output).length = (load heap r.output).length
  filled : (load heap' r.output).take (r.offset + consumed) =
    (load heap r.output).take r.offset ++ (load heap chunk).take consumed
  all : left = none → consumed = (load heap chunk).length
  rest : ∀ i, left = some i → i = heap.length ∧ i < heap'.length ∧
    load heap' i = (load heap chunk).drop consumed ∧ consumed < (load heap chunk).length

theorem consume_spec {s : CellInput} {r : ControlRead} {chunk : Nat} (ho : r.output < s.heap.length)
    (hc : chunk < s.heap.length) (hne : r.output ≠ chunk) (hsize : (load s.heap r.output).length = r.size)
    (hoff : r.offset ≤ r.size) : ∃ heap' left consumed,
      s.consume r chunk = { s with
        heap := heap', buffered := left, reading := some { r with offset := r.offset + consumed } } ∧
      r.offset + consumed ≤ r.size ∧ (left ≠ none → r.offset + consumed = r.size) ∧
      Consumes s.heap heap' r chunk consumed left := by
  unfold consume
  dsimp only
  generalize hcon : min (r.size - r.offset) (load s.heap chunk).length = consumed
  have hle : consumed ≤ (load s.heap chunk).length := by omega
  have hfit : r.offset + ((load s.heap chunk).take consumed).length ≤ (load s.heap r.output).length := by
    rw [List.length_take]
    omega
  have hlen : ((load s.heap chunk).take consumed).length = consumed := by
    rw [List.length_take]
    omega
  have htake := take_copyInto ho hfit
  have hlength := length_copyInto ho hfit
  have hcopy : Leaves [r.output] s.heap (copyInto s.heap r.output r.offset ((load s.heap chunk).take consumed)) :=
    leaves_modify _ _ _
  have hcopyLen : (copyInto s.heap r.output r.offset ((load s.heap chunk).take consumed)).length =
      s.heap.length := List.length_modify ..
  rw [hlen] at htake
  generalize copyInto s.heap r.output r.offset ((load s.heap chunk).take consumed) = heap
    at hcopy hcopyLen htake hlength
  have hchunk : load heap chunk = load s.heap chunk :=
    hcopy.load_eq hc fun hm => hne (List.mem_singleton.mp hm).symm
  rw [hchunk]
  split
  · next hlt =>
    have halloc := leaves_alloc heap ((load s.heap chunk).drop consumed)
    have hclear : Leaves [chunk] (heap ++ [(load s.heap chunk).drop consumed])
        (clear (heap ++ [(load s.heap chunk).drop consumed]) chunk) := leaves_modify _ _ _
    have hout : load (clear (heap ++ [(load s.heap chunk).drop consumed]) chunk) r.output =
        load heap r.output := by
      rw [hclear.load_eq (by rw [List.length_append]; omega) fun hm => hne (List.mem_singleton.mp hm),
        halloc.load_eq (by omega) List.not_mem_nil]
    refine ⟨_, _, consumed, rfl, by omega, fun _ => by omega, ⟨?_, ?_, ?_, fun he => (by cases he), ?_⟩⟩
    · refine ((hcopy.mono (by simp)).trans (halloc.mono (List.nil_subset _))).trans (hclear.mono (by simp))
    · rw [hout, hlength]
    · rw [hout, htake]
    · intro i hi
      obtain rfl := Option.some.inj hi
      have hgrow : (clear (heap ++ [(load s.heap chunk).drop consumed]) chunk).length = heap.length + 1 := by
        unfold clear
        rw [List.length_modify, List.length_append, List.length_singleton]
      refine ⟨hcopyLen, by omega, ?_, hlt⟩
      rw [hclear.load_eq (by rw [List.length_append, List.length_singleton]; omega)
        fun hm => absurd (List.mem_singleton.mp hm) (by omega), load_alloc]
  · next hge =>
    have hclear : Leaves [chunk] heap (clear heap chunk) := leaves_modify _ _ _
    have hout : load (clear heap chunk) r.output = load heap r.output :=
      hclear.load_eq (by omega) fun hm => hne (List.mem_singleton.mp hm)
    refine ⟨_, _, consumed, rfl, by omega, fun hn => absurd rfl hn, ⟨?_, ?_, ?_, fun _ => (by omega),
      fun i hi => (by cases hi)⟩⟩
    · exact (hcopy.mono (by simp)).trans (hclear.mono (by simp))
    · rw [hout, hlength]
    · rw [hout, htake]

/-- The chunk is what was copied and what is left of it. -/
theorem Consumes.flatten_left {heap heap' : List Bytes} {r : ControlRead} {chunk consumed : Nat}
    {left : Option Nat} (h : Consumes heap heap' r chunk consumed left) :
    (left.toList.map (load heap')).flatten = (load heap chunk).drop consumed := by
  cases left with
  | none => rw [h.all rfl, List.drop_length]; rfl
  | some i =>
    obtain ⟨-, -, hload, -⟩ := h.rest i rfl
    show (load heap' i ++ [] : Bytes) = _
    rw [List.append_nil, hload]

/-- Buffers other than the one read into and the chunk stay. -/
theorem Consumes.load_eq {heap heap' : List Bytes} {r : ControlRead} {chunk consumed : Nat}
    {left : Option Nat} (h : Consumes heap heap' r chunk consumed left) {before rest : List Nat}
    (hnodup : (before ++ [r.output] ++ chunk :: rest).Nodup)
    (hbound : ∀ i ∈ before ++ [r.output] ++ chunk :: rest, i < heap.length) {i : Nat}
    (hi : i ∈ before ++ rest) : load heap' i = load heap i := by
  rw [List.nodup_append, List.nodup_append] at hnodup
  obtain ⟨⟨-, -, hro⟩, hchunks, hdis⟩ := hnodup
  refine h.leaves.load_eq (hbound i ?_) ?_
  · rcases List.mem_append.mp hi with hi | hi <;> simp [hi]
  · rw [List.mem_cons, List.mem_singleton, not_or]
    rcases List.mem_append.mp hi with hi | hi
    · exact ⟨fun e => hro i hi r.output (by simp) e, fun e => hdis i (by simp [hi]) chunk (by simp) e⟩
    · exact ⟨fun e => hdis r.output (by simp) i (by simp [hi]) e.symm,
        fun e => (List.nodup_cons.mp hchunks).1 (e ▸ hi)⟩

/-- What is left of a chunk is a new buffer. -/
theorem Consumes.nodup {heap heap' : List Bytes} {r : ControlRead} {chunk consumed : Nat}
    {left : Option Nat} (h : Consumes heap heap' r chunk consumed left) {before rest : List Nat}
    (hnodup : (before ++ chunk :: rest).Nodup) (hbound : ∀ i ∈ before ++ chunk :: rest, i < heap.length) :
    (before ++ (left.toList ++ rest)).Nodup := by
  obtain ⟨hbefore, hchunks, hdis⟩ := List.nodup_append.mp hnodup
  have hrest := (List.nodup_cons.mp hchunks).2
  cases left with
  | none =>
    exact List.nodup_append.mpr ⟨hbefore, hrest, fun x hx y hy => hdis x hx y (List.mem_cons_of_mem _ hy)⟩
  | some i =>
    obtain rfl : i = heap.length := (h.rest i rfl).1
    refine List.nodup_append.mpr ⟨hbefore, List.nodup_cons.mpr ⟨fun hm => ?_, hrest⟩, fun x hx y hy => ?_⟩
    · exact absurd (hbound heap.length (List.mem_append_right _ (List.mem_cons_of_mem _ hm))) (lt_irrefl _)
    · rcases List.mem_cons.mp hy with rfl | hy
      · rintro rfl
        exact absurd (hbound _ (List.mem_append_left _ hx)) (lt_irrefl _)
      · exact hdis x hx y (List.mem_cons_of_mem _ hy)

theorem mem_queue_of_chunks {s : CellInput} {chunk : Nat} {rest : List Nat}
    (hc : s.chunks = chunk :: rest) {i : Nat} (hi : i ∈ rest) : i ∈ s.queue := by
  unfold chunks at hc
  cases hb : s.buffered with
  | none =>
    rw [hb] at hc
    have hq : s.queue = chunk :: rest := hc
    exact hq ▸ List.mem_cons_of_mem _ hi
  | some b =>
    rw [hb] at hc
    have hq : s.queue = rest := (List.cons.inj hc).2
    exact hq ▸ hi

theorem Control.consume {ok : Bool} {bytes : Bytes} {s : CellInput} (h : s.Control ok bytes) {r : ControlRead}
    (hr : s.reading = some r) {chunk : Nat} {rest : List Nat} (hc : s.chunks = chunk :: rest) :
    ∃ heap' left consumed,
      { s with buffered := none, queue := rest }.consume r chunk = { s with
        heap := heap', buffered := left, queue := rest
        reading := some { r with offset := r.offset + consumed } } ∧
      (left ≠ none → r.offset + consumed = r.size) ∧
      Control ok bytes { s with
        heap := heap', buffered := left, queue := rest
        reading := some { r with offset := r.offset + consumed } } := by
  obtain ⟨hsize, hoff⟩ := h.read r hr
  have howned : s.owned = s.returned.map Prod.snd ++ [r.output] ++ chunk :: rest := by
    unfold owned
    rw [hr, hc]
    rfl
  have hnodup := howned ▸ h.nodup
  have hbound := howned ▸ h.bound
  have hne : r.output ≠ chunk :=
    (List.nodup_append.mp hnodup).2.2 r.output (by simp) chunk List.mem_cons_self
  obtain ⟨heap', left, consumed, he, hle, hfull, hcon⟩ := consume_spec
    (s := { s with buffered := none, queue := rest }) (hbound _ (by simp)) (hbound _ (by simp)) hne hsize hoff
  have hother : ∀ i ∈ s.returned.map Prod.snd ++ rest, load heap' i = load s.heap i :=
    fun i hi => hcon.load_eq hnodup hbound hi
  have hret : ∀ x ∈ s.returned, load heap' x.2 = load s.heap x.2 :=
    fun x hx => hother x.2 (List.mem_append_left _ (List.mem_map_of_mem hx))
  have hrest : rest.map (load heap') = rest.map (load s.heap) :=
    List.map_congr_left fun i hi => hother i (List.mem_append_right _ hi)
  have hold : ∀ {j : Nat}, j ∈ s.returned.map Prod.snd ++ [r.output] ++ chunk :: rest → j < heap'.length :=
    fun hj => Nat.lt_of_lt_of_le (hbound _ hj) hcon.leaves.grows
  refine ⟨heap', left, consumed, he, hfull, ⟨hcon.nodup hnodup hbound, ?_, ?_, ?_, ?_,
    fun hok i hi => ?_, ?_⟩⟩
  · intro i hi
    show i < heap'.length
    rcases List.mem_append.mp (show i ∈ s.returned.map Prod.snd ++ [r.output] ++ (left.toList ++ rest) from hi)
      with hi | hi
    · exact hold (List.mem_append_left _ hi)
    · rcases List.mem_append.mp hi with hi | hi
      · exact (hcon.rest i (by simpa using hi)).2.1
      · exact hold (List.mem_append_right _ (List.mem_cons_of_mem _ hi))
  · intro x hx
    show (load heap' x.2).length = x.1
    rw [hret x hx]
    exact h.sizes x hx
  · intro r' hr'
    obtain rfl := Option.some.inj hr'
    exact ⟨hcon.size.trans hsize, hle⟩
  · intro i hi
    obtain ⟨-, -, hload, hlt⟩ := hcon.rest i hi
    show load heap' i ≠ []
    rw [hload]
    exact fun hnil => absurd (List.drop_eq_nil_iff.mp hnil) (by omega)
  · show load heap' i ≠ []
    rw [hother i (List.mem_append_right _ hi)]
    exact h.chunk hok i (mem_queue_of_chunks hc hi)
  · have hwhole := h.whole
    unfold returnedBytes readPart unread at hwhole
    rw [hr, hc, List.map_cons, List.flatten_cons] at hwhole
    show (s.returned.map fun x => load heap' x.2).flatten ++
      (load heap' r.output).take (r.offset + consumed) ++ ((left.toList ++ rest).map (load heap')).flatten = bytes
    rw [List.map_congr_left hret, hcon.filled, List.map_append, List.flatten_append, hcon.flatten_left,
      hrest, ← hwhole]
    simp only [List.append_assoc]
    congr 2
    rw [← List.append_assoc, List.take_append_drop]

theorem Control.finish {ok : Bool} {bytes : Bytes} {s : CellInput} (h : s.Control ok bytes) {r : ControlRead}
    (hr : s.reading = some r) (hfull : ¬r.offset < r.size) :
    Control ok bytes { s with reading := none, returned := s.returned ++ [(r.size, r.output)] } := by
  obtain ⟨hsize, hoff⟩ := h.read r hr
  have howned : owned { s with reading := none, returned := s.returned ++ [(r.size, r.output)] } =
      s.owned := by
    show (s.returned ++ [(r.size, r.output)]).map Prod.snd ++ [] ++ s.chunks = _
    unfold owned
    rw [hr, List.map_append, List.append_nil]
    rfl
  have htake : (load s.heap r.output).take r.offset = load s.heap r.output :=
    List.take_of_length_le (by omega)
  refine ⟨howned.symm ▸ h.nodup, fun i hi => h.bound i (howned ▸ hi), fun x hx => ?_,
    fun r' hr' => (by cases hr'), h.left, h.chunk, ?_⟩
  · rcases List.mem_append.mp hx with hx | hx
    · exact h.sizes x hx
    · obtain rfl := List.mem_singleton.mp hx
      exact hsize
  · have hwhole := h.whole
    unfold readPart at hwhole
    rw [hr] at hwhole
    dsimp only at hwhole
    rw [htake] at hwhole
    rw [← hwhole]
    show ((s.returned ++ [(r.size, r.output)]).map fun x => load s.heap x.2).flatten ++ [] ++ s.unread = _
    rw [List.map_append, List.flatten_append, List.append_nil]
    unfold returnedBytes
    simp

/-- The sizes of the calls so far. -/
def asked (s : CellInput) : List Nat :=
  s.returned.map Prod.fst ++ (s.reading.map ControlRead.size).toList

/-- The link has had no part in the state. -/
structure Idle (s : CellInput) : Prop where
  flowing : s.flowing = false
  incoming : s.incoming = none
  incomingBytes : s.incomingBytes = 0
  cells : s.cells = []
  destroyed : s.destroyed = false

/-- A step of the reader: the calls are the same, and the link has no part in it. -/
structure Reads (s s' : CellInput) : Prop where
  asked : s'.asked = s.asked
  started : s'.started = s.started
  known : s'.known = s.known
  idle : s.Idle → s'.Idle

theorem Reads.refl (s : CellInput) : Reads s s := ⟨rfl, rfl, rfl, id⟩

theorem Reads.trans {s s' s'' : CellInput} (h : Reads s s') (h' : Reads s' s'') : Reads s s'' :=
  ⟨h'.asked.trans h.asked, h'.started.trans h.started, h'.known.trans h.known, h'.idle ∘ h.idle⟩

/-- A call that has not returned lacks bytes, and all that came is read. -/
def Starved (s : CellInput) : Prop := s.chunks = [] ∧ ∀ r, s.reading = some r → r.offset < r.size

/-- How many rounds a call needs: one for each chunk and one to return. -/
def rounds (s : CellInput) : Nat :=
  match s.reading with
  | none => 0
  | some r => if r.offset < r.size then s.chunks.length + 1 else 1

theorem readLoop_chunk {s : CellInput} {r : ControlRead} (hr : s.reading = some r)
    (hoff : r.offset < r.size) {chunk : Nat} {rest : List Nat} (hc : s.chunks = chunk :: rest)
    (fuel : Nat) : s.readLoop (fuel + 1) =
      ({ s with buffered := none, queue := rest }.consume r chunk).readLoop fuel := by
  rw [CellInput.readLoop, hr]
  dsimp only
  rw [if_pos hoff]
  unfold chunks at hc
  cases hb : s.buffered with
  | some buffered =>
    rw [hb] at hc
    obtain ⟨rfl, rfl⟩ := List.cons.inj hc
    rfl
  | none =>
    rw [hb] at hc
    have hq : s.queue = chunk :: rest := hc
    rw [hq]

theorem Control.readLoop {ok : Bool} {bytes : Bytes} : ∀ (fuel : Nat) {s : CellInput}, s.Control ok bytes →
    (s.readLoop fuel).Control ok bytes ∧ Reads s (s.readLoop fuel) ∧
      (s.rounds ≤ fuel → (s.readLoop fuel).reading = none ∨ (s.readLoop fuel).Starved) := by
  intro fuel
  induction fuel with
  | zero =>
    intro s h
    refine ⟨h, .refl s, fun hle => ?_⟩
    unfold rounds at hle
    cases hr : s.reading with
    | none => exact .inl hr
    | some r =>
      rw [hr] at hle
      dsimp only at hle
      split at hle <;> omega
  | succ fuel ih =>
    intro s h
    cases hr : s.reading with
    | none =>
      have he : s.readLoop (fuel + 1) = s := by
        rw [CellInput.readLoop, hr]
      rw [he]
      exact ⟨h, .refl s, fun _ => .inl hr⟩
    | some r =>
      by_cases hoff : r.offset < r.size
      · cases hc : s.chunks with
        | nil =>
          have he : s.readLoop (fuel + 1) = s := by
            unfold chunks at hc
            rw [CellInput.readLoop, hr]
            dsimp only
            rw [if_pos hoff]
            obtain ⟨hb, hq⟩ := List.append_eq_nil_iff.mp hc
            cases hb' : s.buffered with
            | some buffered =>
              rw [hb'] at hb
              cases hb
            | none => rw [hq]
          rw [he]
          refine ⟨h, .refl s, fun _ => .inr ⟨hc, fun r' hr' => ?_⟩⟩
          obtain rfl := Option.some.inj (hr.symm.trans hr')
          exact hoff
        | cons chunk rest =>
          obtain ⟨heap', left, consumed, he, hfull, h'⟩ := h.consume hr hc
          rw [readLoop_chunk hr hoff hc fuel, he]
          obtain ⟨h₁, h₂, h₃⟩ := ih h'
          have hsame : Reads s { s with
              heap := heap', buffered := left, queue := rest
              reading := some { r with offset := r.offset + consumed } } :=
            ⟨by simp [CellInput.asked, hr], rfl, rfl,
              fun hi => ⟨hi.flowing, hi.incoming, hi.incomingBytes, hi.cells, hi.destroyed⟩⟩
          refine ⟨h₁, hsame.trans h₂, fun hle => h₃ ?_⟩
          unfold rounds at hle ⊢
          rw [hr, hc] at hle
          dsimp only at hle ⊢
          rw [if_pos hoff, List.length_cons] at hle
          split
          · next hlt =>
            have hnone : left = none := by
              by_contra hne
              have := hfull hne
              omega
            subst hnone
            show rest.length + 1 ≤ fuel
            omega
          · omega
      · have he : s.readLoop (fuel + 1) =
            { s with reading := none, returned := s.returned ++ [(r.size, r.output)] } := by
          rw [CellInput.readLoop, hr]
          dsimp only
          rw [if_neg hoff]
        rw [he]
        exact ⟨h.finish hr hoff, ⟨by simp [CellInput.asked, hr], rfl, rfl,
              fun hi => ⟨hi.flowing, hi.incoming, hi.incomingBytes, hi.cells, hi.destroyed⟩⟩,
          fun _ => .inl rfl⟩

theorem Control.onreadable {ok : Bool} {bytes : Bytes} {s : CellInput} (h : s.Control ok bytes) :
    s.onreadable.Control ok bytes ∧ Reads s s.onreadable ∧
      (s.onreadable.reading = none ∨ s.onreadable.Starved) := by
  obtain ⟨h₁, h₂, h₃⟩ := h.readLoop (s.queue.length + 2)
  refine ⟨h₁, h₂, h₃ ?_⟩
  unfold rounds
  cases s.reading with
  | none => exact Nat.zero_le _
  | some r =>
    dsimp only
    have hlen : s.chunks.length ≤ s.queue.length + 1 := by
      unfold chunks
      rw [List.length_append]
      cases s.buffered with
      | none => simp
      | some b => simp [Nat.add_comm]
    split <;> omega

theorem Control.alloc {ok : Bool} {bytes : Bytes} {s : CellInput} (h : s.Control ok bytes) (b : Bytes) :
    Control ok bytes { s with heap := s.heap ++ [b] } ∧ s.heap.length ∉ s.owned := by
  have hnew : s.heap.length ∉ s.owned := fun hm => absurd (h.bound _ hm) (lt_irrefl _)
  have hsame : ∀ i ∈ s.owned, load (s.heap ++ [b]) i = load s.heap i := fun i hi =>
    (leaves_alloc s.heap b).load_eq (h.bound i hi) List.not_mem_nil
  have hmem : ∀ {i : Nat}, i ∈ s.returned.map Prod.snd ∨ i ∈ (s.reading.map ControlRead.output).toList ∨
      i ∈ s.chunks → i ∈ s.owned := by
    intro i hi
    unfold owned
    rw [List.mem_append, List.mem_append]
    tauto
  refine ⟨⟨h.nodup, fun i hi => ?_, fun x hx => ?_, fun r hr => ?_, fun i hi => ?_, fun hok i hi => ?_, ?_⟩,
    hnew⟩
  · show i < (s.heap ++ [b]).length
    rw [List.length_append]
    exact Nat.lt_add_right _ (h.bound i hi)
  · show (load (s.heap ++ [b]) x.2).length = x.1
    rw [hsame x.2 (hmem (.inl (List.mem_map_of_mem hx)))]
    exact h.sizes x hx
  · have hr' : s.reading = some r := hr
    show (load (s.heap ++ [b]) r.output).length = r.size ∧ r.offset ≤ r.size
    rw [hsame r.output (hmem (.inr (.inl (by simp [hr']))))]
    exact h.read r hr
  · have hi' : s.buffered = some i := hi
    show load (s.heap ++ [b]) i ≠ []
    rw [hsame i (hmem (.inr (.inr (by simp [chunks, hi']))))]
    exact h.left i hi
  · show load (s.heap ++ [b]) i ≠ []
    rw [hsame i (hmem (.inr (.inr (List.mem_append_right _ hi))))]
    exact h.chunk hok i hi
  · have hret : s.returned.map (fun x => load (s.heap ++ [b]) x.2) = s.returnedBytes :=
      List.map_congr_left fun x hx => hsame x.2 (hmem (.inl (List.mem_map_of_mem hx)))
    have hchunks : (s.chunks.map (load (s.heap ++ [b]))).flatten = s.unread := by
      unfold unread
      rw [List.map_congr_left fun i hi => hsame i (hmem (.inr (.inr hi)))]
    have hread : readPart { s with heap := s.heap ++ [b] } = s.readPart := by
      unfold readPart
      dsimp only
      cases hr : s.reading with
      | none => rfl
      | some r =>
        dsimp only
        rw [hsame r.output (hmem (.inr (.inl (by simp [hr]))))]
    rw [hread]
    show (s.returned.map fun x => load (s.heap ++ [b]) x.2).flatten ++ s.readPart ++
      (s.chunks.map (load (s.heap ++ [b]))).flatten = bytes
    rw [hret, hchunks]
    exact h.whole

/-- A call of `readExactly` is made before the link starts and while no other is pending. -/
def inTurn (s : CellInput) (size : Nat) : Prop :=
  s.started = false ∧ 1 ≤ size ∧ s.reading = none

theorem Control.readExactly {ok : Bool} {bytes : Bytes} {s : CellInput} (h : s.Control ok bytes)
    (size : Nat) : (s.readExactly size).Control ok bytes ∧
      (s.readExactly size).asked.Sublist (s.asked ++ [size]) ∧
      (s.inTurn size → (s.readExactly size).asked = s.asked ++ [size] ∧
        (s.readExactly size).known = true) ∧ (s.Idle → (s.readExactly size).Idle) := by
  have hsub : s.asked.Sublist (s.asked ++ [size]) := List.sublist_append_left _ _
  unfold CellInput.readExactly
  split
  · next hno =>
    refine ⟨h, hsub, fun ⟨hs, hsize, _⟩ => ?_, id⟩
    rcases hno with hno | hno
    · exact absurd (hno.symm.trans hs) (by decide)
    · omega
  · split
    · next hr =>
      refine ⟨⟨h.nodup, h.bound, h.sizes, h.read, h.left, h.chunk, h.whole⟩, hsub,
        fun ⟨_, _, hnone⟩ => ?_,
        fun hi => ⟨hi.flowing, hi.incoming, hi.incomingBytes, hi.cells, hi.destroyed⟩⟩
      rw [hnone] at hr
      cases hr
    · next hr =>
      have hnone : s.reading = none := by simpa using hr
      obtain ⟨h', hnew⟩ := h.alloc (List.replicate size 0)
      suffices hcontrol : Control ok bytes { s with
          known := true
          heap := s.heap ++ [List.replicate size 0]
          reading := some ⟨size, s.heap.length, 0⟩ } by
        obtain ⟨hc, hreads, -⟩ := hcontrol.onreadable
        have hasked := hreads.asked
        rw [show asked { s with
            known := true
            heap := s.heap ++ [List.replicate size 0]
            reading := some ⟨size, s.heap.length, 0⟩ } = s.asked ++ [size] by
          simp [CellInput.asked, hnone]] at hasked
        exact ⟨hc, by rw [hasked], fun _ => ⟨hasked, hreads.known⟩, fun hi => hreads.idle
          ⟨hi.flowing, hi.incoming, hi.incomingBytes, hi.cells, hi.destroyed⟩⟩
      have howned : s.owned = s.returned.map Prod.snd ++ s.chunks := by
        unfold owned
        rw [hnone]
        simp
      have hperm : (s.returned.map Prod.snd ++ [s.heap.length] ++ s.chunks).Perm (s.heap.length :: s.owned) := by
        rw [howned, List.append_assoc]
        exact List.perm_middle
      refine ⟨(hperm.nodup_iff).mpr (List.nodup_cons.mpr ⟨hnew, h.nodup⟩), fun i hi => ?_, h'.sizes,
        fun r hr => ?_, h'.left, h'.chunk, ?_⟩
      · rcases List.mem_cons.mp (hperm.mem_iff.mp hi) with rfl | hi
        · show s.heap.length < (s.heap ++ [_]).length
          rw [List.length_append, List.length_singleton]
          exact Nat.lt_succ_self _
        · exact h'.bound i hi
      · obtain rfl := Option.some.inj hr
        show (load (s.heap ++ [_]) s.heap.length).length = size ∧ 0 ≤ size
        rw [load_alloc, List.length_replicate]
        exact ⟨rfl, Nat.zero_le _⟩
      · have hwhole := h'.whole
        unfold readPart at hwhole
        dsimp only at hwhole
        rw [hnone] at hwhole
        exact hwhole

theorem Control.arrive {ok : Bool} {bytes : Bytes} {s : CellInput} (h : s.Control ok bytes)
    (chunk : Bytes) (hsome : ok = true → chunk ≠ []) : (s.arrive chunk).Control ok (bytes ++ chunk) := by
  obtain ⟨h', hnew⟩ := h.alloc chunk
  have hchunks : (s.arrive chunk).chunks = s.chunks ++ [s.heap.length] := (List.append_assoc ..).symm
  have howned : (s.arrive chunk).owned = s.owned ++ [s.heap.length] := by
    unfold owned
    rw [hchunks, ← List.append_assoc]
    rfl
  refine ⟨howned ▸ ?_, fun i hi => ?_, h'.sizes, h'.read, h'.left, fun hok i hi => ?_, ?_⟩
  · exact List.nodup_append.mpr ⟨h.nodup, List.nodup_singleton _, fun x hx y hy he =>
      hnew ((List.mem_singleton.mp hy) ▸ he ▸ hx)⟩
  · rw [howned] at hi
    rcases List.mem_append.mp hi with hi | hi
    · exact h'.bound i hi
    · obtain rfl := List.mem_singleton.mp hi
      show s.heap.length < (s.heap ++ [chunk]).length
      rw [List.length_append, List.length_singleton]
      exact Nat.lt_succ_self _
  · rcases List.mem_append.mp hi with hi | hi
    · exact h'.chunk hok i hi
    · obtain rfl := List.mem_singleton.mp hi
      show load (s.heap ++ [chunk]) s.heap.length ≠ []
      rw [load_alloc]
      exact hsome hok
  · have hunread : (s.arrive chunk).unread = unread { s with heap := s.heap ++ [chunk] } ++ chunk := by
      unfold unread
      rw [hchunks, List.map_append, List.flatten_append]
      congr 1
      show load (s.heap ++ [chunk]) s.heap.length ++ [] = chunk
      rw [load_alloc, List.append_nil]
    rw [hunread, ← List.append_assoc]
    exact congrArg (· ++ chunk) h'.whole

end CellInput

end HyperDht.Private
