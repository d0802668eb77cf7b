import HyperDht.Private.CellFraming
import Mathlib.Data.List.Induction

/-!
# Runs of a raw stream

First the reader has the stream, then the link (`Linked`). What the link was given
and what still waits is what the reader left, so the buffers returned and the cells
are slices of the bytes that came, whatever the chunks (`framing_chunk_invariant`).
-/

namespace HyperDht.Private

open BufferHeap

/-- The chunk is not empty, and the address of the relay passes its check. -/
def InputEvent.fine : InputEvent → Bool
  | .arrive chunk => !chunk.isEmpty
  | .start allowed | .data allowed => allowed
  | .readExactly _ | .readable => true

namespace CellInput

variable {opens : List Bytes → Bytes → Bool}

/-- A link that was given nothing yet. -/
def fresh : Framer UInt8 := ⟨[], [], false⟩

/-- The link has the stream and was given `given`; `ok` says that nothing but a refused cell
can have destroyed it. -/
structure Linked (opens : List Bytes → Bytes → Bool) (ok : Bool) (given : Bytes) (s : CellInput) :
    Prop where
  started : s.started = true
  reading : s.reading = none
  buffered : s.buffered = none
  kept : s.Kept
  nodup : (s.returned.map Prod.snd ++ s.incoming.toList ++ s.queue).Nodup
  bound : ∀ i ∈ s.returned.map Prod.snd ++ s.incoming.toList ++ s.queue, i < s.heap.length
  sizes : ∀ x ∈ s.returned, (load s.heap x.2).length = x.1
  chunk : ok = true → ∀ i ∈ s.queue, load s.heap i ≠ []
  fed : s.destroyed = false ∨ ok = true → s.framer = fresh.feed cellSize opens given
  cells : s.cells <+: framesOf cellSize given

theorem feed_fresh (given : Bytes) :
    fresh.feed cellSize opens given = Framer.cut cellSize opens given.length [] given := by
  unfold Framer.feed fresh
  rw [if_neg Bool.false_ne_true, List.nil_append, List.length_nil, Nat.zero_add]

theorem cells_feed_le (opens : List Bytes → Bytes → Bool) (given : Bytes) :
    (fresh.feed cellSize opens given).frames <+: framesOf cellSize given := by
  rw [feed_fresh, Framer.frames_cut (by decide) (Nat.le_refl _)]
  exact Framer.openUntil_le _ []

theorem Linked.receive {ok : Bool} {given : Bytes} {s : CellInput} (h : s.Linked opens ok given)
    (hd : s.destroyed = false) {chunk : Nat} (hc : chunk < s.heap.length)
    (hnew : chunk ∉ s.returned.map Prod.snd ++ s.incoming.toList ++ s.queue)
    (hsome : ok = true → load s.heap chunk ≠ []) (allowed : Bool) (hallowed : ok = true → allowed = true) :
    (s.receive opens allowed chunk).Linked opens ok (given ++ load s.heap chunk) ∧
      (s.receive opens allowed chunk).returnedBytes = s.returnedBytes ∧
      (s.receive opens allowed chunk).queue.map (load (s.receive opens allowed chunk).heap) =
        s.queue.map (load s.heap) ∧ Inputs s (s.receive opens allowed chunk) ∧
      (s.receive opens allowed chunk).incoming ≠ some chunk := by
  -- what the link does to its input, and what it means for the framer
  have hstep : Inputs s (s.receive opens allowed chunk) ∧
      ((s.receive opens allowed chunk).destroyed = false ∨ ok = true →
        (s.receive opens allowed chunk).framer = fresh.feed cellSize opens (given ++ load s.heap chunk)) ∧
      (s.receive opens allowed chunk).cells <+: framesOf cellSize (given ++ load s.heap chunk) := by
    by_cases hfine : load s.heap chunk ≠ [] ∧ allowed = true
    · obtain ⟨hne, rfl⟩ := hfine
      have hinc : s.incoming ≠ some chunk := fun he => hnew (by simp [he])
      obtain ⟨hin, hf⟩ := receive_spec opens h.kept hd hc hinc hne
      rw [h.fed (.inl hd), Framer.feed_feed (by decide)] at hf
      refine ⟨hin, fun _ => hf, ?_⟩
      have hcells := cells_feed_le opens (given ++ load s.heap chunk)
      rw [← hf] at hcells
      exact hcells
    · have hrefused : s.receive opens allowed chunk = s.destroy := by
        unfold CellInput.receive
        rw [if_neg (by simp [hd]), if_pos]
        by_contra hno
        rw [not_or, Bool.not_eq_false] at hno
        exact hfine ⟨fun he => hno.1 (by rw [he]; rfl), hno.2⟩
      rw [hrefused]
      refine ⟨inputs_destroy, fun hor => ?_, h.cells.trans (Framer.framesOf_le (by decide) _ _)⟩
      rcases hor with hf | hok
      · cases hf
      · exact absurd ⟨hsome hok, hallowed hok⟩ hfine
  obtain ⟨hin, hfed, hcells⟩ := hstep
  have hnodup := h.nodup
  rw [List.nodup_append, List.nodup_append] at hnodup
  obtain ⟨⟨hret, -, hri⟩, hqueue, hdis⟩ := hnodup
  have hbound : ∀ {i : Nat}, i ∈ s.returned.map Prod.snd ∨ i ∈ s.queue → i < s.heap.length := by
    intro i hi
    refine h.bound i ?_
    rcases hi with hi | hi <;> simp [hi]
  have hload : ∀ i, i ∈ s.returned.map Prod.snd ∨ i ∈ s.queue →
      load (s.receive opens allowed chunk).heap i = load s.heap i := by
    intro i hi
    refine hin.leaves.load_eq (hbound hi) fun hm => ?_
    rcases hi with hi | hi
    · exact hri i hi i hm rfl
    · exact hdis i (List.mem_append_right _ hm) i hi rfl
  have hretBytes : (s.receive opens allowed chunk).returnedBytes = s.returnedBytes := by
    unfold returnedBytes
    rw [hin.returned]
    exact List.map_congr_left fun x hx => hload x.2 (.inl (List.mem_map_of_mem hx))
  have hqueueBytes : s.queue.map (load (s.receive opens allowed chunk).heap) = s.queue.map (load s.heap) :=
    List.map_congr_left fun i hi => hload i (.inr hi)
  have hincoming : ∀ i ∈ (s.receive opens allowed chunk).incoming.toList,
      i ∈ s.incoming.toList ∨ s.heap.length ≤ i := by
    intro i hi
    rcases hin.incoming i (by simpa using hi) with he | he
    · exact .inl (by simp [he])
    · exact .inr he
  refine ⟨⟨hin.started.trans h.started, hin.reading.trans h.reading, hin.buffered.trans h.buffered,
    hin.kept, ?_, fun i hi => ?_, fun x hx => ?_, fun hok i hi => ?_, hfed, hcells⟩, hretBytes, ?_, hin, ?_⟩
  · rw [hin.returned, hin.queue]
    refine List.nodup_append.mpr ⟨List.nodup_append.mpr ⟨hret, ?_, fun x hx y hy he => ?_⟩, hqueue,
      fun x hx y hy he => ?_⟩
    · cases (s.receive opens allowed chunk).incoming with
      | none => exact List.nodup_nil
      | some i => exact List.nodup_singleton i
    · subst he
      rcases hincoming x hy with hm | hge
      · exact hri x hx x hm rfl
      · exact absurd (hbound (.inl hx)) (Nat.not_lt_of_le hge)
    · subst he
      rcases List.mem_append.mp hx with hx | hx
      · exact hdis x (List.mem_append_left _ hx) x hy rfl
      · rcases hincoming x hx with hm | hge
        · exact hdis x (List.mem_append_right _ hm) x hy rfl
        · exact absurd (hbound (.inr hy)) (Nat.not_lt_of_le hge)
  · rw [hin.returned, hin.queue, List.mem_append, List.mem_append] at hi
    rcases hi with (hi | hi) | hi
    · exact Nat.lt_of_lt_of_le (hbound (.inl hi)) hin.leaves.grows
    · exact (hin.kept.there i (by simpa using hi)).1
    · exact Nat.lt_of_lt_of_le (hbound (.inr hi)) hin.leaves.grows
  · rw [hin.returned] at hx
    rw [hload x.2 (.inl (List.mem_map_of_mem hx))]
    exact h.sizes x hx
  · rw [hin.queue] at hi
    rw [hload i (.inr hi)]
    exact h.chunk hok i hi
  · rw [hin.queue]
    exact hqueueBytes
  · intro he
    rcases hin.incoming chunk he with hm | hge
    · exact hnew (by simp [hm])
    · exact absurd hc (Nat.not_lt_of_le hge)

/-- The bytes of the stream: returned, given to the link, and waiting. -/
def Whole (given bytes : Bytes) (s : CellInput) : Prop :=
  s.returnedBytes.flatten ++ given ++ (s.queue.map (load s.heap)).flatten = bytes

/-- Every state: the reader has the stream, or the link. -/
inductive Phase (opens : List Bytes → Bytes → Bool) (ok : Bool) (bytes : Bytes) (s : CellInput) : Prop where
  | control (idle : s.Idle) (books : s.Control ok bytes)
  | linked (given : Bytes) (link : s.Linked opens ok given) (whole : s.Whole given bytes)
      (flowing : s.flowing = !s.destroyed)

theorem Linked.heap {ok : Bool} {given : Bytes} {s : CellInput} (h : s.Linked opens ok given)
    {heap' : List Bytes} {touched : List Nat} (hl : Leaves touched s.heap heap')
    (hnew : ∀ i ∈ s.returned.map Prod.snd ++ s.incoming.toList ++ s.queue, i ∉ touched) :
    Linked opens ok given { s with heap := heap' } ∧
      returnedBytes { s with heap := heap' } = s.returnedBytes ∧
      s.queue.map (load heap') = s.queue.map (load s.heap) := by
  have hload : ∀ i ∈ s.returned.map Prod.snd ++ s.incoming.toList ++ s.queue,
      load heap' i = load s.heap i := fun i hi => hl.load_eq (h.bound i hi) (hnew i hi)
  have hmem : ∀ {i : Nat}, i ∈ s.returned.map Prod.snd ∨ i ∈ s.incoming.toList ∨ i ∈ s.queue →
      i ∈ s.returned.map Prod.snd ++ s.incoming.toList ++ s.queue := by
    intro i hi
    rw [List.mem_append, List.mem_append]
    tauto
  have hframer : framer { s with heap := heap' } = s.framer := by
    unfold framer pending
    dsimp only
    cases hi : s.incoming with
    | none => rfl
    | some i =>
      dsimp only
      rw [hload i (hmem (.inr (.inl (by simp [hi]))))]
  have hret : s.returned.map (fun x => load heap' x.2) = s.returnedBytes :=
    List.map_congr_left fun x hx => hload x.2 (hmem (.inl (List.mem_map_of_mem hx)))
  refine ⟨⟨h.started, h.reading, h.buffered, ⟨fun i hi => ?_, h.kept.none, h.kept.short⟩, h.nodup,
    fun i hi => Nat.lt_of_lt_of_le (h.bound i hi) hl.grows, fun x hx => ?_, fun hok i hi => ?_,
    fun hor => hframer.trans (h.fed hor), h.cells⟩, hret,
    List.map_congr_left fun i hi => hload i (hmem (.inr (.inr hi)))⟩
  · have hi' : s.incoming = some i := hi
    obtain ⟨hlt, hlen⟩ := h.kept.there i hi'
    show i < heap'.length ∧ (load heap' i).length = cellSize
    rw [hload i (hmem (.inr (.inl (by simp [hi']))))]
    exact ⟨Nat.lt_of_lt_of_le hlt hl.grows, hlen⟩
  · show (load heap' x.2).length = x.1
    rw [hload x.2 (hmem (.inl (List.mem_map_of_mem hx)))]
    exact h.sizes x hx
  · show load heap' i ≠ []
    rw [hload i (hmem (.inr (.inr hi)))]
    exact h.chunk hok i hi

theorem Control.handOver (opens : List Bytes → Bytes → Bool) {ok : Bool} {bytes : Bytes} {s : CellInput} (h : s.Control ok bytes)
    (hi : s.Idle) (hr : s.reading = none) :
    Linked opens ok [] { s with started := true, known := false, buffered := none } := by
  have howned : s.owned = s.returned.map Prod.snd ++ s.buffered.toList ++ s.queue := by
    unfold owned chunks
    rw [hr]
    simp
  have hsub : (s.returned.map Prod.snd ++ s.incoming.toList ++ s.queue).Sublist
      (s.returned.map Prod.snd ++ s.buffered.toList ++ s.queue) := by
    rw [hi.incoming]
    exact (List.Sublist.append_left (List.nil_sublist _) _).append (List.Sublist.refl _)
  have hnodup := h.nodup
  have hbound := h.bound
  rw [howned] at hnodup hbound
  have hnone : ∀ j, s.incoming ≠ some j := fun j hj => by
    rw [hi.incoming] at hj
    cases hj
  refine ⟨rfl, hr, rfl, ⟨fun j hj => absurd hj (hnone j), fun _ => hi.incomingBytes, ?_⟩,
    hnodup.sublist hsub, fun j hj => hbound j (hsub.subset hj), h.sizes, h.chunk, fun _ => ?_, ?_⟩
  · show s.incomingBytes < cellSize
    rw [hi.incomingBytes]
    decide
  · unfold framer pending
    dsimp only
    rw [hi.cells, hi.destroyed, hi.incoming]
    rfl
  · show s.cells <+: _
    rw [hi.cells]
    exact List.nil_prefix

theorem asked_of_reader {s s' : CellInput} (hreturned : s'.returned = s.returned)
    (hreading : s'.reading = s.reading) : s'.asked = s.asked := by
  unfold asked
  rw [hreturned, hreading]

theorem Linked.flag {ok : Bool} {given : Bytes} {s : CellInput} (h : s.Linked opens ok given)
    (flowing : Bool) : Linked opens ok given { s with flowing } :=
  ⟨h.started, h.reading, h.buffered, ⟨h.kept.there, h.kept.none, h.kept.short⟩, h.nodup, h.bound,
    h.sizes, h.chunk, h.fed, h.cells⟩

/-- The piece that the reader had left, for a link that has just started. -/
theorem Linked.receiveBuffered {ok : Bool} {bytes : Bytes} {s : CellInput}
    (h : s.Linked opens ok []) (hd : s.destroyed = false) (hflow : s.flowing = false)
    (buffered : Option Nat) (hwhole : s.returnedBytes.flatten ++ [] ++
      ((buffered.toList ++ s.queue).map (load s.heap)).flatten = bytes)
    (hleft : ∀ i, buffered = some i → i < s.heap.length ∧ load s.heap i ≠ [] ∧
      i ∉ s.returned.map Prod.snd ++ s.incoming.toList ++ s.queue)
    (allowed : Bool) (hallowed : ok = true → allowed = true) :
    ∃ given, (s.receiveBuffered opens allowed buffered).Linked opens ok given ∧
      (s.receiveBuffered opens allowed buffered).Whole given bytes ∧
      (s.receiveBuffered opens allowed buffered).flowing = false ∧
      (s.receiveBuffered opens allowed buffered).asked = s.asked := by
  cases buffered with
  | none => exact ⟨[], h, hwhole, hflow, rfl⟩
  | some b =>
    obtain ⟨hlt, hsome, hnew⟩ := hleft b rfl
    obtain ⟨hlink, hret, hqueue, hin, hinc⟩ :=
      h.receive hd hlt hnew (fun _ => hsome) allowed hallowed
    have hnew' : ∀ i ∈ (s.receive opens allowed b).returned.map Prod.snd ++
        (s.receive opens allowed b).incoming.toList ++ (s.receive opens allowed b).queue, i ∉ [b] := by
      intro i hi hm
      obtain rfl := List.mem_singleton.mp hm
      rw [hin.returned, hin.queue] at hi
      rcases List.mem_append.mp hi with hi | hi
      · rcases List.mem_append.mp hi with hi | hi
        · exact hnew (by simp [hi])
        · exact hinc (by simpa using hi)
      · exact hnew (by simp [hi])
    obtain ⟨hlink', hret', hqueue'⟩ := hlink.heap (leaves_modify _ b fun _ => _) hnew'
    refine ⟨[] ++ load s.heap b, hlink', ?_, ?_, asked_of_reader hin.returned hin.reading⟩
    · have hreturned : (s.receiveBuffered opens allowed (some b)).returnedBytes = s.returnedBytes :=
        hret'.trans hret
      have hwaiting : (s.receiveBuffered opens allowed (some b)).queue.map
          (load (s.receiveBuffered opens allowed (some b)).heap) = s.queue.map (load s.heap) :=
        hqueue'.trans hqueue
      unfold Whole
      rw [hreturned, hwaiting, ← hwhole]
      simp
    · show (s.receive opens allowed b).flowing = false
      rw [hin.flowing, hflow]
      rfl

theorem Phase.start {ok : Bool} {bytes : Bytes} {s : CellInput} (h : s.Phase opens ok bytes)
    (allowed : Bool) (hallowed : ok = true → allowed = true) :
    (s.start opens allowed).Phase opens ok bytes ∧ (s.start opens allowed).asked = s.asked ∧
      (s.start opens allowed).started = true ∧
      (s.started = false → s.known = true → s.reading = none →
        (s.start opens allowed).flowing = true ∨ (s.start opens allowed).destroyed = true) := by
  unfold CellInput.start
  cases h with
  | linked given link whole flowing =>
    rw [if_pos (.inl link.started)]
    exact ⟨.linked given link whole flowing, rfl, link.started,
      fun hs => absurd (link.started.symm.trans hs) (by decide)⟩
  | control idle books =>
    split
    · next hno =>
      have hs : s.started = true :=
        hno.resolve_right fun hd => absurd (hd.symm.trans idle.destroyed) (by decide)
      exact ⟨.control idle books, rfl, hs, fun hf => absurd (hs.symm.trans hf) (by decide)⟩
    · split
      · next hnot =>
        refine ⟨.control ⟨idle.flowing, idle.incoming, idle.incomingBytes, idle.cells, idle.destroyed⟩
          ⟨books.nodup, books.bound, books.sizes, books.read, books.left, books.chunk, books.whole⟩, rfl,
          rfl, fun _ hk hr => ?_⟩
        rw [hk, hr] at hnot
        simp at hnot
      · next hready =>
        have hr : s.reading = none := by
          rw [not_or] at hready
          simpa using hready.2
        have hwhole := books.whole
        unfold readPart unread chunks at hwhole
        rw [hr] at hwhole
        have hlink := books.handOver opens idle hr
        have hnodup := books.nodup
        have hbound := books.bound
        unfold owned chunks at hnodup hbound
        rw [hr] at hnodup hbound
        have hleft : ∀ i, s.buffered = some i → i < s.heap.length ∧ load s.heap i ≠ [] ∧
            i ∉ s.returned.map Prod.snd ++ s.incoming.toList ++ s.queue := by
          intro i hi
          rw [hi] at hnodup hbound
          refine ⟨hbound i (by simp), books.left i hi, fun hm => ?_⟩
          rw [idle.incoming] at hm
          rw [List.nodup_append] at hnodup
          obtain ⟨-, hq, hdis⟩ := hnodup
          rcases List.mem_append.mp hm with hm | hm
          · exact hdis i hm i (by simp) rfl
          · exact (List.nodup_cons.mp hq).1 hm
        obtain ⟨given, hgiven, hall, hflow, hasked⟩ :=
          hlink.receiveBuffered idle.destroyed idle.flowing s.buffered hwhole hleft allowed hallowed
        dsimp only
        generalize CellInput.receiveBuffered opens allowed
          { s with started := true, known := false, buffered := none } s.buffered = t
          at hgiven hall hflow hasked ⊢
        split
        · next hdes => exact ⟨.linked given hgiven hall (by rw [hflow, hdes]; rfl), hasked,
            hgiven.started, fun _ _ _ => .inr hdes⟩
        · next hdes =>
          refine ⟨.linked given (hgiven.flag true) hall ?_, hasked, hgiven.started,
            fun _ _ _ => .inl rfl⟩
          show true = !t.destroyed
          simp [hdes]

theorem Phase.data {ok : Bool} {bytes : Bytes} {s : CellInput} (h : s.Phase opens ok bytes)
    (allowed : Bool) (hallowed : ok = true → allowed = true) :
    (s.ondata opens allowed).Phase opens ok bytes ∧ (s.ondata opens allowed).asked = s.asked ∧
      (s.ondata opens allowed).started = s.started ∧ (s.ondata opens allowed).known = s.known ∧
      (s.flowing = true → (s.ondata opens allowed).queue = s.queue.tail ∧
        ((s.ondata opens allowed).flowing = true ∨ (s.ondata opens allowed).destroyed = true)) := by
  unfold ondata
  cases h with
  | control idle books =>
    rw [if_pos idle.flowing]
    exact ⟨.control idle books, rfl, rfl, rfl,
      fun hf => absurd (hf.symm.trans idle.flowing) (by decide)⟩
  | linked given link whole flowing =>
    split
    · next hflow => exact ⟨.linked given link whole flowing, rfl, rfl, rfl,
        fun hf => absurd (hf.symm.trans hflow) (by decide)⟩
    · next hflow =>
      have hd : s.destroyed = false := by
        rw [flowing] at hflow
        simpa using hflow
      cases hq : s.queue with
      | nil => exact ⟨.linked given link whole flowing, rfl, rfl, rfl, fun hf => ⟨hq, .inl hf⟩⟩
      | cons chunk rest =>
        have hnodup := link.nodup
        have hbound := link.bound
        have hsome := link.chunk
        rw [hq] at hnodup hbound hsome
        unfold Whole at whole
        rw [hq] at whole
        have hsub : (s.returned.map Prod.snd ++ s.incoming.toList ++ rest).Sublist
            (s.returned.map Prod.snd ++ s.incoming.toList ++ chunk :: rest) :=
          (List.Sublist.refl _).append (List.sublist_cons_self _ _)
        have hlink : Linked opens ok given { s with queue := rest } :=
          ⟨link.started, link.reading, link.buffered, ⟨link.kept.there, link.kept.none, link.kept.short⟩,
            hnodup.sublist hsub, fun i hi => hbound i (hsub.subset hi), link.sizes,
            fun hok i hi => hsome hok i (List.mem_cons_of_mem _ hi), link.fed, link.cells⟩
        have hnew : chunk ∉ s.returned.map Prod.snd ++ s.incoming.toList ++ rest := by
          intro hm
          rw [List.nodup_append] at hnodup
          obtain ⟨-, hqueue, hdis⟩ := hnodup
          rcases List.mem_append.mp hm with hm | hm
          · exact hdis chunk hm chunk List.mem_cons_self rfl
          · exact (List.nodup_cons.mp hqueue).1 hm
        obtain ⟨hlink', hret, hqueue, hin, -⟩ := hlink.receive hd (hbound chunk (by simp)) hnew
          (fun hok => hsome hok chunk List.mem_cons_self) allowed hallowed
        refine ⟨.linked (given ++ load s.heap chunk) hlink' ?_ ?_,
          asked_of_reader hin.returned hin.reading, hin.started, hin.known, fun hf => ⟨hin.queue, ?_⟩⟩
        · unfold Whole
          rw [hret, hqueue, ← whole, List.map_cons, List.flatten_cons]
          simp only [List.append_assoc]
          rfl
        · rw [hin.flowing, flowing, hd]
          simp
        · have hstays := hin.flowing
          rw [show (s.flowing && _) = _ from congrArg (· && _) hf, Bool.true_and] at hstays
          cases hdes : (receive opens allowed { s with queue := rest } chunk).destroyed with
          | true => exact .inr rfl
          | false => exact .inl (by rw [hstays, hdes]; rfl)

theorem Phase.arrive {ok : Bool} {bytes : Bytes} {s : CellInput} (h : s.Phase opens ok bytes)
    (chunk : Bytes) (hsome : ok = true → chunk ≠ []) :
    (s.arrive chunk).Phase opens ok (bytes ++ chunk) := by
  cases h with
  | control idle books =>
    exact .control ⟨idle.flowing, idle.incoming, idle.incomingBytes, idle.cells, idle.destroyed⟩
      (books.arrive chunk hsome)
  | linked given link whole flowing =>
    obtain ⟨hlink, hret, hqueue⟩ := link.heap (leaves_alloc s.heap chunk) fun _ _ => List.not_mem_nil
    have hnew : s.heap.length ∉ s.returned.map Prod.snd ++ s.incoming.toList ++ s.queue :=
      fun hm => absurd (link.bound _ hm) (lt_irrefl _)
    refine .linked given ⟨hlink.started, hlink.reading, hlink.buffered,
      ⟨hlink.kept.there, hlink.kept.none, hlink.kept.short⟩, ?_, fun i hi => ?_, hlink.sizes,
      fun hok i hi => ?_, hlink.fed, hlink.cells⟩ ?_ flowing
    · show (s.returned.map Prod.snd ++ s.incoming.toList ++ (s.queue ++ [s.heap.length])).Nodup
      rw [← List.append_assoc]
      exact List.nodup_append.mpr ⟨link.nodup, List.nodup_singleton _, fun x hx y hy he =>
        hnew ((List.mem_singleton.mp hy) ▸ he ▸ hx)⟩
    · have hi' : i ∈ s.returned.map Prod.snd ++ s.incoming.toList ++ (s.queue ++ [s.heap.length]) := hi
      rw [← List.append_assoc] at hi'
      rcases List.mem_append.mp hi' with hi' | hi'
      · exact hlink.bound i hi'
      · obtain rfl := List.mem_singleton.mp hi'
        show s.heap.length < (s.heap ++ [chunk]).length
        rw [List.length_append, List.length_singleton]
        exact Nat.lt_succ_self _
    · rcases List.mem_append.mp hi with hi | hi
      · exact hlink.chunk hok i hi
      · obtain rfl := List.mem_singleton.mp hi
        show load (s.heap ++ [chunk]) s.heap.length ≠ []
        rw [load_alloc]
        exact hsome hok
    · have hwaiting : (s.arrive chunk).queue.map (load (s.arrive chunk).heap) =
          s.queue.map (load s.heap) ++ [chunk] := by
        show (s.queue ++ [s.heap.length]).map (load (s.heap ++ [chunk])) = _
        rw [List.map_append, hqueue, List.map_singleton, load_alloc]
      have hreturned : (s.arrive chunk).returnedBytes = s.returnedBytes := hret
      unfold Whole at whole ⊢
      rw [hwaiting, hreturned, ← whole, List.flatten_append]
      simp

theorem Phase.readExactly {ok : Bool} {bytes : Bytes} {s : CellInput} (h : s.Phase opens ok bytes)
    (size : Nat) : (s.readExactly size).Phase opens ok bytes ∧
      (s.readExactly size).asked.Sublist (s.asked ++ [size]) ∧
      (s.inTurn size → (s.readExactly size).asked = s.asked ++ [size] ∧
        (s.readExactly size).known = true) := by
  cases h with
  | control idle books =>
    obtain ⟨hbooks, hasked, hturn, hidle⟩ := books.readExactly size
    exact ⟨.control (hidle idle) hbooks, hasked, hturn⟩
  | linked given link whole flowing =>
    have he : s.readExactly size = s := if_pos (.inl link.started)
    rw [he]
    exact ⟨.linked given link whole flowing, List.sublist_append_left _ _,
      fun ht => absurd (link.started.symm.trans ht.1) (by decide)⟩

/-- After its turn a call has returned, or has read all that came. -/
theorem Phase.readable {ok : Bool} {bytes : Bytes} {s : CellInput} (h : s.Phase opens ok bytes) :
    s.onreadable.Phase opens ok bytes ∧ s.onreadable.asked = s.asked ∧
      s.onreadable.started = s.started ∧ s.onreadable.known = s.known ∧
      (s.onreadable.reading = none ∨ s.onreadable.Starved) := by
  cases h with
  | control idle books =>
    obtain ⟨hbooks, hreads, hall⟩ := books.onreadable
    exact ⟨.control (hreads.idle idle) hbooks, hreads.asked, hreads.started, hreads.known, hall⟩
  | linked given link whole flowing =>
    have he : s.onreadable = s := by
      unfold onreadable
      rw [readLoop, link.reading]
    rw [he]
    exact ⟨.linked given link whole flowing, rfl, rfl, rfl, .inl link.reading⟩

/-! ## Runs -/

def arrived (events : List InputEvent) : Bytes :=
  (events.map fun
    | .arrive chunk => chunk
    | _ => []).flatten

/-- The sizes `readExactly` was called with. -/
def calls (events : List InputEvent) : List Nat :=
  events.filterMap fun
    | .readExactly size => some size
    | _ => none

theorem arrived_append (events events' : List InputEvent) :
    arrived (events ++ events') = arrived events ++ arrived events' := by
  unfold arrived
  rw [List.map_append, List.flatten_append]

theorem calls_append (events events' : List InputEvent) :
    calls (events ++ events') = calls events ++ calls events' := List.filterMap_append ..

theorem run_append (s : CellInput) (events events' : List InputEvent) :
    s.run opens (events ++ events') = (s.run opens events).run opens events' := List.foldl_append ..

/-- What a step does to the calls, when those of `readExactly` are in turn. -/
theorem Phase.step {ok : Bool} {bytes : Bytes} {s : CellInput} (h : s.Phase opens ok bytes)
    (e : InputEvent) (hfine : ok = true → e.fine = true) :
    (s.step opens e).Phase opens ok (bytes ++ arrived [e]) ∧
      (s.step opens e).asked.Sublist (s.asked ++ calls [e]) ∧
      ((∀ size, e = .readExactly size → s.inTurn size) →
        (s.step opens e).asked = s.asked ++ calls [e] ∧
        ((s.step opens e).started = false → s.started = false ∧
          (s.known = true ∨ calls [e] ≠ [] → (s.step opens e).known = true))) := by
  have hquiet : arrived [e] = [] → calls [e] = [] → (s.step opens e).Phase opens ok bytes →
      (s.step opens e).asked = s.asked → ((s.step opens e).started = false → s.started = false ∧
        (s.known = true → (s.step opens e).known = true)) →
      (s.step opens e).Phase opens ok (bytes ++ arrived [e]) ∧
        (s.step opens e).asked.Sublist (s.asked ++ calls [e]) ∧
        ((∀ size, e = .readExactly size → s.inTurn size) →
          (s.step opens e).asked = s.asked ++ calls [e] ∧
          ((s.step opens e).started = false → s.started = false ∧
            (s.known = true ∨ calls [e] ≠ [] → (s.step opens e).known = true))) := by
    intro hbytes hnone hphase hasked hknown
    rw [hbytes, hnone, List.append_nil, List.append_nil, hasked]
    exact ⟨hphase, List.Sublist.refl _, fun _ => ⟨rfl, fun hs =>
      ⟨(hknown hs).1, fun hor => (hknown hs).2 (hor.resolve_right fun hne => hne rfl)⟩⟩⟩
  cases e with
  | arrive chunk =>
    have hsame : arrived [.arrive chunk] = chunk := List.append_nil chunk
    have hnone : calls [.arrive chunk] = [] := rfl
    rw [hsame, hnone, List.append_nil]
    refine ⟨h.arrive chunk fun hok he => ?_, List.Sublist.refl _, fun _ => ⟨rfl, fun hs =>
      ⟨hs, fun hor => hor.resolve_right fun hne => hne rfl⟩⟩⟩
    have := hfine hok
    simp [InputEvent.fine, he] at this
  | readExactly size =>
    obtain ⟨hphase, hasked, hturn⟩ := h.readExactly size
    have hbytes : arrived [.readExactly size] = [] := rfl
    rw [hbytes, List.append_nil]
    refine ⟨hphase, hasked, fun hcalls => ?_⟩
    obtain ⟨hasked', hknown⟩ := hturn (hcalls size rfl)
    exact ⟨hasked', fun _ => ⟨(hcalls size rfl).1, fun _ => hknown⟩⟩
  | readable =>
    obtain ⟨hphase, hasked, hstarted, hknown, -⟩ := h.readable
    exact hquiet rfl rfl hphase hasked fun hs => ⟨hstarted.symm.trans hs, fun hk => hknown.trans hk⟩
  | start allowed =>
    obtain ⟨hphase, hasked, hstarted, -⟩ := h.start allowed hfine
    exact hquiet rfl rfl hphase hasked fun hs => absurd (hstarted.symm.trans hs) (by decide)
  | data allowed =>
    obtain ⟨hphase, hasked, hstarted, hknown, -⟩ := h.data allowed hfine
    exact hquiet rfl rfl hphase hasked fun hs => ⟨hstarted.symm.trans hs, fun hk => hknown.trans hk⟩

theorem phase_new (opens : List Bytes → Bytes → Bool) (ok : Bool) : new.Phase opens ok [] :=
  .control ⟨rfl, rfl, rfl, rfl, rfl⟩ ⟨List.nodup_nil, fun _ hi => (List.not_mem_nil hi).elim,
    fun _ hx => (List.not_mem_nil hx).elim, fun _ hr => (by cases hr), fun _ hi => (by cases hi),
    fun _ _ hi => (List.not_mem_nil hi).elim, rfl⟩

theorem phase_run (opens : List Bytes → Bytes → Bool) (ok : Bool) (events : List InputEvent)
    (hok : ok = true → events.all InputEvent.fine) :
    (new.run opens events).Phase opens ok (arrived events) ∧
      (new.run opens events).asked.Sublist (calls events) := by
  induction events using List.reverseRecOn with
  | nil => exact ⟨phase_new opens ok, List.Sublist.refl _⟩
  | append_singleton events e ih =>
    simp only [List.all_append, Bool.and_eq_true, List.all_cons, List.all_nil, and_true] at hok
    obtain ⟨hphase, hasked⟩ := ih fun h => (hok h).1
    obtain ⟨hphase', hasked', -⟩ := hphase.step e fun h => (hok h).2
    rw [arrived_append, calls_append, run_append]
    exact ⟨hphase', hasked'.trans (hasked.append (List.Sublist.refl _))⟩

/-- The calls of `readExactly` come one at a time and before the link starts. -/
def OneAtATime (opens : List Bytes → Bytes → Bool) (events : List InputEvent) : Prop :=
  ∀ n size, events[n]? = some (.readExactly size) → (new.run opens (events.take n)).inTurn size

/-- No call that comes in turn is lost, and the stream is known until the link starts. -/
theorem asked_run {events : List InputEvent} (h : OneAtATime opens events) :
    (new.run opens events).asked = calls events ∧ ((new.run opens events).started = false →
      calls events ≠ [] → (new.run opens events).known = true) := by
  induction events using List.reverseRecOn with
  | nil => exact ⟨rfl, fun _ hne => absurd rfl hne⟩
  | append_singleton events e ih =>
    obtain ⟨hasked, hknown⟩ := ih fun n size hn => by
      have hlt : n < events.length := (List.getElem?_eq_some_iff.mp hn).1
      have hturn := h n size (by rw [List.getElem?_append_left hlt]; exact hn)
      rwa [List.take_append_of_le_length hlt.le] at hturn
    have hlast : ∀ size, e = .readExactly size → (new.run opens events).inTurn size := by
      rintro size rfl
      have hturn := h events.length size (by simp)
      rwa [List.take_left] at hturn
    obtain ⟨hphase, -⟩ := phase_run opens false events fun hf => by cases hf
    obtain ⟨hasked', hknown'⟩ := (hphase.step e fun hf => by cases hf).2.2 hlast
    rw [calls_append, run_append]
    refine ⟨hasked'.trans (congrArg (· ++ calls [e]) hasked), fun hs hne => ?_⟩
    obtain ⟨hs', hk⟩ := hknown' hs
    refine hk ?_
    by_cases hnone : calls events = []
    · exact .inr fun hnil => hne (by rw [hnone, hnil]; rfl)
    · exact .inl (hknown hs' hnone)

/-- The slices of the given sizes, one after the other. -/
def slices : Bytes → List Nat → List Bytes
  | _, [] => []
  | bytes, size :: sizes => bytes.take size :: slices (bytes.drop size) sizes

theorem eq_slices : ∀ {parts : List Bytes} {sizes : List Nat} (rest : Bytes),
    parts.map List.length = sizes → parts = slices (parts.flatten ++ rest) sizes ∧
      (parts.flatten ++ rest).drop sizes.sum = rest ∧ sizes.sum ≤ (parts.flatten ++ rest).length := by
  intro parts
  induction parts with
  | nil =>
    rintro sizes rest rfl
    exact ⟨rfl, rfl, Nat.zero_le _⟩
  | cons part parts ih =>
    rintro sizes rest rfl
    obtain ⟨hparts, hdrop, hle⟩ := ih rest rfl
    rw [List.map_cons, List.sum_cons, List.flatten_cons, List.append_assoc]
    refine ⟨?_, ?_, ?_⟩
    · rw [slices, List.take_left, List.drop_left]
      exact congrArg _ hparts
    · rw [← List.drop_drop, List.drop_left]
      exact hdrop
    · rw [List.length_append]
      omega

theorem Phase.returned {ok : Bool} {bytes : Bytes} {s : CellInput} (h : s.Phase opens ok bytes) :
    ∃ rest, s.returnedBytes.flatten ++ rest = bytes ∧
      s.returnedBytes.map List.length = s.returned.map Prod.fst := by
  have hlens : (∀ x ∈ s.returned, (load s.heap x.2).length = x.1) →
      s.returnedBytes.map List.length = s.returned.map Prod.fst := by
    intro hsizes
    unfold returnedBytes
    rw [List.map_map]
    exact List.map_congr_left hsizes
  cases h with
  | control idle books => exact ⟨_, (List.append_assoc ..).symm.trans books.whole, hlens books.sizes⟩
  | linked given link whole flowing =>
    exact ⟨_, (List.append_assoc ..).symm.trans whole, hlens link.sizes⟩

/-- All that came has been used, or the link is gone. -/
def finished (s : CellInput) : Prop := s.destroyed = true ∨ s.flowing = true ∧ s.queue = []

/-- What the link has cut is what it would cut of all the bytes after the control messages. -/
theorem Phase.framer {bytes : Bytes} {s : CellInput} (h : s.Phase opens true bytes) (hf : s.finished) :
    s.framer = fresh.feed cellSize opens (bytes.drop (s.returned.map Prod.fst).sum) := by
  obtain ⟨rest, hrest, hlens⟩ := h.returned
  obtain ⟨-, hdrop, -⟩ := eq_slices rest hlens
  rw [hrest] at hdrop
  rw [hdrop]
  cases h with
  | control idle books =>
    rcases hf with hd | ⟨hfl, -⟩
    · exact absurd (hd.symm.trans idle.destroyed) (by decide)
    · exact absurd (hfl.symm.trans idle.flowing) (by decide)
  | linked given link whole flowing =>
    have hgiven := link.fed (.inr rfl)
    unfold Whole at whole
    rw [List.append_assoc, ← hrest] at whole
    have hall : given ++ (s.queue.map (load s.heap)).flatten = rest := List.append_cancel_left whole
    rw [← hall, ← Framer.feed_feed (by decide), ← hgiven]
    rcases hf with hd | ⟨-, hq⟩
    · exact (if_pos hd).symm
    · rw [hq]
      cases hd : s.destroyed with
      | true => exact (if_pos hd).symm
      | false =>
        have hkept : s.pending.length < cellSize := by
          unfold pending
          cases s.incoming with
          | none => exact Nat.succ_pos _
          | some i =>
            dsimp only
            rw [List.length_take]
            have := link.kept.short
            omega
        unfold Framer.feed CellInput.framer
        rw [hd, if_neg Bool.false_ne_true]
        dsimp only
        rw [List.map_nil, List.flatten_nil, List.append_nil, Framer.cut_short hkept]

theorem Phase.slices {ok : Bool} {bytes : Bytes} {s : CellInput} (h : s.Phase opens ok bytes) :
    s.returnedBytes = CellInput.slices bytes (s.returned.map Prod.fst) ∧
      (s.returned.map Prod.fst).sum ≤ bytes.length := by
  obtain ⟨rest, hrest, hlens⟩ := h.returned
  obtain ⟨hslices, -, hle⟩ := eq_slices rest hlens
  rw [hrest] at hslices hle
  exact ⟨hslices, hle⟩

theorem Phase.cells {bytes : Bytes} {s : CellInput} (h : s.Phase opens true bytes)
    (hf : s.finished) :
    s.cells = openUntil opens [] (framesOf cellSize (bytes.drop (s.returned.map Prod.fst).sum)) := by
  have hframes := congrArg Framer.frames (h.framer hf)
  rw [feed_fresh, Framer.frames_cut (by decide) (Nat.le_refl _)] at hframes
  exact hframes

theorem asked_of_returned {s : CellInput} (h : s.reading = none) :
    s.returned.map Prod.fst = s.asked := by
  unfold asked
  rw [h]
  exact (List.append_nil _).symm

/-- Once the bytes of all calls are there, no call is pending after the turn of the last. -/
theorem Phase.all_returned {ok : Bool} {bytes : Bytes} {s : CellInput} (h : s.Phase opens ok bytes)
    (hsum : s.asked.sum ≤ bytes.length) (hturn : s.reading = none ∨ s.Starved) :
    s.reading = none := by
  rcases hturn with hnone | ⟨hchunks, hshort⟩
  · exact hnone
  · cases h with
    | linked given link whole flowing => exact link.reading
    | control idle books =>
      cases hr : s.reading with
      | none => rfl
      | some r =>
        -- the bytes that came are in the buffers, and the last one is not full
        have hlt := hshort r hr
        have hwhole := congrArg List.length books.whole
        obtain ⟨hsize, hoff⟩ := books.read r hr
        have hread : s.readPart.length = r.offset := by
          unfold readPart
          rw [hr]
          dsimp only
          rw [List.length_take]
          omega
        have hunread : s.unread = [] := by
          unfold unread
          rw [hchunks]
          rfl
        have hlens : s.returnedBytes.map List.length = s.returned.map Prod.fst := by
          unfold returnedBytes
          rw [List.map_map]
          exact List.map_congr_left books.sizes
        unfold asked at hsum
        rw [hr, List.sum_append] at hsum
        rw [List.length_append, List.length_append, hunread, hread, List.length_flatten, hlens] at hwhole
        simp only [Option.map_some, Option.toList_some, List.sum_singleton, List.length_nil] at hsum hwhole
        omega

/-- The data events of the chunks that wait. -/
def drained (opens : List Bytes → Bytes → Bool) (s : CellInput) : CellInput :=
  s.run opens (List.replicate s.queue.length (.data true))

theorem Phase.drain {ok : Bool} {bytes : Bytes} : ∀ (n : Nat) {s : CellInput},
    s.Phase opens ok bytes → s.destroyed = true ∨ s.flowing = true ∧ s.queue.length ≤ n →
    (s.run opens (List.replicate n (.data true))).Phase opens ok bytes ∧
      (s.run opens (List.replicate n (.data true))).asked = s.asked ∧
      (s.run opens (List.replicate n (.data true))).finished := by
  intro n
  induction n with
  | zero =>
    intro s h hor
    exact ⟨h, rfl, hor.imp_right fun ⟨hf, hq⟩ => ⟨hf, List.eq_nil_of_length_eq_zero (Nat.le_zero.mp hq)⟩⟩
  | succ n ih =>
    intro s h hor
    obtain ⟨hphase, hasked, -, -, hflow⟩ := h.data true fun _ => rfl
    have hnext : (s.ondata opens true).destroyed = true ∨
        (s.ondata opens true).flowing = true ∧ (s.ondata opens true).queue.length ≤ n := by
      rcases hor with hd | ⟨hf, hq⟩
      · have hstill : s.flowing = false := by
          cases h with
          | control idle books => exact idle.flowing
          | linked given link whole flowing => rw [flowing, hd]; rfl
        rw [ondata, if_pos hstill]
        exact .inl hd
      · obtain ⟨hqueue, hend⟩ := hflow hf
        rw [hqueue, List.length_tail]
        exact hend.symm.imp_right fun hf' => ⟨hf', by omega⟩
    obtain ⟨h₁, h₂, h₃⟩ := ih hphase hnext
    exact ⟨h₁, h₂.trans hasked, h₃⟩

/-- Byte-stream framing does not depend on the chunks. In every state of every run: the
buffers that `readExactly` returned are slices of the bytes that came, of the sizes asked for,
and the cells handed to `_openCell` are the next slices of 1200 bytes. Calls that are made one
at a time all return once their bytes are there, and a link started then cuts all that follows.
Once everything is used fewer than 1200 bytes are kept and no byte is lost. When no chunk is
empty and the address check passes, the cells are all there are, up to one that is refused.
Another splitting of the bytes gives the same. -/
theorem framing_chunk_invariant (opens : List Bytes → Bytes → Bool) (events : List InputEvent) :
    let s := new.run opens events
    let bytes := arrived events
    let sizes := s.returned.map Prod.fst
    sizes.Sublist (calls events) ∧ sizes.sum ≤ bytes.length ∧
    s.returnedBytes = slices bytes sizes ∧
    s.cells <+: framesOf cellSize (bytes.drop sizes.sum) ∧ s.incomingBytes < cellSize ∧
    (s.onreadable.reading = none ∨ s.onreadable.chunks = []) ∧
    (OneAtATime opens events → (calls events).sum ≤ bytes.length →
      s.onreadable.returned.map Prod.fst = calls events ∧
      s.onreadable.returnedBytes = slices bytes (calls events) ∧
      (s.started = false → calls events ≠ [] → events.all InputEvent.fine = true →
        let link := (s.onreadable.start opens true).drained opens
        link.finished ∧ link.returnedBytes = slices bytes (calls events) ∧
        link.cells = openUntil opens [] (framesOf cellSize (bytes.drop (calls events).sum)))) ∧
    (s.flowing = true → (s.drained opens).finished) ∧
    (s.flowing = true → s.queue = [] → s.cells = framesOf cellSize (bytes.drop sizes.sum) ∧
      s.cells.flatten ++ s.pending = bytes.drop sizes.sum) ∧
    (events.all InputEvent.fine = true → s.finished →
      s.cells = openUntil opens [] (framesOf cellSize (bytes.drop sizes.sum))) ∧
    ∀ events', events.all InputEvent.fine = true → events'.all InputEvent.fine = true →
      arrived events' = bytes → (new.run opens events').returned.map Prod.fst = sizes →
        (new.run opens events').returnedBytes = s.returnedBytes ∧
        (s.finished → (new.run opens events').finished → (new.run opens events').cells = s.cells ∧
          (new.run opens events').pending = s.pending) := by
  intro s bytes sizes
  obtain ⟨hphase, hasked⟩ := phase_run opens false events fun h => by cases h
  have hreturned : ∀ events : List InputEvent, (new.run opens events).returnedBytes =
      slices (arrived events) ((new.run opens events).returned.map Prod.fst) := fun events =>
    (phase_run opens false events fun h => by cases h).1.slices.1
  have hframer : ∀ events : List InputEvent, events.all InputEvent.fine = true →
      (new.run opens events).finished → (new.run opens events).framer = fresh.feed cellSize opens
        ((arrived events).drop ((new.run opens events).returned.map Prod.fst).sum) := fun events hfine hf =>
    (phase_run opens true events fun _ => hfine).1.framer hf
  obtain ⟨rest, hrest, hlens⟩ := hphase.returned
  obtain ⟨-, hdrop, hle⟩ := eq_slices rest hlens
  rw [hrest] at hdrop hle
  refine ⟨(List.sublist_append_left _ _).trans hasked, hle, hreturned events, ?_, ?_,
    hphase.readable.2.2.2.2.imp_right And.left, fun hturns hsum => ?_,
    fun hfl => (hphase.drain _ (.inr ⟨hfl, Nat.le_refl _⟩)).2.2, fun hfl hq => ?_,
    fun hfine hf => (phase_run opens true events fun _ => hfine).1.cells hf,
    fun events' hfine hfine' hsame hsizes => ?_⟩
  · show s.cells <+: framesOf cellSize (bytes.drop sizes.sum)
    rw [hdrop]
    cases hphase with
    | control idle books => exact idle.cells.symm ▸ List.nil_prefix
    | linked given link whole flowing =>
      unfold Whole at whole
      rw [List.append_assoc, ← hrest] at whole
      rw [← List.append_cancel_left whole]
      exact link.cells.trans (Framer.framesOf_le (by decide) _ _)
  · cases hphase with
    | control idle books => exact idle.incomingBytes.symm ▸ Nat.succ_pos _
    | linked given link whole flowing => exact link.kept.short
  · obtain ⟨hall, hknown⟩ := asked_run hturns
    obtain ⟨hphase₁, hasked₁, hstarted₁, hknown₁, hturn₁⟩ := hphase.readable
    have hread : s.onreadable.reading = none :=
      hphase₁.all_returned (hasked₁ ▸ hall ▸ hsum) hturn₁
    have hsizes : s.onreadable.returned.map Prod.fst = calls events :=
      (asked_of_returned hread).trans (hasked₁.trans hall)
    refine ⟨hsizes, hsizes ▸ hphase₁.slices.1, fun hs hne hfine => ?_⟩
    -- the run goes on with the turn of the reader, the start, and the chunks that wait
    have hturn := (phase_run opens true events fun _ => hfine).1.readable.1
    obtain ⟨hphase₂, hasked₂, -, hup⟩ := hturn.start true fun _ => rfl
    have hup := hup (hstarted₁.trans hs) (hknown₁.trans (hknown hs hne)) hread
    obtain ⟨hphase₃, hasked₃, hfinished⟩ := hphase₂.drain (s.onreadable.start opens true).queue.length
      (hup.symm.imp_right fun hf => ⟨hf, Nat.le_refl _⟩)
    have hlinked : (CellInput.drained opens (s.onreadable.start opens true)).reading = none := by
      cases hphase₃ with
      | linked given link whole flowing => exact link.reading
      | control idle books =>
        rcases hfinished with hd | ⟨hf, -⟩
        · exact absurd (hd.symm.trans idle.destroyed) (by decide)
        · exact absurd (hf.symm.trans idle.flowing) (by decide)
    have hsizes₃ : (CellInput.drained opens (s.onreadable.start opens true)).returned.map Prod.fst =
        calls events :=
      (asked_of_returned hlinked).trans (hasked₃.trans (hasked₂.trans (hasked₁.trans hall)))
    exact ⟨hfinished, hsizes₃ ▸ hphase₃.slices.1, hsizes₃ ▸ hphase₃.cells hfinished⟩
  · cases hphase with
    | control idle books => exact absurd (hfl.symm.trans idle.flowing) (by decide)
    | linked given link whole flowing =>
      have hd : s.destroyed = false := by
        have hflow : s.flowing = !s.destroyed := flowing
        rw [hfl] at hflow
        simpa using hflow.symm
      unfold Whole at whole
      rw [List.append_assoc, ← hrest] at whole
      have hall := List.append_cancel_left whole
      have hq' : (new.run opens events).queue = [] := hq
      rw [hq', List.map_nil, List.flatten_nil, List.append_nil] at hall
      rw [hdrop, ← hall]
      have hfed := link.fed (.inl hd)
      have hended : (Framer.cut cellSize opens given.length [] given).ended = false := by
        rw [← feed_fresh, ← hfed]
        exact hd
      rw [feed_fresh] at hfed
      have hframes := Framer.frames_of_not_ended (by decide) (Nat.le_refl _) hended
      have hflat := Framer.flatten_cut hended
      rw [← hfed] at hframes hflat
      exact ⟨hframes, hflat⟩
  · refine ⟨?_, fun hf hf' => ?_⟩
    · rw [hreturned events', hsizes, hsame]
      exact (hreturned events).symm
    · have he := hframer events' hfine' hf'
      rw [hsizes, hsame] at he
      have heq := he.trans (hframer events hfine hf).symm
      exact ⟨congrArg Framer.frames heq, congrArg Framer.pending heq⟩

end CellInput

end HyperDht.Private
