import HyperDht.Private.EntryCredit
import HyperDht.Private.LinkLedger

/-!
# What a shared link is charged for

The cells of a shared link on their way from the entry to the destination: they
are charged when the entry seals them, when the guard opens and seals them, and
when the destination opens them. An OPEN or SPLICE_OPEN that raises the admission
frontier of these links pays for its stream; other cells live on what is left.

`Paced` is what a sequence of cells must keep to so that no charge fails, and a
link that serves its queues in turn hands on a sequence that is paced if the
one it was given was.
-/

namespace HyperDht.Private

/-! ## The bytes of a frame -/

def be32 (n : Nat) : List UInt8 :=
  [UInt8.ofNat (n / 2 ^ 24), UInt8.ofNat (n / 2 ^ 16), UInt8.ofNat (n / 2 ^ 8), UInt8.ofNat n]

namespace Body

def flag : Body → UInt8
  | data _ => 0
  | openStream => 1
  | fin => 2
  | reset => 3
  | credit _ => 4
  | demand _ => 5
  | release _ => 6
  | spliceOpen _ => 7
  | spliceReady _ => 8

def bytes : Body → List UInt8
  | data chunk => chunk
  | openStream | fin | reset => []
  | credit n | demand n | release n => [UInt8.ofNat (n / 2 ^ 8), UInt8.ofNat n]
  | spliceOpen udxId | spliceReady udxId => be32 udxId

end Body

def encodeLogical (f : Frame) : List UInt8 := be32 f.streamId ++ f.body.flag :: f.body.bytes

theorem readU32_encodeLogical {f : Frame} (h : f.streamId < 2 ^ 32) :
    readU32 (encodeLogical f) = f.streamId := by
  show readU32 (UInt8.ofNat _ :: UInt8.ofNat _ :: UInt8.ofNat _ :: UInt8.ofNat _ :: _) = _
  simp only [readU32, List.take_succ_cons, List.take_zero, List.foldl_cons, List.foldl_nil,
    UInt8.toNat_ofNat']
  omega

theorem isOpening_encodeLogical (f : Frame) :
    LinkLedgers.isOpening (encodeLogical f) = f.body.isOpen := by
  have hflag : (encodeLogical f)[4]? = some f.body.flag := rfl
  have hlen : (encodeLogical f).length = 5 + f.body.bytes.length := by
    show (f.body.bytes.length + 1) + 1 + 1 + 1 + 1 = _
    omega
  unfold LinkLedgers.isOpening
  rw [hflag, hlen]
  cases f.body with
  | data chunk => simp [Body.flag, Body.isOpen, openFlag, spliceOpenFlag]
  | _ => rfl

/-- A frame raises the frontier if it opens a stream above it. -/
theorem raises_encodeLogical {s : LinkLedgers} (hs : s.maxStreams = maxRouteStreams) {f : Frame}
    (h : f.streamId < 2 ^ 32) : s.raises (encodeLogical f) = true ↔ f.body.isOpen = true ∧
      f.streamId ≠ 0 ∧ f.streamId % 2 = 0 ∧ s.admissionFrontier < f.streamId := by
  have hm : s.multiplexed = true := by
    rw [LinkLedgers.multiplexed, hs]
    decide
  rw [LinkLedgers.raises, hm, isOpening_encodeLogical, readU32_encodeLogical h]
  simp [and_assoc]

/-! ## Sequences of cells that pay for themselves -/

/-- The stream ids a sequence of frames opens. -/
def openIds (fs : List Frame) : List Nat := (fs.filter fun f => f.body.isOpen).map Frame.streamId

def others (fs : List Frame) : List Frame := fs.filter fun f => !f.body.isOpen

/-- What `n` streams pay for beyond their OPEN. -/
def paid (n : Nat) : Nat := (maxStreamCells - 1) * n

theorem paid_succ (n : Nat) : paid (n + 1) + 1 = paid n + maxStreamCells := by
  have hpos : 1 ≤ maxStreamCells := by decide
  unfold paid
  rw [Nat.mul_add_one, Nat.add_assoc, Nat.sub_add_cancel hpos]

/-- A sequence of frames opens streams in the order of their ids, and never has
more than fifteen other frames beyond what the streams opened so far pay for. -/
structure Paced (fs : List Frame) : Prop where
  sorted : (openIds fs).Pairwise (· < ·)
  ids : ∀ f ∈ fs, f.streamId < 2 ^ 32 ∧ f.streamId ≠ 0 ∧ f.streamId % 2 = 0
  few : (others fs).length ≤ 2 ^ 31
  pace : ∀ {p s : List Frame}, p ++ s = fs →
    (others p).length ≤ paid (openIds p).length + 15

theorem openIds_append (fs gs : List Frame) : openIds (fs ++ gs) = openIds fs ++ openIds gs := by
  unfold openIds
  rw [List.filter_append, List.map_append]

theorem others_append (fs gs : List Frame) : others (fs ++ gs) = others fs ++ others gs :=
  List.filter_append _ _

/-- There are not more even ids than fit the limit of the ledgers. -/
theorem length_le_of_even {ids : List Nat} (hn : ids.Nodup)
    (h : ∀ id ∈ ids, id < 2 ^ 32 ∧ id % 2 = 0) : ids.length ≤ 2 ^ 31 := by
  have hnodup : (ids.map (· / 2)).Nodup := by
    apply List.Nodup.map_on _ hn
    intro x hx y hy hxy
    have := (h x hx).2
    have := (h y hy).2
    omega
  have hsub : ids.map (· / 2) ⊆ List.range (2 ^ 31) := by
    intro y hy
    obtain ⟨x, hx, rfl⟩ := List.mem_map.mp hy
    have := (h x hx).1
    rw [List.mem_range]
    omega
  have hle := (List.subperm_of_subset hnodup hsub).length_le
  rwa [List.length_range, List.length_map] at hle

/-! ## The ledgers of paced cells -/

namespace LinkLedgers

/-- The ledger is as far as the cells `fs` bring it, with a cell for every stream
that has sent nothing but its OPEN. -/
structure Ahead (side : Side) (fs : List Frame) (s : LinkLedgers) : Prop where
  funded : s.Funded
  live : s.destroyed = false
  above : ∀ id ∈ openIds fs, id ≤ s.admissionFrontier
  reached : s.admissionFrontier = 0 ∨ s.admissionFrontier ∈ openIds fs
  left : min ((maxControlCells + paid (openIds fs).length : Nat) : Int)
    (s.ledgerLimit - 1) ≤ s.remaining side + (others fs).length

theorem ahead_new (memory : MemoryTree) (side : Side) : Ahead side [] (new maxRouteStreams memory) := by
  refine ⟨funded_new memory, rfl, fun _ h => absurd h List.not_mem_nil, .inl rfl, ?_⟩
  rw [remaining_eq (funds_new memory side)]
  exact min_le_left _ _

/-- The limit leaves room for a cell for every stream. -/
theorem limit_room : (2 ^ 31 + 2 : Int) ≤
    (maxRouteStreams * maxStreamCells + maxControlCells : Nat) ∧ 3 ≤ maxStreamCells := by
  decide

theorem Paced.last {fs : List Frame} {f : Frame} (h : Paced (fs ++ [f])) :
    (others fs).length ≤ paid (openIds fs).length + 15 ∧
      (others fs).length ≤ 2 ^ 31 := by
  have hfew := h.few
  rw [others_append, List.length_append] at hfew
  exact ⟨h.pace rfl, by omega⟩

theorem Ahead.raises {side : Side} {fs : List Frame} {s : LinkLedgers} (h : Ahead side fs s)
    {f : Frame} (hp : Paced (fs ++ [f])) :
    s.raises (encodeLogical f) = f.body.isOpen := by
  obtain ⟨hlt, hne, hev⟩ := hp.ids f (List.mem_append_right _ List.mem_cons_self)
  rw [Bool.eq_iff_iff, raises_encodeLogical h.funded.streams hlt]
  constructor
  · exact fun hr => hr.1
  · intro ho
    refine ⟨ho, hne, hev, ?_⟩
    rcases h.reached with hz | hmem
    · omega
    · have hs := hp.sorted
      rw [openIds_append] at hs
      have hf : openIds [f] = [f.streamId] := by
        unfold openIds
        rw [List.filter_singleton, ho]
        rfl
      exact (List.pairwise_append.mp hs).2.2 _ hmem _ (by rw [hf]; exact List.mem_cons_self)

theorem openIds_singleton (f : Frame) :
    openIds [f] = if f.body.isOpen then [f.streamId] else [] := by
  unfold openIds
  rw [List.filter_singleton]
  cases f.body.isOpen with
  | true => rfl
  | false => rfl

theorem others_singleton (f : Frame) : others [f] = if f.body.isOpen then [] else [f] := by
  unfold others
  rw [List.filter_singleton]
  cases f.body.isOpen with
  | true => rfl
  | false => rfl

/-- An OPEN pays for itself and for its stream, up to the limit. -/
theorem left_open {control before after cells others : Nat} {limit left left' : Int}
    (hpaid : after + 1 = before + cells) (hcells : 3 ≤ cells)
    (h : min ((control + before : Nat) : Int) (limit - 1) ≤ left + others)
    (hleft : min (limit - 1) (left - 1 + cells) ≤ left') :
    min ((control + after : Nat) : Int) (limit - 1) ≤ left' + others := by
  omega

/-- The state after the cell `f`: `s₁` is `s` funded by it, if it is an OPEN, and
one cell is charged before or after that. -/
theorem Ahead.next {side : Side} {fs : List Frame} {s s₁ : LinkLedgers} (h : Ahead side fs s)
    {f : Frame} (hp : Paced (fs ++ [f])) (hfunded : s₁.Funded) (hlive : s₁.destroyed = false)
    (hfront : s₁.admissionFrontier = if f.body.isOpen then f.streamId else s.admissionFrontier)
    (hleft : (if f.body.isOpen then
        min (s.ledgerLimit - 1 : Int) (s.remaining side - 1 + maxStreamCells)
      else s.remaining side - 1) ≤ s₁.remaining side) : Ahead side (fs ++ [f]) s₁ := by
  have hleft₀ := h.left
  have hthree := limit_room.2
  have hlimit : s₁.ledgerLimit = s.ledgerLimit :=
    hfunded.ledgerLimit_eq.trans h.funded.ledgerLimit_eq.symm
  have hids : openIds (fs ++ [f]) = openIds fs ++ if f.body.isOpen then [f.streamId] else [] := by
    rw [openIds_append, openIds_singleton]
  have hothers : others (fs ++ [f]) = others fs ++ if f.body.isOpen then [] else [f] := by
    rw [others_append, others_singleton]
  cases ho : f.body.isOpen with
  | true =>
    rw [ho] at hfront hleft hids hothers
    rw [if_pos rfl] at hfront hleft hids hothers
    rw [List.append_nil] at hothers
    have hlen' : (openIds (fs ++ [f])).length = (openIds fs).length + 1 := by
      rw [hids, List.length_append]
      rfl
    have hlt : ∀ id ∈ openIds fs, id < f.streamId := by
      intro id hid
      have hs := hp.sorted
      rw [hids] at hs
      exact (List.pairwise_append.mp hs).2.2 _ hid _ List.mem_cons_self
    refine ⟨hfunded, hlive, fun id hid => ?_, .inr ?_, ?_⟩
    · rw [hfront]
      rw [hids] at hid
      rcases List.mem_append.mp hid with hid | hid
      · exact (hlt id hid).le
      · exact (List.mem_singleton.mp hid).le
    · rw [hfront, hids]
      exact List.mem_append_right _ List.mem_cons_self
    · rw [hothers, hlen', hlimit]
      exact left_open (paid_succ _) hthree hleft₀ hleft
  | false =>
    rw [ho] at hfront hleft hids hothers
    rw [if_neg Bool.false_ne_true] at hfront hleft hids hothers
    rw [List.append_nil] at hids
    refine ⟨hfunded, hlive, fun id hid => ?_, ?_, ?_⟩
    · rw [hfront]
      exact h.above id (hids ▸ hid)
    · rw [hfront, hids]
      exact h.reached
    · rw [hids, hothers, List.length_append, hlimit]
      simp only [List.length_singleton]
      omega

theorem Ahead.one_le {side : Side} {fs : List Frame} {s : LinkLedgers} (h : Ahead side fs s)
    {f : Frame} (hp : Paced (fs ++ [f])) : 1 ≤ s.remaining side := by
  have hleft := h.left
  obtain ⟨hpace, hfew⟩ := Paced.last hp
  have hroom := limit_room.1
  have hc : maxControlCells = 16 := rfl
  rw [h.funded.ledgerLimit_eq] at hleft
  omega

theorem Ahead.sealed {fs : List Frame} {s : LinkLedgers} (h : Ahead .send fs s) {f : Frame}
    (hp : Paced (fs ++ [f])) : Ahead .send (fs ++ [f]) (s.step (.sealed (encodeLogical f))) := by
  obtain ⟨s₁, he, h₁, hd₁, hkeep, hraise⟩ := h.funded.fund h.live (encodeLogical f)
  have hraises := h.raises hp
  have hone := h.one_le hp
  have hthree := limit_room.2
  have hlimit := h.funded.ledgerLimit_eq
  have hroom := limit_room.1
  have hrem : s₁.remaining .send = if f.body.isOpen then
      min (s.ledgerLimit : Int) (s.remaining .send + maxStreamCells) else s.remaining .send := by
    cases ho : f.body.isOpen with
    | true => exact (hraise (hraises.trans ho)).2.2 .send
    | false => rw [hkeep (hraises.trans ho)]; rfl
  have hfront : s₁.admissionFrontier = if f.body.isOpen then f.streamId else s.admissionFrontier := by
    cases ho : f.body.isOpen with
    | true =>
      rw [(hraise (hraises.trans ho)).2.1,
        readU32_encodeLogical (hp.ids f (List.mem_append_right _ List.mem_cons_self)).1]
      rfl
    | false => rw [hkeep (hraises.trans ho)]; rfl
  unfold LinkLedgers.step
  rw [if_neg (by rw [h.live]; exact Bool.false_ne_true)]
  dsimp only
  unfold sealCell
  rw [he]
  dsimp only
  rcases h₁.charge hd₁ .send with ⟨hzero, -⟩ | ⟨s₂, hc, h₂, hd₂, -, hf₂, hrem₂, -⟩
  · rw [hrem] at hzero
    split at hzero
    · rw [hlimit] at hzero
      omega
    · omega
  · rw [hc]
    refine h.next hp h₂ hd₂ (hf₂.trans hfront) ?_
    show _ ≤ s₂.remaining .send
    rw [hrem₂, hrem]
    split
    · omega
    · omega

theorem Ahead.opened {fs : List Frame} {s : LinkLedgers} (h : Ahead .receive fs s) {f : Frame}
    (hp : Paced (fs ++ [f])) :
    Ahead .receive (fs ++ [f]) ((s.step .cell).step (.payload (encodeLogical f))) := by
  have hone := h.one_le hp
  have hcell : ∃ s₁, s.step .cell = s₁ ∧ s₁.Funded ∧ s₁.destroyed = false ∧
      s₁.admissionFrontier = s.admissionFrontier ∧
      s₁.remaining .receive = s.remaining .receive - 1 := by
    unfold LinkLedgers.step
    rw [if_neg (by rw [h.live]; exact Bool.false_ne_true)]
    dsimp only
    rcases h.funded.charge h.live .receive with ⟨hzero, -⟩ | ⟨s₁, hc, h₁, hd₁, -, hf₁, hrem₁, -⟩
    · omega
    · rw [hc]
      exact ⟨s₁, rfl, h₁, hd₁, hf₁, hrem₁⟩
  obtain ⟨s₁, hs₁, h₁, hd₁, hf₁, hrem₁⟩ := hcell
  obtain ⟨s₂, he, h₂, hd₂, hkeep, hraise⟩ := h₁.fund hd₁ (encodeLogical f)
  have hlt := (hp.ids f (List.mem_append_right _ List.mem_cons_self)).1
  have hraises : s₁.raises (encodeLogical f) = f.body.isOpen := by
    rw [← h.raises hp, Bool.eq_iff_iff, raises_encodeLogical h₁.streams hlt,
      raises_encodeLogical h.funded.streams hlt, hf₁]
  have hlimit : s₁.ledgerLimit = s.ledgerLimit := h₁.ledgerLimit_eq.trans h.funded.ledgerLimit_eq.symm
  rw [hs₁]
  have hstep : s₁.step (.payload (encodeLogical f)) = s₂ := by
    unfold LinkLedgers.step
    rw [if_neg (by rw [hd₁]; exact Bool.false_ne_true)]
    dsimp only
    rw [he]
    rfl
  rw [hstep]
  cases ho : f.body.isOpen with
  | true =>
    obtain ⟨-, hfr, hrem⟩ := hraise (hraises.trans ho)
    refine h.next hp h₂ hd₂ ?_ ?_
    · rw [hfr, readU32_encodeLogical hlt, ho, if_pos rfl]
    · rw [ho, if_pos rfl, hrem .receive, hrem₁, hlimit]
      omega
  | false =>
    obtain rfl := hkeep (hraises.trans ho)
    refine h.next hp h₂ hd₂ ?_ ?_
    · rw [hf₁, ho]
      rfl
    · rw [ho, hrem₁]
      exact le_rfl

end LinkLedgers

/-! ## Streams that send an OPEN and a RESET -/

def framesOf (id : Nat) (fs : List Frame) : List Frame := fs.filter fun f => f.streamId = id

/-- The frames of a stream that opens at most once, and sends one more at most. -/
inductive Brief : List Frame → Prop where
  | nil : Brief []
  | opened {o : Frame} : o.body.isOpen = true → Brief [o]
  | closed {o r : Frame} : o.body.isOpen = true → r.body.isOpen = false → Brief [o, r]
  | abandoned {r : Frame} : r.body.isOpen = false → Brief [r]

/-- What `n` streams pay for beyond their OPEN and one cell more. -/
def spare (n : Nat) : Nat := (maxStreamCells - 2) * n

theorem paid_eq (n : Nat) : paid n = spare n + n := by
  have hcells : maxStreamCells - 1 = maxStreamCells - 2 + 1 := by decide
  unfold paid spare
  rw [hcells, Nat.add_one_mul]

/-- Is a frame of `fs` the first of its stream: an OPEN, or one of a stream that
did not open? -/
def marked (fs : List Frame) (f : Frame) : Bool := f.body.isOpen || decide (f.streamId ∉ openIds fs)

/-- What the entry sends on the shared link: a stream that opens pays for all it
may send but its OPEN and one cell, and the others live on that and on fifteen of
the control cells. -/
structure Disciplined (fs : List Frame) : Prop where
  sorted : (openIds fs).Pairwise (· < ·)
  ids : ∀ f ∈ fs, f.streamId < 2 ^ 32 ∧ f.streamId ≠ 0 ∧ f.streamId % 2 = 0
  brief : ∀ id, Brief (framesOf id fs)
  pace : ∀ {p : List Frame}, p <+: fs.filter (marked fs) →
    (others p).length ≤ spare (openIds p).length + 15

theorem Brief.initial {p l : List Frame} (h : Brief l) (hp : p <+: l) : Brief p := by
  cases h with
  | nil =>
    rw [List.prefix_nil.mp hp]
    exact .nil
  | opened ho =>
    rcases List.prefix_cons_iff.mp hp with rfl | ⟨t, rfl, ht⟩
    · exact .nil
    · rw [List.prefix_nil.mp ht]
      exact .opened ho
  | closed ho hr =>
    rcases List.prefix_cons_iff.mp hp with rfl | ⟨t, rfl, ht⟩
    · exact .nil
    · rcases List.prefix_cons_iff.mp ht with rfl | ⟨t', rfl, ht'⟩
      · exact .opened ho
      · rw [List.prefix_nil.mp ht']
        exact .closed ho hr
  | abandoned hr =>
    rcases List.prefix_cons_iff.mp hp with rfl | ⟨t, rfl, ht⟩
    · exact .nil
    · rw [List.prefix_nil.mp ht]
      exact .abandoned hr

theorem mem_framesOf {id : Nat} {fs : List Frame} {f : Frame} :
    f ∈ framesOf id fs ↔ f ∈ fs ∧ f.streamId = id := by
  unfold framesOf
  rw [List.mem_filter, decide_eq_true_eq]

theorem mem_others {fs : List Frame} {f : Frame} : f ∈ others fs ↔ f ∈ fs ∧ f.body.isOpen = false := by
  unfold others
  rw [List.mem_filter, Bool.not_eq_true']

theorem mem_openIds {fs : List Frame} {id : Nat} :
    id ∈ openIds fs ↔ ∃ f ∈ framesOf id fs, f.body.isOpen = true := by
  unfold openIds
  rw [List.mem_map]
  constructor
  · rintro ⟨f, hf, rfl⟩
    obtain ⟨hmem, ho⟩ := List.mem_filter.mp hf
    exact ⟨f, mem_framesOf.mpr ⟨hmem, rfl⟩, ho⟩
  · rintro ⟨f, hf, ho⟩
    obtain ⟨hmem, hid⟩ := mem_framesOf.mp hf
    exact ⟨f, List.mem_filter.mpr ⟨hmem, ho⟩, hid⟩

/-- A stream has one frame that opens nothing, at most. -/
theorem nodup_others {fs : List Frame} (h : ∀ id, Brief (framesOf id fs)) :
    ((others fs).map Frame.streamId).Nodup := by
  rw [List.nodup_iff_count_le_one]
  intro id
  have hcount : ((others fs).map Frame.streamId).count id = (others (framesOf id fs)).length := by
    unfold others framesOf
    rw [List.count, List.countP_map, List.countP_eq_length_filter, List.filter_filter,
      List.filter_filter]
    congr 2
    funext f
    simp only [Function.comp_apply]
    rw [Bool.and_comm]
    rfl
  rw [hcount]
  have hb := h id
  generalize framesOf id fs = l at hb
  cases hb with
  | nil => decide
  | opened ho => simp [others, ho]
  | closed ho hr => simp [others, ho, hr]
  | abandoned hr => simp [others, hr]

theorem length_le_of_ids {fs : List Frame} {ids : List Nat} (hn : (fs.map Frame.streamId).Nodup)
    (hsub : ∀ f ∈ fs, f.streamId ∈ ids) : fs.length ≤ ids.length := by
  have hle := (List.subperm_of_subset hn fun id hid => by
    obtain ⟨f, hf, rfl⟩ := List.mem_map.mp hid
    exact hsub f hf).length_le
  rwa [List.length_map] at hle

theorem nodup_filter_ids {fs : List Frame} (hn : (fs.map Frame.streamId).Nodup) (p : Frame → Bool) :
    ((fs.filter p).map Frame.streamId).Nodup :=
  (List.filter_sublist.map Frame.streamId).nodup hn

theorem openIds_marked (fs gs : List Frame) : openIds (fs.filter (marked gs)) = openIds fs := by
  unfold openIds
  rw [List.filter_filter]
  congr 2
  funext f
  unfold marked
  cases f.body.isOpen with
  | true => rfl
  | false => rfl

/-- Frames that come in the same order on every stream, and so do the marked ones. -/
theorem marked_sub {fs gs : List Frame} (h : Disciplined fs)
    (hframes : ∀ id, framesOf id gs <+: framesOf id fs) :
    ∀ f ∈ gs, marked gs f = marked fs f := by
  intro f hf
  unfold marked
  cases ho : f.body.isOpen with
  | true => rfl
  | false =>
    rw [Bool.false_or, Bool.false_or, decide_eq_decide, not_iff_not]
    have hpre := hframes f.streamId
    constructor
    · intro hin
      obtain ⟨g, hg, hgo⟩ := mem_openIds.mp hin
      exact mem_openIds.mpr ⟨g, hpre.subset hg, hgo⟩
    · -- the stream's OPEN is its first frame, so `f` is behind it
      intro hin
      obtain ⟨g, hg, hgo⟩ := mem_openIds.mp hin
      have hfin : f ∈ framesOf f.streamId gs := mem_framesOf.mpr ⟨hf, rfl⟩
      suffices hex : ∃ g ∈ framesOf f.streamId gs, g.body.isOpen = true from mem_openIds.mpr hex
      have hb := h.brief f.streamId
      generalize framesOf f.streamId gs = gk at hpre hfin ⊢
      generalize framesOf f.streamId fs = fk at hpre hb hg
      cases gk with
      | nil => cases hfin
      | cons x gk =>
        obtain ⟨t, ht⟩ := hpre
        rw [List.cons_append] at ht
        cases hb with
        | nil => cases ht
        | opened ho' => exact ⟨x, List.mem_cons_self, (List.cons.inj ht).1 ▸ ho'⟩
        | closed ho' hr => exact ⟨x, List.mem_cons_self, (List.cons.inj ht).1 ▸ ho'⟩
        | abandoned hr =>
          rw [List.mem_singleton.mp hg, hr] at hgo
          cases hgo

theorem Disciplined.sub {fs gs : List Frame} (h : Disciplined fs)
    (hframes : ∀ id, framesOf id gs <+: framesOf id fs)
    (hmarked : gs.filter (marked fs) <+: fs.filter (marked fs)) : Disciplined gs := by
  have hmem : ∀ f ∈ gs, f ∈ fs := by
    intro f hf
    exact (mem_framesOf.mp ((hframes f.streamId).subset (mem_framesOf.mpr ⟨hf, rfl⟩))).1
  refine ⟨?_, fun f hf => h.ids f (hmem f hf), fun id => (h.brief id).initial (hframes id),
    fun {p} hp => h.pace ?_⟩
  · have hsub : (openIds (gs.filter (marked fs))).Sublist (openIds (fs.filter (marked fs))) :=
      (hmarked.sublist.filter _).map _
    rw [openIds_marked, openIds_marked] at hsub
    exact h.sorted.sublist hsub
  · rw [List.filter_congr (marked_sub h hframes)] at hp
    exact hp.trans hmarked

theorem Disciplined.initial {p s : List Frame} (h : Disciplined (p ++ s)) : Disciplined p := by
  refine h.sub (fun id => ?_) ?_
  · unfold framesOf
    rw [List.filter_append]
    exact List.prefix_append _ _
  · rw [List.filter_append]
    exact List.prefix_append _ _

theorem Disciplined.paced {fs : List Frame} (h : Disciplined fs) : Paced fs := by
  refine ⟨h.sorted, h.ids, ?_, fun {p s} he => ?_⟩
  · have hle := length_le_of_even (nodup_others h.brief) fun id hid => by
      obtain ⟨f, hf, rfl⟩ := List.mem_map.mp hid
      obtain ⟨hlt, -, hev⟩ := h.ids f (mem_others.mp hf).1
      exact ⟨hlt, hev⟩
    rwa [List.length_map] at hle
  · have hp : Disciplined p := (he ▸ h : Disciplined (p ++ s)).initial
    have hn := nodup_others hp.brief
    have hsplit := List.length_eq_length_filter_add (l := others p) fun f => f.streamId ∈ openIds p
    have hin : ((others p).filter fun f => f.streamId ∈ openIds p).length ≤ (openIds p).length :=
      length_le_of_ids (nodup_filter_ids hn _) fun f hf => by
        simpa using (List.mem_filter.mp hf).2
    have hout : (others p).filter (fun f => !decide (f.streamId ∈ openIds p)) =
        others (p.filter (marked p)) := by
      unfold others
      rw [List.filter_filter, List.filter_filter]
      congr 1
      funext f
      unfold marked
      cases f.body.isOpen with
      | true => simp
      | false => simp
    have hpace := hp.pace (List.prefix_refl _)
    rw [openIds_marked] at hpace
    rw [hout] at hsplit
    rw [paid_eq]
    omega

/-! ## One more frame -/

/-- The number of streams that closed unopened. -/
def loose (fs : List Frame) : Nat := (others (fs.filter (marked fs))).length

/-- A frame that may follow: the stream has sent nothing but its OPEN, and if the
frame is an OPEN its id is above those before it. -/
structure Follows (fs : List Frame) (f : Frame) : Prop where
  id : f.streamId < 2 ^ 32 ∧ f.streamId ≠ 0 ∧ f.streamId % 2 = 0
  opens : ∀ g ∈ fs, g.streamId = f.streamId → g.body.isOpen = true
  above : f.body.isOpen = true → ∀ id ∈ openIds fs, id < f.streamId

theorem Follows.fresh {fs : List Frame} {f : Frame} (h : Follows fs f) (ho : f.body.isOpen = true) :
    ∀ g ∈ fs, g.streamId ≠ f.streamId := by
  intro g hg he
  have hin : g.streamId ∈ openIds fs :=
    mem_openIds.mpr ⟨g, mem_framesOf.mpr ⟨hg, rfl⟩, h.opens g hg he⟩
  exact absurd (h.above ho _ hin) (he ▸ Nat.lt_irrefl _)

theorem openIds_snoc (fs : List Frame) (f : Frame) :
    openIds (fs ++ [f]) = openIds fs ++ if f.body.isOpen then [f.streamId] else [] := by
  rw [openIds_append, LinkLedgers.openIds_singleton]

theorem Follows.filter_marked {fs : List Frame} {f : Frame} (h : Follows fs f) :
    (fs ++ [f]).filter (marked (fs ++ [f])) =
      fs.filter (marked fs) ++ if marked (fs ++ [f]) f then [f] else [] := by
  rw [List.filter_append, List.filter_singleton, cond_eq_ite]
  congr 1
  apply List.filter_congr
  intro g hg
  unfold marked
  rw [openIds_snoc]
  cases ho : f.body.isOpen with
  | false => rw [if_neg Bool.false_ne_true, List.append_nil]
  | true =>
    have hne := h.fresh ho g hg
    simp [hne]

theorem Follows.loose {fs : List Frame} {f : Frame} (h : Follows fs f) :
    loose (fs ++ [f]) = loose fs +
      if f.body.isOpen = false ∧ f.streamId ∉ openIds fs then 1 else 0 := by
  unfold Private.loose
  rw [h.filter_marked, others_append, List.length_append]
  congr 1
  unfold marked
  rw [openIds_snoc]
  cases ho : f.body.isOpen with
  | true => simp [others, ho]
  | false =>
    by_cases hin : f.streamId ∈ openIds fs
    · simp [hin, others]
    · simp [hin, others, ho]

theorem Follows.brief {fs : List Frame} {f : Frame} (h : Follows fs f)
    (hb : ∀ id, Brief (framesOf id fs)) (id : Nat) : Brief (framesOf id (fs ++ [f])) := by
  have hsplit : framesOf id (fs ++ [f]) = framesOf id fs ++ if f.streamId = id then [f] else [] := by
    unfold framesOf
    rw [List.filter_append, List.filter_singleton, cond_eq_ite]
    simp only [decide_eq_true_eq]
  rw [hsplit]
  by_cases hid : f.streamId = id
  · rw [if_pos hid]
    have hopen : ∀ g ∈ framesOf id fs, g.body.isOpen = true := by
      intro g hg
      obtain ⟨hmem, he⟩ := mem_framesOf.mp hg
      exact h.opens g hmem (he.trans hid.symm)
    have hnone : f.body.isOpen = true → framesOf id fs = [] := by
      intro ho
      rw [List.eq_nil_iff_forall_not_mem]
      intro g hg
      obtain ⟨hmem, he⟩ := mem_framesOf.mp hg
      exact h.fresh ho g hmem (he.trans hid.symm)
    have hb' := hb id
    cases ho : f.body.isOpen with
    | true =>
      rw [hnone ho]
      exact .opened ho
    | false =>
      generalize framesOf id fs = l at hb' hopen
      cases hb' with
      | nil => exact .abandoned ho
      | opened ho' => exact .closed ho' ho
      | closed ho' hr =>
        have := hopen _ (List.mem_cons_of_mem _ List.mem_cons_self)
        rw [hr] at this
        cases this
      | abandoned hr =>
        have := hopen _ List.mem_cons_self
        rw [hr] at this
        cases this
  · rw [if_neg hid, List.append_nil]
    exact hb id

theorem spare_le_succ (n : Nat) : spare n ≤ spare (n + 1) := Nat.mul_le_mul_left _ n.le_succ

theorem Disciplined.snoc {fs : List Frame} {f : Frame} (h : Disciplined fs) (hf : Follows fs f)
    (hspare : f.body.isOpen = false → f.streamId ∉ openIds fs →
      loose fs < spare (openIds fs).length + 15) : Disciplined (fs ++ [f]) := by
  refine ⟨?_, fun g hg => ?_, hf.brief h.brief, fun {p} hp => ?_⟩
  · rw [openIds_snoc]
    cases ho : f.body.isOpen with
    | false =>
      rw [if_neg Bool.false_ne_true, List.append_nil]
      exact h.sorted
    | true =>
      refine List.pairwise_append.mpr ⟨h.sorted, List.pairwise_singleton _ _, fun id hid id' hid' => ?_⟩
      rw [if_pos rfl] at hid'
      exact List.mem_singleton.mp hid' ▸ hf.above ho id hid
  · rcases List.mem_append.mp hg with hg | hg
    · exact h.ids g hg
    · exact List.mem_singleton.mp hg ▸ hf.id
  · rw [hf.filter_marked] at hp
    by_cases hm : marked (fs ++ [f]) f = true
    · rw [if_pos hm] at hp
      rcases List.prefix_concat_iff.mp hp with rfl | hp
      · have hpace := h.pace (List.prefix_refl _)
        have hsucc := spare_le_succ (openIds fs).length
        rw [openIds_marked] at hpace
        rw [others_append, openIds_append, openIds_marked, LinkLedgers.openIds_singleton,
          LinkLedgers.others_singleton, List.length_append, List.length_append]
        cases ho : f.body.isOpen with
        | true =>
          rw [if_pos rfl, if_pos rfl]
          simp only [List.length_nil, List.length_singleton]
          omega
        | false =>
          rw [if_neg Bool.false_ne_true, if_neg Bool.false_ne_true]
          simp only [List.length_nil, List.length_singleton]
          unfold marked at hm
          rw [openIds_snoc, ho, Bool.false_or, decide_eq_true_eq, if_neg Bool.false_ne_true,
            List.append_nil] at hm
          have := hspare ho hm
          unfold Private.loose at this
          exact this
      · exact h.pace hp
    · rw [if_neg hm, List.append_nil] at hp
      exact h.pace hp

/-! ## The queues of a link -/

/-- A link that was given the frames `queued` has sealed `sealed`. -/
def Sent (queued : List Frame) (r : Ring Nat Frame) (served : List Frame) : Prop :=
  r.Served Frame.streamId (marked queued) queued served

theorem Disciplined.first {fs : List Frame} {f : Frame} (h : Disciplined (fs ++ [f]))
    (hm : marked (fs ++ [f]) f = true) : framesOf f.streamId fs = [] := by
  have hb := h.brief f.streamId
  have hsplit : framesOf f.streamId (fs ++ [f]) = framesOf f.streamId fs ++ [f] := by
    unfold framesOf
    rw [List.filter_append, List.filter_singleton, decide_eq_true rfl]
    rfl
  have hnot : f.body.isOpen = true ∨ ∀ g ∈ framesOf f.streamId fs, g.body.isOpen = false := by
    cases ho : f.body.isOpen with
    | true => exact .inl rfl
    | false =>
      refine .inr fun g hg => ?_
      unfold marked at hm
      rw [ho, Bool.false_or, decide_eq_true_eq] at hm
      by_contra hgo
      apply hm
      refine mem_openIds.mpr ⟨g, ?_, by simpa using hgo⟩
      rw [hsplit]
      exact List.mem_append_left _ hg
  rw [hsplit] at hb
  generalize framesOf f.streamId fs = l at hb hnot
  cases l with
  | nil => rfl
  | cons x l =>
    exfalso
    rw [List.cons_append] at hb
    generalize hl : l ++ [f] = l' at hb
    cases hb with
    | opened ho => simp at hl
    | abandoned hr => simp at hl
    | closed ho hr =>
      obtain ⟨rfl, hfr⟩ : l = [] ∧ f = _ := by simpa using List.append_eq_singleton_iff.mp hl
      rcases hnot with hopen | hnone
      · rw [hfr, hr] at hopen
        cases hopen
      · rw [hnone x List.mem_cons_self] at ho
        cases ho

theorem sent_empty : Sent [] .empty [] := Ring.served_empty _ _

theorem Sent.enqueue {queued served : List Frame} {r : Ring Nat Frame} (h : Sent queued r served)
    {f : Frame} (hd : Disciplined (queued ++ [f])) :
    Sent (queued ++ [f]) (r.enqueue f.streamId f) served := by
  refine Ring.Served.enqueue (Ring.Served.congr h fun g hg => ?_) f hd.first
  refine (marked_sub hd (fun id => ?_) g hg).symm
  unfold framesOf
  rw [List.filter_append]
  exact List.prefix_append _ _

/-- A link that serves its queues in turn keeps the discipline. -/
theorem Sent.disciplined {queued served : List Frame} {r : Ring Nat Frame} (hs : Sent queued r served)
    (h : Disciplined queued) : Disciplined served := by
  refine h.sub (fun id => ⟨r.jobs id, ?_⟩) ⟨r.fronts (marked queued), ?_⟩
  · exact (hs.inOrder id).symm
  · exact hs.firsts.symm

/-! ## Frames with rewritten data -/

/-- A frame with only its stream id and whether it opens the stream. -/
def shape (f : Frame) : Frame := ⟨f.streamId, if f.body.isOpen then .openStream else .reset⟩

theorem isOpen_shape (f : Frame) : (shape f).body.isOpen = f.body.isOpen := by
  unfold shape
  cases f.body.isOpen with
  | true => rfl
  | false => rfl

theorem openIds_shape (fs : List Frame) : openIds (fs.map shape) = openIds fs := by
  unfold openIds
  rw [List.filter_map, List.map_map]
  rw [show ((fun f : Frame => f.body.isOpen) ∘ shape) = fun f => f.body.isOpen from
    funext isOpen_shape]
  rfl

theorem others_shape (fs : List Frame) : others (fs.map shape) = (others fs).map shape := by
  unfold others
  rw [List.filter_map]
  congr 2
  funext f
  exact congrArg Bool.not (isOpen_shape f)

theorem framesOf_shape (id : Nat) (fs : List Frame) :
    framesOf id (fs.map shape) = (framesOf id fs).map shape := by
  unfold framesOf
  rw [List.filter_map]
  rfl

theorem marked_shape (fs gs : List Frame) :
    (fs.map shape).filter (marked (gs.map shape)) = (fs.filter (marked gs)).map shape := by
  rw [List.filter_map]
  congr 2
  funext f
  show marked (gs.map shape) (shape f) = marked gs f
  unfold marked
  rw [openIds_shape, isOpen_shape]
  rfl

theorem brief_shape {fs : List Frame} : Brief (fs.map shape) ↔ Brief fs := by
  constructor
  · intro h
    generalize hl : fs.map shape = l at h
    cases h with
    | nil =>
      rw [List.map_eq_nil_iff.mp hl]
      exact .nil
    | opened ho =>
      obtain ⟨f, rfl, rfl⟩ := List.map_eq_singleton_iff.mp hl
      exact .opened (isOpen_shape f ▸ ho)
    | closed ho hr =>
      obtain ⟨f, rest, rfl, rfl, hrest⟩ := List.map_eq_cons_iff.mp hl
      obtain ⟨g, rfl, rfl⟩ := List.map_eq_singleton_iff.mp hrest
      exact .closed (isOpen_shape f ▸ ho) (isOpen_shape g ▸ hr)
    | abandoned hr =>
      obtain ⟨f, rfl, rfl⟩ := List.map_eq_singleton_iff.mp hl
      exact .abandoned (isOpen_shape f ▸ hr)
  · intro h
    cases h with
    | nil => exact .nil
    | opened ho => exact .opened ((isOpen_shape _).trans ho)
    | closed ho hr => exact .closed ((isOpen_shape _).trans ho) ((isOpen_shape _).trans hr)
    | abandoned hr => exact .abandoned ((isOpen_shape _).trans hr)

theorem disciplined_shape {fs : List Frame} : Disciplined (fs.map shape) ↔ Disciplined fs := by
  constructor
  · intro h
    refine ⟨openIds_shape fs ▸ h.sorted, fun f hf => h.ids (shape f) (List.mem_map_of_mem hf),
      fun id => brief_shape.mp (framesOf_shape id fs ▸ h.brief id), fun {p} hp => ?_⟩
    have := h.pace (p := p.map shape) (by rw [marked_shape]; exact hp.map shape)
    rwa [others_shape, openIds_shape, List.length_map] at this
  · intro h
    refine ⟨(openIds_shape fs).symm ▸ h.sorted, fun f hf => ?_,
      fun id => framesOf_shape id fs ▸ brief_shape.mpr (h.brief id), fun {p} hp => ?_⟩
    · obtain ⟨g, hg, rfl⟩ := List.mem_map.mp hf
      exact h.ids g hg
    · rw [marked_shape] at hp
      obtain ⟨q, hq, rfl⟩ := List.prefix_map_iff.mp hp
      rw [others_shape, openIds_shape, List.length_map]
      exact h.pace hq

/-- The discipline does not depend on the data of the frames. -/
theorem Disciplined.congr {fs gs : List Frame} (h : Disciplined fs)
    (hsame : gs.map shape = fs.map shape) : Disciplined gs :=
  disciplined_shape.mp (hsame ▸ disciplined_shape.mpr h)

end HyperDht.Private
