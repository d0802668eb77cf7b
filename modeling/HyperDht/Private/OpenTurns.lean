import HyperDht.Private.OpenOrder

/-!
# Opens leave the entry in order

A link serves its streams in turn, yet an OPEN is the first frame of its stream, so the
OPENs leave a link in the order in which they were sent on it (`Led`). Where the sources
open in the order of their stream ids, the entry puts them on the wire in that order
(`Talks.step`), whatever else it sends for its sources and itself.
-/

namespace HyperDht.Private

/-! ## Frames whose OPENs come first and in order -/

/-- The ids the entry hands out. -/
def Assigned (id : Nat) : Prop := id ≠ 0 ∧ id % 2 = 0 ∧ id < circuitStreamId

structure Led (fs : List Frame) : Prop where
  sorted : (openIds fs).Pairwise (· < ·)
  first : ∀ id, ∀ f ∈ (framesOf id fs).tail, f.body.isOpen = false
  ids : ∀ id ∈ openIds fs, Assigned id

theorem led_nil : Led [] :=
  ⟨.nil, fun _ _ h => absurd h List.not_mem_nil, fun _ h => absurd h List.not_mem_nil⟩

theorem framesOf_append (id : Nat) (fs gs : List Frame) :
    framesOf id (fs ++ gs) = framesOf id fs ++ framesOf id gs := List.filter_append _ _

theorem framesOf_singleton (id : Nat) (f : Frame) :
    framesOf id [f] = if f.streamId = id then [f] else [] := by
  unfold framesOf
  rw [List.filter_singleton]
  by_cases h : f.streamId = id
  · rw [if_pos h, decide_eq_true h, cond_true]
  · rw [if_neg h, decide_eq_false h, cond_false]

theorem Led.sub {fs gs : List Frame} (h : Led fs) (hstreams : ∀ id, framesOf id gs <+: framesOf id fs)
    (hopens : gs.filter (fun f => f.body.isOpen) <+: fs.filter fun f => f.body.isOpen) : Led gs := by
  have hids : openIds gs <+: openIds fs := hopens.map _
  refine ⟨h.sorted.sublist hids.sublist, fun id f hf => ?_, fun id hid => h.ids id (hids.subset hid)⟩
  refine h.first id f ?_
  obtain ⟨rest, hrest⟩ := hstreams id
  rw [← hrest]
  cases hg : framesOf id gs with
  | nil =>
    rw [hg] at hf
    exact absurd hf List.not_mem_nil
  | cons a as =>
    rw [hg] at hf
    exact List.mem_append_left _ hf

theorem Led.initial {fs gs : List Frame} (h : Led (fs ++ gs)) : Led fs := by
  refine h.sub (fun id => ?_) ?_
  · rw [framesOf_append]
    exact List.prefix_append _ _
  · rw [List.filter_append]
    exact List.prefix_append _ _

/-- A link that serves its streams in turn keeps the OPENs first and in order. -/
theorem Led.served {queued served : List Frame} {r : Ring Nat Frame} (h : Led queued)
    (hs : r.Served Frame.streamId (fun f => f.body.isOpen) queued served) : Led served := by
  refine h.sub (fun id => ⟨r.jobs id, ?_⟩) ⟨r.fronts fun f => f.body.isOpen, ?_⟩
  · exact (hs.inOrder id).symm
  · exact hs.firsts.symm

theorem Led.snoc {fs : List Frame} {f : Frame} (h : Led fs)
    (hopen : f.body.isOpen = true → framesOf f.streamId fs = [] ∧
      (∀ o ∈ openIds fs, o < f.streamId) ∧ Assigned f.streamId) : Led (fs ++ [f]) := by
  refine ⟨?_, fun id g hg => ?_, fun id hid => ?_⟩
  · rw [openIds_append, LinkLedgers.openIds_singleton]
    refine List.pairwise_append.mpr ⟨h.sorted, ?_, fun o ho id hid => ?_⟩
    · split <;> simp
    · split at hid
      · next hf =>
        rw [List.mem_singleton.mp hid]
        exact (hopen hf).2.1 o ho
      · exact absurd hid List.not_mem_nil
  · rw [framesOf_append, framesOf_singleton] at hg
    split at hg
    · next hid =>
      cases hfs : framesOf id fs with
      | nil =>
        rw [hfs] at hg
        exact absurd hg List.not_mem_nil
      | cons a as =>
        rw [hfs] at hg
        rcases List.mem_append.mp hg with hg | hg
        · exact h.first id g (by rw [hfs]; exact hg)
        · rw [List.mem_singleton.mp hg]
          cases hf : f.body.isOpen with
          | false => rfl
          | true =>
            have hnone := (hopen hf).1
            rw [hid, hfs] at hnone
            cases hnone
    · rw [List.append_nil] at hg
      exact h.first id g hg
  · rw [openIds_append, LinkLedgers.openIds_singleton] at hid
    split at hid
    · next hf =>
      rcases List.mem_append.mp hid with hid | hid
      · exact h.ids id hid
      · rw [List.mem_singleton.mp hid]
        exact (hopen hf).2.2
    · rw [List.append_nil] at hid
      exact h.ids id hid

theorem Led.append {fs gs : List Frame} (h : Led fs) (hg : ∀ g ∈ gs, g.body.isOpen = false) :
    Led (fs ++ gs) := by
  induction gs using List.reverseRecOn with
  | nil => exact (List.append_nil fs).symm ▸ h
  | append_singleton gs g ih =>
    rw [← List.append_assoc]
    refine (ih fun g' hg' => hg g' (List.mem_append_left _ hg')).snoc fun hopen => ?_
    exact absurd (hopen.symm.trans (hg g (List.mem_append_right _ List.mem_cons_self))) (by simp)

theorem Led.fresh {fs : List Frame} {f : Frame} (h : Led (fs ++ [f])) (hf : f.body.isOpen = true) :
    framesOf f.streamId fs = [] ∧ (∀ o ∈ openIds fs, o < f.streamId) ∧ Assigned f.streamId := by
  refine ⟨?_, ?_, h.ids _ ?_⟩
  · cases hfs : framesOf f.streamId fs with
    | nil => rfl
    | cons a as =>
      have hmem : f ∈ (framesOf f.streamId (fs ++ [f])).tail := by
        rw [framesOf_append, hfs, framesOf_singleton, if_pos rfl]
        exact List.mem_append_right _ List.mem_cons_self
      exact absurd (hf.symm.trans (h.first _ f hmem)) (by simp)
  · have hsorted := h.sorted
    rw [openIds_append, LinkLedgers.openIds_singleton, if_pos hf] at hsorted
    exact fun o ho => (List.pairwise_append.mp hsorted).2.2 o ho _ List.mem_cons_self
  · rw [openIds_append, LinkLedgers.openIds_singleton, if_pos hf]
    exact List.mem_append_right _ List.mem_cons_self

theorem Led.congr {fs gs : List Frame} (h : Led fs) (hshape : gs.map shape = fs.map shape) :
    Led gs := by
  have hids : openIds gs = openIds fs := by rw [← openIds_shape, hshape, openIds_shape]
  refine ⟨hids ▸ h.sorted, fun id g hg => ?_, hids ▸ h.ids⟩
  · have htail : (framesOf id gs).tail.map shape = (framesOf id fs).tail.map shape := by
      rw [List.map_tail, List.map_tail, ← framesOf_shape, ← framesOf_shape, hshape]
    have hmem : shape g ∈ (framesOf id fs).tail.map shape := by
      rw [← htail]
      exact List.mem_map_of_mem hg
    obtain ⟨f, hf, heq⟩ := List.mem_map.mp hmem
    rw [← isOpen_shape, ← heq, isOpen_shape]
    exact h.first id f hf

/-! ## What the entry sends beside OPENs -/

namespace Entry

/-- The same streams with the same shared link. -/
structure Same (e e' : Entry) : Prop where
  link : e'.link = e.link
  next : e'.nextStreamId = e.nextStreamId
  sources : ∀ id, e'.sources.get? id = none ↔ e.sources.get? id = none

theorem Same.refl (e : Entry) : Same e e := ⟨rfl, rfl, fun _ => Iff.rfl⟩

theorem Same.trans {e e' e'' : Entry} (h : Same e e') (h' : Same e' e'') : Same e e'' :=
  ⟨h'.link.trans h.link, h'.next.trans h.next, fun id => (h'.sources id).trans (h.sources id)⟩

theorem same_setRecord {e : Entry} {id : Nat} {r : Record} (hr : e.sources.get? id = some r)
    (r' : Record) : Same e (e.setRecord id r') := by
  refine ⟨rfl, rfl, fun id' => ?_⟩
  show (e.sources.set id r').get? id' = none ↔ _
  rw [JsMap.get?_set]
  split
  · next heq =>
    rw [heq, hr]
    simp
  · exact Iff.rfl

/-- `e'` is `e` closed, or `e` after frames on the shared link that open no stream: circuit
credit, frames of sources that are gone, and frames of the streams `ids`. -/
def Quiet (ids : List Nat) (e e' : Entry) : Prop :=
  e'.link = e.link.destroy ∨
    e'.nextStreamId = e.nextStreamId ∧ (∀ id, e.sources.get? id = none → e'.sources.get? id = none) ∧
      ∃ fs, e'.link = e.link.admits fs ∧ ∀ f ∈ fs, f.body.isOpen = false ∧
        (f.streamId = circuitStreamId ∨ e.sources.get? f.streamId ≠ none ∧
          (e'.sources.get? f.streamId = none ∨ f.streamId ∈ ids))

variable {ids : List Nat} {e e₁ e' : Entry}

theorem quiet_same (hs : Same e e') : Quiet ids e e' :=
  .inr ⟨hs.next, fun id => (hs.sources id).mpr, [], hs.link, fun _ h => absurd h List.not_mem_nil⟩

theorem quiet_drifts (hs : Same e e₁) {d : Int} (hd : Drifts d e₁ e') : Quiet ids e e' := by
  rcases hd with hshut | ⟨-, hd⟩
  · exact .inl (by rw [hshut.link, hs.link])
  · obtain ⟨fs, hlink, -, hfs⟩ := hd.out
    refine .inr ⟨hd.nextStreamId.trans hs.next,
      fun id hn => hd.sources_none ((hs.sources id).mpr hn), fs, by rw [hlink, hs.link],
      fun f hf => ?_⟩
    rcases hfs f hf with ⟨n, rfl, -, -⟩ | ⟨id, rfl, ⟨r, hr⟩, hgone⟩
    · exact ⟨rfl, .inl rfl⟩
    · refine ⟨rfl, .inr ⟨fun hn => ?_, .inl hgone⟩⟩
      exact absurd (hr.symm.trans ((hs.sources id).mpr hn)) (by simp)

theorem quiet_sendOut (hs : Same e e₁) (ho : e₁.Open) {f : Frame} (hf : f.body.isOpen = false)
    (hid : e.sources.get? f.streamId ≠ none) (hmem : f.streamId ∈ ids) :
    Quiet ids e (e₁.sendOut f) := by
  rcases sendOut_cases ho f with hshut | ⟨-, he⟩
  · exact .inl (by rw [hshut.link, hs.link])
  · rw [he]
    refine .inr ⟨hs.next, fun id => (hs.sources id).mpr, [f], ?_, fun g hg => ?_⟩
    · show e₁.link.enqueue f = _
      rw [hs.link]
      rfl
    · rw [List.mem_singleton.mp hg]
      exact ⟨hf, .inr ⟨hid, .inr hmem⟩⟩

theorem quiet_sendLeg (hs : Same e e₁) (ho : e₁.Open) (now : Int) (id : Nat) (f : Frame) :
    Quiet ids e (sendLeg now e₁ id f) := by
  rcases sendLeg_cases ho now id f with hd | ⟨l, -, -, -, he⟩
  · exact quiet_drifts hs hd
  · rw [he]
    exact quiet_same ⟨hs.link, hs.next, hs.sources⟩

theorem quiet_failLeg (hs : Same e e₁) (ho : e₁.Open) (now : Int) (id : Nat) (f : EntryFault) :
    Quiet ids e (failLeg now e₁ id f) := by
  have hs' : Same e (e₁.fault f) := ⟨hs.link, hs.next, hs.sources⟩
  exact quiet_drifts hs' (drifts_closeLeg (ho.fault f) now id)

theorem quiet_circuitControl (h : e.Open) (hsum : e.reverseSum = circuitWindow) (now : Int)
    {id : Nat} {r : Record} (hr : e.sources.get? id = some r) (body : Body) :
    Quiet ids e (circuitControl now e id r body) := by
  have hfail : ∀ f, Quiet ids e (failLeg now e id f) := quiet_failLeg (Same.refl e) h now id
  have hpool : ∀ p, Same e { e with forwardPool := p } := fun p => ⟨rfl, rfl, fun _ => Iff.rfl⟩
  unfold circuitControl
  split
  · split
    · exact hfail _
    · next amount hle =>
      have hset := reverseSum_setRecord hr { r with reverseInFlight := r.reverseInFlight - amount }
      dsimp only at hset
      have ho : (e.setRecord id { r with reverseInFlight := r.reverseInFlight - amount }).Open :=
        h.setRecord hr rfl (by omega)
      exact quiet_drifts (same_setRecord hr _) (drifts_returnReverse ho amount (by omega) false)
  · split
    · exact hfail _
    · split
      · exact hfail _
      · next p hp => exact quiet_drifts (hpool p) (drifts_distribute (h.demanded hp) now)
      · next p hp => exact quiet_sendLeg (hpool p) (h.demanded hp) now id _
  · split
    · exact hfail _
    · next p hp => exact quiet_drifts (hpool p) (drifts_distribute (h.released hp) now)
  · exact hfail _

theorem quiet_forward (h : e.Open) (hsum : e.reverseSum = circuitWindow) (now : Int) {id : Nat}
    {r : Record} (hr : e.sources.get? id = some r) (hmem : id ∈ ids) {body : Body}
    (hbody : body.isOpen = false) : Quiet ids e (forward now e id r body) := by
  have hfail : ∀ f, Quiet ids e (failLeg now e id f) := quiet_failLeg (Same.refl e) h now id
  have hsome : e.sources.get? id ≠ none := by simp [hr]
  have hset : ∀ (r' : Record) (f : Frame), r'.attached = r.attached →
      r'.reverseInFlight = r.reverseInFlight → f.streamId = id → f.body.isOpen = false →
      Quiet ids e ((e.setRecord id r').sendOut f) := by
    rintro r' f ha hin rfl hf
    exact quiet_sendOut (same_setRecord hr r') (h.keepRecord hsum hr r' ha hin).1 hf hsome hmem
  unfold forward
  split
  · split
    · exact hfail _
    · split
      · exact hfail _
      · split
        · exact hfail _
        · split
          · exact hfail _
          · next p hp =>
            obtain ⟨ho, -⟩ := (h.sent hp).keepRecord hsum hr { r with
              sentBytes := r.sentBytes + _
              sentFrames := r.sentFrames + 1
              sendCredit := r.sendCredit - 1 } rfl rfl
            have hr' : ({ e with forwardPool := p } : Entry).sources.get? id = some r := hr
            have hpool : Same e { e with forwardPool := p } := ⟨rfl, rfl, fun _ => Iff.rfl⟩
            exact quiet_sendOut (hpool.trans (same_setRecord hr' _)) ho rfl hsome hmem
  · split
    · exact hfail _
    · exact hset _ _ rfl rfl rfl rfl
  · exact hset _ _ rfl rfl rfl rfl
  · exact hset _ _ rfl rfl rfl rfl
  · exact quiet_sendOut (Same.refl e) h hbody hsome hmem

theorem quiet_deliver (h : e.Open) (now : Int) {id : Nat} {r : Record}
    (hr : e.sources.get? id = some r) (body : Body)
    (hsum : e.reverseSum + (if body.isData then 1 else 0) = circuitWindow) :
    Quiet ids e (deliver now e id r body) := by
  have hfail : ∀ f, Quiet ids e (failLeg now e id f) := quiet_failLeg (Same.refl e) h now id
  have hset : ∀ (r' : Record) (f : Frame), e.reverseSum = circuitWindow →
      r'.attached = r.attached → r'.reverseInFlight = r.reverseInFlight →
      Quiet ids e (sendLeg now (e.setRecord id r') id f) := by
    intro r' f hs ha hin
    exact quiet_sendLeg (same_setRecord hr r') (h.keepRecord hs hr r' ha hin).1 now id f
  cases body with
  | data chunk =>
    have hsum₁ : e.reverseSum + 1 = circuitWindow := hsum
    have hsame := same_setRecord hr { r with reverseInFlight := r.reverseInFlight + 1 }
    have hrev := reverseSum_setRecord hr { r with reverseInFlight := r.reverseInFlight + 1 }
    dsimp only at hrev
    have hs₁ : (e.setRecord id { r with reverseInFlight := r.reverseInFlight + 1 }).reverseSum =
        circuitWindow := by omega
    have ho₁ : (e.setRecord id { r with reverseInFlight := r.reverseInFlight + 1 }).Open :=
      h.setRecord hr rfl hs₁.le
    have hr₁ : (e.setRecord id { r with reverseInFlight := r.reverseInFlight + 1 }).sources.get? id =
        some { r with reverseInFlight := r.reverseInFlight + 1 } := JsMap.get?_set_self _ _ _
    unfold deliver
    dsimp only
    split
    · exact quiet_failLeg hsame ho₁ now id _
    · split
      · exact quiet_failLeg hsame ho₁ now id _
      · split
        · exact quiet_failLeg hsame ho₁ now id _
        · obtain ⟨ho₂, -⟩ := ho₁.keepRecord hs₁ hr₁
            { r with
              reverseInFlight := r.reverseInFlight + 1
              receivedBytes := r.receivedBytes + chunk.length
              receivedFrames := r.receivedFrames + 1
              receiveCredit := r.receiveCredit - 1 } rfl rfl
          exact quiet_sendLeg (hsame.trans (same_setRecord hr₁ _)) ho₂ now id _
  | openStream => exact hfail _
  | spliceOpen _ => exact hfail _
  | spliceReady u =>
    unfold deliver
    dsimp only
    split
    · exact hfail _
    · split
      · exact hfail _
      · exact hset _ _ hsum rfl rfl
  | credit amount =>
    unfold deliver
    dsimp only
    split
    · exact hfail _
    · exact hset _ _ hsum rfl rfl
  | fin => exact hset _ _ hsum rfl rfl
  | reset => exact hset _ _ hsum rfl rfl
  | demand _ => exact quiet_sendLeg (Same.refl e) h now id _
  | release _ => exact quiet_sendLeg (Same.refl e) h now id _

theorem quiet_destroy (hs : Same e e₁) (ho : e₁.Open) : Quiet ids e e₁.destroy :=
  .inl (by rw [(shut_destroy ho).link, hs.link])

theorem quiet_receiveCharged (hs : Same e e₁) (h : e₁.Open) (now : Int) (f : Frame)
    (hsum : e₁.reverseSum + (if f.body.isData then 1 else 0) = circuitWindow) :
    Quiet ids e (receiveCharged now e₁ f) := by
  unfold receiveCharged
  split
  · next r hr =>
    have hq : Quiet ids e₁ (deliver now e₁ f.streamId r f.body) := quiet_deliver h now hr f.body hsum
    rcases hq with hl | ⟨hn, hsub, fs, hlink, hfs⟩
    · exact .inl (by rw [hl, hs.link])
    · refine .inr ⟨hn.trans hs.next, fun id hnone => hsub id ((hs.sources id).mpr hnone), fs,
        by rw [hlink, hs.link], fun f hf => ?_⟩
      obtain ⟨hopen, hid⟩ := hfs f hf
      exact ⟨hopen, hid.imp_right fun hid => ⟨fun hn => hid.1 ((hs.sources _).mpr hn), hid.2⟩⟩
  · split
    · split
      · next hdata =>
        rw [if_pos hdata] at hsum
        exact quiet_drifts hs (drifts_returnReverse h 1 hsum.le false)
      · exact quiet_same hs
    · split
      · exact quiet_same hs
      · have hs' : Same e (e₁.fault .unexpected) := ⟨hs.link, hs.next, hs.sources⟩
        exact quiet_destroy hs' (h.fault _)

theorem quiet_receive (h : e.Open) (hsum : e.reverseSum = circuitWindow) (now : Int)
    (payload : Payload) : Quiet ids e (receive now e payload) := by
  have hfault : ∀ f, Quiet ids e (e.fault f).destroy := fun f =>
    quiet_destroy ⟨rfl, rfl, fun _ => Iff.rfl⟩ (h.fault f)
  unfold receive
  rw [if_neg (by rw [h.live]; decide)]
  split
  · exact hfault _
  · next f _ =>
    split
    · split
      · split
        · exact hfault _
        · next p hp =>
          have hpool : Same e { e with forwardPool := p } := ⟨rfl, rfl, fun _ => Iff.rfl⟩
          exact quiet_drifts hpool (drifts_distribute (h.returned hp) now)
      · exact hfault _
    · split
      · next hdata =>
        split
        · exact hfault _
        · next hpos =>
          have hcharge : ({ e with reverseReceiveCredit := e.reverseReceiveCredit - 1 } :
              Entry).reverseSum + 1 = circuitWindow := by
            simp only [reverseSum] at hsum ⊢
            omega
          have ho : Open { e with reverseReceiveCredit := e.reverseReceiveCredit - 1 } :=
            ⟨h.live, h.pool, h.poolLive, h.link, by omega, h.legs, h.attached, h.linked, h.gone,
              h.ids, h.even⟩
          refine quiet_receiveCharged ⟨rfl, rfl, fun _ => Iff.rfl⟩ ho now f ?_
          rw [if_pos hdata]
          exact hcharge
      · next hdata =>
        refine quiet_receiveCharged (Same.refl e) h now f ?_
        rw [if_neg hdata]
        exact hsum

/-- The entry opened the stream of a registered source: it sent the OPEN, or found its link
full and is closed. -/
def Opens (id : Nat) (e e' : Entry) : Prop :=
  e'.link = e.link.destroy ∨
    e'.nextStreamId = e.nextStreamId ∧ (∀ id, e'.sources.get? id = none ↔ e.sources.get? id = none) ∧
      ∃ f, f.streamId = id ∧ f.body.isOpen = true ∧ e'.link = e.link.enqueue f

theorem opens_sendOut (hs : Same e e₁) (ho : e₁.Open) {f : Frame} (hf : f.body.isOpen = true) :
    Opens f.streamId e (e₁.sendOut f) := by
  rcases sendOut_cases ho f with hshut | ⟨-, he⟩
  · exact .inl (by rw [hshut.link, hs.link])
  · rw [he]
    refine .inr ⟨hs.next, hs.sources, f, rfl, hf, ?_⟩
    show e₁.link.enqueue f = _
    rw [hs.link]

theorem opens_fromSource {now : Int} {id : Nat} {payload : Payload} {udx : Option (Nat × Nat)}
    {r : Record} (hr : e.sources.get? id = some r) (ha : r.attached = true) :
    e.opens (.fromSource now id payload udx) =
      match spoken payload with
      | none => none
      | some body => if e.takesOpen r udx body then some id else none := by
  unfold opens
  dsimp only
  rw [hr]
  cases spoken payload with
  | none => rfl
  | some body =>
    dsimp only
    rw [ha, Bool.true_and]

/-- What a source says of its stream opens it, or the entry opens none. -/
theorem spoken_cases (h : e.Open) (hsum : e.reverseSum = circuitWindow) {opened : List Nat}
    (now : Int) {id : Nat} {r : Record} (hr : e.sources.get? id = some r)
    (ha : r.attached = true) {body : Body} (udx : Option (Nat × Nat)) {payload : Payload}
    (hd : decodeLogical payload = some ⟨0, body⟩)
    (hh : (if body.isOpen then decide (id ∉ opened) else decide (id ∈ opened)) = true) :
    (e.takesOpen r udx body = false ∧ Quiet opened e (fromSource now e id payload udx)) ∨
    e.takesOpen r udx body = true ∧ id ∉ opened ∧
      Opens id e (fromSource now e id payload udx) := by
  have hfail : ∀ f, Quiet opened e (failLeg now e id f) := quiet_failLeg (Same.refl e) h now id
  unfold fromSource
  rw [hr]
  dsimp only
  rw [if_neg (by rw [ha]; simp), hd]
  dsimp only
  rw [if_neg (by decide), if_neg (not_not.mpr rfl)]
  cases body with
  | openStream =>
    have hnot : id ∉ opened := by simpa [Body.isOpen] using hh
    unfold takesOpen
    cases hsp : e.spliced with
    | false => exact .inl ⟨rfl, by rw [if_pos (.inl rfl)]; exact hfail _⟩
    | true =>
      cases hspl : r.splice with
      | some splice => exact .inl ⟨rfl, by rw [if_pos (.inr rfl)]; exact hfail _⟩
      | none =>
        rw [if_neg (by simp)]
        exact .inr ⟨rfl, hnot, opens_sendOut (f := ⟨id, .openStream⟩) (Same.refl e) h rfl⟩
  | spliceOpen prev =>
    have hnot : id ∉ opened := by simpa [Body.isOpen] using hh
    unfold takesOpen
    dsimp only
    cases hspl : r.splice with
    | some splice => exact .inl ⟨rfl, by rw [if_pos Option.isSome_some]; exact hfail _⟩
    | none =>
      rw [if_neg (by simp)]
      cases udx with
      | none => exact .inl ⟨rfl, hfail _⟩
      | some pair =>
        obtain ⟨up, down⟩ := pair
        obtain ⟨ho, -⟩ := h.keepRecord hsum hr { r with splice := some ⟨up, down, false⟩ } rfl rfl
        exact .inr ⟨rfl, hnot, opens_sendOut (f := ⟨id, .spliceOpen down⟩) (same_setRecord hr _) ho rfl⟩
  | data | fin | reset | credit | demand | release | spliceReady =>
    have hmem : id ∈ opened := by simpa [Body.isOpen] using hh
    exact .inl ⟨rfl, quiet_forward h hsum now hr hmem rfl⟩

/-- A frame of a source opens its stream, or the entry opens none. -/
theorem fromSource_cases (h : e.Open) (hsum : e.reverseSum = circuitWindow) {opened : List Nat}
    {now : Int} {id : Nat} {payload : Payload} {udx : Option (Nat × Nat)}
    (hh : honest opened (.fromSource now id payload udx) = true) :
    (e.opens (.fromSource now id payload udx) = none ∧
      Quiet opened e (fromSource now e id payload udx)) ∨
    e.opens (.fromSource now id payload udx) = some id ∧ e.sources.get? id ≠ none ∧
      id ∉ opened ∧ Opens id e (fromSource now e id payload udx) := by
  have hfail : ∀ f, Quiet opened e (failLeg now e id f) := quiet_failLeg (Same.refl e) h now id
  cases hr : e.sources.get? id with
  | none =>
    refine .inl ⟨?_, ?_⟩
    · simp only [opens, hr]
    · unfold fromSource
      rw [hr]
      exact quiet_same (Same.refl e)
  | some r =>
    cases ha : r.attached with
    | false =>
      refine .inl ⟨?_, ?_⟩
      · simp only [opens, hr]
        cases spoken payload with
        | none => rfl
        | some body =>
          dsimp only
          rw [ha, Bool.false_and]
          rfl
      · unfold fromSource
        rw [hr]
        dsimp only
        rw [if_pos ha]
        exact quiet_same (Same.refl e)
    | true =>
      rw [opens_fromSource hr ha]
      by_cases hspoken : spoken payload = none
      · rw [hspoken]
        refine .inl ⟨rfl, ?_⟩
        unfold fromSource
        rw [hr]
        dsimp only
        rw [if_neg (by rw [ha]; simp)]
        unfold spoken at hspoken
        split
        · exact hfail _
        · next f hf =>
          rw [hf] at hspoken
          split
          · exact quiet_circuitControl h hsum now hr _
          · by_cases hzero : f.streamId = 0
            · dsimp only at hspoken
              rw [if_pos hzero] at hspoken
              cases hspoken
            · rw [if_pos hzero]
              exact hfail _
      · obtain ⟨body, hbody⟩ := Option.ne_none_iff_exists'.mp hspoken
        have hd : decodeLogical payload = some ⟨0, body⟩ := by
          unfold spoken at hbody
          split at hbody
          · cases hbody
          · next f hf =>
            split at hbody
            · next hzero =>
              obtain ⟨streamId, b⟩ := f
              cases hbody
              rw [hf, show streamId = 0 from hzero]
            · cases hbody
        rw [hbody]
        simp only [honest, hbody] at hh
        rcases spoken_cases h hsum now hr ha udx hd hh with ⟨hno, hq⟩ | ⟨hyes, hnot, ho⟩
        · exact .inl ⟨by dsimp only; rw [hno]; rfl, hq⟩
        · exact .inr ⟨by dsimp only; rw [hyes]; rfl, by simp, hnot, ho⟩

/-! ## The entry's link -/

/-- Frames that open no stream go behind what is queued. -/
theorem served_admits {l : Link} (hm : l.multiplexed = true) {queued served fs : List Frame}
    (h : l.sends.Served Frame.streamId (fun f => f.body.isOpen) queued served)
    (hfs : ∀ f ∈ fs, f.body.isOpen = false) :
    (l.admits fs).sends.Served Frame.streamId (fun f => f.body.isOpen) (queued ++ fs) served := by
  induction fs using List.reverseRecOn with
  | nil => exact (List.append_nil queued).symm ▸ h
  | append_singleton fs f ih =>
    have hprev := ih fun g hg => hfs g (List.mem_append_left _ hg)
    have hf := hfs f (List.mem_append_right _ List.mem_cons_self)
    rw [Link.admits_append, Link.admits_singleton, ← List.append_assoc]
    show ((l.admits fs).sends.enqueue ((l.admits fs).queueOf f) f).Served _ _ _ _
    have hqueue : (l.admits fs).queueOf f = f.streamId := by
      unfold Link.queueOf
      rw [Link.multiplexed_admits, hm, if_pos rfl]
    rw [hqueue]
    exact hprev.enqueue f fun hopen => absurd (hopen.symm.trans hf) (by simp)

/-- An open entry that has opened the streams `opened` with the frames `queued`, of which
`sealed` are on the wire. A source that has not opened its stream has sent nothing on it. -/
structure Turns (e : Entry) (opened : List Nat) (queued sealed : List Frame) : Prop where
  multiplexed : e.link.multiplexed = true
  next : e.nextStreamId ≤ 2 ^ 32
  served : e.link.sends.Served Frame.streamId (fun f => f.body.isOpen) queued sealed
  led : Led queued
  order : openIds queued = opened
  silent : ∀ id, e.sources.get? id ≠ none → id ∉ opened → framesOf id queued = []
  used : ∀ f ∈ queued, f.streamId = circuitStreamId ∨ f.streamId < e.nextStreamId

theorem turns_new (spliced : Bool) : (new spliced).Turns [] [] [] where
  multiplexed := rfl
  next := show 2 ≤ 2 ^ 32 by decide
  served := Ring.served_empty _ _
  led := led_nil
  order := rfl
  silent _ _ _ := rfl
  used _ h := absurd h List.not_mem_nil

theorem Open.registered (h : e.Open) {id : Nat} (hid : e.sources.get? id ≠ none) :
    2 ≤ id ∧ id % 2 = 0 ∧ id < e.nextStreamId := by
  obtain ⟨r, hr⟩ := Option.ne_none_iff_exists'.mp hid
  obtain ⟨l, hl⟩ := h.linked id r hr
  exact h.ids id l hl

theorem openIds_eq_nil {fs : List Frame} (h : ∀ f ∈ fs, f.body.isOpen = false) : openIds fs = [] := by
  unfold openIds
  rw [List.filter_eq_nil_iff.mpr fun f hf => by simp [h f hf], List.map_nil]

variable {opened : List Nat} {queued sealed : List Frame}

/-- `e'` is `e` with its link closed, or has more queued. -/
def Goes (e e' : Entry) (opened : List Nat) (sealed : List Frame) : Prop :=
  e'.link = e.link.destroy ∨ e'.link.destroyed = e.link.destroyed ∧
    e'.link.wire = e.link.wire ∧ ∃ queued, e'.Turns opened queued sealed

theorem Turns.quiet (h : e.Turns opened queued sealed) (ho : e.Open) (hq : Quiet opened e e') :
    e.Goes e' opened sealed := by
  rcases hq with hshut | ⟨hnext, hsub, fs, hlink, hfs⟩
  · exact .inl hshut
  · have hopen : ∀ f ∈ fs, f.body.isOpen = false := fun f hf => (hfs f hf).1
    refine .inr ⟨by rw [hlink, Link.destroyed_admits], by rw [hlink, Link.wire_admits],
      queued ++ fs, ?_, ?_, ?_, h.led.append hopen, ?_, ?_, ?_⟩
    · rw [hlink, Link.multiplexed_admits, h.multiplexed]
    · rw [hnext]
      exact h.next
    · rw [hlink]
      exact served_admits h.multiplexed h.served hopen
    · rw [openIds_append, openIds_eq_nil hopen, List.append_nil, h.order]
    · intro id hid hnot
      have hid₀ : e.sources.get? id ≠ none := fun hn => hid (hsub id hn)
      obtain ⟨-, heven, -⟩ := ho.registered hid₀
      rw [framesOf_append, h.silent id hid₀ hnot, List.nil_append]
      refine List.filter_eq_nil_iff.mpr fun f hf => ?_
      rintro heq
      have heq : f.streamId = id := by simpa using heq
      rcases (hfs f hf).2 with hcircuit | ⟨-, hgone | hmem⟩
      · rw [← heq, hcircuit] at heven
        cases heven
      · exact hid (heq ▸ hgone)
      · exact hnot (heq ▸ hmem)
    · intro f hf
      rw [hnext]
      rcases List.mem_append.mp hf with hf | hf
      · exact h.used f hf
      · exact (hfs f hf).2.imp_right fun hid => (ho.registered hid.1).2.2

theorem Turns.opens (h : e.Turns opened queued sealed) (ho : e.Open) {id : Nat}
    (hid : e.sources.get? id ≠ none) (hnot : id ∉ opened) (hord : ∀ o ∈ opened, o < id)
    (hop : Opens id e e') : e.Goes e' (opened ++ [id]) sealed := by
  rcases hop with hshut | ⟨hnext, hsources, f, rfl, hf, hlink⟩
  · exact .inl hshut
  · have hempty := h.silent f.streamId hid hnot
    have hqueue : e.link.queueOf f = f.streamId := by
      unfold Link.queueOf
      rw [h.multiplexed, if_pos rfl]
    obtain ⟨hpos, heven, hlt⟩ := ho.registered hid
    refine .inr ⟨by rw [hlink]; rfl, by rw [hlink]; rfl, queued ++ [f], ?_, ?_, ?_, ?_, ?_, ?_, ?_⟩
    · rw [hlink]
      exact h.multiplexed
    · rw [hnext]
      exact h.next
    · rw [hlink]
      show (e.link.sends.enqueue (e.link.queueOf f) f).Served _ _ _ _
      rw [hqueue]
      exact h.served.enqueue f fun _ => hempty
    · have hbound := h.next
      refine h.led.snoc fun _ => ⟨hempty, by rw [h.order]; exact hord, by omega, heven, ?_⟩
      unfold circuitStreamId
      omega
    · rw [openIds_append, LinkLedgers.openIds_singleton, if_pos hf, h.order]
    · intro id' hid' hnot'
      rw [Ne, hsources] at hid'
      have hne : f.streamId ≠ id' := by
        rintro rfl
        exact hnot' (List.mem_append_right _ List.mem_cons_self)
      rw [framesOf_append, framesOf_singleton, if_neg hne, List.append_nil]
      exact h.silent id' hid' fun hmem => hnot' (List.mem_append_left _ hmem)
    · intro g hg
      rw [hnext]
      rcases List.mem_append.mp hg with hg | hg
      · exact h.used g hg
      · rw [List.mem_singleton.mp hg]
        exact .inr hlt

theorem Turns.register (h : e.Turns opened queued sealed) (ho : e.Open) (hr : e.refuses = false)
    (hlink : e'.link = e.link) (hnext : e'.nextStreamId = e.nextStreamId + 2)
    (hsources : ∀ id, e'.sources.get? id ≠ none → id = e.nextStreamId ∨ e.sources.get? id ≠ none) :
    e'.Turns opened queued sealed ∧ e.nextStreamId ∉ opened ∧ ∀ o ∈ opened, o < e.nextStreamId := by
  have hbound : e.nextStreamId < circuitStreamId := by
    simp only [refuses, Bool.or_eq_false_iff, decide_eq_false_iff_not] at hr
    omega
  have hused : ∀ o ∈ opened, o < e.nextStreamId := by
    intro o hmem
    rw [← h.order] at hmem
    obtain ⟨f, hf, rfl⟩ := List.mem_map.mp hmem
    obtain ⟨hf, hopen⟩ := List.mem_filter.mp hf
    obtain ⟨-, -, hid⟩ := h.led.ids f.streamId hmem
    rcases h.used f hf with hcircuit | hlt
    · omega
    · exact hlt
  refine ⟨⟨by rw [hlink]; exact h.multiplexed, ?_, by rw [hlink]; exact h.served, h.led, h.order, ?_,
    ?_⟩, fun hmem => absurd (hused _ hmem) (Nat.lt_irrefl _), hused⟩
  · obtain ⟨-, heven⟩ := ho.even
    rw [hnext]
    unfold circuitStreamId at hbound
    omega
  · intro id hid hnot
    rcases hsources id hid with rfl | hid
    · refine List.filter_eq_nil_iff.mpr fun f hf heq => ?_
      have heq : f.streamId = e.nextStreamId := by simpa using heq
      rcases h.used f hf with hcircuit | hlt
      · omega
      · omega
    · exact h.silent id hid hnot
  · intro f hf
    rw [hnext]
    exact (h.used f hf).imp_right fun hlt => by omega

theorem Turns.activate (h : e.Turns opened queued sealed) (ho : e.Open) (readable : Bool) :
    e.Goes (e.activate readable).1 (opened ++ (e.opens (.activate readable)).toList) sealed := by
  have hget : ∀ (sources : JsMap Nat Record) (r : Record) id,
      (sources.set e.nextStreamId r).get? id ≠ none → id = e.nextStreamId ∨ sources.get? id ≠ none := by
    intro sources r id hid
    rw [JsMap.get?_set] at hid
    split at hid
    · next heq => exact .inl heq
    · exact .inr hid
  by_cases hr : e.refuses = true
  · have hnone : e.opens (.activate readable) = none := by
      unfold Entry.opens
      dsimp only
      rw [hr, Bool.or_true]
      split <;> rfl
    have hsame : e.activate readable = (e, none) := if_pos hr
    rw [hnone, hsame, Option.toList_none, List.append_nil]
    exact .inr ⟨rfl, rfl, queued, h⟩
  · have hr := Bool.eq_false_iff.mpr hr
    rcases activate_cases hr readable with ⟨⟨f, hf⟩, he⟩ | ⟨p, e', hp, rfl, he⟩
    · have hnone : e.opens (.activate readable) = none := by
        unfold Entry.opens
        dsimp only
        rw [hf]
      have hreg : e.register.Turns opened queued sealed ∧ _ :=
        h.register ho hr rfl rfl (hget e.sources .new)
      rw [hnone, he, Option.toList_none, List.append_nil]
      exact .inr ⟨rfl, rfl, queued, hreg.1⟩
    · have hopens : e.opens (.activate readable) =
          if e.spliced then none else some e.nextStreamId := by
        unfold Entry.opens
        dsimp only
        rw [hp, hr, Bool.or_false]
      obtain ⟨ho', -⟩ := ho.attach hp
      have hreg : ({ e.register with forwardPool := p }.setRecord e.nextStreamId
          { Record.new with attached := true }).Turns opened queued sealed ∧ _ :=
        h.register ho hr rfl rfl fun id hid =>
          (hget _ _ id hid).elim .inl (hget e.sources .new id)
      obtain ⟨hturns, hnot, hlt⟩ := hreg
      rw [hopens, he]
      dsimp only
      cases hs : e.spliced with
      | true =>
        rw [if_pos rfl, if_pos rfl, Option.toList_none, List.append_nil]
        exact .inr ⟨rfl, rfl, queued, hturns⟩
      | false =>
        rw [if_neg (by simp), if_neg (by simp)]
        have hself : (e.register.sources.set e.nextStreamId
            { Record.new with attached := true }).get? e.nextStreamId = some _ :=
          JsMap.get?_set_self _ _ _
        refine hturns.opens ho' (fun hn => ?_) hnot hlt
          (opens_sendOut (f := ⟨e.nextStreamId, .openStream⟩) (Same.refl _) ho' rfl)
        exact absurd (hself.symm.trans hn) (by simp)

theorem quiet_step (h : e.Open) (hsum : e.reverseSum = circuitWindow) {ev : EntryEvent}
    (hlink : ev.isLink = false) (hactivate : ∀ readable, ev ≠ .activate readable)
    (hsource : ∀ now id payload udx, ev ≠ .fromSource now id payload udx) :
    e.opens ev = none ∧ Quiet ids e (e.step ev) := by
  cases ev with
  | activate readable => exact absurd rfl (hactivate readable)
  | fromSource now id payload udx => exact absurd rfl (hsource now id payload udx)
  | receive now payload => exact ⟨rfl, quiet_receive h hsum now payload⟩
  | closeLeg now id => exact ⟨rfl, quiet_drifts (Same.refl e) (drifts_closeLeg h now id)⟩
  | returnTimer =>
    refine ⟨rfl, ?_⟩
    show Quiet ids e e.returnFired
    unfold returnFired
    split
    · have ho : Open { e with returnTimer := false } :=
        ⟨h.live, h.pool, h.poolLive, h.link, h.reverse, h.legs, h.attached, h.linked, h.gone,
          h.ids, h.even⟩
      have hsame : Same e { e with returnTimer := false } := ⟨rfl, rfl, fun _ => Iff.rfl⟩
      exact quiet_drifts hsame (drifts_returnReverse ho 0 hsum.le true)
    · exact quiet_same (Same.refl e)
  | idleTimer now id busy =>
    refine ⟨rfl, ?_⟩
    have ho := h.alike (e.forwardPool.alike_idleFired id busy now)
    have hpool : ∀ p, Same e { e with forwardPool := p } := fun p => ⟨rfl, rfl, fun _ => Iff.rfl⟩
    show Quiet ids e (idleFired now e id busy)
    unfold idleFired
    split
    · next p _ => exact quiet_same (hpool p)
    · next p hp =>
      rw [hp] at ho
      exact quiet_drifts (hpool p) (drifts_closeLeg ho now id)
  | touch now id => exact ⟨rfl, quiet_same ⟨rfl, rfl, fun _ => Iff.rfl⟩⟩
  | link ev => cases hlink
  | legLink id ev =>
    refine ⟨rfl, quiet_same ?_⟩
    show Same e (e.legProgress id ev)
    unfold legProgress
    split
    · exact Same.refl e
    · exact ⟨rfl, rfl, fun _ => Iff.rfl⟩
  | spliceClosed id =>
    refine ⟨rfl, quiet_same ?_⟩
    show Same e (e.spliceClosed id)
    unfold spliceClosed
    split
    · exact Same.refl e
    · next r hr => exact same_setRecord hr _
  | retire => exact ⟨rfl, quiet_same ⟨rfl, rfl, fun _ => Iff.rfl⟩⟩
  | destroy => exact ⟨rfl, quiet_destroy (Same.refl e) h⟩

theorem Gone.link_step (h : e.Gone) {ev : EntryEvent} (hlink : ev.isLink = false) :
    (e.step ev).link = e.link := by
  have hnone : ∀ id, e.sources.get? id = none := fun id => by rw [h.sources]; rfl
  cases ev with
  | activate readable =>
    show (e.activate readable).1.link = e.link
    unfold Entry.activate
    rw [if_pos (by simp [refuses, h.closed])]
  | fromSource now id payload udx =>
    show (fromSource now e id payload udx).link = e.link
    unfold fromSource
    rw [hnone id]
  | receive now payload =>
    show (receive now e payload).link = e.link
    unfold receive
    rw [if_pos h.closed]
  | closeLeg now id =>
    show (Entry.closeLeg now e id).link = e.link
    rw [h.closeLeg now id]
  | returnTimer =>
    show e.returnFired.link = e.link
    unfold returnFired
    split
    · unfold returnReverse
      rw [if_pos h.closed]
    · rfl
  | idleTimer now id busy =>
    have hgone : ∀ p, p.closed = true → Gone { e with forwardPool := p } := fun p hp =>
      ⟨h.closed, hp, h.sources, h.links, h.link⟩
    have hidle := (e.forwardPool.alike_idleFired id busy now).closed.trans h.poolClosed
    show (idleFired now e id busy).link = e.link
    unfold idleFired
    split
    · rfl
    · next p hp =>
      rw [hp] at hidle
      rw [(hgone p hidle).closeLeg now id]
  | touch now id => rfl
  | link ev => cases hlink
  | legLink id ev =>
    show (e.legProgress id ev).link = e.link
    unfold legProgress
    split
    · rfl
    · rfl
  | spliceClosed id =>
    show (e.spliceClosed id).link = e.link
    unfold spliceClosed
    rw [hnone id]
  | retire => rfl
  | destroy =>
    show e.destroy.link = e.link
    unfold destroy
    rw [if_pos h.closed]

/-- The entry with what it has put on the wire: closed with nothing queued, or taking turns. -/
def Talks (e : Entry) (opened : List Nat) (sealed : List Frame) : Prop :=
  e.Gone ∧ e.link.sends = .empty ∨
    (e.Open ∧ e.reverseSum = circuitWindow ∧ .reverseOverflow ∉ e.faults) ∧
      ∃ queued, e.Turns opened queued sealed

theorem talks_new (spliced : Bool) : (new spliced).Talks [] [] := by
  rcases kept_new spliced with hg | hk
  · exact absurd hg.closed (by simp [new])
  · exact .inr ⟨hk, [], turns_new spliced⟩

theorem Talks.step (h : e.Talks opened sealed) {ev : EntryEvent} (hlink : ev.isLink = false)
    (hh : honest opened ev = true) (hord : ∀ id, e.opens ev = some id → ∀ o ∈ opened, o < id) :
    (e.step ev).Talks (opened ++ (e.opens ev).toList) sealed ∧
      (e.step ev).link.wire = e.link.wire := by
  rcases h with ⟨hg, hempty⟩ | ⟨⟨ho, hsum, hf⟩, queued, hturns⟩
  · rw [hg.link_step hlink]
    refine ⟨.inl ⟨hg.step ev, ?_⟩, rfl⟩
    rw [hg.link_step hlink]
    exact hempty
  · have hgoes : e.Goes (e.step ev) (opened ++ (e.opens ev).toList) sealed := by
      by_cases hactivate : ∃ readable, ev = .activate readable
      · obtain ⟨readable, rfl⟩ := hactivate
        exact hturns.activate ho readable
      · by_cases hsource : ∃ now id payload udx, ev = .fromSource now id payload udx
        · obtain ⟨now, id, payload, udx, rfl⟩ := hsource
          rcases fromSource_cases ho hsum hh with ⟨hnone, hq⟩ | ⟨hsome, hid, hnot, hop⟩
          · rw [hnone, Option.toList_none, List.append_nil]
            exact hturns.quiet ho hq
          · rw [hsome]
            exact hturns.opens ho hid hnot (hord id hsome) hop
        · obtain ⟨hnone, hq⟩ := quiet_step ho hsum hlink
            (fun readable he => hactivate ⟨readable, he⟩)
            (fun now id payload udx he => hsource ⟨now, id, payload, udx, he⟩)
          rw [hnone, Option.toList_none, List.append_nil]
          exact hturns.quiet ho hq
    rcases kept_step_open ho hsum hf ev with hg | hk
    · rcases hgoes with hl | ⟨hd, -⟩
      · exact ⟨.inl ⟨hg, by rw [hl]; rfl⟩, by rw [hl]; rfl⟩
      · exact absurd (hg.link.symm.trans (hd.trans ho.link)) (by simp)
    · rcases hgoes with hl | ⟨-, hwire, hturns'⟩
      · have hlive := hk.1.link
        rw [hl] at hlive
        cases hlive
      · exact ⟨.inr ⟨hk, hturns'⟩, hwire⟩

theorem Talks.next (h : e.Talks opened sealed) {k : Nat} {f : Frame} {r : Ring Nat Frame}
    (hn : e.link.sends.next sendQuantum = some (k, f, r)) :
    Led (sealed ++ [f]) ∧
      Talks { e with link := { e.link with sends := r, wire := e.link.wire ++ [f] } } opened
        (sealed ++ [f]) := by
  rcases h with ⟨-, hempty⟩ | ⟨⟨ho, hsum, hf⟩, queued, ht⟩
  · rw [hempty] at hn
    cases hn
  · have hserved := (ht.served.next hn).2
    exact ⟨ht.led.served hserved, .inr ⟨⟨ho.setLink ho.link, hsum, hf⟩, queued,
      ⟨ht.multiplexed, ht.next, hserved, ht.led, ht.order, ht.silent, ht.used⟩⟩⟩

theorem Talks.setLink (h : e.Talks opened sealed) {l : Link} (hd : l.destroyed = e.link.destroyed)
    (hm : l.multiplexed = e.link.multiplexed) (hs : l.sends = e.link.sends) :
    Talks { e with link := l } opened sealed := by
  rcases h with ⟨hg, hempty⟩ | ⟨⟨ho, hsum, hf⟩, queued, ht⟩
  · exact .inl ⟨⟨hg.closed, hg.poolClosed, hg.sources, hg.links, hd.trans hg.link⟩, hs.trans hempty⟩
  · exact .inr ⟨⟨ho.setLink (hd.trans ho.link), hsum, hf⟩, queued,
      ⟨hm.trans ht.multiplexed, ht.next, hs.symm ▸ ht.served, ht.led, ht.order, ht.silent, ht.used⟩⟩

theorem Talks.destroy (h : e.Talks opened sealed) :
    e.destroy.Talks opened sealed ∧ e.destroy.link.wire = e.link.wire := by
  rcases h with ⟨hg, hempty⟩ | ⟨⟨ho, -, -⟩, -⟩
  · have he : e.destroy = e := if_pos hg.closed
    rw [he]
    exact ⟨.inl ⟨hg, hempty⟩, rfl⟩
  · have hs := shut_destroy ho
    rw [hs.link]
    refine ⟨.inl ⟨hs.gone, ?_⟩, rfl⟩
    rw [hs.link]
    rfl

end Entry

end HyperDht.Private
