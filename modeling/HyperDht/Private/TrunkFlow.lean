import HyperDht.Lib.CreditWindows
import HyperDht.Private.LegTraffic

/-!
# Credit on the shared link

The entry and the destination circuit keep one window for the circuit and one for each
stream on the link between them. `Entry.account` is what the entry counts of them, with
the frames in flight from it. Whatever the entry makes of a frame, and whatever else it
does, it counts at most what the frame brings (`Entry.Deals`); on the circuit's window it
counts all of it, as long as it is not closed.
-/

namespace HyperDht.Private

/-- The circuit, or one of its streams. -/
inductive Lane where
  | circuit
  | stream (id : Nat) (h : id ≠ circuitStreamId)

/-- The windows of the shared link. -/
def trunk : Windows Lane Frame where
  size
    | .circuit => circuitWindow
    | .stream _ _ => streamWindow
  units
    | .circuit => Frame.cells
    | .stream id _ => Frame.dataOf id
  credit
    | .circuit => Frame.creditOf circuitStreamId
    | .stream id _ => Frame.creditOf id

theorem Link.total_destroy_le (l : Link) (w : Frame → Nat) : l.destroy.total w ≤ l.total w :=
  Nat.le_add_right _ _

namespace Link

variable {l : Link}

/-- No more DATA frames are pending than are in flight. -/
def Prompt (l : Link) : Prop := l.pendingData ≤ l.total Frame.cells

theorem Prompt.enqueue (h : l.Prompt) (f : Frame) : (l.enqueue f).Prompt := by
  have hdata : (l.enqueue f).pendingData = l.pendingData + f.cells := by
    show (if f.body.isData then l.pendingData + 1 else l.pendingData) = l.pendingData + f.cells
    unfold Frame.cells
    split <;> rfl
  unfold Prompt at h ⊢
  rw [hdata, total_enqueue]
  omega

theorem Prompt.admits (h : l.Prompt) (fs : List Frame) : (l.admits fs).Prompt := by
  induction fs generalizing l with
  | nil => exact h
  | cons f fs ih => exact ih (h.enqueue f)

theorem prompt_destroy (l : Link) : l.destroy.Prompt := Nat.zero_le _

theorem pendingData_nextSend (l : Link) : l.nextSend.pendingData = l.pendingData := by
  unfold nextSend
  split <;> rfl

theorem pendingData_selectFrom (l : Link) (k : Nat) :
    (l.selectFrom k).pendingData = l.pendingData := by
  unfold selectFrom
  split <;> rfl

/-- A link that writes, or whose write is reported. -/
theorem Prompt.progress (h : l.Prompt) {ev : LinkEvent} (hev : ev ≠ .take) :
    (l.progress ev).Prompt := by
  unfold Prompt at h ⊢
  rw [l.total_progress hev]
  cases ev with
  | nextSend => exact (l.pendingData_nextSend).le.trans h
  | selectFrom k => exact (l.pendingData_selectFrom k).le.trans h
  | settle data =>
    cases data with
    | true => exact (Nat.sub_le _ _).trans h
    | false => exact h
  | take => exact absurd rfl hev

end Link

/-- Frames of one stream bring nothing to another, and no circuit credit. -/
theorem weigh_own {id : Nat} {fs : List Frame} (h : ∀ f ∈ fs, f.streamId = id) {k : Nat}
    (hk : k ≠ id) : weigh (Frame.dataOf k) fs = 0 ∧ weigh (Frame.creditOf k) fs = 0 := by
  induction fs with
  | nil => exact ⟨rfl, rfl⟩
  | cons f fs ih =>
    obtain ⟨h₁, h₂⟩ := ih fun g hg => h g (List.mem_cons_of_mem f hg)
    have hf : f.streamId ≠ k := by
      rw [h f List.mem_cons_self]
      exact Ne.symm hk
    exact ⟨by rw [weigh_cons, h₁, Frame.dataOf_of_ne hf], by rw [weigh_cons, h₂, Frame.creditOf_of_ne hf]⟩

namespace Entry

/-- What the entry may still send on a stream: the window of a stream that is yet to come. -/
def sendRoom (e : Entry) (id : Nat) : Nat :=
  match e.sources.get? id with
  | some r => r.sendCredit
  | none => if e.closed = false ∧ e.nextStreamId ≤ id then streamWindow else 0

/-- What the entry still takes on a stream. One that has ended takes all and counts nothing. -/
def recvRoom (e : Entry) (id : Nat) : Nat :=
  match e.sources.get? id with
  | some r => r.receiveCredit
  | none => streamWindow

def account (e : Entry) : Account Lane where
  spent
    | .circuit => (if e.closed then 0 else (circuitWindow : Int) - e.forwardPool.inFlight) +
        e.link.total Frame.cells
    | .stream id _ => e.sendRoom id + e.link.total (Frame.dataOf id)
  lent
    | .circuit => (if e.closed then 0 else (circuitWindow : Int) - e.reverseReceiveCredit) +
        e.link.total (Frame.creditOf circuitStreamId)
    | .stream id _ => (streamWindow - e.recvRoom id : Int) + e.link.total (Frame.creditOf id)

/-- No source is owed more than a window. -/
def InWindow (e : Entry) : Prop := ∀ id r, e.sources.get? id = some r → Windowed r

/-- `e'` is `e` after it took the frames `got` of the destination. -/
structure Deals (got : List Frame) (e e' : Entry) : Prop where
  moves : trunk.Moves got e.account e'.account
  keeps : e'.closed = false → trunk.Keeps .circuit got e.account e'.account
  window : e'.InWindow

variable {e e₁ e' : Entry} {got : List Frame}

theorem Deals.refl (h : e.InWindow) : Deals [] e e :=
  ⟨.refl _, fun _ => .refl _ _, h⟩

theorem Deals.trans (h : Deals got e e₁) (h' : Deals [] e₁ e') (hopen : e₁.closed = false) :
    Deals got e e' := by
  have hm := h.moves.trans h'.moves
  rw [List.append_nil] at hm
  refine ⟨hm, fun hc => ?_, h'.window⟩
  have hk := (h.keeps hopen).trans (h'.keeps hc)
  rwa [List.append_nil] at hk

theorem Deals.congr (h : Deals got e e') {e₀ : Entry} (ha : e₀.account = e.account) :
    Deals got e₀ e' := ⟨ha ▸ h.moves, ha ▸ h.keeps, h.window⟩

theorem recvRoom_le (h : e.InWindow) (id : Nat) : e.recvRoom id ≤ streamWindow := by
  unfold recvRoom
  split
  · next r hr => exact (h id r hr).2
  · exact le_rfl

theorem Open.next_le (h : e.Open) {id : Nat} {r : Record} (hr : e.sources.get? id = some r) :
    id < e.nextStreamId := by
  obtain ⟨l, hl⟩ := h.linked id r hr
  exact (h.ids id l hl).2.2

/-- An id that the entry hands out is even. -/
theorem Open.ne_circuit (h : e.Open) {id : Nat} {r : Record} (hr : e.sources.get? id = some r) :
    id ≠ circuitStreamId := by
  obtain ⟨l, hl⟩ := h.linked id r hr
  have := (h.ids id l hl).2.1
  rintro rfl
  revert this
  decide

/-- What may still be sent and taken is less where a record is gone. -/
theorem rooms_of_sub (h : e.Open) (hw : e.InWindow) (hnext : e'.nextStreamId = e.nextStreamId)
    (hsub : ∀ id r, e'.sources.get? id = some r → e.sources.get? id = some r) (id : Nat) :
    e'.sendRoom id ≤ e.sendRoom id ∧ e.recvRoom id ≤ e'.recvRoom id := by
  refine ⟨?_, ?_⟩
  · unfold sendRoom
    cases hr' : e'.sources.get? id with
    | some r => rw [hsub id r hr']
    | none =>
      rw [hnext]
      cases hr : e.sources.get? id with
      | some r =>
        have := h.next_le hr
        dsimp only
        rw [if_neg (by omega)]
        exact Nat.zero_le _
      | none =>
        dsimp only
        split
        · next he => rw [if_pos ⟨h.live, he.2⟩]
        · exact Nat.zero_le _
  · cases hr' : e'.sources.get? id with
    | some r =>
      unfold recvRoom
      rw [hsub id r hr', hr']
    | none =>
      refine (recvRoom_le hw id).trans ?_
      unfold recvRoom
      rw [hr']

/-! ## Closing the entry -/

theorem deals_shut (h : e.Open) (hw : e.InWindow) (hs : Shut e e') : Deals [] e e' := by
  have hin : e.forwardPool.inFlight ≤ circuitWindow := by
    have := h.pool.sum
    omega
  have hrev : e.reverseReceiveCredit ≤ circuitWindow := by
    have := h.reverse
    simp only [reverseSum] at this
    omega
  have hnone : ∀ id, e'.sources.get? id = none := fun id => by
    rw [hs.sources]
    rfl
  have hrooms := rooms_of_sub h hw hs.nextStreamId fun id r hr =>
    absurd (hr.symm.trans (hnone id)) (by simp)
  have hle : ∀ w, e'.link.total w ≤ e.link.total w := fun w => by
    rw [hs.link]
    exact e.link.total_destroy_le w
  refine ⟨⟨fun k => ?_, fun k => ?_⟩, fun hc => absurd (hc.symm.trans hs.closed) (by decide),
    fun id r hr => absurd (hr.symm.trans (hnone id)) (by simp)⟩
  · rw [Windows.sum_nil]
    cases k with
    | circuit =>
      have := hle Frame.cells
      simp only [account, hs.closed, h.live, if_true, Bool.false_eq_true, if_false]
      omega
    | stream id hid =>
      have h₁ := hle (Frame.dataOf id)
      have h₂ := (hrooms id).1
      simp only [account]
      omega
  · rw [Windows.sum_nil]
    cases k with
    | circuit =>
      have := hle (Frame.creditOf circuitStreamId)
      simp only [account, hs.closed, h.live, if_true, Bool.false_eq_true, if_false]
      omega
    | stream id hid =>
      have h₁ := hle (Frame.creditOf id)
      have h₂ := (hrooms id).2
      simp only [account]
      omega

theorem Deals.weaken (h : Deals [] e e') (hc : e'.closed = true) (got : List Frame) :
    Deals got e e' :=
  ⟨h.moves.weaken got, fun ho => absurd (ho.symm.trans hc) (by decide), h.window⟩

theorem deals_gone (h : e.Gone) (h' : e'.Gone) (hl : ∀ w, e'.link.total w = e.link.total w) :
    Deals [] e e' := by
  have hnone : ∀ {e₀ : Entry}, e₀.Gone → ∀ id, e₀.sources.get? id = none := fun h₀ id => by
    rw [h₀.sources]
    rfl
  have hrooms : ∀ {e₀ : Entry}, e₀.Gone → ∀ id, e₀.sendRoom id = 0 ∧ e₀.recvRoom id = streamWindow := by
    intro e₀ h₀ id
    unfold sendRoom recvRoom
    rw [hnone h₀ id]
    exact ⟨if_neg (by rw [h₀.closed]; simp), rfl⟩
  have ha : e'.account = e.account := by
    unfold account
    simp only [hl, h.closed, h'.closed, if_true, (hrooms h _).1, (hrooms h _).2, (hrooms h' _).1,
      (hrooms h' _).2]
  exact ⟨ha ▸ .refl _, fun hc => absurd (hc.symm.trans h'.closed) (by decide),
    fun id r hr => absurd (hr.symm.trans (hnone h' id)) (by simp)⟩

/-! ## Grants and closed legs -/

theorem deals_drift {d : Int} (h : e.Open) (ho : e'.Open) (hw : e.InWindow) (hd : Drift d e e') :
    Deals [] e e' := by
  obtain ⟨fs, hlink, hcredit, hfs⟩ := hd.out
  have hrooms := rooms_of_sub h hw hd.nextStreamId hd.sources
  have hcells : weigh Frame.cells fs = 0 := List.sum_eq_zero fun n hn => by
    obtain ⟨f, hf, rfl⟩ := List.mem_map.mp hn
    rcases hfs f hf with ⟨n, rfl, -, -⟩ | ⟨id, rfl, -, -⟩ <;> rfl
  have hdata : ∀ id, weigh (Frame.dataOf id) fs = 0 := fun id => List.sum_eq_zero fun n hn => by
    obtain ⟨f, hf, rfl⟩ := List.mem_map.mp hn
    rcases hfs f hf with ⟨n, rfl, -, -⟩ | ⟨id', rfl, -, -⟩ <;> exact ite_self 0
  have hstream : ∀ id, id ≠ circuitStreamId → weigh (Frame.creditOf id) fs = 0 := fun id hid =>
    List.sum_eq_zero fun n hn => by
      obtain ⟨f, hf, rfl⟩ := List.mem_map.mp hn
      rcases hfs f hf with ⟨n, rfl, -, -⟩ | ⟨id', rfl, -, -⟩
      · exact Frame.creditOf_of_ne (Ne.symm hid)
      · rfl
  have htotal : ∀ w, e'.link.total w = e.link.total w + weigh w fs := fun w => by
    rw [hlink, Link.total_admits]
    rfl
  have hcirc : e'.reverseReceiveCredit =
      e.reverseReceiveCredit + weigh (Frame.creditOf circuitStreamId) fs := hcredit
  have hspent : e'.account.spent .circuit = e.account.spent .circuit := by
    have := htotal Frame.cells
    simp only [account, h.live, ho.live, Bool.false_eq_true, if_false, hd.inFlight]
    omega
  have hlent : e'.account.lent .circuit = e.account.lent .circuit := by
    have := htotal (Frame.creditOf circuitStreamId)
    simp only [account, h.live, ho.live, Bool.false_eq_true, if_false]
    omega
  refine ⟨⟨fun k => ?_, fun k => ?_⟩, fun _ => ⟨?_, ?_⟩, fun id r hr => hw id r (hd.sources id r hr)⟩
  · rw [Windows.sum_nil]
    cases k with
    | circuit => rw [hspent]; omega
    | stream id hid =>
      have h₁ := htotal (Frame.dataOf id)
      have h₂ := hdata id
      have h₃ := (hrooms id).1
      simp only [account]
      omega
  · rw [Windows.sum_nil]
    cases k with
    | circuit => rw [hlent]; omega
    | stream id hid =>
      have h₁ := htotal (Frame.creditOf id)
      have h₂ := hstream id hid
      have h₃ := (hrooms id).2
      simp only [account]
      omega
  · rw [hspent, Windows.sum_nil]; omega
  · rw [hlent, Windows.sum_nil]; omega

theorem deals_drifts {d : Int} (h : e.Open) (hw : e.InWindow) (hd : Drifts d e e') :
    Deals [] e e' := by
  rcases hd with hs | ⟨ho, hd⟩
  · exact deals_shut h hw hs
  · exact deals_drift h ho hw hd

/-! ## Turns -/

theorem deals_turn {id : Nat} {r r' : Record} {back sent : List Frame} {failed : List EntryFault}
    (h : e.Open) (ho : e₁.Open) (hw : e.InWindow) (ht : Turn id r r' back got sent failed e e₁)
    (hgot : ∀ f ∈ got, f.streamId = id) : Deals got e e₁ := by
  have hid := h.ne_circuit ht.record
  have hr' : e₁.sources.get? id = some r' := by
    rw [ht.sources]
    exact JsMap.get?_set_self _ _ _
  have hne : ∀ k, k ≠ id → e₁.sources.get? k = e.sources.get? k := fun k hk => by
    rw [ht.sources]
    exact JsMap.get?_set_ne _ _ hk
  have htotal : ∀ w, e₁.link.total w = e.link.total w + weigh w sent := fun w => by
    rw [ht.link, Link.total_admits]
    rfl
  have hcirc := (weigh_own hgot hid.symm).2
  have hcirc' := (weigh_own ht.own hid.symm).2
  have hspent : e₁.account.spent .circuit =
      e.account.spent .circuit + weigh (Frame.creditOf circuitStreamId) got := by
    have h₁ := htotal Frame.cells
    have h₂ := ht.inFlight
    simp only [account, h.live, ho.live, Bool.false_eq_true, if_false]
    omega
  have hlent : e₁.account.lent .circuit = e.account.lent .circuit + weigh Frame.cells got := by
    have h₁ := htotal (Frame.creditOf circuitStreamId)
    have h₂ := ht.credit
    simp only [account, h.live, ho.live, Bool.false_eq_true, if_false]
    omega
  refine ⟨⟨fun k => ?_, fun k => ?_⟩, fun _ => ⟨hspent, hlent⟩, fun k r₁ hr₁ => ?_⟩
  · cases k with
    | circuit => exact hspent.le
    | stream k hk =>
      have h₁ := htotal (Frame.dataOf k)
      show (e₁.sendRoom k + e₁.link.total (Frame.dataOf k) : Int) ≤
        e.sendRoom k + e.link.total (Frame.dataOf k) + weigh (Frame.creditOf k) got
      by_cases he : k = id
      · subst he
        have h₂ := ht.send
        unfold sendRoom
        rw [hr', ht.record]
        dsimp only
        omega
      · have h₂ := (weigh_own ht.own he).1
        unfold sendRoom
        rw [hne k he, ht.next, h.live, ho.live]
        omega
  · cases k with
    | circuit => exact hlent.le
    | stream k hk =>
      have h₁ := htotal (Frame.creditOf k)
      show (streamWindow - e₁.recvRoom k : Int) + e₁.link.total (Frame.creditOf k) ≤
        streamWindow - e.recvRoom k + e.link.total (Frame.creditOf k) + weigh (Frame.dataOf k) got
      by_cases he : k = id
      · subst he
        have h₂ := ht.recv
        unfold recvRoom
        rw [hr', ht.record]
        dsimp only
        omega
      · have h₂ := (weigh_own ht.own he).2
        unfold recvRoom
        rw [hne k he]
        omega
  · by_cases he : k = id
    · subst he
      obtain rfl := Option.some.inj (hr'.symm.trans hr₁)
      exact ht.window (hw k r ht.record)
    · exact hw k r₁ ((hne k he).symm.trans hr₁)

theorem SourceTurn.deals {id : Nat} {f : Frame} {r : Record} (h : e.Open) (hw : e.InWindow)
    (ht : SourceTurn id f r e e') : Deals [] e e' := by
  cases ht with
  | shut hs => exact deals_shut h hw hs
  | @refused leg g hleg hg hd hgone =>
    exact (deals_drifts (e := e.fault g) (h.fault g) hw hd).congr rfl
  | handled ht hleg hleg' hh ho hd hsplices =>
    have h₁ := deals_turn h ho hw ht fun _ hf => absurd hf List.not_mem_nil
    exact h₁.trans (deals_drifts ho h₁.window hd) ho.live

theorem deals_counters {f : Frame} (h : e.closed = false) (h' : e'.closed = false) (hw : e.InWindow)
    (hs : e'.sources = e.sources) (hn : e'.nextStreamId = e.nextStreamId) (hl : e'.link = e.link)
    (hin : e'.forwardPool.inFlight + f.creditOf circuitStreamId = e.forwardPool.inFlight)
    (hrev : e'.reverseReceiveCredit + f.cells = e.reverseReceiveCredit) : Deals [f] e e' := by
  have hspent : e'.account.spent .circuit =
      e.account.spent .circuit + f.creditOf circuitStreamId := by
    simp only [account, h, h', hl, Bool.false_eq_true, if_false]
    omega
  have hlent : e'.account.lent .circuit = e.account.lent .circuit + f.cells := by
    simp only [account, h, h', hl, Bool.false_eq_true, if_false]
    omega
  have hsum : ∀ w : Lane → Frame → Nat, ∀ k, Windows.sum w k [f] = w k f := fun w k =>
    Windows.sum_singleton w k f
  refine ⟨⟨fun k => ?_, fun k => ?_⟩, fun _ => ⟨?_, ?_⟩, fun id r hr => hw id r (hs ▸ hr)⟩
  · cases k with
    | circuit => rw [hsum]; exact hspent.le
    | stream id hid =>
      simp only [account, sendRoom, hs, hn, hl, h, h']
      exact Int.le_add_of_nonneg_right (Int.natCast_nonneg _)
  · cases k with
    | circuit => rw [hsum]; exact hlent.le
    | stream id hid =>
      simp only [account, recvRoom, hs, hl]
      exact Int.le_add_of_nonneg_right (Int.natCast_nonneg _)
  · rw [hsum]; exact hspent
  · rw [hsum]; exact hlent

theorem DestinationTurn.deals {f : Frame} (h : e.Open) (hw : e.InWindow)
    (ht : DestinationTurn f e e') : Deals [f] e e' := by
  have hown : ∀ g ∈ [f], g.streamId = f.streamId := fun g hg => by rw [List.mem_singleton.mp hg]
  cases ht with
  | @ended g hg hs =>
    exact ((deals_shut (e := e.fault g) (h.fault g) hw hs).weaken hs.closed [f]).congr rfl
  | @returned amount p hf hp hd =>
    obtain ⟨-, -, hle, hpool⟩ := Pool.returned_cases hp
    have ho := h.returned hp
    have hin : p.inFlight + f.creditOf circuitStreamId = e.forwardPool.inFlight := by
      rw [hf, Frame.creditOf_self, hpool]
      show e.forwardPool.inFlight - (amount : Int).toNat + amount = _
      omega
    have h₁ : Deals [f] e { e with forwardPool := p } :=
      deals_counters h.live h.live hw rfl rfl rfl hin (by rw [hf]; rfl)
    exact h₁.trans (deals_drifts ho h₁.window hd) ho.live
  | unclaimed hid hn hc ho hd =>
    have h₁ := deals_counters (f := f) h.live ho.live hw rfl rfl rfl
      (by rw [Frame.creditOf_of_ne hid]; rfl) hc
    exact h₁.trans (deals_drifts ho h₁.window hd) ho.live
  | refused hid ht hg ho hd hgone =>
    have h₁ := deals_turn h ho hw ht hown
    exact h₁.trans (deals_drifts ho h₁.window hd) ho.live
  | dropped hid ht ho hd hgone =>
    have h₁ := deals_turn h ho hw ht hown
    exact h₁.trans (deals_drifts ho h₁.window hd) ho.live
  | handed hid ht hg hh ho hleg => exact deals_turn h ho hw ht hown

/-! ## The other events -/

theorem deals_same (h : e.InWindow) (hs : ∀ id, (e'.sources.get? id).map
      (fun r => (r.sendCredit, r.receiveCredit)) =
      (e.sources.get? id).map fun r => (r.sendCredit, r.receiveCredit))
    (hn : e'.nextStreamId = e.nextStreamId) (hc : e'.closed = e.closed)
    (hl : ∀ w, e'.link.total w = e.link.total w)
    (hin : e'.forwardPool.inFlight = e.forwardPool.inFlight)
    (hrev : e'.reverseReceiveCredit = e.reverseReceiveCredit) : Deals [] e e' := by
  have hsend : ∀ id, e'.sendRoom id = e.sendRoom id := fun id => by
    have := hs id
    unfold sendRoom
    rw [hn]
    cases h₁ : e'.sources.get? id <;> cases h₂ : e.sources.get? id <;> simp_all
  have hrecv : ∀ id, e'.recvRoom id = e.recvRoom id := fun id => by
    have := hs id
    unfold recvRoom
    cases h₁ : e'.sources.get? id <;> cases h₂ : e.sources.get? id <;> simp_all
  have ha : e'.account = e.account := by
    unfold account
    simp only [hc, hl, hin, hrev, hsend, hrecv]
  refine ⟨ha ▸ .refl _, fun _ => ha ▸ .refl _ _, fun id r hr => ?_⟩
  have := hs id
  rw [hr] at this
  obtain ⟨r₀, hr₀, he⟩ := Option.map_eq_some_iff.mp this.symm
  obtain ⟨h₁, h₂⟩ := Prod.mk.inj he
  exact ⟨h₁ ▸ (h id r₀ hr₀).1, h₂ ▸ (h id r₀ hr₀).2⟩

theorem deals_register (h : e.Open) (hw : e.InWindow) {r : Record} (hsend : r.sendCredit = streamWindow)
    (hrecv : r.receiveCredit = streamWindow) (hs : e'.sources = e.sources.set e.nextStreamId r)
    (hn : e'.nextStreamId = e.nextStreamId + 2) (hc : e'.closed = false) (hl : e'.link = e.link)
    (hin : e'.forwardPool.inFlight = e.forwardPool.inFlight)
    (hrev : e'.reverseReceiveCredit = e.reverseReceiveCredit) : Deals [] e e' := by
  have hnone := h.fresh.2.1
  have hrooms : ∀ id, e'.sendRoom id ≤ e.sendRoom id ∧ e'.recvRoom id = e.recvRoom id := by
    intro id
    unfold sendRoom recvRoom
    by_cases he : id = e.nextStreamId
    · rw [hs, he, JsMap.get?_set_self, hnone]
      dsimp only
      rw [if_pos ⟨h.live, le_rfl⟩, hsend, hrecv]
      exact ⟨le_rfl, rfl⟩
    · rw [hs, JsMap.get?_set_ne _ _ he, hn]
      cases e.sources.get? id with
      | some r₀ => exact ⟨le_rfl, rfl⟩
      | none =>
        refine ⟨?_, rfl⟩
        dsimp only
        split
        · next hle => rw [if_pos ⟨h.live, by omega⟩]
        · exact Nat.zero_le _
  have hcirc : e'.account.spent .circuit = e.account.spent .circuit ∧
      e'.account.lent .circuit = e.account.lent .circuit := by
    simp only [account, hc, h.live, hl, hin, hrev, and_self]
  refine ⟨⟨fun k => ?_, fun k => ?_⟩, fun _ => ⟨?_, ?_⟩, fun id r₁ hr₁ => ?_⟩
  · rw [Windows.sum_nil]
    cases k with
    | circuit => rw [hcirc.1]; omega
    | stream id hid =>
      have := (hrooms id).1
      simp only [account, hl]
      omega
  · rw [Windows.sum_nil]
    cases k with
    | circuit => rw [hcirc.2]; omega
    | stream id hid =>
      have := (hrooms id).2
      simp only [account, hl]
      omega
  · rw [hcirc.1, Windows.sum_nil]; omega
  · rw [hcirc.2, Windows.sum_nil]; omega
  · rw [hs, JsMap.get?_set] at hr₁
    split at hr₁
    · cases hr₁
      exact ⟨hsend.le, hrecv.le⟩
    · exact hw id r₁ hr₁

theorem deals_sendBare {id : Nat} {body : Body} (h : e.Open) (hw : e.InWindow)
    (hb : body.bare = true) : Deals [] e (e.sendOut ⟨id, body⟩) := by
  rcases sendOut_cases h ⟨id, body⟩ with hs | ⟨ho, he⟩
  · exact deals_shut h hw hs
  · rw [he]
    have hcells := (Body.weights_of_bare hb id).1
    have hcredit := (Body.weights_of_bare hb id).2.2.1
    have hdata : ∀ k, (⟨id, body⟩ : Frame).dataOf k = 0 := fun k => by
      unfold Frame.dataOf
      rw [hcells, ite_self]
    have ha : account { e with link := e.link.enqueue ⟨id, body⟩ } = e.account := by
      unfold account
      simp only [Link.total_enqueue, hcells, hcredit, hdata, Nat.add_zero]
      rfl
    exact ⟨ha ▸ .refl _, fun _ => ha ▸ .refl _ _, hw⟩

theorem deals_activate (h : e.Open) (hw : e.InWindow) (readable : Bool) :
    Deals [] e (e.activate readable).1 := by
  cases hr : e.refuses with
  | true =>
    unfold activate
    rw [if_pos hr]
    exact .refl hw
  | false =>
    rcases activate_cases hr readable with ⟨-, he⟩ | ⟨p, e₁, hp, he₁, he⟩
    · rw [he]
      exact deals_register h hw rfl rfl rfl rfl h.live rfl rfl rfl
    · rw [he]
      obtain ⟨ho, -⟩ := h.attach hp
      obtain ⟨-, -, hpool⟩ := Pool.add_cases hp
      have hattach : Deals [] e ({ e.register with forwardPool := p }.setRecord e.nextStreamId
          { Record.new with attached := true }) := by
        refine deals_register (r := { Record.new with attached := true }) h hw rfl rfl ?_ rfl h.live
          rfl (by rw [hpool]; rfl) rfl
        exact JsMap.set_set _ _ _ _
      rw [he₁]
      split
      · exact hattach
      · exact hattach.trans (deals_sendBare ho hattach.window rfl) ho.live

theorem deals_legLink (hw : e.InWindow) (id : Nat) (ev : LinkEvent) :
    Deals [] e (e.step (.legLink id ev)) := by
  show Deals [] e (e.legProgress id ev)
  unfold legProgress
  split
  · exact .refl hw
  · exact deals_same hw (fun _ => rfl) rfl rfl (fun _ => rfl) rfl rfl

/-- **What the entry does by itself moves no window up.** -/
theorem deals_own (h : e.Open) (hsum : e.reverseSum = circuitWindow) (hw : e.InWindow)
    {ev : EntryEvent} (hev : own ev = true) : Deals [] e (e.step ev) := by
  have hpool : ∀ {p : Pool Nat}, e.forwardPool.Alike p → Deals [] e { e with forwardPool := p } :=
    fun hp => deals_same hw (fun _ => rfl) rfl rfl (fun _ => rfl) hp.inFlight rfl
  cases ev with
  | activate readable => exact deals_activate h hw readable
  | fromSource | receive => cases hev
  | closeLeg now id => exact deals_drifts h hw (drifts_closeLeg h now id)
  | returnTimer =>
    show Deals [] e e.returnFired
    unfold returnFired
    split
    · have ho : Open { e with returnTimer := false } :=
        ⟨h.live, h.pool, h.poolLive, h.link, h.reverse, h.legs, h.attached, h.linked, h.gone, h.ids,
          h.even⟩
      exact (deals_drifts ho hw (drifts_returnReverse ho 0 hsum.le true)).congr rfl
    · exact .refl hw
  | idleTimer now id busy =>
    have ha := e.forwardPool.alike_idleFired id busy now
    have ho := h.alike ha
    show Deals [] e (idleFired now e id busy)
    unfold idleFired
    split
    · next p hp =>
      rw [hp] at ha
      exact hpool ha
    · next p hp =>
      rw [hp] at ha ho
      have h₁ := hpool ha
      exact h₁.trans (deals_drifts ho h₁.window (drifts_closeLeg ho now id)) ho.live
  | touch now id => exact hpool (e.forwardPool.alike_touch id now)
  | link ev =>
    have htake : ev ≠ .take := by
      rintro rfl
      cases hev
    exact deals_same hw (fun _ => rfl) rfl rfl (e.link.total_progress htake) rfl rfl
  | legLink id ev => exact deals_legLink hw id ev
  | spliceClosed id =>
    show Deals [] e (e.spliceClosed id)
    unfold spliceClosed
    split
    · exact .refl hw
    · next r hr =>
      refine deals_same hw (fun id' => ?_) rfl rfl (fun _ => rfl) rfl rfl
      show ((e.sources.set id { r with splice := none }).get? id').map _ = _
      rw [JsMap.get?_set]
      split
      · next he =>
        rw [he, hr]
        rfl
      · rfl
  | retire => exact deals_same hw (fun _ => rfl) rfl rfl (fun _ => rfl) rfl rfl
  | destroy => exact deals_shut h hw (shut_destroy h)

/-- A closed entry moves nothing, and its link only writes. -/
theorem Gone.deals_own (h : e.Gone) {ev : EntryEvent} (hev : own ev = true) :
    Deals [] e (e.step ev) := by
  refine deals_gone h (h.step ev) fun w => ?_
  cases hlink : ev.isLink with
  | false => rw [h.link_step hlink]
  | true =>
    cases ev with
    | link ev =>
      have htake : ev ≠ .take := by
        rintro rfl
        cases hev
      exact e.link.total_progress htake w
    | activate | fromSource | receive | closeLeg | returnTimer | idleTimer | touch | legLink
    | spliceClosed | retire | destroy => cases hlink

end Entry

end HyperDht.Private
