import HyperDht.Private.EntryLegs

/-!
# The turns of an entry

What an entry makes of a frame, in two parts: its own change for one source (`Turn`), and the
grants, closed legs and returned credit that follow (`Drifts`). A frame of a source is handled
as the balances of its leg ask for, or refused, which closes the leg (`SourceTurn`); one of the
destination is handed on to its leg (`DestinationTurn`). Both say which check a refused frame
has failed, so that the balances can rule the checks of credit out.
-/

namespace HyperDht.Private

/-- A check of the flow control: that no more is sent or given back than was granted. The rate
limit of demands is about time. -/
def EntryFault.ofCredit : EntryFault → Bool
  | .reverseInFlight | .sendCredit | .receiveCredit | .reverseCredit | .reverseOverflow => true
  | .demand f => f != .rateLimit
  | .release _ | .sent _ | .returned _ => true
  | .decode | .foreignId | .unexpected | .ended | .totals | .splice => false

/-- The flags whose data is no credit and no cell of the stream. -/
def Body.bare : Body → Bool
  | .openStream | .fin | .reset | .spliceOpen _ | .spliceReady _ => true
  | .data _ | .credit _ | .demand _ | .release _ => false

theorem Body.weights_of_bare {b : Body} (h : b.bare = true) (id : Nat) :
    (⟨id, b⟩ : Frame).cells = 0 ∧ (⟨id, b⟩ : Frame).dataOf id = 0 ∧
      (∀ k, (⟨id, b⟩ : Frame).creditOf k = 0) ∧ (⟨id, b⟩ : Frame).uses = 0 ∧
      (⟨id, b⟩ : Frame).demand? = none := by
  cases b with
  | openStream | fin | reset | spliceOpen | spliceReady =>
    refine ⟨rfl, ite_self _, fun _ => rfl, ?_, rfl⟩
    show (if id = 0 then 0 else 0) + 0 = 0
    rw [ite_self]
  | data | credit | demand | release => cases h

/-- The checks of credit that a frame of a source can fail. -/
def Record.Refuses (r : Record) (leg : Leg) (f : Frame) : EntryFault → Prop
  | .sendCredit => r.sendCredit < f.dataOf 0
  | .receiveCredit => streamWindow < r.receiveCredit + f.creditOf 0
  | .reverseInFlight => r.reverseInFlight < f.creditOf circuitStreamId
  | .sent _ | .release _ => leg.granted < f.uses
  | .demand .rateLimit => True
  | .demand _ => ∃ n, f = ⟨circuitStreamId, .demand n⟩ ∧
      (n = 0 ∧ leg.demandOpen = false ∨
        n ≠ 0 ∧ (leg.wanted ≠ 0 ∨ circuitWindow < leg.granted + n))
  | .reverseCredit | .returned _ | .reverseOverflow => False
  | _ => True

namespace Entry

/-- The checks of credit that a frame of the destination can fail. -/
def Refuses (e : Entry) (f : Frame) : EntryFault → Prop
  | .reverseCredit => e.reverseReceiveCredit < f.cells
  | .returned _ => e.forwardPool.inFlight < f.creditOf circuitStreamId
  | .sendCredit => ∃ r, e.sources.get? f.streamId = some r ∧
      streamWindow < r.sendCredit + f.creditOf f.streamId
  | .receiveCredit => ∃ r, e.sources.get? f.streamId = some r ∧
      r.receiveCredit < f.dataOf f.streamId
  | .reverseInFlight | .demand _ | .release _ | .sent _ | .reverseOverflow => False
  | _ => True

/-- Neither end of the stream may be owed more than a window. -/
def Windowed (r : Record) : Prop := r.sendCredit ≤ streamWindow ∧ r.receiveCredit ≤ streamWindow

/-- The change for one source: its record becomes `r'`, `back` goes out on its leg and `sent` on
the shared link; `got` is the frame of the destination it is for, if it is for one, and `failed`
the check that the frame has failed, if it has failed one. -/
structure Turn (id : Nat) (r r' : Record) (back got sent : List Frame) (failed : List EntryFault)
    (e e' : Entry) : Prop where
  record : e.sources.get? id = some r
  sources : e'.sources = e.sources.set id r'
  legs : ∀ id', id' ≠ id → e'.forwardPool.legs.get? id' = e.forwardPool.legs.get? id'
  leg : ∀ l, e.links.get? id = some l → e'.links.get? id = some (l.admits back)
  links : ∀ id', id' ≠ id → e'.links.get? id' = e.links.get? id'
  link : e'.link = e.link.admits sent
  own : ∀ f ∈ sent, f.streamId = id
  next : e'.nextStreamId = e.nextStreamId
  faults : e'.faults = e.faults ++ failed
  inFlight : e'.forwardPool.inFlight = e.forwardPool.inFlight + weigh Frame.cells sent
  credit : e'.reverseReceiveCredit + weigh Frame.cells got = e.reverseReceiveCredit
  send : r'.sendCredit + weigh (Frame.dataOf id) sent ≤ r.sendCredit + weigh (Frame.creditOf id) got
  recv : r.receiveCredit + weigh (Frame.creditOf id) sent ≤
    r'.receiveCredit + weigh (Frame.dataOf id) got
  window : Windowed r → Windowed r'

/-- What becomes of a frame `f` of the source `id`. -/
inductive SourceTurn (id : Nat) (f : Frame) (r : Record) (e e' : Entry) : Prop
  | shut (h : Shut e e')
  | refused {leg : Leg} {g : EntryFault} (hleg : e.forwardPool.legs.get? id = some leg)
      (hg : r.Refuses leg f g) (hd : Drifts 0 (e.fault g) e') (hgone : e'.sources.get? id = none)
  | handled {leg leg' : Leg} {r' : Record} {back sent : List Frame} {e₁ : Entry} {d : Int}
      (ht : Turn id r r' back [] sent [] e e₁) (hleg : e.forwardPool.legs.get? id = some leg)
      (hleg' : e₁.forwardPool.legs.get? id = some leg')
      (hh : Handled f r leg r' leg' back) (ho : e₁.Open) (hd : Drifts d e₁ e')
      (hs : weigh Frame.splices sent ≤ f.splices)

/-- What becomes of a frame `f` of the destination. -/
inductive DestinationTurn (f : Frame) (e e' : Entry) : Prop
  | ended {g : EntryFault} (hg : e.Refuses f g) (h : Shut (e.fault g) e')
  | returned {amount : Nat} {p : Pool Nat} (hf : f = ⟨circuitStreamId, .credit amount⟩)
      (hp : e.forwardPool.returned amount = .ok p) (hd : Drifts 0 { e with forwardPool := p } e')
  | unclaimed {credit : Nat} (hid : f.streamId ≠ circuitStreamId)
      (hn : e.sources.get? f.streamId = none) (hc : credit + f.cells = e.reverseReceiveCredit)
      (ho : Open { e with reverseReceiveCredit := credit })
      (hd : Drifts f.cells { e with reverseReceiveCredit := credit } e')
  | refused {r r' : Record} {g : EntryFault} {e₁ : Entry} (hid : f.streamId ≠ circuitStreamId)
      (ht : Turn f.streamId r r' [] [f] [] [g] e e₁) (hg : e.Refuses f g) (ho : e₁.Open)
      (hd : Drifts 0 e₁ e') (hgone : r.attached = true → e'.sources.get? f.streamId = none)
  | dropped {r r' : Record} {e₁ : Entry} (hid : f.streamId ≠ circuitStreamId)
      (ht : Turn f.streamId r r' [] [f] [] [] e e₁) (ho : e₁.Open) (hd : Drifts 0 e₁ e')
      (hgone : r.attached = true → e'.sources.get? f.streamId = none)
  | handed {r r' : Record} {g : Frame} (hid : f.streamId ≠ circuitStreamId)
      (ht : Turn f.streamId r r' [g] [f] [] [] e e') (hg : g.cells = g.dataOf 0)
      (hh : Handed g r r') (ho : e'.Open) (hleg : e'.forwardPool.legs = e.forwardPool.legs)

/-! ## Closing a leg -/

theorem Drifts.sources_none {d : Int} {e e' : Entry} (h : Drifts d e e') {id : Nat}
    (hn : e.sources.get? id = none) : e'.sources.get? id = none := by
  rcases h with hs | ⟨-, hd⟩
  · rw [hs.sources]
    rfl
  · exact hd.sources_none hn

theorem destroy_sources_none {e : Entry} {id : Nat} (hn : e.sources.get? id = none) :
    e.destroy.sources.get? id = none := by
  unfold destroy
  split
  · exact hn
  · rfl

theorem sendOut_sources_none {e : Entry} {id : Nat} (hn : e.sources.get? id = none) (f : Frame) :
    (e.sendOut f).sources.get? id = none := by
  unfold sendOut
  split
  · exact hn
  · split
    · exact destroy_sources_none hn
    · exact hn

theorem returnReverse_sources_none {e : Entry} {id : Nat} (hn : e.sources.get? id = none)
    (amount : Nat) (flush : Bool) : (e.returnReverse amount flush).sources.get? id = none := by
  unfold returnReverse
  split
  · exact hn
  · dsimp only
    split
    · exact hn
    · split
      · exact hn
      · split
        · exact hn
        · exact sendOut_sources_none (e := { e with
            reverseReturnPending := 0
            returnTimer := false
            reverseReceiveCredit := e.reverseReceiveCredit + (e.reverseReturnPending + amount) })
            hn _

theorem gone_closeLeg {e : Entry} (h : e.Open) {id : Nat} {r : Record}
    (hr : e.sources.get? id = some r) (ha : r.attached = true) (now : Int) :
    (closeLeg now e id).sources.get? id = none := by
  obtain ⟨-, l, hl, hlive⟩ := h.attached id r hr ha
  obtain ⟨hflag, ho, -⟩ := drift_detach h (.self h hr ha) hl hr
  have hn : (e.detach id l).1.sources.get? id = none := JsMap.get?_delete_self _ _
  unfold closeLeg closeWith
  rw [hl]
  dsimp only
  rw [if_neg (by rw [hlive]; decide), hr]
  dsimp only
  rw [if_neg (by rw [ha]; decide)]
  split
  · next e₁ he =>
    change (e.detach id l).1.Open at ho
    rw [he] at ho hn
    have hn' := (drifts_distribute ho now).sources_none hn
    have hback := returnReverse_sources_none hn' r.reverseInFlight true
    unfold afterClose
    dsimp only
    split
    · exact hback
    · exact sendOut_sources_none hback _
  · next e₁ he =>
    rw [show e.detach id l = (e₁, false) from he] at hflag
    cases hflag

theorem sendLeg_turn {e : Entry} (h : e.Open) {id : Nat} {r : Record}
    (hr : e.sources.get? id = some r) (now : Int) (f : Frame) :
    Drifts 0 e (sendLeg now e id f) ∧
        (r.attached = true → (sendLeg now e id f).sources.get? id = none) ∨
      ∃ l, e.links.get? id = some l ∧ l.destroyed = false ∧
        Open { e with links := e.links.set id (l.enqueue f) } ∧
        sendLeg now e id f = { e with links := e.links.set id (l.enqueue f) } := by
  unfold sendLeg sendWith
  split
  · next hl =>
    refine .inl ⟨.inr ⟨h, .refl h⟩, fun ha => ?_⟩
    obtain ⟨-, l, hl', -⟩ := h.attached id r hr ha
    exact absurd (hl'.symm.trans hl) (by simp)
  · next l hl =>
    split
    · next hdead =>
      refine .inl ⟨.inr ⟨h, .refl h⟩, fun ha => ?_⟩
      obtain ⟨-, l', hl', hlive⟩ := h.attached id r hr ha
      obtain rfl := Option.some.inj (hl.symm.trans hl')
      exact absurd (hlive.symm.trans hdead) (by decide)
    · next hlive =>
      split
      · exact .inl ⟨drifts_closeLeg h now id, fun ha => gone_closeLeg h hr ha now⟩
      · exact .inr ⟨l, hl, Bool.eq_false_of_not_eq_true hlive,
          h.admitLeg hl f e.forwardPool h.pool h.poolLive fun _ => Iff.rfl, rfl⟩

/-! ## Frames of a source -/

section Source

variable {e : Entry} {id : Nat} {f : Frame} {r : Record} {leg : Leg}

theorem turn_failLeg (h : e.Open) (hr : e.sources.get? id = some r) (ha : r.attached = true)
    (hleg : e.forwardPool.legs.get? id = some leg) (now : Int) {g : EntryFault}
    (hg : r.Refuses leg f g) : SourceTurn id f r e (failLeg now e id g) :=
  .refused hleg hg (drifts_closeLeg (h.fault g) now id)
    (gone_closeLeg (e := e.fault g) (h.fault g) hr ha now)

theorem turn_record (hr : e.sources.get? id = some r) (r' : Record) {p : Pool Nat}
    (hlegs : ∀ id', id' ≠ id → p.legs.get? id' = e.forwardPool.legs.get? id')
    (hin : p.inFlight = e.forwardPool.inFlight) (hs : r'.sendCredit = r.sendCredit)
    (hv : r'.receiveCredit = r.receiveCredit) :
    Turn id r r' [] [] [] [] e ({ e with forwardPool := p }.setRecord id r') where
  record := hr
  sources := rfl
  legs := hlegs
  leg _ hl := hl
  links _ _ := rfl
  link := rfl
  own _ hf := absurd hf List.not_mem_nil
  next := rfl
  faults := (List.append_nil _).symm
  inFlight := hin
  credit := rfl
  send := hs.le
  recv := hv.ge
  window hw := by rwa [Windowed, hs, hv]

theorem turn_pool (hr : e.sources.get? id = some r) {p : Pool Nat}
    (hlegs : ∀ id', id' ≠ id → p.legs.get? id' = e.forwardPool.legs.get? id')
    (hin : p.inFlight = e.forwardPool.inFlight) :
    Turn id r r [] [] [] [] e { e with forwardPool := p } := by
  have h := turn_record hr r hlegs hin rfl rfl
  rwa [setRecord, JsMap.set_of_get? (m := e.sources) hr] at h

theorem Turn.back {r' : Record} {got sent : List Frame} {failed : List EntryFault} {e₁ : Entry}
    (ht : Turn id r r' [] got sent failed e e₁) {l : Link} (hl : e₁.links.get? id = some l)
    (g : Frame) : Turn id r r' [g] got sent failed e
      { e₁ with links := e₁.links.set id (l.enqueue g) } where
  record := ht.record
  sources := ht.sources
  legs := ht.legs
  leg l' hl' := by
    obtain rfl := Option.some.inj (hl.symm.trans (ht.leg l' hl'))
    exact JsMap.get?_set_self _ _ _
  links id' hne := (JsMap.get?_set_ne _ _ hne).trans (ht.links id' hne)
  link := ht.link
  own := ht.own
  next := ht.next
  faults := ht.faults
  inFlight := ht.inFlight
  credit := ht.credit
  send := ht.send
  recv := ht.recv
  window := ht.window

/-- A change of the record and the pool, with a frame on the shared link. -/
theorem turn_sendOut (hr : e.sources.get? id = some r) (hleg : e.forwardPool.legs.get? id = some leg)
    {r' : Record} {leg' : Leg} {p : Pool Nat} {g : Frame}
    (ho : ({ e with forwardPool := p }.setRecord id r').Open) (hid : g.streamId = id)
    (hleg' : p.legs.get? id = some leg')
    (hlegs : ∀ id', id' ≠ id → p.legs.get? id' = e.forwardPool.legs.get? id')
    (hin : p.inFlight = e.forwardPool.inFlight + g.cells)
    (hs : r'.sendCredit + g.dataOf id = r.sendCredit)
    (hv : r'.receiveCredit = r.receiveCredit + g.creditOf id)
    (hw : r.receiveCredit + g.creditOf id ≤ streamWindow ∨ g.creditOf id = 0)
    (hh : Handled f r leg r' leg' []) (hsp : g.splices ≤ f.splices) :
    SourceTurn id f r e (({ e with forwardPool := p }.setRecord id r').sendOut g) := by
  rcases sendOut_cases ho g with hshut | ⟨ho', he⟩
  · exact .shut ⟨hshut.closed, hshut.poolClosed, hshut.available, hshut.sources, hshut.links,
      hshut.link, hshut.faults, hshut.spliced, hshut.nextStreamId⟩
  · rw [he]
    have ht : Turn id r r' [] [] [g] [] e
        { { e with forwardPool := p }.setRecord id r' with link := e.link.enqueue g } := by
      refine ⟨hr, rfl, hlegs, fun _ hl => hl, fun _ _ => rfl, rfl, fun g' hg' => ?_, rfl,
        (List.append_nil _).symm, hin, rfl, hs.le, hv.ge, fun hwin => ?_⟩
      · rw [List.mem_singleton.mp hg']
        exact hid
      · obtain ⟨h₁, h₂⟩ := hwin
        exact ⟨by omega, by omega⟩
    exact .handled ht hleg hleg' hh ho' (.inr ⟨ho', .refl ho'⟩) hsp

/-! ### Frames for the circuit -/

theorem legs_set {p : Pool Nat} (leg' : Leg) (id' : Nat) (hne : id' ≠ id) :
    (p.legs.set id leg').get? id' = p.legs.get? id' :=
  JsMap.get?_set_ne _ _ hne

theorem turn_demand (hr : e.sources.get? id = some r) {n : Nat} {now : Int}
    {p : Pool Nat} {b : Bool} (hp : e.forwardPool.demand id n true now = .ok (p, b)) :
    ∃ leg leg', e.forwardPool.legs.get? id = some leg ∧ p.legs.get? id = some leg' ∧
      Turn id r r [] [] [] [] e { e with forwardPool := p } ∧
      (b = true ∧ Handled ⟨circuitStreamId, .demand n⟩ r leg r leg' [] ∨
        b = false ∧ n = 0 ∧ leg'.granted = leg.granted ∧ leg'.wanted = 0) := by
  obtain ⟨leg, hleg, -, ⟨hzero, -, rfl, rfl⟩ | ⟨hpos, -, -, -, rfl, rfl⟩⟩ := Pool.demand_cases hp
  · refine ⟨leg, { leg with wanted := 0, demandOpen := false }, hleg, ?_, ?_, .inr ⟨rfl, by omega, rfl,
      rfl⟩⟩
    · rw [Pool.cancel_of_some hleg]
      exact JsMap.get?_set_self _ _ _
    · rw [Pool.cancel_of_some hleg]
      exact turn_pool hr (fun id' hne => legs_set _ id' hne) rfl
  · refine ⟨leg, _, hleg, JsMap.get?_set_self _ _ _,
      turn_pool hr (fun id' hne => legs_set _ id' hne) rfl,
      .inl ⟨rfl, .demand rfl (by omega) rfl rfl (Int.toNat_natCast n) rfl⟩⟩

/-- A demand that the pool refuses: for its rate, or for a check of credit. -/
theorem refuses_demand (h : e.Open) (hleg : e.forwardPool.legs.get? id = some leg) {n : Nat}
    (hle : n ≤ circuitWindow) {now : Int} {g : PoolFault}
    (hg : e.forwardPool.demand id n true now = .error g) :
    r.Refuses leg ⟨circuitStreamId, .demand n⟩ (.demand g) := by
  unfold Pool.demand at hg
  rw [hleg] at hg
  dsimp only at hg
  rw [if_neg (by rw [h.poolLive]; simp; omega)] at hg
  split at hg
  · next hzero =>
    split at hg
    · cases hg
    · next hopen =>
      cases hg
      exact ⟨n, rfl, .inl ⟨by omega, Bool.eq_false_of_not_eq_true hopen⟩⟩
  · next hzero =>
    split at hg
    · next hwanted =>
      cases hg
      exact ⟨n, rfl, .inr ⟨by omega, .inl hwanted⟩⟩
    · split at hg
      · next hover =>
        cases hg
        exact ⟨n, rfl, .inr ⟨by omega, .inr (by omega)⟩⟩
      · split at hg
        · cases hg
          trivial
        · cases hg

theorem turn_circuitControl (h : e.Open) (hsum : e.reverseSum = circuitWindow)
    (hr : e.sources.get? id = some r) (ha : r.attached = true) (now : Int) {body : Body}
    (hvalid : validLogicalPayload circuitStreamId body = true) :
    SourceTurn id ⟨circuitStreamId, body⟩ r e (circuitControl now e id r body) := by
  obtain ⟨⟨leg, hleg⟩, -⟩ := h.attached id r hr ha
  have hfail : ∀ g, r.Refuses leg ⟨circuitStreamId, body⟩ g →
      SourceTurn id ⟨circuitStreamId, body⟩ r e (failLeg now e id g) := fun g hg =>
    turn_failLeg h hr ha hleg now hg
  unfold circuitControl
  cases body with
  | credit amount =>
    dsimp only
    split
    · next hlt =>
      refine hfail _ ?_
      show r.reverseInFlight < Frame.creditOf _ _
      rwa [Frame.creditOf_self]
    · next hle =>
      have hset := reverseSum_setRecord hr { r with reverseInFlight := r.reverseInFlight - amount }
      dsimp only at hset
      have ho : (e.setRecord id { r with reverseInFlight := r.reverseInFlight - amount }).Open :=
        h.setRecord hr rfl (by omega)
      have ht : Turn id r { r with reverseInFlight := r.reverseInFlight - amount } [] [] [] [] e
          (e.setRecord id { r with reverseInFlight := r.reverseInFlight - amount }) :=
        turn_record hr _ (fun _ _ => rfl) rfl rfl rfl
      refine .handled ht hleg hleg (.plain rfl rfl rfl ?_ rfl rfl rfl) ho
        (drifts_returnReverse ho amount (by omega) false) (Nat.zero_le _)
      rw [Frame.creditOf_self]
      show r.reverseInFlight - amount + amount = r.reverseInFlight
      omega
  | demand amount =>
    dsimp only
    split
    · exact hfail _ trivial
    · have hle : amount ≤ circuitWindow := by
        simpa [validLogicalPayload] using hvalid
      split
      · next g hg => exact hfail _ (refuses_demand h hleg hle hg)
      · next p hp =>
        obtain ⟨leg₀, leg', hleg₀, hleg', ht, ⟨-, hh⟩ | ⟨hb, -⟩⟩ := turn_demand hr hp
        · exact .handled ht hleg₀ hleg' hh (h.demanded hp) (drifts_distribute (h.demanded hp) now)
            (Nat.zero_le _)
        · cases hb
      · next p hp =>
        obtain ⟨leg₀, leg', hleg₀, hleg', ht, ⟨hb, -⟩ | ⟨-, rfl, hgr, hw⟩⟩ := turn_demand hr hp
        · cases hb
        · have ho := h.demanded hp
          rcases sendLeg_turn ho hr now ⟨circuitStreamId, .demand 0⟩ with ⟨hd, -⟩ | ⟨l, hl, -, ho', he⟩
          · exact .handled ht hleg₀ hleg' (.cancel rfl rfl hgr hw (.inl rfl)) ho hd (Nat.zero_le _)
          · rw [he]
            have ht' := ht.back hl ⟨circuitStreamId, .demand 0⟩
            exact .handled ht' hleg₀ hleg' (.cancel rfl rfl hgr hw (.inr rfl)) ho' (.inr ⟨ho', .refl ho'⟩)
              (Nat.zero_le _)
  | release amount =>
    dsimp only
    have hpos : 0 < amount := by
      simp only [validLogicalPayload, Bool.and_eq_true, bne_iff_ne] at hvalid
      omega
    split
    · next g hg =>
      refine hfail _ ?_
      by_contra hle
      obtain ⟨q, hq⟩ := Pool.release_ok hleg h.poolLive hpos
        (Nat.le_of_not_lt fun hlt => hle (show leg.granted < _ by
          rw [show Frame.uses _ = 0 + amount from rfl]
          omega))
      rw [hq] at hg
      cases hg
    · next p hp =>
      have ho := h.released hp
      obtain ⟨leg₀, hleg₀, -, -, hle, rfl⟩ := Pool.release_cases hp
      obtain rfl := Option.some.inj (hleg.symm.trans hleg₀)
      have ht := turn_pool (p := { e.forwardPool with
          legs := e.forwardPool.legs.set id { leg with
            granted := leg.granted - (amount : Int).toNat
            idleTimer := leg.idleTimer && leg.granted - (amount : Int).toNat != 0 }
          available := e.forwardPool.available + (amount : Int).toNat }) hr
        (fun id' hne => legs_set _ id' hne) rfl
      have hleg' : _ = some { leg with
          granted := leg.granted - (amount : Int).toNat
          idleTimer := leg.idleTimer && leg.granted - (amount : Int).toNat != 0 } :=
        JsMap.get?_set_self e.forwardPool.legs id _
      refine .handled ht hleg hleg' (.plain rfl rfl rfl rfl ?_ rfl rfl) ho (drifts_distribute ho now)
        (Nat.zero_le _)
      show leg.granted - (amount : Int).toNat + (0 + amount) = leg.granted
      omega
  | data | openStream | fin | reset | spliceOpen | spliceReady => exact hfail _ trivial

/-! ### Frames for the stream -/

theorem turn_sendBare (h : e.Open) (hsum : e.reverseSum = circuitWindow)
    (hr : e.sources.get? id = some r) (ha : r.attached = true) {body body' : Body}
    (hb : body.bare = true) (hb' : body'.bare = true) (r' : Record) (ha' : r'.attached = r.attached)
    (hs : r'.sendCredit = r.sendCredit) (hv : r'.receiveCredit = r.receiveCredit)
    (hi : r'.reverseInFlight = r.reverseInFlight)
    (hsp : (⟨id, body'⟩ : Frame).splices ≤ (⟨0, body⟩ : Frame).splices) :
    SourceTurn id ⟨0, body⟩ r e ((e.setRecord id r').sendOut ⟨id, body'⟩) := by
  obtain ⟨⟨leg, hleg⟩, -⟩ := h.attached id r hr ha
  have ho := (h.keepRecord hsum hr r' ha' hi).1
  obtain ⟨-, hdata, hcredit, huses, hdemand⟩ := Body.weights_of_bare hb 0
  obtain ⟨hcells', hdata', hcredit', -, -⟩ := Body.weights_of_bare hb' id
  refine turn_sendOut hr hleg ho rfl hleg (fun _ _ => rfl) (by rw [hcells']; rfl) ?_ ?_
    (.inr (hcredit' id)) (.plain hdemand ?_ ?_ ?_ ?_ rfl rfl) hsp
  · rw [hdata', hs]
    rfl
  · rw [hcredit', hv]
    rfl
  · rw [hdata, hs]
    rfl
  · rw [hcredit, hv]
    rfl
  · rw [hcredit, hi]
    rfl
  · rw [huses]
    rfl

theorem turn_sendSame (h : e.Open) (hsum : e.reverseSum = circuitWindow)
    (hr : e.sources.get? id = some r) (ha : r.attached = true) {body : Body}
    (hb : body.bare = true) : SourceTurn id ⟨0, body⟩ r e (e.sendOut ⟨id, body⟩) := by
  have hsame := turn_sendBare h hsum hr ha hb hb r rfl rfl rfl rfl le_rfl
  rwa [setRecord, JsMap.set_of_get? hr] at hsame

theorem turn_forward (h : e.Open) (hsum : e.reverseSum = circuitWindow)
    (hr : e.sources.get? id = some r) (ha : r.attached = true) (now : Int) {body : Body}
    (hvalid : validLogicalPayload 0 body = true) :
    SourceTurn id ⟨0, body⟩ r e (forward now e id r body) := by
  obtain ⟨⟨leg, hleg⟩, -⟩ := h.attached id r hr ha
  have hfail : ∀ g, r.Refuses leg ⟨0, body⟩ g → SourceTurn id ⟨0, body⟩ r e (failLeg now e id g) :=
    fun g hg => turn_failLeg h hr ha hleg now hg
  unfold forward
  cases body with
  | data chunk =>
    dsimp only
    split
    · exact hfail _ trivial
    · split
      · next hzero =>
        refine hfail _ ?_
        show r.sendCredit < 1
        omega
      · next hcredit =>
        split
        · exact hfail _ trivial
        · split
          · next g hg =>
            refine hfail _ ?_
            by_contra hle
            obtain ⟨q, hq⟩ := Pool.sent_ok hleg h.poolLive
              (Nat.le_of_not_lt fun hlt => hle (show leg.granted < 1 from hlt)) now
            rw [hq] at hg
            cases hg
          · next p hp =>
            obtain ⟨ho, -⟩ := (h.sent hp).keepRecord hsum hr { r with
              sentBytes := r.sentBytes + chunk.length
              sentFrames := r.sentFrames + 1
              sendCredit := r.sendCredit - 1 } rfl rfl
            obtain ⟨leg₀, hleg₀, -, -, hle, rfl⟩ := Pool.sent_cases hp
            obtain rfl := Option.some.inj (hleg.symm.trans hleg₀)
            have hpos : 0 < leg.granted := hle
            refine turn_sendOut hr hleg ho rfl (JsMap.get?_set_self _ _ _)
              (fun id' hne => legs_set _ id' hne) rfl ?_ rfl (.inr rfl) (.plain rfl ?_ rfl rfl ?_ rfl rfl)
              le_rfl
            · show r.sendCredit - 1 + (if id = id then 1 else 0) = r.sendCredit
              rw [if_pos rfl]
              omega
            · show r.sendCredit - 1 + 1 = r.sendCredit
              omega
            · show leg.granted - 1 + 1 = leg.granted
              omega
  | credit amount =>
    dsimp only
    have hzero : (⟨0, .credit amount⟩ : Frame).creditOf circuitStreamId = 0 :=
      Frame.creditOf_of_ne (show 0 ≠ circuitStreamId by decide)
    split
    · next hlt =>
      refine hfail _ ?_
      show streamWindow < r.receiveCredit + Frame.creditOf 0 _
      rwa [Frame.creditOf_self]
    · next hle =>
      have ho := (h.keepRecord hsum hr
        { r with receiveCredit := r.receiveCredit + amount } rfl rfl).1
      refine turn_sendOut hr hleg ho rfl hleg (fun _ _ => rfl) rfl ?_ ?_ (.inl ?_)
        (.plain rfl rfl ?_ ?_ rfl rfl rfl) le_rfl
      · show r.sendCredit + (if id = id then 0 else 0) = r.sendCredit
        rw [ite_self]
        rfl
      · rw [Frame.creditOf_self]
      · rw [Frame.creditOf_self]
        exact Nat.le_of_not_lt hle
      · rw [Frame.creditOf_self]
      · rw [hzero]
        rfl
  | fin =>
    exact turn_sendBare h hsum hr ha rfl rfl _ rfl rfl rfl rfl le_rfl
  | reset =>
    exact turn_sendBare h hsum hr ha rfl rfl _ rfl rfl rfl rfl le_rfl
  | openStream | spliceOpen | spliceReady => exact turn_sendSame h hsum hr ha rfl
  | demand | release => simp [validLogicalPayload, circuitStreamId] at hvalid

/-- **What an entry makes of a frame of a source.** -/
theorem turn_fromSource (h : e.Open) (hsum : e.reverseSum = circuitWindow)
    (hr : e.sources.get? id = some r) (ha : r.attached = true) (now : Int) {payload : Payload}
    (hf : decodeLogical payload = some f) (udx : Option (Nat × Nat)) :
    SourceTurn id f r e (fromSource now e id payload udx) := by
  obtain ⟨⟨leg, hleg⟩, -⟩ := h.attached id r hr ha
  have hfail : ∀ g, r.Refuses leg f g → SourceTurn id f r e (failLeg now e id g) :=
    fun g hg => turn_failLeg h hr ha hleg now hg
  obtain ⟨-, -, hvalid⟩ := decodeLogical_eq_some hf
  obtain ⟨sid, body⟩ := f
  unfold fromSource
  rw [hr]
  dsimp only
  rw [if_neg (by rw [ha]; decide), hf]
  dsimp only
  split
  · next hid =>
    change sid = circuitStreamId at hid
    subst hid
    exact turn_circuitControl h hsum hr ha now hvalid
  · split
    · exact hfail _ trivial
    · next hzero =>
      obtain rfl : sid = 0 := of_not_not hzero
      cases body with
      | openStream =>
        dsimp only
        split
        · exact hfail _ trivial
        · exact turn_sendSame h hsum hr ha rfl
      | spliceOpen u =>
        dsimp only
        split
        · exact hfail _ trivial
        · split
          · exact hfail _ trivial
          · exact turn_sendBare h hsum hr ha rfl rfl _ rfl rfl rfl rfl le_rfl
      | data | fin | reset | credit | demand | release | spliceReady =>
        exact turn_forward h hsum hr ha now hvalid

end Source

/-! ## Frames of the destination -/

section Destination

variable {e : Entry} {f : Frame} {r r' : Record}

theorem turn_arrives (hr : e.sources.get? f.streamId = some r) {credit : Nat}
    (hc : credit + f.cells = e.reverseReceiveCredit)
    (hs : r'.sendCredit ≤ r.sendCredit + f.creditOf f.streamId)
    (hv : r.receiveCredit ≤ r'.receiveCredit + f.dataOf f.streamId)
    (hle : r'.receiveCredit ≤ r.receiveCredit)
    (hw : r.sendCredit ≤ streamWindow → r'.sendCredit ≤ streamWindow) :
    Turn f.streamId r r' [] [f] [] [] e
      ({ e with reverseReceiveCredit := credit }.setRecord f.streamId r') where
  record := hr
  sources := rfl
  legs _ _ := rfl
  leg _ hl := hl
  links _ _ := rfl
  link := rfl
  own _ hf := absurd hf List.not_mem_nil
  next := rfl
  faults := (List.append_nil _).symm
  inFlight := rfl
  credit := hc
  send := hs
  recv := hv
  window hwin := ⟨hw hwin.1, hle.trans hwin.2⟩

theorem turn_hand {e₁ : Entry} (hid : f.streamId ≠ circuitStreamId)
    (ht : Turn f.streamId r r' [] [f] [] [] e e₁) (ho : e₁.Open) (ha : r'.attached = r.attached)
    (hleg : e₁.forwardPool.legs = e.forwardPool.legs) (now : Int) {g : Frame}
    (hg : g.cells = g.dataOf 0) (hh : Handed g r r') :
    DestinationTurn f e (sendLeg now e₁ f.streamId g) := by
  have hr' : e₁.sources.get? f.streamId = some r' := by
    rw [ht.sources]
    exact JsMap.get?_set_self _ _ _
  rcases sendLeg_turn ho hr' now g with ⟨hd, hgone⟩ | ⟨l, hl, -, ho', he⟩
  · exact .dropped hid ht ho hd fun h => hgone (ha.trans h)
  · rw [he]
    exact .handed hid (ht.back hl g) hg hh ho' hleg

theorem turn_refuse {e₁ : Entry} (hid : f.streamId ≠ circuitStreamId)
    (ht : Turn f.streamId r r' [] [f] [] [] e e₁) (ho : e₁.Open) (ha : r'.attached = r.attached)
    (now : Int) {g : EntryFault} (hg : e.Refuses f g) :
    DestinationTurn f e (failLeg now e₁ f.streamId g) := by
  have hr' : (e₁.fault g).sources.get? f.streamId = some r' := by
    show e₁.sources.get? f.streamId = some r'
    rw [ht.sources]
    exact JsMap.get?_set_self _ _ _
  have ht' : Turn f.streamId r r' [] [f] [] [g] e (e₁.fault g) :=
    ⟨ht.record, ht.sources, ht.legs, ht.leg, ht.links, ht.link, ht.own, ht.next,
      by show e₁.faults ++ [g] = _; rw [ht.faults, List.append_nil], ht.inFlight, ht.credit, ht.send,
      ht.recv, ht.window⟩
  exact .refused hid ht' hg (ho.fault g) (drifts_closeLeg (ho.fault g) now f.streamId) fun h =>
    gone_closeLeg (ho.fault g) hr' (ha.trans h) now

theorem turn_handBare {id : Nat} {body body' : Body} (h : e.Open)
    (hsum : e.reverseSum = circuitWindow) (hr : e.sources.get? id = some r)
    (hid : id ≠ circuitStreamId) (now : Int) (hb : body.bare = true) (hb' : body'.bare = true)
    (r' : Record) (ha : r'.attached = r.attached) (hs : r'.sendCredit = r.sendCredit)
    (hv : r'.receiveCredit = r.receiveCredit) (hi : r'.reverseInFlight = r.reverseInFlight) :
    DestinationTurn ⟨id, body⟩ e (sendLeg now (e.setRecord id r') id ⟨0, body'⟩) := by
  obtain ⟨hcells, hdata, hcredit, -, -⟩ := Body.weights_of_bare hb id
  obtain ⟨-, hdata', hcredit', -, -⟩ := Body.weights_of_bare hb' 0
  have ht : Turn id r r' [] [⟨id, body⟩] [] [] e (e.setRecord id r') := by
    refine turn_arrives (f := ⟨id, body⟩) hr ?_ (hs.le.trans (Nat.le_add_right _ _))
      (hv.ge.trans (Nat.le_add_right _ _)) hv.le fun hle => hs.le.trans hle
    rw [hcells, Nat.add_zero]
  have hack : (⟨0, body'⟩ : Frame).ackOf = 0 :=
    if_neg fun he => absurd (congrArg Frame.streamId he) (show 0 ≠ circuitStreamId by decide)
  refine turn_hand (f := ⟨id, body⟩) hid ht (h.keepRecord hsum hr r' ha hi).1 ha rfl now rfl
    ⟨hack, hcredit' _, ?_, ?_, ?_⟩
  · rw [hcredit', hs]
    rfl
  · rw [hdata', hv]
    rfl
  · rw [hdata', hi]
    rfl

/-- DATA for a registered source: the record holds its cell, also where it is refused. -/
theorem turn_deliverData {id : Nat} {chunk : List UInt8} (h : e.Open)
    (hsum : e.reverseSum = circuitWindow) (hr : e.sources.get? id = some r)
    (hid : id ≠ circuitStreamId) (now : Int) (hne : e.reverseReceiveCredit ≠ 0) :
    DestinationTurn ⟨id, .data chunk⟩ e
      (deliver now { e with reverseReceiveCredit := e.reverseReceiveCredit - 1 } id r
        (.data chunk)) := by
  have hopen : ∀ r' : Record, r'.attached = r.attached →
      r'.reverseInFlight = r.reverseInFlight + 1 →
      ({ e with reverseReceiveCredit := e.reverseReceiveCredit - 1 }.setRecord id r').Open := by
    intro r' ha hi
    have ho : Open { e with reverseReceiveCredit := e.reverseReceiveCredit - 1 } := by
      refine ⟨h.live, h.pool, h.poolLive, h.link, ?_, h.legs, h.attached, h.linked, h.gone, h.ids,
        h.even⟩
      simp only [reverseSum] at hsum ⊢
      omega
    have hset := reverseSum_setRecord
      (e := { e with reverseReceiveCredit := e.reverseReceiveCredit - 1 }) hr r'
    refine ho.setRecord hr ha ?_
    simp only [reverseSum] at hset hsum ⊢
    omega
  have hdata : (⟨id, .data chunk⟩ : Frame).dataOf id = 1 := if_pos rfl
  have harrives : ∀ r' : Record, r'.sendCredit = r.sendCredit →
      r.receiveCredit ≤ r'.receiveCredit + 1 → r'.receiveCredit ≤ r.receiveCredit →
      Turn id r r' [] [⟨id, .data chunk⟩] [] [] e
        ({ e with reverseReceiveCredit := e.reverseReceiveCredit - 1 }.setRecord id r') :=
    fun r' hs hv hle => turn_arrives (f := ⟨id, .data chunk⟩) hr
      (show e.reverseReceiveCredit - 1 + 1 = _ by omega) hs.le (by rw [hdata]; exact hv) hle
      fun h => hs.le.trans h
  have hfail : ∀ g, e.Refuses ⟨id, .data chunk⟩ g → DestinationTurn ⟨id, .data chunk⟩ e
      (failLeg now ({ e with reverseReceiveCredit := e.reverseReceiveCredit - 1 }.setRecord id
        { r with reverseInFlight := r.reverseInFlight + 1 }) id g) := fun g hg =>
    turn_refuse (f := ⟨id, .data chunk⟩) hid
      (harrives { r with reverseInFlight := r.reverseInFlight + 1 } rfl (Nat.le_succ _) le_rfl)
      (hopen { r with reverseInFlight := r.reverseInFlight + 1 } rfl rfl) rfl now hg
  have hhand : ∀ r' : Record, r'.attached = r.attached →
      r'.reverseInFlight = r.reverseInFlight + 1 → r'.sendCredit = r.sendCredit →
      r'.receiveCredit + 1 = r.receiveCredit → DestinationTurn ⟨id, .data chunk⟩ e (sendLeg now
        ({ e with reverseReceiveCredit := e.reverseReceiveCredit - 1 }.setRecord id r') id
        ⟨0, .data chunk⟩) := fun r' ha hi hs hv =>
    turn_hand (f := ⟨id, .data chunk⟩) hid (harrives r' hs hv.ge (by omega)) (hopen r' ha hi) ha rfl now
      rfl ⟨rfl, rfl, hs, hv, hi⟩
  unfold deliver
  dsimp only
  split
  · exact hfail _ trivial
  · split
    · next hzero =>
      refine hfail _ ⟨r, hr, ?_⟩
      rw [hdata]
      omega
    · next hcredit =>
      split
      · exact hfail _ trivial
      · have hr₁ : ∀ r₁ r₂ : Record, (setRecord
            { e with reverseReceiveCredit := e.reverseReceiveCredit - 1 } id r₁).setRecord id r₂ =
            { e with reverseReceiveCredit := e.reverseReceiveCredit - 1 }.setRecord id r₂ :=
          fun r₁ r₂ => by simp only [setRecord, JsMap.set_set]
        rw [hr₁]
        exact hhand _ rfl rfl rfl (show r.receiveCredit - 1 + 1 = _ by omega)

theorem turn_deliver {id : Nat} {body : Body} (h : e.Open) (hsum : e.reverseSum = circuitWindow)
    (hr : e.sources.get? id = some r) (hid : id ≠ circuitStreamId) (now : Int)
    (hvalid : validLogicalPayload id body = true) (hdata : body.isData = false) :
    DestinationTurn ⟨id, body⟩ e (deliver now e id r body) := by
  have hcells : (⟨id, body⟩ : Frame).cells = 0 := by
    unfold Frame.cells
    rw [hdata]
    rfl
  have hfail : ∀ g, e.Refuses ⟨id, body⟩ g →
      DestinationTurn ⟨id, body⟩ e (failCharged now e id false g) := by
    intro g hg
    have ht : Turn id r r [] [⟨id, body⟩] [] [] e (e.setRecord id r) :=
      turn_arrives (f := ⟨id, body⟩) hr (by rw [hcells, Nat.add_zero]) (Nat.le_add_right _ _)
        (Nat.le_add_right _ _) le_rfl fun h => h
    rw [setRecord, JsMap.set_of_get? hr] at ht
    exact turn_refuse (f := ⟨id, body⟩) hid ht h rfl now hg
  unfold deliver
  cases body with
  | data chunk => cases hdata
  | openStream | spliceOpen => exact hfail _ trivial
  | spliceReady u =>
    dsimp only
    split
    · exact hfail _ trivial
    · split
      · exact hfail _ trivial
      · exact turn_handBare h hsum hr hid now rfl rfl _ rfl rfl rfl rfl
  | credit amount =>
    dsimp only
    split
    · next hover =>
      refine hfail _ ⟨r, hr, ?_⟩
      rwa [Frame.creditOf_self]
    · next hle =>
      have ht : Turn id r { r with sendCredit := r.sendCredit + amount } [] [⟨id, .credit amount⟩] []
          [] e (e.setRecord id { r with sendCredit := r.sendCredit + amount }) :=
        turn_arrives (f := ⟨id, .credit amount⟩) hr rfl (by rw [Frame.creditOf_self])
          (Nat.le_add_right _ _) le_rfl fun _ => Nat.le_of_not_lt hle
      have ho := (h.keepRecord hsum hr { r with sendCredit := r.sendCredit + amount } rfl rfl).1
      refine turn_hand (f := ⟨id, .credit amount⟩) hid ht ho rfl rfl now rfl ⟨rfl, rfl, ?_, rfl, rfl⟩
      rw [Frame.creditOf_self]
  | fin => exact turn_handBare h hsum hr hid now rfl rfl _ rfl rfl rfl rfl
  | reset => exact turn_handBare h hsum hr hid now rfl rfl _ rfl rfl rfl rfl
  | demand | release => simp [validLogicalPayload, hid] at hvalid

theorem turn_unclaimed (h : e.Open) (hsum : e.reverseSum = circuitWindow)
    (hn : e.sources.get? f.streamId = none) (hid : f.streamId ≠ circuitStreamId) (now : Int)
    {credit : Nat} (hc : credit + f.cells = e.reverseReceiveCredit) :
    DestinationTurn f e (receiveCharged now { e with reverseReceiveCredit := credit } f) := by
  have hsum' : ({ e with reverseReceiveCredit := credit } : Entry).reverseSum + f.cells =
      circuitWindow := by
    simp only [reverseSum] at hsum ⊢
    omega
  have ho : Open { e with reverseReceiveCredit := credit } :=
    ⟨h.live, h.pool, h.poolLive, h.link, by omega, h.legs, h.attached, h.linked, h.gone, h.ids,
      h.even⟩
  have hcells : f.body.isData = false → f.cells = 0 := fun hd => by
    unfold Frame.cells
    rw [hd]
    rfl
  have hstay : f.cells = 0 → Drifts f.cells { e with reverseReceiveCredit := credit }
      { e with reverseReceiveCredit := credit } := fun h0 => by
    rw [h0]
    exact .inr ⟨ho, .refl ho⟩
  unfold receiveCharged
  rw [show ({ e with reverseReceiveCredit := credit } : Entry).sources.get? f.streamId = none from hn]
  dsimp only
  split
  · split
    · next hd =>
      have hone : f.cells = 1 := if_pos hd
      refine .unclaimed hid hn hc ho ?_
      rw [hone] at hsum' ⊢
      exact drifts_returnReverse ho 1 hsum'.le false
    · next hd =>
      exact .unclaimed hid hn hc ho (hstay (hcells (Bool.eq_false_of_not_eq_true hd)))
  · split
    · next hb =>
      refine .unclaimed hid hn hc ho (hstay (hcells ?_))
      rcases hb with hb | hb
      · rw [hb]
        rfl
      · rw [hb]
        rfl
    · have hs := shut_destroy (ho.fault .unexpected)
      exact .ended (g := .unexpected) trivial ⟨hs.closed, hs.poolClosed, hs.available, hs.sources,
        hs.links, hs.link, hs.faults, hs.spliced, hs.nextStreamId⟩

theorem receive_undecoded (h : e.Open) (now : Int) {payload : Payload}
    (hf : decodeLogical payload = none) : receive now e payload = (e.fault .decode).destroy := by
  unfold receive
  rw [if_neg (by rw [h.live]; decide), hf]

/-- **What an entry makes of a frame of the destination.** -/
theorem turn_receive (h : e.Open) (hsum : e.reverseSum = circuitWindow) (now : Int)
    {payload : Payload} (hf : decodeLogical payload = some f) :
    DestinationTurn f e (receive now e payload) := by
  obtain ⟨-, -, hvalid⟩ := decodeLogical_eq_some hf
  have hfail : ∀ g, e.Refuses f g → DestinationTurn f e (e.fault g).destroy := fun g hg =>
    .ended hg (shut_destroy (h.fault g))
  unfold receive
  rw [if_neg (by rw [h.live]; decide), hf]
  obtain ⟨id, body⟩ := f
  dsimp only
  split
  · next hid =>
    change id = circuitStreamId at hid
    subst hid
    cases body with
    | credit amount =>
      dsimp only
      split
      · next g hg =>
        refine hfail _ ?_
        show e.forwardPool.inFlight < Frame.creditOf _ _
        rw [Frame.creditOf_self]
        by_contra hle
        have hpos : 0 < amount := by
          simp only [validLogicalPayload, Bool.and_eq_true, bne_iff_ne] at hvalid
          omega
        obtain ⟨q, hq⟩ := Pool.returned_ok h.poolLive hpos (Nat.le_of_not_lt hle)
        rw [hq] at hg
        cases hg
      · next p hp => exact .returned rfl hp (drifts_distribute (h.returned hp) now)
    | data | openStream | fin | reset | demand | release | spliceOpen | spliceReady =>
      exact hfail _ trivial
  · next hid =>
    cases hr : e.sources.get? id with
    | none =>
      split
      · next hd =>
        have hone : (⟨id, body⟩ : Frame).cells = 1 := if_pos hd
        split
        · next hzero =>
          refine hfail _ ?_
          show e.reverseReceiveCredit < _
          omega
        · next hpos => exact turn_unclaimed h hsum hr hid now (by omega)
      · next hd =>
        have hnone : (⟨id, body⟩ : Frame).cells = 0 := if_neg hd
        have ht : e.reverseReceiveCredit + (⟨id, body⟩ : Frame).cells = e.reverseReceiveCredit := by
          omega
        exact turn_unclaimed h hsum hr hid now ht
    | some r =>
      split
      · next hd =>
        cases body with
        | data chunk =>
          split
          · next hzero =>
            refine hfail _ ?_
            show e.reverseReceiveCredit < 1
            omega
          · next hpos =>
            unfold receiveCharged
            rw [show ({ e with reverseReceiveCredit := e.reverseReceiveCredit - 1 } :
              Entry).sources.get? id = some r from hr]
            exact turn_deliverData h hsum hr hid now hpos
        | openStream | fin | reset | credit | demand | release | spliceOpen | spliceReady => cases hd
      · next hd =>
        unfold receiveCharged
        rw [show e.sources.get? (Frame.mk id body).streamId = some r from hr]
        exact turn_deliver h hsum hr hid now hvalid (Bool.eq_false_of_not_eq_true hd)

end Destination

end Entry

end HyperDht.Private
