import HyperDht.Private.EntryFlow

/-!
# Runs of an entry

Every event an entry can see (`EntryEvent`): frames of the sources and of the
destination, activations, closing legs, timers, and the progress of its links.
A run keeps the entry well formed (`Open`) with its reverse credit adding up to
the circuit window, or closes it.
-/

namespace HyperDht.Private

inductive EntryEvent where
  | activate (readable : Bool)
  | fromSource (now : Int) (id : Nat) (payload : Payload) (udx : Option (Nat × Nat))
  | receive (now : Int) (payload : Payload)
  | closeLeg (now : Int) (id : Nat)
  | returnTimer
  | idleTimer (now : Int) (id : Nat) (busy : Bool)
  | touch (now : Int) (id : Nat)
  | link (ev : LinkEvent)
  | legLink (id : Nat) (ev : LinkEvent)
  | spliceClosed (id : Nat)
  | retire
  | destroy
  deriving DecidableEq, Repr

namespace Entry

/-- The timer of `scheduleCreditReturn`. -/
def returnFired (e : Entry) : Entry :=
  if e.returnTimer then { e with returnTimer := false }.returnReverse 0 true else e

/-- The pool's idle timer of a leg; `onIdle` destroys the leg's link. -/
def idleFired (now : Int) (e : Entry) (id : Nat) (busy : Bool) : Entry :=
  match e.forwardPool.idleFired id busy now with
  | (pool, false) => { e with forwardPool := pool }
  | (pool, true) => closeLeg now { e with forwardPool := pool } id

def spliceClosed (e : Entry) (id : Nat) : Entry :=
  match e.sources.get? id with
  | none => e
  | some record => e.setRecord id { record with splice := none }

def legProgress (e : Entry) (id : Nat) (ev : LinkEvent) : Entry :=
  match e.links.get? id with
  | none => e
  | some l => { e with links := e.links.set id (l.progress ev) }

def step (e : Entry) : EntryEvent → Entry
  | .activate readable => (e.activate readable).1
  | .fromSource now id payload udx => fromSource now e id payload udx
  | .receive now payload => receive now e payload
  | .closeLeg now id => closeLeg now e id
  | .returnTimer => e.returnFired
  | .idleTimer now id busy => idleFired now e id busy
  | .touch now id => { e with forwardPool := e.forwardPool.touch id now }
  | .link ev => { e with link := e.link.progress ev }
  | .legLink id ev => e.legProgress id ev
  | .spliceClosed id => e.spliceClosed id
  | .retire => { e with retired := true }
  | .destroy => e.destroy

def run (e : Entry) (evs : List EntryEvent) : Entry := evs.foldl step e

/-- A closed entry: no source is left, and every link is destroyed. -/
structure Gone (e : Entry) : Prop where
  closed : e.closed = true
  poolClosed : e.forwardPool.closed = true
  sources : e.sources = .empty
  links : ∀ id l, e.links.get? id = some l → l.destroyed = true
  link : e.link.destroyed = true

theorem Shut.gone {e e' : Entry} (h : Shut e e') : e'.Gone where
  closed := h.closed
  poolClosed := h.poolClosed
  sources := h.sources
  links id l hl := by
    rw [h.links id] at hl
    obtain ⟨l₀, -, rfl⟩ := Option.map_eq_some_iff.mp hl
    rfl
  link := by rw [h.link]; rfl

/-- Closed, or open with all reverse credit accounted for. -/
def Kept (e : Entry) : Prop :=
  e.Gone ∨ e.Open ∧ e.reverseSum = circuitWindow ∧ .reverseOverflow ∉ e.faults

theorem Kept.drifts {e e' : Entry} (hsum : e.reverseSum = circuitWindow)
    (hf : .reverseOverflow ∉ e.faults) (hd : Drifts 0 e e') : e'.Kept := by
  rcases hd with hs | ⟨ho, hd⟩
  · exact .inl hs.gone
  · refine .inr ⟨ho, ?_, by rw [hd.faults]; exact hf⟩
    have := hd.reverse
    omega

/-! ## Changes of a record, of the pool and of the faults -/

theorem reverseSum_setRecord {e : Entry} {id : Nat} {r : Record} (hr : e.sources.get? id = some r)
    (r' : Record) : (e.setRecord id r').reverseSum + r.reverseInFlight =
      e.reverseSum + r'.reverseInFlight := by
  have := JsMap.total_set hr r' fun _ r => r.reverseInFlight
  simp only [reverseSum, setRecord] at this ⊢
  omega

theorem Open.setRecord {e : Entry} (h : e.Open) {id : Nat} {r r' : Record}
    (hr : e.sources.get? id = some r) (ha : r'.attached = r.attached)
    (hsum : (e.setRecord id r').reverseSum ≤ circuitWindow) : (e.setRecord id r').Open := by
  have hget : ∀ id' r'', (e.sources.set id r').get? id' = some r'' →
      ∃ r₀, e.sources.get? id' = some r₀ ∧ r''.attached = r₀.attached := by
    intro id' r'' h'
    rw [JsMap.get?_set] at h'
    split at h'
    · next heq =>
      cases h'
      exact ⟨r, heq ▸ hr, ha⟩
    · exact ⟨r'', h', rfl⟩
  refine ⟨h.live, h.pool, h.poolLive, h.link, hsum, ?_, ?_, ?_, ?_, h.ids, h.even⟩
  · intro id' leg hleg
    obtain ⟨r₀, hr₀, ha₀⟩ := h.legs id' leg hleg
    show ∃ r'', (e.sources.set id r').get? id' = some r'' ∧ r''.attached = true
    by_cases heq : id' = id
    · subst heq
      obtain rfl := Option.some.inj (hr.symm.trans hr₀)
      exact ⟨r', JsMap.get?_set_self _ _ _, ha.trans ha₀⟩
    · exact ⟨r₀, (JsMap.get?_set_ne _ _ heq).trans hr₀, ha₀⟩
  · intro id' r'' h' ha'
    obtain ⟨r₀, hr₀, ha₀⟩ := hget id' r'' h'
    exact h.attached id' r₀ hr₀ (ha₀ ▸ ha')
  · intro id' r'' h'
    obtain ⟨r₀, hr₀, -⟩ := hget id' r'' h'
    exact h.linked id' r₀ hr₀
  · intro id' l hl hn
    apply h.gone id' l hl
    cases h₀ : e.sources.get? id' with
    | none => rfl
    | some r₀ =>
      change (e.sources.set id r').get? id' = none at hn
      rw [JsMap.get?_set] at hn
      split at hn
      · cases hn
      · exact absurd (hn.symm.trans h₀) (by simp)

theorem Open.setPool {e : Entry} (h : e.Open) {p : Pool Nat} (hp : p.Conserved)
    (hl : p.closed = false) (hlegs : ∀ id, (∃ leg, p.legs.get? id = some leg) ↔
      ∃ leg, e.forwardPool.legs.get? id = some leg) : Open { e with forwardPool := p } := by
  refine ⟨h.live, hp, hl, h.link, h.reverse, ?_, ?_, h.linked, h.gone, h.ids, h.even⟩
  · intro id leg hleg
    obtain ⟨leg', hleg'⟩ := (hlegs id).mp ⟨leg, hleg⟩
    exact h.legs id leg' hleg'
  · intro id r hr ha
    obtain ⟨hleg, hlink⟩ := h.attached id r hr ha
    exact ⟨(hlegs id).mpr hleg, hlink⟩

theorem Open.fault {e : Entry} (h : e.Open) (f : EntryFault) : (e.fault f).Open :=
  ⟨h.live, h.pool, h.poolLive, h.link, h.reverse, h.legs, h.attached, h.linked, h.gone, h.ids,
    h.even⟩

/-! ## Frames of a source -/

theorem kept_failLeg {e : Entry} (h : e.Open) (hsum : e.reverseSum = circuitWindow)
    (hf : .reverseOverflow ∉ e.faults) (now : Int) (id : Nat) {f : EntryFault}
    (hne : f ≠ .reverseOverflow) : (failLeg now e id f).Kept := by
  have hf' : .reverseOverflow ∉ (e.fault f).faults := by
    simpa [Entry.fault, Ne.symm hne] using hf
  exact Kept.drifts (show (e.fault f).reverseSum = circuitWindow from hsum) hf'
    (drifts_closeLeg (h.fault f) now id)

theorem kept_sendOut {e : Entry} (h : e.Open) (hsum : e.reverseSum = circuitWindow)
    (hf : .reverseOverflow ∉ e.faults) (f : Frame) : (e.sendOut f).Kept := by
  rcases sendOut_cases h f with hs | ⟨ho, he⟩
  · exact .inl hs.gone
  · rw [he]
    exact .inr ⟨ho, hsum, hf⟩

theorem kept_distribute {e : Entry} (h : e.Open) (hsum : e.reverseSum = circuitWindow)
    (hf : .reverseOverflow ∉ e.faults) (now : Int) : (e.distribute now).Kept :=
  Kept.drifts hsum hf (drifts_distribute h now)

theorem kept_sendLeg {e : Entry} (h : e.Open) (hsum : e.reverseSum = circuitWindow)
    (hf : .reverseOverflow ∉ e.faults) (now : Int) (id : Nat) (f : Frame) :
    (sendLeg now e id f).Kept := by
  rcases sendLeg_cases h now id f with hd | ⟨l, -, -, ho, he⟩
  · exact Kept.drifts hsum hf hd
  · rw [he]
    exact .inr ⟨ho, hsum, hf⟩

/-- A change of a record that leaves its reverse credit alone. -/
theorem Open.keepRecord {e : Entry} (h : e.Open) (hsum : e.reverseSum = circuitWindow) {id : Nat}
    {r : Record} (hr : e.sources.get? id = some r) (r' : Record) (ha : r'.attached = r.attached)
    (hin : r'.reverseInFlight = r.reverseInFlight) :
    (e.setRecord id r').Open ∧ (e.setRecord id r').reverseSum = circuitWindow := by
  have := reverseSum_setRecord hr r'
  have hsum' : (e.setRecord id r').reverseSum = circuitWindow := by omega
  exact ⟨h.setRecord hr ha hsum'.le, hsum'⟩

theorem Open.demanded {e : Entry} (h : e.Open) {id : Nat} {amount : Int} {limited b : Bool}
    {now : Int} {p : Pool Nat} (hp : e.forwardPool.demand id amount limited now = .ok (p, b)) :
    Open { e with forwardPool := p } := by
  have hc := (Pool.conserved_demand h.pool hp).1
  obtain ⟨leg, hleg, -, ⟨-, -, rfl, -⟩ | ⟨-, -, -, -, rfl, -⟩⟩ := Pool.demand_cases hp
  · refine h.setPool hc ?_ fun id' => ?_
    · rw [Pool.cancel_of_some hleg]
      exact h.poolLive
    · rw [Pool.cancel_of_some hleg]
      exact JsMap.exists_get?_set hleg _ id'
  · exact h.setPool hc h.poolLive fun id' => JsMap.exists_get?_set hleg _ id'

theorem Open.released {e : Entry} (h : e.Open) {id : Nat} {amount : Int} {p : Pool Nat}
    (hp : e.forwardPool.release id amount = .ok p) : Open { e with forwardPool := p } := by
  have hc := (Pool.conserved_release h.pool hp).1
  obtain ⟨leg, hleg, -, -, -, rfl⟩ := Pool.release_cases hp
  exact h.setPool hc h.poolLive fun id' => JsMap.exists_get?_set hleg _ id'

theorem Open.sent {e : Entry} (h : e.Open) {id : Nat} {amount now : Int} {p : Pool Nat}
    (hp : e.forwardPool.sent id amount now = .ok p) : Open { e with forwardPool := p } := by
  have hc := (Pool.conserved_sent h.pool hp).1
  obtain ⟨leg, hleg, -, -, -, rfl⟩ := Pool.sent_cases hp
  exact h.setPool hc h.poolLive fun id' => JsMap.exists_get?_set hleg _ id'

theorem Open.returned {e : Entry} (h : e.Open) {amount : Int} {p : Pool Nat}
    (hp : e.forwardPool.returned amount = .ok p) : Open { e with forwardPool := p } := by
  have hc := (Pool.conserved_returned h.pool hp).1
  obtain ⟨-, -, -, rfl⟩ := Pool.returned_cases hp
  exact h.setPool hc h.poolLive fun _ => Iff.rfl

theorem kept_circuitCredit {e : Entry} (h : e.Open) (hsum : e.reverseSum = circuitWindow)
    (hf : .reverseOverflow ∉ e.faults) {id : Nat} {r : Record} (hr : e.sources.get? id = some r)
    {amount : Nat} (hle : amount ≤ r.reverseInFlight) (flush : Bool) :
    ((e.setRecord id { r with reverseInFlight := r.reverseInFlight - amount }).returnReverse amount
      flush).Kept := by
  have hset := reverseSum_setRecord hr { r with reverseInFlight := r.reverseInFlight - amount }
  dsimp only at hset
  have ho : (e.setRecord id { r with reverseInFlight := r.reverseInFlight - amount }).Open :=
    h.setRecord hr rfl (by omega)
  rcases drifts_returnReverse ho amount (by omega) flush with hs | ⟨ho', hd⟩
  · exact .inl hs.gone
  · refine .inr ⟨ho', ?_, by rw [hd.faults]; exact hf⟩
    have := hd.reverse
    omega

theorem kept_circuitControl {e : Entry} (h : e.Open) (hsum : e.reverseSum = circuitWindow)
    (hf : .reverseOverflow ∉ e.faults) (now : Int) {id : Nat} {r : Record}
    (hr : e.sources.get? id = some r) (body : Body) : (circuitControl now e id r body).Kept := by
  have hfail := fun (f : EntryFault) (hne : f ≠ .reverseOverflow) =>
    kept_failLeg h hsum hf now id hne
  unfold circuitControl
  split
  · split
    · exact hfail _ (by decide)
    · next hle => exact kept_circuitCredit h hsum hf hr (Nat.le_of_not_lt hle) false
  · split
    · exact hfail _ (by decide)
    · split
      · exact hfail _ (by simp)
      · next p hp => exact kept_distribute (h.demanded hp) hsum hf now
      · next p hp => exact kept_sendLeg (h.demanded hp) hsum hf now id _
  · split
    · exact hfail _ (by simp)
    · next p hp => exact kept_distribute (h.released hp) hsum hf now
  · exact hfail _ (by decide)

theorem kept_forward {e : Entry} (h : e.Open) (hsum : e.reverseSum = circuitWindow)
    (hf : .reverseOverflow ∉ e.faults) (now : Int) {id : Nat} {r : Record}
    (hr : e.sources.get? id = some r) (body : Body) : (forward now e id r body).Kept := by
  have hfail := fun (f : EntryFault) (hne : f ≠ .reverseOverflow) =>
    kept_failLeg h hsum hf now id hne
  have hset : ∀ (r' : Record) (f : Frame), r'.attached = r.attached →
      r'.reverseInFlight = r.reverseInFlight → ((e.setRecord id r').sendOut f).Kept := by
    intro r' f ha hin
    obtain ⟨ho, hs⟩ := h.keepRecord hsum hr r' ha hin
    exact kept_sendOut ho hs hf f
  unfold forward
  split
  · split
    · exact hfail _ (by decide)
    · split
      · exact hfail _ (by decide)
      · split
        · exact hfail _ (by decide)
        · split
          · exact hfail _ (by simp)
          · next p hp =>
            obtain ⟨ho, hs⟩ := (h.sent hp).keepRecord hsum hr { r with
              sentBytes := r.sentBytes + _
              sentFrames := r.sentFrames + 1
              sendCredit := r.sendCredit - 1 } rfl rfl
            exact kept_sendOut ho hs hf _
  · split
    · exact hfail _ (by decide)
    · exact hset _ _ rfl rfl
  · exact hset _ _ rfl rfl
  · exact hset _ _ rfl rfl
  · exact kept_sendOut h hsum hf _

theorem kept_fromSource {e : Entry} (h : e.Open) (hsum : e.reverseSum = circuitWindow)
    (hf : .reverseOverflow ∉ e.faults) (now : Int) (id : Nat) (payload : Payload)
    (udx : Option (Nat × Nat)) : (fromSource now e id payload udx).Kept := by
  have hfail := fun (f : EntryFault) (hne : f ≠ .reverseOverflow) =>
    kept_failLeg h hsum hf now id hne
  unfold fromSource
  split
  · exact .inr ⟨h, hsum, hf⟩
  · next r hr =>
    split
    · exact .inr ⟨h, hsum, hf⟩
    · split
      · exact hfail _ (by decide)
      · split
        · exact kept_circuitControl h hsum hf now hr _
        · split
          · exact hfail _ (by decide)
          · split
            · split
              · exact hfail _ (by decide)
              · exact kept_sendOut h hsum hf _
            · split
              · exact hfail _ (by decide)
              · split
                · exact hfail _ (by decide)
                · next up down =>
                  obtain ⟨ho, hs⟩ := h.keepRecord hsum hr
                    { r with splice := some ⟨up, down, false⟩ } rfl rfl
                  exact kept_sendOut ho hs hf _
            · exact kept_forward h hsum hf now hr _

/-! ## Frames of the destination -/

/-- A frame for a registered source. A DATA frame is charged: one cell less than
the window is accounted for until the record holds it. -/
theorem kept_deliver {e : Entry} (h : e.Open) (hf : .reverseOverflow ∉ e.faults) (now : Int)
    {id : Nat} {r : Record} (hr : e.sources.get? id = some r) (body : Body)
    (hsum : e.reverseSum + (if body.isData then 1 else 0) = circuitWindow) :
    (deliver now e id r body).Kept := by
  cases body with
  | data chunk =>
    have hsum₁ : e.reverseSum + 1 = circuitWindow := hsum
    have hset := reverseSum_setRecord hr { r with reverseInFlight := r.reverseInFlight + 1 }
    dsimp only at hset
    have hs₁ : (e.setRecord id { r with reverseInFlight := r.reverseInFlight + 1 }).reverseSum =
        circuitWindow := by omega
    have ho₁ : (e.setRecord id { r with reverseInFlight := r.reverseInFlight + 1 }).Open :=
      h.setRecord hr rfl hs₁.le
    have hfail := fun (f : EntryFault) (hne : f ≠ .reverseOverflow) =>
      kept_failLeg ho₁ hs₁ hf now id hne
    unfold deliver
    dsimp only
    split
    · exact hfail _ (by decide)
    · split
      · exact hfail _ (by decide)
      · split
        · exact hfail _ (by decide)
        · obtain ⟨ho₂, hs₂⟩ := ho₁.keepRecord hs₁ (JsMap.get?_set_self _ _ _)
            { r with
              reverseInFlight := r.reverseInFlight + 1
              receivedBytes := r.receivedBytes + chunk.length
              receivedFrames := r.receivedFrames + 1
              receiveCredit := r.receiveCredit - 1 } rfl rfl
          exact kept_sendLeg ho₂ hs₂ hf now id _
  | openStream => exact kept_failLeg h hsum hf now id (by decide)
  | spliceOpen _ => exact kept_failLeg h hsum hf now id (by decide)
  | spliceReady u =>
    unfold deliver
    dsimp only
    split
    · exact kept_failLeg h hsum hf now id (by decide)
    · next splice _ =>
      split
      · exact kept_failLeg h hsum hf now id (by decide)
      · obtain ⟨ho, hs⟩ := h.keepRecord hsum hr
          { r with splice := some { splice with active := true } } rfl rfl
        exact kept_sendLeg ho hs hf now id _
  | credit amount =>
    unfold deliver
    dsimp only
    split
    · exact kept_failLeg h hsum hf now id (by decide)
    · obtain ⟨ho, hs⟩ := h.keepRecord hsum hr
        { r with sendCredit := r.sendCredit + amount } rfl rfl
      exact kept_sendLeg ho hs hf now id _
  | fin =>
    obtain ⟨ho, hs⟩ := h.keepRecord hsum hr { r with destinationEnded := true } rfl rfl
    exact kept_sendLeg ho hs hf now id _
  | reset =>
    obtain ⟨ho, hs⟩ := h.keepRecord hsum hr
      { r with resetReceived := true, splice := none } rfl rfl
    exact kept_sendLeg ho hs hf now id _
  | demand _ => exact kept_sendLeg h hsum hf now id _
  | release _ => exact kept_sendLeg h hsum hf now id _

theorem kept_destroy {e : Entry} (h : e.Open) : e.destroy.Kept := .inl (shut_destroy h).gone

theorem kept_receiveCharged {e : Entry} (h : e.Open) (hf : .reverseOverflow ∉ e.faults) (now : Int)
    (f : Frame) (hsum : e.reverseSum + (if f.body.isData then 1 else 0) = circuitWindow) :
    (receiveCharged now e f).Kept := by
  unfold receiveCharged
  split
  · next r hr => exact kept_deliver h hf now hr f.body hsum
  · split
    · split
      · next hdata =>
        rw [if_pos hdata] at hsum
        rcases drifts_returnReverse h 1 hsum.le false with hs | ⟨ho, hd⟩
        · exact .inl hs.gone
        · refine .inr ⟨ho, ?_, by rw [hd.faults]; exact hf⟩
          have := hd.reverse
          omega
      · next hdata =>
        rw [if_neg hdata] at hsum
        exact .inr ⟨h, hsum, hf⟩
    · split
      · next hbody =>
        have hdata : f.body.isData = false := by
          rcases hbody with hb | hb
          · rw [hb]; rfl
          · rw [hb]; rfl
        rw [hdata] at hsum
        exact .inr ⟨h, hsum, hf⟩
      · exact kept_destroy (h.fault _)

theorem kept_receive {e : Entry} (h : e.Open) (hsum : e.reverseSum = circuitWindow)
    (hf : .reverseOverflow ∉ e.faults) (now : Int) (payload : Payload) :
    (receive now e payload).Kept := by
  unfold receive
  rw [if_neg (by rw [h.live]; decide)]
  split
  · exact kept_destroy (h.fault _)
  · next f _ =>
    split
    · split
      · split
        · exact kept_destroy (h.fault _)
        · next p hp => exact kept_distribute (h.returned hp) hsum hf now
      · exact kept_destroy (h.fault _)
    · split
      · next hdata =>
        split
        · exact kept_destroy (h.fault _)
        · next hpos =>
          have hcharge : ({ e with reverseReceiveCredit := e.reverseReceiveCredit - 1 } :
              Entry).reverseSum + 1 = circuitWindow := by
            simp only [reverseSum] at hsum ⊢
            omega
          have ho : Open { e with reverseReceiveCredit := e.reverseReceiveCredit - 1 } :=
            ⟨h.live, h.pool, h.poolLive, h.link, by omega, h.legs, h.attached, h.linked, h.gone,
              h.ids, h.even⟩
          refine kept_receiveCharged ho hf now f ?_
          rw [if_pos hdata]
          exact hcharge
      · next hdata =>
        refine kept_receiveCharged h hf now f ?_
        rw [if_neg hdata]
        exact hsum

/-! ## Activation -/

/-- A new stream id is on no link, in no record and in no leg. -/
theorem Open.fresh {e : Entry} (h : e.Open) : e.links.get? e.nextStreamId = none ∧
    e.sources.get? e.nextStreamId = none ∧ e.forwardPool.legs.get? e.nextStreamId = none := by
  have hl : e.links.get? e.nextStreamId = none := by
    cases hl : e.links.get? e.nextStreamId with
    | none => rfl
    | some l => exact absurd (h.ids _ l hl).2.2 (Nat.lt_irrefl _)
  have hs : e.sources.get? e.nextStreamId = none := by
    cases hs : e.sources.get? e.nextStreamId with
    | none => rfl
    | some r =>
      obtain ⟨l, hl'⟩ := h.linked _ r hs
      exact absurd (hl'.symm.trans hl) (by simp)
  refine ⟨hl, hs, ?_⟩
  cases hp : e.forwardPool.legs.get? e.nextStreamId with
  | none => rfl
  | some leg =>
    obtain ⟨r, hr, -⟩ := h.legs _ leg hp
    exact absurd (hr.symm.trans hs) (by simp)

/-- A record without handlers on a new link. -/
theorem Open.register {e : Entry} (h : e.Open) :
    e.register.Open ∧ e.register.reverseSum = e.reverseSum := by
  obtain ⟨hl, hs, hp⟩ := h.fresh
  have hsum : e.register.reverseSum = e.reverseSum := by
    have := JsMap.total_set_new hs Record.new fun _ r => r.reverseInFlight
    simp only [reverseSum, Entry.register, this]
    simp [Record.new]
  have hlink : ∀ id l, (e.links.set e.nextStreamId (.new false)).get? id = some l →
      id = e.nextStreamId ∨ e.links.get? id = some l := by
    intro id l h'
    rw [JsMap.get?_set] at h'
    split at h'
    · next heq => exact .inl heq
    · exact .inr h'
  have hrec : ∀ id r, (e.sources.set e.nextStreamId .new).get? id = some r →
      id = e.nextStreamId ∧ r = .new ∨ id ≠ e.nextStreamId ∧ e.sources.get? id = some r := by
    intro id r h'
    rw [JsMap.get?_set] at h'
    split at h'
    · next heq =>
      cases h'
      exact .inl ⟨heq, rfl⟩
    · next hne => exact .inr ⟨hne, h'⟩
  refine ⟨⟨h.live, h.pool, h.poolLive, h.link, by rw [hsum]; exact h.reverse, ?_, ?_, ?_, ?_, ?_,
    ?_⟩, hsum⟩
  · intro id leg hleg
    obtain ⟨r, hr, ha⟩ := h.legs id leg hleg
    have hne : id ≠ e.nextStreamId := by
      rintro rfl
      exact absurd (hr.symm.trans hs) (by simp)
    exact ⟨r, (JsMap.get?_set_ne _ _ hne).trans hr, ha⟩
  · intro id r hr ha
    rcases hrec id r hr with ⟨-, rfl⟩ | ⟨hne, hr⟩
    · cases ha
    · obtain ⟨hleg, l, hl', hd⟩ := h.attached id r hr ha
      exact ⟨hleg, l, (JsMap.get?_set_ne _ _ hne).trans hl', hd⟩
  · intro id r hr
    rcases hrec id r hr with ⟨rfl, -⟩ | ⟨hne, hr⟩
    · exact ⟨_, JsMap.get?_set_self _ _ _⟩
    · obtain ⟨l, hl'⟩ := h.linked id r hr
      exact ⟨l, (JsMap.get?_set_ne _ _ hne).trans hl'⟩
  · intro id l hl' hn
    rcases hlink id l hl' with rfl | hl'
    · exact absurd ((JsMap.get?_set_self _ _ _).symm.trans hn) (by simp)
    · have hne : id ≠ e.nextStreamId := by
        rintro rfl
        exact absurd (hl'.symm.trans hl) (by simp)
      exact h.gone id l hl' ((JsMap.get?_set_ne _ _ hne).symm.trans hn)
  · intro id l hl'
    have heven := h.even
    show 2 ≤ id ∧ id % 2 = 0 ∧ id < e.nextStreamId + 2
    rcases hlink id l hl' with rfl | hl'
    · omega
    · have := h.ids id l hl'
      omega
  · have := h.even
    show 2 ≤ e.nextStreamId + 2 ∧ (e.nextStreamId + 2) % 2 = 0
    omega

/-- The record of a new source with its handlers and its leg in the pool. -/
theorem Open.attach {e : Entry} (h : e.Open) {p : Pool Nat}
    (hp : e.forwardPool.add e.nextStreamId = .ok p) :
    Open ({ e.register with forwardPool := p }.setRecord e.nextStreamId
      { Record.new with attached := true }) ∧
    ({ e.register with forwardPool := p }.setRecord e.nextStreamId
      { Record.new with attached := true }).reverseSum = e.reverseSum := by
  obtain ⟨ho, hsum⟩ := h.register
  obtain ⟨hl, hs, hleg⟩ := h.fresh
  have hc := (Pool.conserved_add h.pool hp).1
  obtain ⟨-, -, rfl⟩ := Pool.add_cases hp
  have hreg : e.register.sources.get? e.nextStreamId = some .new := JsMap.get?_set_self _ _ _
  have hsum' := reverseSum_setRecord hreg { Record.new with attached := true }
  have hset : ∀ id r, (e.register.sources.set e.nextStreamId
      { Record.new with attached := true }).get? id = some r →
      id = e.nextStreamId ∧ r.attached = true ∨
      id ≠ e.nextStreamId ∧ e.register.sources.get? id = some r := by
    intro id r h'
    rw [JsMap.get?_set] at h'
    split at h'
    · next heq =>
      cases h'
      exact .inl ⟨heq, rfl⟩
    · next hne => exact .inr ⟨hne, h'⟩
  have hsame : ({ e.register with forwardPool := { e.forwardPool with
      legs := e.forwardPool.legs.set e.nextStreamId
        ⟨e.forwardPool.nextSerial, 0, 0, false, 0, demandProgress, 0, false⟩
      nextSerial := e.forwardPool.nextSerial + 1 } }.setRecord e.nextStreamId
      { Record.new with attached := true }).reverseSum = e.reverseSum := by
    rw [← hsum]
    exact Nat.add_right_cancel hsum'
  refine ⟨⟨ho.live, hc, h.poolLive, ho.link, by rw [hsame]; exact h.reverse, ?_, ?_, ?_, ?_, ho.ids,
    ho.even⟩, hsame⟩
  · intro id leg h'
    change (e.forwardPool.legs.set e.nextStreamId _).get? id = some leg at h'
    show ∃ r, (e.register.sources.set e.nextStreamId _).get? id = some r ∧ r.attached = true
    rw [JsMap.get?_set] at h'
    split at h'
    · next heq =>
      rw [heq]
      exact ⟨_, JsMap.get?_set_self _ _ _, rfl⟩
    · next hne =>
      obtain ⟨r, hr, ha⟩ := ho.legs id leg h'
      exact ⟨r, (JsMap.get?_set_ne _ _ hne).trans hr, ha⟩
  · intro id r hr ha
    show (∃ leg, (e.forwardPool.legs.set e.nextStreamId _).get? id = some leg) ∧ _
    rcases hset id r hr with ⟨rfl, -⟩ | ⟨hne, hr⟩
    · exact ⟨⟨_, JsMap.get?_set_self _ _ _⟩, _, JsMap.get?_set_self _ _ _, rfl⟩
    · obtain ⟨⟨leg, hleg'⟩, hlink⟩ := ho.attached id r hr ha
      exact ⟨⟨leg, (JsMap.get?_set_ne _ _ hne).trans hleg'⟩, hlink⟩
  · intro id r hr
    rcases hset id r hr with ⟨rfl, -⟩ | ⟨-, hr⟩
    · exact ⟨_, JsMap.get?_set_self _ _ _⟩
    · exact ho.linked id r hr
  · intro id l hl' hn
    apply ho.gone id l hl'
    cases h' : e.register.sources.get? id with
    | none => rfl
    | some r =>
      obtain ⟨w, hw⟩ := (JsMap.exists_get?_set hreg { Record.new with attached := true } id).mpr ⟨r, h'⟩
      exact absurd (hw.symm.trans hn) (by simp)

theorem activate_cases {e : Entry} (hr : e.refuses = false) (readable : Bool) :
    ((∃ f, e.forwardPool.add e.nextStreamId = .error f) ∧
      e.activate readable = (e.register, none)) ∨
    ∃ p e', e.forwardPool.add e.nextStreamId = .ok p ∧
      e' = (if e.spliced then { e.register with forwardPool := p }.setRecord e.nextStreamId
          { Record.new with attached := true }
        else ({ e.register with forwardPool := p }.setRecord e.nextStreamId
          { Record.new with attached := true }).sendOut ⟨e.nextStreamId, .openStream⟩) ∧
      e.activate readable = (e', if e'.closed ∨ readable then some e.nextStreamId else none) := by
  unfold activate
  rw [if_neg (by rw [hr]; decide)]
  split
  · next f hf => exact .inl ⟨⟨f, hf⟩, rfl⟩
  · next p hp =>
    refine .inr ⟨p, _, hp, rfl, ?_⟩
    dsimp only
    generalize (if e.spliced then _ else _ : Entry) = e'
    by_cases hc : e'.closed ∨ readable
    · rw [if_pos hc, if_pos hc]
    · rw [if_neg hc, if_neg hc]

theorem kept_activate {e : Entry} (h : e.Open) (hsum : e.reverseSum = circuitWindow)
    (hf : .reverseOverflow ∉ e.faults) (readable : Bool) : (e.activate readable).1.Kept := by
  by_cases hr : e.refuses = true
  · unfold activate
    rw [if_pos hr]
    exact .inr ⟨h, hsum, hf⟩
  · rcases activate_cases (Bool.eq_false_iff.mpr hr) readable with
      ⟨-, he⟩ | ⟨p, e', hp, rfl, he⟩
    · rw [he]
      obtain ⟨ho, hs⟩ := h.register
      exact .inr ⟨ho, hs.trans hsum, hf⟩
    · rw [he]
      obtain ⟨ho, hs⟩ := h.attach hp
      dsimp only
      split
      · exact .inr ⟨ho, hs.trans hsum, hf⟩
      · exact kept_sendOut ho (hs.trans hsum) hf _

/-! ## Runs -/

theorem Open.setLeg {e : Entry} (h : e.Open) {id : Nat} {l l' : Link}
    (hl : e.links.get? id = some l) (hd : l'.destroyed = l.destroyed) :
    Open { e with links := e.links.set id l' } := by
  have hget : ∀ id' l'', (e.links.set id l').get? id' = some l'' →
      ∃ l₀, e.links.get? id' = some l₀ ∧ l''.destroyed = l₀.destroyed := by
    intro id' l'' h'
    rw [JsMap.get?_set] at h'
    split at h'
    · next heq =>
      cases h'
      exact ⟨l, heq ▸ hl, hd⟩
    · exact ⟨l'', h', rfl⟩
  have hset : ∀ id' l₀, e.links.get? id' = some l₀ →
      ∃ l'', (e.links.set id l').get? id' = some l'' ∧ l''.destroyed = l₀.destroyed := by
    intro id' l₀ h'
    by_cases heq : id' = id
    · subst heq
      obtain rfl := Option.some.inj (hl.symm.trans h')
      exact ⟨l', JsMap.get?_set_self _ _ _, hd⟩
    · exact ⟨l₀, (JsMap.get?_set_ne _ _ heq).trans h', rfl⟩
  refine ⟨h.live, h.pool, h.poolLive, h.link, h.reverse, h.legs, ?_, ?_, ?_, ?_, h.even⟩
  · intro id' r hr ha
    obtain ⟨hleg, l₀, hl₀, hd₀⟩ := h.attached id' r hr ha
    obtain ⟨l'', hl'', hd''⟩ := hset id' l₀ hl₀
    exact ⟨hleg, l'', hl'', hd''.trans hd₀⟩
  · intro id' r hr
    obtain ⟨l₀, hl₀⟩ := h.linked id' r hr
    obtain ⟨l'', hl'', -⟩ := hset id' l₀ hl₀
    exact ⟨l'', hl''⟩
  · intro id' l'' hl'' hn
    obtain ⟨l₀, hl₀, hd₀⟩ := hget id' l'' hl''
    rw [hd₀]
    exact h.gone id' l₀ hl₀ hn
  · intro id' l'' hl''
    obtain ⟨l₀, hl₀, -⟩ := hget id' l'' hl''
    exact h.ids id' l₀ hl₀

theorem Open.alike {e : Entry} (h : e.Open) {p : Pool Nat} (hp : e.forwardPool.Alike p) :
    Open { e with forwardPool := p } :=
  h.setPool (hp.pool h.pool) (hp.closed.trans h.poolLive) hp.exists_iff

theorem kept_closeLeg {e : Entry} (h : e.Open) (hsum : e.reverseSum = circuitWindow)
    (hf : .reverseOverflow ∉ e.faults) (now : Int) (id : Nat) : (closeLeg now e id).Kept :=
  Kept.drifts hsum hf (drifts_closeLeg h now id)

theorem kept_returnFired {e : Entry} (h : e.Open) (hsum : e.reverseSum = circuitWindow)
    (hf : .reverseOverflow ∉ e.faults) : e.returnFired.Kept := by
  unfold returnFired
  split
  · have ho : Open { e with returnTimer := false } :=
      ⟨h.live, h.pool, h.poolLive, h.link, h.reverse, h.legs, h.attached, h.linked, h.gone, h.ids,
        h.even⟩
    exact Kept.drifts (e := { e with returnTimer := false }) hsum hf
      (drifts_returnReverse ho 0 hsum.le true)
  · exact .inr ⟨h, hsum, hf⟩

theorem kept_idleFired {e : Entry} (h : e.Open) (hsum : e.reverseSum = circuitWindow)
    (hf : .reverseOverflow ∉ e.faults) (now : Int) (id : Nat) (busy : Bool) :
    (idleFired now e id busy).Kept := by
  have ho := h.alike (e.forwardPool.alike_idleFired id busy now)
  unfold idleFired
  split
  · next p hp =>
    rw [hp] at ho
    exact .inr ⟨ho, hsum, hf⟩
  · next p hp =>
    rw [hp] at ho
    exact kept_closeLeg ho hsum hf now id

theorem kept_spliceClosed {e : Entry} (h : e.Open) (hsum : e.reverseSum = circuitWindow)
    (hf : .reverseOverflow ∉ e.faults) (id : Nat) : (e.spliceClosed id).Kept := by
  unfold spliceClosed
  split
  · exact .inr ⟨h, hsum, hf⟩
  · next r hr =>
    obtain ⟨ho, hs⟩ := h.keepRecord hsum hr { r with splice := none } rfl rfl
    exact .inr ⟨ho, hs, hf⟩

theorem kept_legProgress {e : Entry} (h : e.Open) (hsum : e.reverseSum = circuitWindow)
    (hf : .reverseOverflow ∉ e.faults) (id : Nat) (ev : LinkEvent) : (e.legProgress id ev).Kept := by
  unfold legProgress
  split
  · exact .inr ⟨h, hsum, hf⟩
  · next l hl => exact .inr ⟨h.setLeg hl (l.destroyed_progress ev), hsum, hf⟩

theorem kept_step_open {e : Entry} (h : e.Open) (hsum : e.reverseSum = circuitWindow)
    (hf : .reverseOverflow ∉ e.faults) (ev : EntryEvent) : (e.step ev).Kept := by
  cases ev with
  | activate readable => exact kept_activate h hsum hf readable
  | fromSource now id payload udx => exact kept_fromSource h hsum hf now id payload udx
  | receive now payload => exact kept_receive h hsum hf now payload
  | closeLeg now id => exact kept_closeLeg h hsum hf now id
  | returnTimer => exact kept_returnFired h hsum hf
  | idleTimer now id busy => exact kept_idleFired h hsum hf now id busy
  | touch now id => exact .inr ⟨h.alike (e.forwardPool.alike_touch id now), hsum, hf⟩
  | link ev => exact .inr ⟨h.setLink ((e.link.destroyed_progress ev).trans h.link), hsum, hf⟩
  | legLink id ev => exact kept_legProgress h hsum hf id ev
  | spliceClosed id => exact kept_spliceClosed h hsum hf id
  | retire =>
    exact .inr ⟨⟨h.live, h.pool, h.poolLive, h.link, h.reverse, h.legs, h.attached, h.linked,
      h.gone, h.ids, h.even⟩, hsum, hf⟩
  | destroy => exact kept_destroy h

theorem Gone.closeLeg {e : Entry} (h : e.Gone) (now : Int) (id : Nat) : closeLeg now e id = e := by
  unfold Entry.closeLeg closeWith
  split
  · rfl
  · next l hl => rw [if_pos (h.links id l hl)]

theorem Gone.step {e : Entry} (h : e.Gone) (ev : EntryEvent) : (e.step ev).Gone := by
  have hnone : ∀ id, e.sources.get? id = none := fun id => by rw [h.sources]; rfl
  have hpool : ∀ p : Pool Nat, p.closed = true → Gone { e with forwardPool := p } := fun p hp =>
    ⟨h.closed, hp, h.sources, h.links, h.link⟩
  cases ev with
  | activate readable =>
    show (e.activate readable).1.Gone
    unfold activate
    rw [if_pos (by simp [refuses, h.closed])]
    exact h
  | fromSource now id payload udx =>
    show (fromSource now e id payload udx).Gone
    unfold fromSource
    rw [hnone id]
    exact h
  | receive now payload =>
    show (receive now e payload).Gone
    unfold receive
    rw [if_pos h.closed]
    exact h
  | closeLeg now id =>
    show (Entry.closeLeg now e id).Gone
    rw [h.closeLeg now id]
    exact h
  | returnTimer =>
    show e.returnFired.Gone
    unfold returnFired
    split
    · unfold returnReverse
      rw [if_pos h.closed]
      exact ⟨h.closed, h.poolClosed, h.sources, h.links, h.link⟩
    · exact h
  | idleTimer now id busy =>
    have hidle : (e.forwardPool.idleFired id busy now).1.closed = true := by
      unfold Pool.idleFired
      split
      · exact h.poolClosed
      · rw [if_pos (.inl h.poolClosed)]
        exact h.poolClosed
    show (idleFired now e id busy).Gone
    unfold idleFired
    split
    · next p hp =>
      rw [hp] at hidle
      exact hpool p hidle
    · next p hp =>
      rw [hp] at hidle
      rw [(hpool p hidle).closeLeg now id]
      exact hpool p hidle
  | touch now id =>
    refine hpool _ ?_
    unfold Pool.touch
    split
    · exact h.poolClosed
    · rw [if_neg (by simp [h.poolClosed])]
      exact h.poolClosed
  | link ev =>
    exact ⟨h.closed, h.poolClosed, h.sources, h.links, (e.link.destroyed_progress ev).trans h.link⟩
  | legLink id ev =>
    show (e.legProgress id ev).Gone
    unfold legProgress
    split
    · exact h
    · next l hl =>
      refine ⟨h.closed, h.poolClosed, h.sources, fun id' l' hl' => ?_, h.link⟩
      change (e.links.set id (l.progress ev)).get? id' = some l' at hl'
      rw [JsMap.get?_set] at hl'
      split at hl'
      · cases hl'
        exact (l.destroyed_progress ev).trans (h.links id l hl)
      · exact h.links id' l' hl'
  | spliceClosed id =>
    show (e.spliceClosed id).Gone
    unfold spliceClosed
    rw [hnone id]
    exact h
  | retire => exact ⟨h.closed, h.poolClosed, h.sources, h.links, h.link⟩
  | destroy =>
    show e.destroy.Gone
    unfold destroy
    rw [if_pos h.closed]
    exact h

theorem kept_step {e : Entry} (h : e.Kept) (ev : EntryEvent) : (e.step ev).Kept := by
  rcases h with hg | ⟨ho, hsum, hf⟩
  · exact .inl (hg.step ev)
  · exact kept_step_open ho hsum hf ev

theorem kept_run (evs : List EntryEvent) : ∀ {e : Entry}, e.Kept → (e.run evs).Kept := by
  induction evs with
  | nil => exact fun h => h
  | cons ev evs ih => exact fun h => ih (kept_step h ev)

theorem kept_new (spliced : Bool) : (new spliced).Kept := by
  refine .inr ⟨⟨rfl, Pool.conserved_new, rfl, rfl, ?_, ?_, ?_, ?_, ?_, ?_, ?_⟩, rfl, ?_⟩
  · exact le_rfl
  · intro id leg hleg
    cases hleg
  · intro id r hr
    cases hr
  · intro id r hr
    cases hr
  · intro id l hl
    cases hl
  · intro id l hl
    cases hl
  · exact ⟨le_rfl, Nat.mod_self 2⟩
  · simp [new]

/-- **The reverse credit of an entry is conserved over every run.** -/
theorem reverse_conserved (spliced : Bool) (evs : List EntryEvent)
    (hopen : ((new spliced).run evs).closed = false) :
    ((new spliced).run evs).reverseReceiveCredit + ((new spliced).run evs).reverseReturnPending +
      (((new spliced).run evs).sources.total fun _ r => r.reverseInFlight) = circuitWindow ∧
    .reverseOverflow ∉ ((new spliced).run evs).faults := by
  rcases kept_run evs (kept_new spliced) with hg | ⟨-, hsum, hf⟩
  · exact absurd (hg.closed.symm.trans hopen) (by decide)
  · exact ⟨hsum, hf⟩

/-- One source reads a frame and gives its credit back, a second one closes with
a frame unread, and a third frame comes for its old id. -/
theorem reverse_conserved_exchange :
    ((new false).run [.activate true, .activate true, .receive 0 (.frame ⟨2, .data [7]⟩),
      .receive 0 (.frame ⟨4, .data []⟩),
      .fromSource 1 2 (.frame ⟨circuitStreamId, .credit 1⟩) none,
      .closeLeg 2 4, .receive 3 (.frame ⟨4, .data []⟩)]).closed = false ∧
    ((new false).run [.activate true, .activate true, .receive 0 (.frame ⟨2, .data [7]⟩),
      .receive 0 (.frame ⟨4, .data []⟩),
      .fromSource 1 2 (.frame ⟨circuitStreamId, .credit 1⟩) none,
      .closeLeg 2 4, .receive 3 (.frame ⟨4, .data []⟩)]).reverseReturnPending = 1 ∧
    .reverseOverflow ∉ ((new false).run [.activate true, .activate true,
      .receive 0 (.frame ⟨2, .data [7]⟩), .receive 0 (.frame ⟨4, .data []⟩),
      .fromSource 1 2 (.frame ⟨circuitStreamId, .credit 1⟩) none,
      .closeLeg 2 4, .receive 3 (.frame ⟨4, .data []⟩)]).faults :=
  ⟨by decide +kernel, by decide +kernel, (reverse_conserved false [.activate true, .activate true,
    .receive 0 (.frame ⟨2, .data [7]⟩), .receive 0 (.frame ⟨4, .data []⟩),
    .fromSource 1 2 (.frame ⟨circuitStreamId, .credit 1⟩) none,
    .closeLeg 2 4, .receive 3 (.frame ⟨4, .data []⟩)] (by decide +kernel)).2⟩

/-! ## When an activation is atomic -/

def liveLink (e : Entry) (id : Nat) : Prop := ∃ l, e.links.get? id = some l ∧ l.destroyed = false

/-- What a call of `activate` should be: one that throws changes neither the
records nor the pool's legs nor the live links, and one within the limits that
`activate` checks does not throw. -/
structure ActivateSound (e : Entry) (readable : Bool) : Prop where
  atomic : (e.activate readable).2 = none → (e.activate readable).1.sources = e.sources ∧
    (e.activate readable).1.forwardPool.legs = e.forwardPool.legs ∧
    ∀ id, (e.activate readable).1.liveLink id ↔ e.liveLink id
  admits : e.closed = false → e.retired = false → e.nextStreamId < circuitStreamId →
    e.sources.size < e.limit → ∃ id, (e.activate readable).2 = some id

theorem refuses_eq_false {e : Entry} : e.refuses = false ↔ e.closed = false ∧ e.retired = false ∧
    e.sources.size < e.limit ∧ e.nextStreamId < circuitStreamId := by
  simp [refuses, and_assoc]

/-- The pool has room for a new source, or `add` throws. -/
theorem add_nextStreamId {e : Entry} (h : e.Open) :
    (∃ p, e.forwardPool.add e.nextStreamId = .ok p) ↔
      e.forwardPool.legs.size < maxRouteStreams := by
  constructor
  · rintro ⟨p, hp⟩
    exact (Pool.add_cases hp).2.1
  · intro hlt
    unfold Pool.add
    rw [if_neg ?_]
    · exact ⟨_, rfl⟩
    · rintro (hc | hc | hc)
      · rw [h.poolLive] at hc
        cases hc
      · omega
      · rw [JsMap.has, h.fresh.2.2] at hc
        cases hc

/-- A send on the shared link closes the entry exactly when the link is full. -/
theorem sendOut_closed_iff {e : Entry} (h : e.Open) (f : Frame) :
    (e.sendOut f).closed = true ↔ e.link.full f = true := by
  unfold sendOut
  rw [if_neg (by rw [h.link]; decide)]
  cases hfull : e.link.full f with
  | true => simp [(shut_destroy h).closed]
  | false => simp [h.live]

/-- An admitted activation returns the new id exactly when the pool takes the
source, and the leg can start or the entry is closed by its OPEN. -/
theorem activate_isSome {e : Entry} (h : e.Open) (hr : e.refuses = false) (readable : Bool) :
    (∃ id, (e.activate readable).2 = some id) ↔
      e.forwardPool.legs.size < maxRouteStreams ∧
        (readable = true ∨ e.spliced = false ∧ controlReserve ≤ e.link.pendingControl) := by
  rcases activate_cases hr readable with ⟨⟨f, hf⟩, he⟩ | ⟨p, e', hp, he', he⟩
  · have hroom := (add_nextStreamId h).not.mp (by simp [hf])
    rw [he]
    simp [hroom]
  · have hroom := (add_nextStreamId h).mp ⟨p, hp⟩
    have hclosed : e'.closed = true ↔
        e.spliced = false ∧ controlReserve ≤ e.link.pendingControl := by
      obtain ⟨ho, -⟩ := h.attach hp
      cases hs : e.spliced with
      | true =>
        rw [hs, if_pos rfl] at he'
        rw [he', ho.live]
        simp
      | false =>
        rw [hs, if_neg (by decide)] at he'
        rw [he', sendOut_closed_iff ho]
        simp only [true_and]
        exact decide_eq_true_iff
    rw [he]
    simp only [hroom, true_and, ← hclosed]
    split
    · next hc => simp [hc.symm]
    · next hc => simp [hc.imp Or.symm]

/-- **When an activation keeps its contract**: it is refused at once, or the
pool has room and the leg can start (or the OPEN closes the whole entry). -/
theorem activate_sound_iff (spliced : Bool) (evs : List EntryEvent) (readable : Bool) :
    ActivateSound ((new spliced).run evs) readable ↔
      ((new spliced).run evs).refuses = true ∨
      ((new spliced).run evs).forwardPool.legs.size < maxRouteStreams ∧
        (readable = true ∨ ((new spliced).run evs).spliced = false ∧
          controlReserve ≤ ((new spliced).run evs).link.pendingControl) := by
  have hkept := kept_run evs (kept_new spliced)
  generalize (new spliced).run evs = e at hkept
  cases hr : e.refuses with
  | true =>
    have he : e.activate readable = (e, none) := by
      unfold activate
      rw [if_pos hr]
    simp only [true_or, iff_true]
    refine ⟨fun _ => ?_, fun hc hret hid hsize => ?_⟩
    · rw [he]
      exact ⟨rfl, rfl, fun _ => Iff.rfl⟩
    · rw [refuses_eq_false.mpr ⟨hc, hret, hsize, hid⟩] at hr
      cases hr
  | false =>
    obtain ⟨hc, hret, hsize, hid⟩ := refuses_eq_false.mp hr
    have ho : e.Open := by
      rcases hkept with hg | ⟨ho, -⟩
      · exact absurd (hg.closed.symm.trans hc) (by decide)
      · exact ho
    rw [← activate_isSome ho hr readable]
    simp only [Bool.false_eq_true, false_or]
    refine ⟨fun hs => hs.admits hc hret hid hsize, fun hsome => ⟨fun hnone => ?_, fun _ _ _ _ => hsome⟩⟩
    obtain ⟨id, hsome⟩ := hsome
    exact absurd (hnone.symm.trans hsome) (by simp)

/-- The 65th concurrent source of a spliced entry: the call throws with the
record already among the sources. -/
theorem activate_spliced_full :
    ((new true).run (List.replicate 64 (.activate true))).refuses = false ∧
    (((new true).run (List.replicate 64 (.activate true))).activate true).2 = none ∧
    ((new true).run (List.replicate 64 (.activate true))).sources.size = 64 ∧
    (((new true).run (List.replicate 64 (.activate true))).activate true).1.sources.size = 65 ∧
    ¬ ActivateSound ((new true).run (List.replicate 64 (.activate true))) true := by
  have hfull : ((new true).run (List.replicate 64 (.activate true))).refuses = false ∧
      (((new true).run (List.replicate 64 (.activate true))).activate true).2 = none ∧
      ((new true).run (List.replicate 64 (.activate true))).sources.size = 64 ∧
      (((new true).run (List.replicate 64 (.activate true))).activate true).1.sources.size = 65 := by
    decide +kernel
  obtain ⟨hrefuses, hnone, hbefore, hafter⟩ := hfull
  refine ⟨hrefuses, hnone, hbefore, hafter, fun h => ?_⟩
  have hsize := congrArg JsMap.size (h.atomic hnone).1
  omega

end Entry

end HyperDht.Private
