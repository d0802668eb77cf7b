import HyperDht.Private.Destination
import HyperDht.Private.StreamCredit
import HyperDht.Private.PoolConservation

/-!
# Credit inside a destination circuit

An open circuit (`Dest.Open`) keeps the pool's leg of every live stream in step
with the stream's own counters, so no pool method it calls throws. A
distribution, a request and a release move circuit credit between the streams
and the pool and touch nothing else (`Shift`).
-/

namespace HyperDht.Private

/-- The cells of a stream that are not read yet. -/
def DestStream.outstanding : DestStream → Nat
  | .logical s => s.receivedOutstanding
  | .spliced _ => 0

namespace Dest

theorem stream?_eq_some {d : Dest} {id : Nat} {s : RouteStream} :
    d.stream? id = some s ↔ d.streams.get? id = some (.logical s) := by
  unfold stream?
  split
  · next s' h => simp [h]
  · next h =>
    constructor
    · intro h'
      cases h'
    · intro h'
      exact absurd h' (h s)

theorem stream?_set (d : Dest) (id id' : Nat) (s : RouteStream) :
    (d.setStream id s).stream? id' = if id' = id then some s else d.stream? id' := by
  unfold stream? setStream
  dsimp only
  rw [JsMap.get?_set]
  by_cases h : id' = id
  · rw [if_pos h, if_pos h]
  · rw [if_neg h, if_neg h]

@[simp] theorem stream?_set_self (d : Dest) (id : Nat) (s : RouteStream) :
    (d.setStream id s).stream? id = some s := by
  rw [stream?_set, if_pos rfl]

@[simp] theorem setStream_setStream (d : Dest) (id : Nat) (s s' : RouteStream) :
    (d.setStream id s).setStream id s' = d.setStream id s' := by
  simp [setStream]

theorem setStream_self {d : Dest} {id : Nat} {s : RouteStream} (h : d.stream? id = some s) :
    d.setStream id s = d := by
  unfold setStream
  rw [JsMap.set_of_get? (stream?_eq_some.mp h)]

@[simp] theorem modify_setStream (d : Dest) (id : Nat) (s : RouteStream)
    (f : RouteStream → RouteStream) : (d.setStream id s).modify id f = d.setStream id (f s) := by
  unfold modify
  rw [stream?_set_self]
  exact setStream_setStream d id s (f s)

theorem modify_of_some {d : Dest} {id : Nat} {s : RouteStream} (h : d.stream? id = some s)
    (f : RouteStream → RouteStream) : d.modify id f = d.setStream id (f s) := by
  unfold modify
  rw [h]

/-- A stream in step with its leg. One that is being destroyed takes no more
grants, and may hold less than its leg. -/
structure Matches (s : RouteStream) (leg : Leg) : Prop where
  le : s.circuitCredit ≤ leg.granted
  granted : s.destroying = false → leg.granted = s.circuitCredit
  wanted : s.destroying = false → leg.wanted = s.circuitRequested

/-- The receive credit the circuit accounts for. -/
def creditSum (d : Dest) : Nat :=
  d.receiveCredit + d.returnPending + d.streams.total fun _ st => st.outstanding

/-- A circuit that is not closed, between the steps of its methods. -/
structure Open (d : Dest) : Prop where
  live : d.closed = false
  pool : d.sendPool.Conserved
  poolLive : d.sendPool.closed = false
  link : d.link.destroyed = false
  credit : d.creditSum ≤ circuitWindow
  legs : ∀ id leg, d.sendPool.legs.get? id = some leg →
    ∃ s, d.stream? id = some s ∧ s.torn = false ∧ Matches s leg
  leg : ∀ id s, d.stream? id = some s → s.destroying = false →
    ∃ leg, d.sendPool.legs.get? id = some leg
  sane : ∀ id s, d.stream? id = some s → s.Sane
  ids : ∀ id st, d.streams.get? id = some st → 0 < id ∧ id % 2 = 0 ∧ id ≤ d.lastStreamId

theorem creditSum_setStream {d : Dest} {id : Nat} {s : RouteStream} (h : d.stream? id = some s)
    (s' : RouteStream) : (d.setStream id s').creditSum + s.receivedOutstanding =
      d.creditSum + s'.receivedOutstanding := by
  have := JsMap.total_set (stream?_eq_some.mp h) (.logical s') fun _ st => st.outstanding
  simp only [creditSum, setStream, DestStream.outstanding] at this ⊢
  omega

/-! ## Changing one stream -/

theorem Open.update {d : Dest} (h : d.Open) {id : Nat} {s : RouteStream}
    (hs : d.stream? id = some s) {p : Pool Nat} {s' : RouteStream} (hp : p.Conserved)
    (hpl : p.closed = false)
    (hother : ∀ id', id' ≠ id → p.legs.get? id' = d.sendPool.legs.get? id')
    (hmatch : ∀ leg, p.legs.get? id = some leg → s'.torn = false ∧ Matches s' leg)
    (hleg : s'.destroying = false → ∃ leg, p.legs.get? id = some leg) (hsane : s'.Sane)
    (hsum : d.creditSum + s'.receivedOutstanding ≤ circuitWindow + s.receivedOutstanding) :
    Open ({ d with sendPool := p }.setStream id s') := by
  have hget : ∀ id', ({ d with sendPool := p }.setStream id s').stream? id' =
      if id' = id then some s' else d.stream? id' := fun id' =>
    stream?_set { d with sendPool := p } id id' s'
  refine ⟨h.live, hp, hpl, h.link, ?_, ?_, ?_, ?_, ?_⟩
  · have := creditSum_setStream (d := { d with sendPool := p }) hs s'
    have hc : ({ d with sendPool := p } : Dest).creditSum = d.creditSum := rfl
    omega
  · intro id' leg hl
    rw [hget]
    change p.legs.get? id' = some leg at hl
    by_cases he : id' = id
    · rw [if_pos he]
      subst he
      exact ⟨s', rfl, hmatch leg hl⟩
    · rw [if_neg he]
      rw [hother id' he] at hl
      exact h.legs id' leg hl
  · intro id' s₁ h₁ hd
    rw [hget] at h₁
    show ∃ leg, p.legs.get? id' = some leg
    split at h₁
    · next he =>
      cases h₁
      rw [he]
      exact hleg hd
    · next he =>
      rw [hother id' he]
      exact h.leg id' s₁ h₁ hd
  · intro id' s₁ h₁
    rw [hget] at h₁
    split at h₁
    · cases h₁
      exact hsane
    · exact h.sane id' s₁ h₁
  · intro id' st hst
    change (d.streams.set id (.logical s')).get? id' = some st at hst
    rw [JsMap.get?_set] at hst
    split at hst
    · next he =>
      rw [he]
      exact h.ids id _ (stream?_eq_some.mp hs)
    · exact h.ids id' st hst

theorem Open.matches_leg {d : Dest} (h : d.Open) {id : Nat} {s : RouteStream} {leg : Leg}
    (hs : d.stream? id = some s) (hl : d.sendPool.legs.get? id = some leg) :
    s.torn = false ∧ Matches s leg := by
  obtain ⟨s₀, hs₀, hm⟩ := h.legs id leg hl
  obtain rfl := Option.some.inj (hs.symm.trans hs₀)
  exact hm

theorem Open.setStream {d : Dest} (h : d.Open) {id : Nat} {s s' : RouteStream}
    (hs : d.stream? id = some s) (ht : s'.torn = s.torn)
    (hc : s'.circuitCredit = s.circuitCredit) (hr : s'.circuitRequested = s.circuitRequested)
    (hd : s'.destroying = false → s.destroying = false) (hsane : s'.Sane)
    (hsum : d.creditSum + s'.receivedOutstanding ≤ circuitWindow + s.receivedOutstanding) :
    Open (d.setStream id s') := by
  refine h.update hs h.pool h.poolLive (fun _ _ => rfl) (fun leg hl => ?_) (fun hd' => ?_) hsane hsum
  · obtain ⟨ht', hm⟩ := h.matches_leg hs hl
    refine ⟨ht.trans ht', hc ▸ hm.le, fun hd' => ?_, fun hd' => ?_⟩
    · rw [hc]
      exact hm.granted (hd hd')
    · rw [hr]
      exact hm.wanted (hd hd')
  · exact h.leg id s hs (hd hd')

/-- Every splice of `d'` is one of `d`. -/
def NoSplice (d d' : Dest) : Prop := ∀ id b, d'.streams.get? id = some (.spliced b) →
  ∃ b', d.streams.get? id = some (.spliced b')

theorem noSplice_same {d d' : Dest} (h : d'.streams = d.streams) : NoSplice d d' :=
  fun _ b hb => ⟨b, h ▸ hb⟩

theorem NoSplice.trans {d d' d'' : Dest} (h : NoSplice d d') (h' : NoSplice d' d'') :
    NoSplice d d'' := by
  intro id b hb
  obtain ⟨b', hb'⟩ := h' id b hb
  exact h id b' hb'

theorem noSplice_set {d d' : Dest} {id : Nat} {s : RouteStream}
    (h : d'.streams = d.streams.set id (.logical s)) : NoSplice d d' := by
  intro id' b hb
  rw [h] at hb
  rcases JsMap.get?_set_cases hb with ⟨-, hs⟩ | ⟨-, hb⟩
  · cases hs
  · exact ⟨b, hb⟩

/-! ## Shifts of circuit credit -/

/-- `d'` is `d` up to circuit credit, writers and idle timers. -/
structure Shift (d d' : Dest) : Prop where
  rest : d' = { d with sendPool := d'.sendPool, streams := d'.streams }
  inFlight : d'.sendPool.inFlight = d.sendPool.inFlight
  noLeg : ∀ id, d.sendPool.legs.get? id = none → d'.sendPool.legs.get? id = none
  some : ∀ id s, d.stream? id = some s → ∃ s', d'.stream? id = some s' ∧ s.Alike s'
  none : ∀ id, d.stream? id = none → d'.stream? id = none
  total : (d'.streams.total fun _ st => st.outstanding) =
    d.streams.total fun _ st => st.outstanding
  splices : NoSplice d d'

theorem shift_pool (d : Dest) {p : Pool Nat} (hin : p.inFlight = d.sendPool.inFlight)
    (hlegs : ∀ id, d.sendPool.legs.get? id = Option.none → p.legs.get? id = Option.none) :
    Shift d { d with sendPool := p } :=
  ⟨rfl, hin, hlegs, fun _ s h => ⟨s, h, .refl s⟩, fun _ h => h, rfl, noSplice_same rfl⟩

theorem Shift.refl (d : Dest) : Shift d d := shift_pool d rfl fun _ h => h

theorem Shift.trans {d d' d'' : Dest} (h : Shift d d') (h' : Shift d' d'') : Shift d d'' where
  rest := by rw [h'.rest, h.rest]
  inFlight := h'.inFlight.trans h.inFlight
  noLeg id hl := h'.noLeg id (h.noLeg id hl)
  some id s hs := by
    obtain ⟨s', hs', ha⟩ := h.some id s hs
    obtain ⟨s'', hs'', ha'⟩ := h'.some id s' hs'
    exact ⟨s'', hs'', ha.trans ha'⟩
  none id hs := h'.none id (h.none id hs)
  total := h'.total.trans h.total
  splices := h.splices.trans h'.splices

theorem shift_update {d : Dest} {id : Nat} {s s' : RouteStream} (hs : d.stream? id = some s)
    (ha : s.Alike s') {p : Pool Nat} (hp : p.inFlight = d.sendPool.inFlight)
    (hlegs : ∀ id, d.sendPool.legs.get? id = none → p.legs.get? id = none) :
    Shift d ({ d with sendPool := p }.setStream id s') := by
  have hget : ∀ id', ({ d with sendPool := p }.setStream id s').stream? id' =
      if id' = id then some s' else d.stream? id' := fun id' =>
    stream?_set { d with sendPool := p } id id' s'
  refine ⟨rfl, hp, hlegs, ?_, ?_, ?_, noSplice_set rfl⟩
  · intro id' s₀ hs₀
    rw [hget]
    split
    · next he =>
      subst he
      obtain rfl := Option.some.inj (hs.symm.trans hs₀)
      exact ⟨s', rfl, ha⟩
    · exact ⟨s₀, hs₀, .refl s₀⟩
  · intro id' hn
    rw [hget]
    split
    · next he =>
      subst he
      exact absurd (hs.symm.trans hn) (by simp)
    · exact hn
  · have := JsMap.total_set (stream?_eq_some.mp hs) (.logical s') fun _ st => st.outstanding
    simp only [DestStream.outstanding, ha.receivedOutstanding] at this
    exact Nat.add_right_cancel this

/-- A change alike of a stream with a leg: the circuit stays open, and credit
shifts only. -/
theorem Open.recredit {d : Dest} (h : d.Open) {id : Nat} {s s' : RouteStream} {leg : Leg}
    (hs : d.stream? id = some s) (ha : s.Alike s') (hl : d.sendPool.legs.get? id = some leg)
    {p : Pool Nat} (hp : p.Conserved) (hpl : p.closed = false)
    (hin : p.inFlight = d.sendPool.inFlight)
    (hother : ∀ id', id' ≠ id → p.legs.get? id' = d.sendPool.legs.get? id') {leg' : Leg}
    (hl' : p.legs.get? id = some leg') (hm : Matches s' leg') :
    Open ({ d with sendPool := p }.setStream id s') ∧
      Shift d ({ d with sendPool := p }.setStream id s') := by
  refine ⟨h.update hs hp hpl hother (fun leg₁ hl₁ => ?_) (fun _ => ⟨leg', hl'⟩)
    (ha.sane (h.sane id s hs)) ?_, shift_update hs ha hin fun id' hn => ?_⟩
  · obtain rfl := Option.some.inj (hl'.symm.trans hl₁)
    exact ⟨ha.torn.trans (h.matches_leg hs hl).1, hm⟩
  · have := h.credit
    rw [ha.receivedOutstanding]
    omega
  · have hne : id' ≠ id := by
      rintro rfl
      exact absurd (hl.symm.trans hn) (by simp)
    rw [hother id' hne]
    exact hn

/-! ## Grants and releases -/

/-- `q` is `p` with `n` cells of the leg of `id` given back and its demand canceled. -/
structure Freed (p : Pool Nat) (id n : Nat) (q : Pool Nat) : Prop where
  pool : q.Conserved
  live : q.closed = p.closed
  inFlight : q.inFlight = p.inFlight
  legs : ∀ id', id' ≠ id → q.legs.get? id' = p.legs.get? id'
  leg : ∀ leg, p.legs.get? id = some leg →
    ∃ leg', q.legs.get? id = some leg' ∧ leg'.granted + n = leg.granted ∧ leg'.wanted = 0
  wanted : q.wanted ≤ p.wanted

/-- `cancel`, and `release` of `n` cells that the leg holds. -/
theorem freed_release {p : Pool Nat} (h : p.Conserved) (hc : p.closed = false) {id n : Nat}
    {leg : Leg} (hl : p.legs.get? id = some leg) (hn : n ≤ leg.granted) :
    (n = 0 → Freed p id n (p.cancel id)) ∧
    (n ≠ 0 → ∃ q, (p.cancel id).release id n = .ok q ∧ Freed p id n q) := by
  have hcancel := Pool.conserved_cancel h id
  have hget : (p.cancel id).legs.get? id = some { leg with wanted := 0, demandOpen := false } := by
    rw [Pool.cancel_of_some hl]
    exact JsMap.get?_set_self _ _ _
  have hother : ∀ id', id' ≠ id → (p.cancel id).legs.get? id' = p.legs.get? id' := by
    intro id' hne
    rw [Pool.cancel_of_some hl]
    exact JsMap.get?_set_ne _ _ hne
  have hframe : (p.cancel id).closed = p.closed ∧ (p.cancel id).inFlight = p.inFlight := by
    rw [Pool.cancel_of_some hl]
    exact ⟨rfl, rfl⟩
  obtain ⟨hcl, hin⟩ := hframe
  refine ⟨fun h0 => ⟨hcancel.1, hcl, hin, hother, fun leg' hl' => ?_, hcancel.2⟩, fun h0 => ?_⟩
  · obtain rfl := Option.some.inj (hl.symm.trans hl')
    exact ⟨_, hget, by rw [h0]; rfl, rfl⟩
  · obtain ⟨q, hq⟩ := Pool.release_ok hget (hcl.trans hc) (Nat.pos_of_ne_zero h0) hn
    refine ⟨q, hq, ?_⟩
    obtain ⟨hcons, hwant⟩ := Pool.conserved_release hcancel.1 hq
    obtain ⟨leg₁, hleg₁, -, -, hle, rfl⟩ := Pool.release_cases hq
    obtain rfl := Option.some.inj (hget.symm.trans hleg₁)
    refine ⟨hcons, hcl, hin, fun id' hne => ?_, fun leg' hl' => ⟨_, JsMap.get?_set_self _ _ _, ?_,
      rfl⟩, hwant.trans_le hcancel.2⟩
    · exact (JsMap.get?_set_ne _ _ hne).trans (hother id' hne)
    · obtain rfl := Option.some.inj (hl.symm.trans hl')
      dsimp only
      omega

/-- `_releaseCircuit` of a stream whose leg holds at least what the stream counts. -/
theorem releaseWith_eq {d : Dest} {id : Nat} {s : RouteStream} (hs : d.stream? id = some s)
    (hlink : d.link.destroyed = false) (hp : d.sendPool.Conserved)
    (hc : d.sendPool.closed = false) {leg : Leg} (hl : d.sendPool.legs.get? id = some leg)
    (hg : s.circuitCredit ≤ leg.granted) (distribute : Dest → Dest × Bool) :
    ∃ q, Freed d.sendPool id s.circuitCredit q ∧ releaseWith distribute d id =
      if s.circuitCredit = 0 then
        ({ d with sendPool := q }.setStream id
          { s with circuitRequested := 0, circuitCredit := 0 }, false)
      else distribute ({ d with sendPool := q }.setStream id
        { s with circuitRequested := 0, circuitCredit := 0 }) := by
  obtain ⟨hzero, hpos⟩ := freed_release hp hc hl hg
  unfold releaseWith
  rw [hs]
  dsimp only
  rw [if_neg (by rw [hlink]; decide)]
  split
  · next h0 => exact ⟨_, hzero h0, rfl⟩
  · next h0 =>
    obtain ⟨q, hq, hfreed⟩ := hpos h0
    refine ⟨q, hfreed, ?_⟩
    have hq' : ({ d with sendPool := d.sendPool.cancel id }.setStream id { s with
        circuitRequested := 0, circuitCredit := 0 }).sendPool.release id s.circuitCredit =
        .ok q := hq
    rw [hq']
    rfl

/-- What `takeGrant` does to a stream whose leg holds what it counts. -/
theorem takeGrant_eq {d : Dest} {id : Nat} {s : RouteStream} (hlink : d.link.destroyed = false)
    (hp : d.sendPool.Conserved) (hc : d.sendPool.closed = false) {leg : Leg}
    (hl : d.sendPool.legs.get? id = some leg) (hg : leg.granted = s.circuitCredit)
    (hw : leg.wanted = s.circuitRequested) (hne : s.circuitCredit ≠ 0) (now : Int) :
    ∃ s' q, s.Alike s' ∧ q.Conserved ∧ q.closed = false ∧ q.inFlight = d.sendPool.inFlight ∧
      q.wanted ≤ d.sendPool.wanted ∧
      (∀ id', id' ≠ id → q.legs.get? id' = d.sendPool.legs.get? id') ∧
      (∃ leg', q.legs.get? id = some leg' ∧ leg'.granted = s'.circuitCredit ∧
        leg'.wanted = s'.circuitRequested) ∧
      takeGrant now d id s = ({ d with sendPool := q }.setStream id s', false) := by
  -- the idle timer that may follow
  have hidle : ∀ (q : Pool Nat) (s₂ : RouteStream), s.Alike s₂ → ∃ s₃, s.Alike s₃ ∧
      s₃.circuitCredit = s₂.circuitCredit ∧ s₃.circuitRequested = s₂.circuitRequested ∧
      (if s.writer.writing then ({ d with sendPool := q }.setStream id s₂, false)
        else (({ d with sendPool := q }.setStream id s₂).modify id
          fun s => s.scheduleIdle d.link.destroyed now, false)) =
        ({ d with sendPool := q }.setStream id s₃, false) := by
    intro q s₂ ha₂
    split
    · exact ⟨s₂, ha₂, rfl, rfl, rfl⟩
    · rw [modify_setStream]
      exact ⟨_, ha₂.trans (RouteStream.alike_scheduleIdle _ _ _), by simp, by simp, rfl⟩
  unfold takeGrant
  dsimp only
  by_cases hrel : s.sendCredit = 0 ∨ s.localEnded = true
  · obtain ⟨q, hq, he⟩ := releaseWith_eq (stream?_set_self d id s) hlink hp hc hl hg.ge
      (fun d => (d, false))
    obtain ⟨s₃, ha₃, hc₃, hr₃, he₃⟩ := hidle q
      { s with circuitRequested := 0, circuitCredit := 0 } rfl
    obtain ⟨leg', hl', hg', hw'⟩ := hq.leg leg hl
    rw [if_pos hrel, he, if_neg hne]
    refine ⟨s₃, q, ha₃, hq.pool, hq.live.trans hc, hq.inFlight, hq.wanted, hq.legs,
      ⟨leg', hl', ?_, hw'.trans hr₃.symm⟩, ?_⟩
    · rw [hc₃]
      dsimp only
      omega
    rw [← he₃]
    simp [Dest.setStream]
  · obtain ⟨s₃, ha₃, hc₃, hr₃, he₃⟩ := hidle d.sendPool s.wakeWriter
      (RouteStream.alike_wakeWriter s)
    rw [if_neg hrel, modify_setStream]
    rw [RouteStream.circuitCredit_wakeWriter] at hc₃
    rw [RouteStream.circuitRequested_wakeWriter] at hr₃
    exact ⟨s₃, d.sendPool, ha₃, hp, hc, rfl, le_rfl, fun _ _ => rfl,
      ⟨leg, hl, hg.trans hc₃.symm, hw.trans hr₃.symm⟩, he₃⟩

/-- A grant with its callback: the stream takes it, or gives it all back. -/
theorem grantCircuit_eq {d : Dest} (h : d.Open) {ref : LegRef Nat} {rest : List (LegRef Nat)}
    {leg : Leg} {amount : Nat} (hg : d.sendPool.Grantable ref rest leg amount) (now : Int) :
    ∃ s s' q, d.stream? ref.owner = some s ∧ s.Alike s' ∧ q.Conserved ∧
      q.closed = false ∧ q.inFlight = d.sendPool.inFlight ∧
      q.wanted ≤ (d.sendPool.grant ref rest leg amount now).wanted ∧
      (∀ id', id' ≠ ref.owner → q.legs.get? id' = d.sendPool.legs.get? id') ∧
      (∃ leg', q.legs.get? ref.owner = some leg' ∧ Matches s' leg') ∧
      (host now).onGrant ref.owner amount
        ((host now).setPool d (((host now).pool d).grant ref rest leg amount now)) =
        ({ d with sendPool := q }.setStream ref.owner s', false) := by
  obtain ⟨s, hs, -, hmatch⟩ := h.legs ref.owner leg hg.registered
  obtain ⟨hcons, -⟩ := Pool.conserved_grant h.pool hg now
  have hbound := h.pool.bound ref.owner leg hg.registered
  have hwanted := hg.le_wanted
  have hpos := hg.pos
  have hother : ∀ id', id' ≠ ref.owner →
      (d.sendPool.grant ref rest leg amount now).legs.get? id' = d.sendPool.legs.get? id' :=
    fun id' hne => JsMap.get?_set_ne _ _ hne
  have hget : (d.sendPool.grant ref rest leg amount now).legs.get? ref.owner = some { leg with
      granted := leg.granted + amount
      wanted := leg.wanted - amount
      lastActivity := now
      idleTimer := true } := JsMap.get?_set_self _ _ _
  have hs' : ((host now).setPool d (((host now).pool d).grant ref rest leg amount now)).stream?
      ref.owner = some s := hs
  cases hd : s.destroying with
  | true =>
    refine ⟨s, s, _, hs, .refl s, hcons, h.poolLive, rfl, le_rfl, hother,
      ⟨_, hget, hmatch.le.trans (Nat.le_add_right _ _), fun hd' => ?_, fun hd' => ?_⟩, ?_⟩
    · exact absurd (hd.symm.trans hd') (by decide)
    · exact absurd (hd.symm.trans hd') (by decide)
    · show grantCircuit now ref.owner amount _ = _
      unfold grantCircuit
      rw [hs']
      dsimp only
      rw [if_pos hd]
      exact congrArg (·, false) (setStream_self hs').symm
  | false =>
    have hgr := hmatch.granted hd
    have hwa := hmatch.wanted hd
    obtain ⟨s', q, ha, hq, hql, hqi, hqw, hqo, ⟨leg', hl', hm⟩, he⟩ := takeGrant_eq
      (d := { d with sendPool := d.sendPool.grant ref rest leg amount now })
      (s := { s with
        circuitRequested := s.circuitRequested - amount
        circuitCredit := s.circuitCredit + amount })
      h.link hcons h.poolLive hget (by rw [hgr]) (by rw [hwa]) (by dsimp only; omega) now
    refine ⟨s, s', q, hs, ?_, hq, hql, hqi, hqw, fun id' hne => (hqo id' hne).trans
      (hother id' hne), ⟨leg', hl', hm.1.ge, fun _ => hm.1, fun _ => hm.2⟩, ?_⟩
    · have htake : s.Alike { s with
          circuitRequested := s.circuitRequested - amount
          circuitCredit := s.circuitCredit + amount } := rfl
      exact htake.trans ha
    · show grantCircuit now ref.owner amount _ = _
      unfold grantCircuit
      rw [hs']
      dsimp only
      rw [if_neg (by rw [hd]; decide), if_neg (by omega)]
      exact he

/-- The loop of `_distribute` keeps a circuit open and shifts credit only. -/
theorem host_keeps (d : Dest) (now : Int) :
    (host now).Keeps (fun d' => d'.Open ∧ Shift d d') now where
  conserved d' h _ := h.1.pool
  grant d' ref rest leg amount h hg := by
    obtain ⟨ho, hsh⟩ := h
    obtain ⟨s, s', q, hs, ha, hq, hql, hqi, -, hqo, ⟨leg', hl', hm⟩, he⟩ := grantCircuit_eq ho hg now
    obtain ⟨ho', hsh'⟩ := ho.recredit hs ha hg.registered hq hql hqi hqo hl' hm
    rw [he]
    exact ⟨ho', hsh.trans hsh'⟩

theorem host_quiet (d : Dest) (now : Int) :
    (host now).Quiet (fun d' => d'.Open ∧ Shift d d') now := by
  intro d' ref rest leg amount h hg
  obtain ⟨s, s', q, -, -, -, -, -, -, -, -, he⟩ := grantCircuit_eq h.1 hg now
  rw [he]

theorem host_lowers (d : Dest) (now : Int) :
    (host now).Lowers (fun d' => d'.Open ∧ Shift d d') (fun d' => d'.sendPool.wanted) now := by
  intro d' ref rest leg amount h hg
  obtain ⟨s, s', q, -, -, -, -, -, hqw, -, -, he⟩ := grantCircuit_eq h.1 hg now
  obtain ⟨-, hw⟩ := Pool.conserved_grant h.1.pool hg now
  have hpos := hg.pos
  dsimp only
  rw [he]
  show q.wanted < d'.sendPool.wanted
  omega

theorem Open.setDistributing {d : Dest} (h : d.Open) (b : Bool) :
    Open { d with sendPool := { d.sendPool with distributing := b } } ∧
      Shift d { d with sendPool := { d.sendPool with distributing := b } } := by
  refine ⟨?_, shift_pool d rfl fun _ hl => hl⟩
  exact ⟨h.live, h.pool.congr rfl rfl rfl rfl, h.poolLive, h.link, h.credit, h.legs, h.leg, h.sane,
    h.ids⟩

theorem distribute_shift {d : Dest} (h : d.Open) (now : Int) :
    (distribute now d).2 = false ∧ (distribute now d).1.Open ∧ Shift d (distribute now d).1 := by
  unfold distribute
  rcases @Host.distribute_cases _ _ _ (host now) now
      ((d.sendPool.legs.total fun _ leg => leg.wanted) + 1) d with
    ⟨-, he⟩ | ⟨-, -, d', threw, hr, he⟩
  · rw [he]
    exact ⟨rfl, h, .refl d⟩
  · have hstart := h.setDistributing true
    have hloop := Host.rounds_keeps (host_keeps d now)
      ((d.sendPool.legs.total fun _ leg => leg.wanted) + 1) hstart
    have hquiet := Host.rounds_quiet (host_keeps d now) (host_quiet d now)
      ((d.sendPool.legs.total fun _ leg => leg.wanted) + 1) hstart
    rw [show (host now).rounds now _ { d with
      sendPool := { d.sendPool with distributing := true } } = _ from hr] at hloop hquiet
    rw [he]
    obtain ⟨ho, hsh⟩ := hloop
    exact ⟨hquiet, (ho.setDistributing false).1, hsh.trans (ho.setDistributing false).2⟩

/-- With one round for each cell wanted the loop of `_distribute` runs to its end. -/
theorem distribute_settled {d : Dest} (h : d.Open) (hd : d.sendPool.distributing = false)
    (now : Int) : (distribute now d).1.sendPool.Settled := by
  unfold distribute
  rcases @Host.distribute_cases _ _ _ (host now) now
      ((d.sendPool.legs.total fun _ leg => leg.wanted) + 1) d with
    ⟨hc | hc, -⟩ | ⟨-, -, d', threw, hr, he⟩
  · exact absurd (hc.symm.trans h.poolLive) (by decide)
  · exact absurd (hc.symm.trans hd) (by decide)
  · have hstart := h.setDistributing true
    have hquiet := Host.rounds_quiet (host_keeps d now) (host_quiet d now)
      ((d.sendPool.legs.total fun _ leg => leg.wanted) + 1) hstart
    have hsettled := Host.rounds_settled (host_keeps d now) (host_lowers d now)
      ((d.sendPool.legs.total fun _ leg => leg.wanted) + 1) hstart (Nat.lt_succ_self _) hquiet
    rw [show (host now).rounds now _ { d with
      sendPool := { d.sendPool with distributing := true } } = _ from hr] at hsettled
    rw [he]
    exact hsettled

/-! ## Requests and releases -/

theorem releaseCircuit_shift {d : Dest} (h : d.Open) (now : Int) {id : Nat} {leg : Leg}
    (hl : d.sendPool.legs.get? id = some leg) :
    (releaseCircuit now d id).2 = false ∧ (releaseCircuit now d id).1.Open ∧
      Shift d (releaseCircuit now d id).1 := by
  obtain ⟨s, hs, -, hm⟩ := h.legs id leg hl
  obtain ⟨q, hq, he⟩ := releaseWith_eq hs h.link h.pool h.poolLive hl hm.le (distribute now)
  obtain ⟨leg', hl', hg', hw'⟩ := hq.leg leg hl
  have ha : s.Alike { s with circuitRequested := 0, circuitCredit := 0 } := rfl
  have hm' : Matches { s with circuitRequested := 0, circuitCredit := 0 } leg' := by
    refine ⟨Nat.zero_le _, fun hd => ?_, fun _ => hw'⟩
    have := hm.granted hd
    dsimp only
    omega
  obtain ⟨ho, hsh⟩ := h.recredit hs ha hl hq.pool (hq.live.trans h.poolLive) hq.inFlight hq.legs
    hl' hm'
  unfold releaseCircuit
  rw [he]
  split
  · exact ⟨rfl, ho, hsh⟩
  · obtain ⟨hflag, ho', hsh'⟩ := distribute_shift ho now
    exact ⟨hflag, ho', hsh.trans hsh'⟩

theorem requestCircuit_shift {d : Dest} (h : d.Open) (now : Int) (id : Nat) :
    (requestCircuit now d id).2 = false ∧ (requestCircuit now d id).1.Open ∧
      Shift d (requestCircuit now d id).1 := by
  unfold requestCircuit
  cases hs : d.stream? id with
  | none => exact ⟨rfl, h, .refl d⟩
  | some s =>
    dsimp only
    split
    · exact ⟨rfl, h, .refl d⟩
    · next hwants =>
      simp only [RouteStream.wantsCircuit, Bool.not_eq_false, Bool.not_eq_true', Bool.or_eq_false_iff,
        beq_eq_false_iff_ne, bne_eq_false_iff_eq, decide_eq_false_iff_not, not_lt] at hwants
      obtain ⟨⟨⟨⟨⟨⟨hd, -⟩, -⟩, -⟩, -⟩, hreq⟩, hcred⟩ := hwants
      have hhalf : circuitWindow / 2 < circuitWindow := by decide
      obtain ⟨leg, hl⟩ := h.leg id s hs hd
      obtain ⟨-, hm⟩ := h.matches_leg hs hl
      have hgr := hm.granted hd
      have hwa := hm.wanted hd
      obtain ⟨q, hq⟩ : ∃ q, d.sendPool.demand id ((circuitWindow - s.circuitCredit : Nat) : Int) false
          now = .ok (q, true) :=
        Pool.demand_ok hl h.poolLive (by omega) (hwa.trans hreq) (by omega) (by simp)
      have hq' : (d.setStream id { s with
          circuitRequested := circuitWindow - s.circuitCredit }).sendPool.demand id
          ((circuitWindow - s.circuitCredit : Nat) : Int) false now = .ok (q, true) := hq
      rw [hq']
      dsimp only
      have hcons := (Pool.conserved_demand h.pool hq).1
      obtain ⟨leg', hl', -, ⟨h0, -⟩ | ⟨-, -, -, -, rfl, -⟩⟩ := Pool.demand_cases hq
      · omega
      · obtain rfl := Option.some.inj (hl.symm.trans hl')
        have ha : s.Alike { s with circuitRequested := circuitWindow - s.circuitCredit } := rfl
        obtain ⟨ho, hsh⟩ := h.recredit hs ha hl hcons h.poolLive rfl
          (fun id' hne => JsMap.get?_set_ne _ _ hne) (JsMap.get?_set_self _ _ _)
          ⟨hgr.ge, fun _ => hgr, fun _ => rfl⟩
        obtain ⟨hflag, ho', hsh'⟩ := distribute_shift ho now
        exact ⟨hflag, ho', hsh.trans hsh'⟩

end Dest

end HyperDht.Private
