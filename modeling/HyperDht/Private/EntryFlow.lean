import HyperDht.Private.Entry
import HyperDht.Private.PoolConservation

/-!
# What closing a leg does to an entry

A distribution of credit, the close of a leg and a send on a leg all come down
to the same: grants that reach their source as circuit CREDIT, legs that close,
RESET and returned reverse credit on the shared link (`Drift`), or the end of
the whole entry (`Shut`). This holds through the nesting of the pool's loop, its
callback and the close handlers (`drifts_distribute`, `drifts_closeLeg`,
`drifts_sendLeg`). The reverse credit of the entry is conserved on the way; the
handlers give back exactly what the closed record held.
-/

namespace HyperDht.Private

def Frame.circuitCredit (f : Frame) : Nat := f.creditOf circuitStreamId

/-- Circuit CREDIT frames with the given amounts. -/
def creditFrames (cs : List Nat) : List Frame := cs.map fun n => ⟨circuitStreamId, .credit n⟩

theorem creditFrames_append (cs ds : List Nat) :
    creditFrames (cs ++ ds) = creditFrames cs ++ creditFrames ds :=
  List.map_append

namespace Entry

/-- The reverse credit an entry accounts for. -/
def reverseSum (e : Entry) : Nat :=
  e.reverseReceiveCredit + e.reverseReturnPending + e.sources.total fun _ r => r.reverseInFlight

/-- An entry that is not closed, between the steps of its methods. -/
structure Open (e : Entry) : Prop where
  live : e.closed = false
  pool : e.forwardPool.Conserved
  poolLive : e.forwardPool.closed = false
  link : e.link.destroyed = false
  reverse : e.reverseSum ≤ circuitWindow
  legs : ∀ id leg, e.forwardPool.legs.get? id = some leg →
    ∃ r, e.sources.get? id = some r ∧ r.attached = true
  attached : ∀ id r, e.sources.get? id = some r → r.attached = true →
    (∃ leg, e.forwardPool.legs.get? id = some leg) ∧
      ∃ l, e.links.get? id = some l ∧ l.destroyed = false
  linked : ∀ id r, e.sources.get? id = some r → ∃ l, e.links.get? id = some l
  gone : ∀ id l, e.links.get? id = some l → e.sources.get? id = none → l.destroyed = true
  ids : ∀ id l, e.links.get? id = some l → 2 ≤ id ∧ id % 2 = 0 ∧ id < e.nextStreamId
  even : 2 ≤ e.nextStreamId ∧ e.nextStreamId % 2 = 0

/-- `e'` is `e` closed: no leg is left, and every link is destroyed. -/
structure Shut (e e' : Entry) : Prop where
  closed : e'.closed = true
  poolClosed : e'.forwardPool.closed = true
  available : e'.forwardPool.available = 0
  sources : e'.sources = .empty
  links : ∀ id, e'.links.get? id = (e.links.get? id).map Link.destroy
  link : e'.link = e.link.destroy
  faults : e'.faults = e.faults
  spliced : e'.spliced = e.spliced
  nextStreamId : e'.nextStreamId = e.nextStreamId

/-- `leg'` is `leg` granted `n` more cells of its demand. -/
structure Granted (leg leg' : Leg) (n : Nat) : Prop where
  serial : leg'.serial = leg.serial
  granted : leg'.granted = leg.granted + n
  wanted : leg'.wanted + n = leg.wanted
  demandOpen : leg'.demandOpen = leg.demandOpen
  lastDemandAt : leg'.lastDemandAt = leg.lastDemandAt
  progress : leg'.progress = leg.progress

/-- A leg's link after a drift: destroyed, or sent some circuit CREDIT. -/
def LegDrift (l l' : Link) : Prop :=
  l' = l.destroy ∨ ∃ cs, l' = l.admits (creditFrames cs) ∧ (l.destroyed = true → cs = [])

/-- `e'` is `e` after some grants and closed legs, with `d` more reverse credit. -/
structure Drift (d : Int) (e e' : Entry) : Prop where
  spliced : e'.spliced = e.spliced
  retired : e'.retired = e.retired
  nextStreamId : e'.nextStreamId = e.nextStreamId
  faults : e'.faults = e.faults
  sources : ∀ id r, e'.sources.get? id = some r → e.sources.get? id = some r
  reverse : (e'.reverseSum : Int) = e.reverseSum + d
  inFlight : e'.forwardPool.inFlight = e.forwardPool.inFlight
  distributing : e'.forwardPool.distributing = e.forwardPool.distributing
  links : ∀ id l, e.links.get? id = some l → ∃ l', e'.links.get? id = some l' ∧ LegDrift l l'
  noLink : ∀ id, e.links.get? id = none → e'.links.get? id = none
  legs : ∀ id leg', e'.forwardPool.legs.get? id = some leg' → ∃ leg l cs,
    e.forwardPool.legs.get? id = some leg ∧ e.links.get? id = some l ∧
    e'.links.get? id = some (l.admits (creditFrames cs)) ∧ Granted leg leg' cs.sum
  out : ∃ fs, e'.link = e.link.admits fs ∧
    e'.reverseReceiveCredit = e.reverseReceiveCredit + (fs.map Frame.circuitCredit).sum ∧
    ∀ f ∈ fs, (∃ n, f = ⟨circuitStreamId, .credit n⟩ ∧ 0 < n ∧ n ≤ circuitWindow) ∨
      ∃ id, f = ⟨id, .reset⟩ ∧ (∃ r, e.sources.get? id = some r) ∧ e'.sources.get? id = none

theorem LegDrift.refl (l : Link) : LegDrift l l := .inr ⟨[], rfl, fun _ => rfl⟩

theorem LegDrift.trans {l l' l'' : Link} (h : LegDrift l l') (h' : LegDrift l' l'') :
    LegDrift l l'' := by
  rcases h' with rfl | ⟨ds, rfl, hds⟩
  · rcases h with rfl | ⟨cs, rfl, -⟩
    · exact .inl (Link.destroy_destroy l)
    · exact .inl (Link.destroy_admits l _)
  · rcases h with rfl | ⟨cs, rfl, hcs⟩
    · exact .inl (by rw [hds rfl]; rfl)
    · refine .inr ⟨cs ++ ds, by rw [creditFrames_append, Link.admits_append], fun hl => ?_⟩
      rw [hcs hl, hds (by rw [Link.destroyed_admits]; exact hl)]
      rfl

theorem LegDrift.destroy_eq {l l' : Link} (h : LegDrift l l') : l'.destroy = l.destroy := by
  rcases h with rfl | ⟨cs, rfl, -⟩
  · rfl
  · exact Link.destroy_admits l _

theorem Granted.refl (leg : Leg) : Granted leg leg 0 := ⟨rfl, rfl, rfl, rfl, rfl, rfl⟩

theorem Granted.trans {leg leg' leg'' : Leg} {m n : Nat} (h : Granted leg leg' m)
    (h' : Granted leg' leg'' n) : Granted leg leg'' (m + n) where
  serial := h'.serial.trans h.serial
  granted := by rw [h'.granted, h.granted, Nat.add_assoc]
  wanted := by
    have h₁ := h.wanted
    have h₂ := h'.wanted
    omega
  demandOpen := h'.demandOpen.trans h.demandOpen
  lastDemandAt := h'.lastDemandAt.trans h.lastDemandAt
  progress := h'.progress.trans h.progress

theorem Drift.refl {e : Entry} (h : e.Open) : Drift 0 e e where
  spliced := rfl
  retired := rfl
  nextStreamId := rfl
  faults := rfl
  sources _ _ hr := hr
  reverse := by rw [Int.add_zero]
  inFlight := rfl
  distributing := rfl
  links _ l hl := ⟨l, hl, .refl l⟩
  noLink _ hl := hl
  legs id leg hleg := by
    obtain ⟨r, hr, ha⟩ := h.legs id leg hleg
    obtain ⟨-, l, hl, -⟩ := h.attached id r hr ha
    exact ⟨leg, l, [], hleg, hl, hl, .refl leg⟩
  out := ⟨[], rfl, rfl, by simp⟩

theorem Drift.trans {d d' : Int} {e e' e'' : Entry} (h : Drift d e e') (h' : Drift d' e' e'') :
    Drift (d + d') e e'' where
  spliced := h'.spliced.trans h.spliced
  retired := h'.retired.trans h.retired
  nextStreamId := h'.nextStreamId.trans h.nextStreamId
  faults := h'.faults.trans h.faults
  sources id r hr := h.sources id r (h'.sources id r hr)
  reverse := by rw [h'.reverse, h.reverse, Int.add_assoc]
  inFlight := h'.inFlight.trans h.inFlight
  distributing := h'.distributing.trans h.distributing
  links id l hl := by
    obtain ⟨l', hl', hd⟩ := h.links id l hl
    obtain ⟨l'', hl'', hd'⟩ := h'.links id l' hl'
    exact ⟨l'', hl'', hd.trans hd'⟩
  noLink id hl := h'.noLink id (h.noLink id hl)
  legs id leg'' hleg'' := by
    obtain ⟨leg', l', ds, hleg', hl', hl'', hg'⟩ := h'.legs id leg'' hleg''
    obtain ⟨leg, l, cs, hleg, hl, hl₁, hg⟩ := h.legs id leg' hleg'
    obtain rfl : l.admits (creditFrames cs) = l' := Option.some.inj (hl₁.symm.trans hl')
    refine ⟨leg, l, cs ++ ds, hleg, hl, ?_, ?_⟩
    · rw [hl'', creditFrames_append, Link.admits_append]
    · rw [List.sum_append]
      exact hg.trans hg'
  out := by
    obtain ⟨fs, hl, hc, hfs⟩ := h.out
    obtain ⟨gs, hl', hc', hgs⟩ := h'.out
    refine ⟨fs ++ gs, by rw [hl', hl, Link.admits_append], ?_, fun f hf => ?_⟩
    · rw [hc', hc, List.map_append, List.sum_append, Nat.add_assoc]
    · rcases List.mem_append.mp hf with hf | hf
      · rcases hfs f hf with hcredit | ⟨id, rfl, hs, hn⟩
        · exact .inl hcredit
        · refine .inr ⟨id, rfl, hs, ?_⟩
          cases hn' : e''.sources.get? id with
          | none => rfl
          | some r => exact absurd ((h'.sources id r hn').symm.trans hn) (by simp)
      · rcases hgs f hf with hcredit | ⟨id, rfl, ⟨r, hr⟩, hn⟩
        · exact .inl hcredit
        · exact .inr ⟨id, rfl, ⟨r, h.sources id r hr⟩, hn⟩

theorem Shut.of_drift {d : Int} {e e' e'' : Entry} (h : Drift d e e') (hs : Shut e' e'') :
    Shut e e'' where
  closed := hs.closed
  poolClosed := hs.poolClosed
  available := hs.available
  sources := hs.sources
  links id := by
    rw [hs.links id]
    cases hl : e.links.get? id with
    | none => rw [h.noLink id hl]
    | some l =>
      obtain ⟨l', hl', hd⟩ := h.links id l hl
      rw [hl', Option.map_some, hd.destroy_eq, Option.map_some]
  link := by
    obtain ⟨fs, hl, -, -⟩ := h.out
    rw [hs.link, hl, Link.destroy_admits]
  faults := hs.faults.trans h.faults
  spliced := hs.spliced.trans h.spliced
  nextStreamId := hs.nextStreamId.trans h.nextStreamId

def Drifts (d : Int) (e e' : Entry) : Prop := Shut e e' ∨ e'.Open ∧ Drift d e e'

/-! ## Closing the entry, and sending on the shared link -/

theorem shut_destroy {e : Entry} (h : e.Open) : Shut e e.destroy := by
  unfold destroy
  rw [if_neg (by rw [h.live]; decide)]
  exact ⟨rfl, rfl, rfl, rfl, fun id => JsMap.get?_mapValues _ _ _, rfl, rfl, rfl, rfl⟩

/-- The parts of `Open` that a change of the shared link's queue leaves alone. -/
theorem Open.setLink {e : Entry} (h : e.Open) {l : Link} (hl : l.destroyed = false) :
    Open { e with link := l } :=
  ⟨h.live, h.pool, h.poolLive, hl, h.reverse, h.legs, h.attached, h.linked, h.gone, h.ids, h.even⟩

theorem sendOut_cases {e : Entry} (h : e.Open) (f : Frame) :
    Shut e (e.sendOut f) ∨
      Open { e with link := e.link.enqueue f } ∧ e.sendOut f = { e with link := e.link.enqueue f } := by
  unfold sendOut
  rw [if_neg (by rw [h.link]; decide)]
  split
  · exact .inl (shut_destroy h)
  · exact .inr ⟨h.setLink h.link, rfl⟩

theorem drifts_returnReverse {e : Entry} (h : e.Open) (amount : Nat)
    (hsum : e.reverseSum + amount ≤ circuitWindow) (flush : Bool) :
    Drifts amount e (e.returnReverse amount flush) := by
  have hdrift : ∀ (link : Link) (fs : List Frame) (credit pending : Nat) (timer : Bool),
      link = e.link.admits fs →
      credit = e.reverseReceiveCredit + (fs.map Frame.circuitCredit).sum →
      credit + pending = e.reverseReceiveCredit + e.reverseReturnPending + amount →
      (∀ f ∈ fs, ∃ n, f = ⟨circuitStreamId, .credit n⟩ ∧ 0 < n ∧ n ≤ circuitWindow) →
      Drift amount e { e with
        link, reverseReceiveCredit := credit, reverseReturnPending := pending,
        returnTimer := timer } := by
    intro link fs credit pending timer hlink hcredit hpending hfs
    have hr := Drift.refl h
    refine ⟨rfl, rfl, rfl, rfl, hr.sources, ?_, rfl, rfl, hr.links, hr.noLink, hr.legs,
      ⟨fs, hlink, hcredit, fun f hf => .inl (hfs f hf)⟩⟩
    simp only [reverseSum]
    omega
  have hopen : ∀ (link : Link) (credit pending : Nat) (timer : Bool), link.destroyed = false →
      credit + pending = e.reverseReceiveCredit + e.reverseReturnPending + amount →
      Open { e with
        link, reverseReceiveCredit := credit, reverseReturnPending := pending,
        returnTimer := timer } := by
    intro link credit pending timer hlink hpending
    refine ⟨h.live, h.pool, h.poolLive, hlink, ?_, h.legs, h.attached, h.linked, h.gone, h.ids,
      h.even⟩
    simp only [reverseSum] at hsum ⊢
    omega
  have hwindow : e.reverseReceiveCredit + (e.reverseReturnPending + amount) ≤ circuitWindow := by
    simp only [reverseSum] at hsum
    omega
  unfold returnReverse
  rw [if_neg (by rw [h.live]; decide)]
  dsimp only
  split
  · next hzero =>
    exact .inr ⟨hopen e.link _ _ _ h.link (by omega), hdrift e.link [] _ _ _ rfl rfl (by omega)
      (by simp)⟩
  · next hpos =>
    split
    · exact .inr ⟨hopen e.link _ _ _ h.link (by omega), hdrift e.link [] _ _ _ rfl rfl (by omega)
        (by simp)⟩
    · rw [if_neg (by omega)]
      have hpre := hopen e.link (e.reverseReceiveCredit + (e.reverseReturnPending + amount)) 0 false
        h.link (by omega)
      rcases sendOut_cases hpre ⟨circuitStreamId, .credit (e.reverseReturnPending + amount)⟩ with
        hs | ⟨ho, he⟩
      · exact .inl ⟨hs.closed, hs.poolClosed, hs.available, hs.sources, hs.links, hs.link,
          hs.faults, hs.spliced, hs.nextStreamId⟩
      · rw [he]
        refine .inr ⟨ho, hdrift _ [_] (e.reverseReceiveCredit + (e.reverseReturnPending + amount)) 0
          false rfl ?_ (by omega) ?_⟩
        · simp [Frame.circuitCredit, Frame.creditOf]
        · intro f hf
          obtain rfl := List.mem_singleton.mp hf
          exact ⟨_, rfl, by omega, by omega⟩

/-! ## Closing a leg -/

/-- `p` is the pool of `e` but for the leg of `id`. -/
structure PoolBut (id : Nat) (e : Entry) (p : Pool Nat) : Prop where
  pool : p.Conserved
  live : p.closed = false
  inFlight : p.inFlight = e.forwardPool.inFlight
  distributing : p.distributing = e.forwardPool.distributing
  leg : ∃ leg, p.legs.get? id = some leg
  legs : ∀ id', id' ≠ id → p.legs.get? id' = e.forwardPool.legs.get? id'

/-- Taking a leg out: its reverse credit is still to be given back. -/
theorem drift_detach {e : Entry} (h : e.Open) {id : Nat} {p : Pool Nat} (hp : PoolBut id e p)
    {l : Link} {r : Record} (hl : e.links.get? id = some l) (hr : e.sources.get? id = some r) :
    ({ e with forwardPool := p }.detach id l).2 = true ∧
      ({ e with forwardPool := p }.detach id l).1.Open ∧
      Drift (-(r.reverseInFlight : Int)) e ({ e with forwardPool := p }.detach id l).1 := by
  obtain ⟨leg, hleg⟩ := hp.leg
  obtain ⟨hflag, hin, hcl, hdist, hlegs⟩ := Pool.remove_frame hleg
  have htotal := JsMap.total_delete hr fun _ r => r.reverseInFlight
  have hsum : ({ e with forwardPool := p }.detach id l).1.reverseSum + r.reverseInFlight =
      e.reverseSum := by
    simp only [detach, reverseSum]
    omega
  have hsources : ∀ id' r', (e.sources.delete id).get? id' = some r' →
      id' ≠ id ∧ e.sources.get? id' = some r' := by
    intro id' r' h'
    rw [JsMap.get?_delete] at h'
    split at h'
    · cases h'
    · next hne => exact ⟨hne, h'⟩
  have hlegs' : ∀ id' leg', (p.remove id).1.legs.get? id' = some leg' →
      id' ≠ id ∧ e.forwardPool.legs.get? id' = some leg' := by
    intro id' leg' h'
    rw [hlegs] at h'
    split at h'
    · cases h'
    · next hne => exact ⟨hne, (hp.legs id' hne).symm.trans h'⟩
  refine ⟨hflag, ⟨h.live, (Pool.conserved_remove hp.pool id).1, hcl.trans hp.live, h.link, ?_, ?_,
    ?_, ?_, ?_, ?_, h.even⟩, ⟨rfl, rfl, rfl, rfl, ?_, ?_, hin.trans hp.inFlight,
    hdist.trans hp.distributing, ?_, ?_, ?_, ?_⟩⟩
  · have := h.reverse
    omega
  · intro id' leg' h'
    obtain ⟨hne, hleg'⟩ := hlegs' id' leg' h'
    obtain ⟨r', hr', ha'⟩ := h.legs id' leg' hleg'
    exact ⟨r', (JsMap.get?_delete_ne _ hne).trans hr', ha'⟩
  · intro id' r' h' ha'
    obtain ⟨hne, hr'⟩ := hsources id' r' h'
    obtain ⟨⟨leg', hleg'⟩, l', hl', hd'⟩ := h.attached id' r' hr' ha'
    refine ⟨⟨leg', ?_⟩, l', (JsMap.get?_set_ne _ _ hne).trans hl', hd'⟩
    show (p.remove id).1.legs.get? id' = some leg'
    rw [hlegs, if_neg hne, hp.legs id' hne, hleg']
  · intro id' r' h'
    obtain ⟨hne, hr'⟩ := hsources id' r' h'
    obtain ⟨l', hl'⟩ := h.linked id' r' hr'
    exact ⟨l', (JsMap.get?_set_ne _ _ hne).trans hl'⟩
  · intro id' l' h' hn'
    change (e.links.set id l.destroy).get? id' = some l' at h'
    change (e.sources.delete id).get? id' = none at hn'
    rw [JsMap.get?_set] at h'
    rw [JsMap.get?_delete] at hn'
    split at h'
    · cases h'
      rfl
    · next hne =>
      rw [if_neg hne] at hn'
      exact h.gone id' l' h' hn'
  · intro id' l' h'
    change (e.links.set id l.destroy).get? id' = some l' at h'
    rw [JsMap.get?_set] at h'
    split at h'
    · next heq =>
      rw [heq]
      exact h.ids id l hl
    · exact h.ids id' l' h'
  · intro id' r' h'
    exact (hsources id' r' h').2
  · omega
  · intro id' l' h'
    by_cases hid : id' = id
    · subst hid
      rw [hl] at h'
      cases h'
      exact ⟨l.destroy, JsMap.get?_set_self _ _ _, .inl rfl⟩
    · exact ⟨l', (JsMap.get?_set_ne _ _ hid).trans h', .refl l'⟩
  · intro id' h'
    have hid : id' ≠ id := by
      rintro rfl
      rw [hl] at h'
      cases h'
    exact (JsMap.get?_set_ne _ _ hid).trans h'
  · intro id' leg' h'
    obtain ⟨hne, hleg'⟩ := hlegs' id' leg' h'
    obtain ⟨r', hr', ha'⟩ := h.legs id' leg' hleg'
    obtain ⟨-, l', hl', -⟩ := h.attached id' r' hr' ha'
    exact ⟨leg', l', [], hleg', hl', (JsMap.get?_set_ne _ _ hne).trans hl', .refl leg'⟩
  · exact ⟨[], rfl, rfl, by simp⟩

theorem Drift.sources_none {d : Int} {e e' : Entry} (h : Drift d e e') {id : Nat}
    (hn : e.sources.get? id = none) : e'.sources.get? id = none := by
  cases h' : e'.sources.get? id with
  | none => rfl
  | some r => exact absurd ((h.sources id r h').symm.trans hn) (by simp)

theorem Drift.reset {d : Int} {e e' : Entry} (h : Drift d e e') {id : Nat} {r : Record}
    (hr : e.sources.get? id = some r) (hn : e'.sources.get? id = none) :
    Drift d e { e' with link := e'.link.enqueue ⟨id, .reset⟩ } := by
  refine ⟨h.spliced, h.retired, h.nextStreamId, h.faults, h.sources, h.reverse, h.inFlight,
    h.distributing, h.links, h.noLink, h.legs, ?_⟩
  obtain ⟨fs, hl, hc, hfs⟩ := h.out
  refine ⟨fs ++ [⟨id, .reset⟩], ?_, ?_, fun f hf => ?_⟩
  · rw [Link.admits_append, ← hl]
    rfl
  · rw [List.map_append, List.sum_append]
    simpa [Frame.circuitCredit, Frame.creditOf] using hc
  · rcases List.mem_append.mp hf with hf | hf
    · exact hfs f hf
    · obtain rfl := List.mem_singleton.mp hf
      exact .inr ⟨id, rfl, ⟨r, hr⟩, hn⟩

theorem afterClose_of_closed {e : Entry} (h : e.closed = true) (id : Nat) (r : Record) :
    e.afterClose id r = e := by
  have hret : e.returnReverse r.reverseInFlight true = e := by
    unfold returnReverse
    rw [if_pos h]
  unfold afterClose
  rw [hret]
  exact if_pos (.inl h)

/-- The end of a close handler gives back what the record held. -/
theorem drifts_afterClose {e₀ e : Entry} (h : e.Open) {id : Nat} {r : Record}
    (hd : Drift (-(r.reverseInFlight : Int)) e₀ e) (h₀ : e₀.Open)
    (hr : e₀.sources.get? id = some r) (hn : e.sources.get? id = none) :
    Drifts 0 e₀ (e.afterClose id r) := by
  have hsum : e.reverseSum + r.reverseInFlight ≤ circuitWindow := by
    have h₁ := hd.reverse
    have h₂ := h₀.reverse
    omega
  have hzero : (-(r.reverseInFlight : Int)) + r.reverseInFlight = 0 := by omega
  unfold afterClose
  rcases drifts_returnReverse h _ hsum true with hs | ⟨ho, hd'⟩
  · dsimp only
    rw [if_pos (.inl hs.closed)]
    exact .inl (.of_drift hd hs)
  · have hd₁ : Drift 0 e₀ (e.returnReverse r.reverseInFlight true) := by
      rw [← hzero]
      exact hd.trans hd'
    dsimp only
    split
    · exact .inr ⟨ho, hd₁⟩
    · rcases sendOut_cases ho ⟨id, .reset⟩ with hs | ⟨ho', he⟩
      · exact .inl (.of_drift hd₁ hs)
      · rw [he]
        exact .inr ⟨ho', hd₁.reset hr (hd'.sources_none hn)⟩

/-- Only a link changed, and it is destroyed: the leg of a record without handlers. -/
theorem drift_destroyLink {e : Entry} (h : e.Open) {id : Nat} {l : Link}
    (hl : e.links.get? id = some l)
    (hnot : ∀ r, e.sources.get? id = some r → r.attached = false) :
    Drifts 0 e { e with links := e.links.set id l.destroy } := by
  have hne : ∀ id' r, e.sources.get? id' = some r → r.attached = true → id' ≠ id := by
    rintro id' r hr ha rfl
    rw [hnot r hr] at ha
    cases ha
  refine .inr ⟨⟨h.live, h.pool, h.poolLive, h.link, h.reverse, h.legs, ?_, ?_, ?_, ?_, h.even⟩,
    ⟨rfl, rfl, rfl, rfl, fun _ _ hr => hr, ?_, rfl, rfl, ?_, ?_, ?_, ⟨[], rfl, rfl, by simp⟩⟩⟩
  · intro id' r hr ha
    obtain ⟨hleg, l', hl', hd'⟩ := h.attached id' r hr ha
    exact ⟨hleg, l', (JsMap.get?_set_ne _ _ (hne id' r hr ha)).trans hl', hd'⟩
  · intro id' r hr
    show ∃ l', (e.links.set id l.destroy).get? id' = some l'
    by_cases hid : id' = id
    · exact ⟨l.destroy, by rw [hid, JsMap.get?_set_self]⟩
    · rw [JsMap.get?_set_ne _ _ hid]
      exact h.linked id' r hr
  · intro id' l' h' hn
    change (e.links.set id l.destroy).get? id' = some l' at h'
    rw [JsMap.get?_set] at h'
    split at h'
    · cases h'
      rfl
    · exact h.gone id' l' h' hn
  · intro id' l' h'
    change (e.links.set id l.destroy).get? id' = some l' at h'
    rw [JsMap.get?_set] at h'
    split at h'
    · next heq =>
      rw [heq]
      exact h.ids id l hl
    · exact h.ids id' l' h'
  · show (e.reverseSum : Int) = e.reverseSum + 0
    omega
  · intro id' l' h'
    show ∃ l'', (e.links.set id l.destroy).get? id' = some l'' ∧ _
    by_cases hid : id' = id
    · subst hid
      rw [hl] at h'
      cases h'
      exact ⟨l.destroy, JsMap.get?_set_self _ _ _, .inl rfl⟩
    · exact ⟨l', (JsMap.get?_set_ne _ _ hid).trans h', .refl l'⟩
  · intro id' h'
    have hid : id' ≠ id := by
      rintro rfl
      rw [hl] at h'
      cases h'
    exact (JsMap.get?_set_ne _ _ hid).trans h'
  · intro id' leg' h'
    obtain ⟨r, hr, ha⟩ := h.legs id' leg' h'
    obtain ⟨-, l', hl', -⟩ := h.attached id' r hr ha
    exact ⟨leg', l', [], h', hl', (JsMap.get?_set_ne _ _ (hne id' r hr ha)).trans hl', .refl leg'⟩

theorem PoolBut.self {e : Entry} (h : e.Open) {id : Nat} {r : Record}
    (hr : e.sources.get? id = some r) (ha : r.attached = true) : PoolBut id e e.forwardPool :=
  ⟨h.pool, h.poolLive, rfl, rfl, (h.attached id r hr ha).1, fun _ _ => rfl⟩

/-- Closing the leg of a record with handlers, given what the distribution in
it does; a grant may have preceded. -/
theorem drifts_closeAttached {e : Entry} (h : e.Open) {id : Nat} {p : Pool Nat}
    (hp : PoolBut id e p) {l : Link} {r : Record} (hl : e.links.get? id = some l)
    (hlive : l.destroyed = false) (hr : e.sources.get? id = some r) (ha : r.attached = true)
    (distribute : Entry → Entry) (hdist : ∀ e' : Entry, e'.Open → Drifts 0 e' (distribute e')) :
    Drifts 0 e (closeWith distribute { e with forwardPool := p } id) := by
  obtain ⟨hflag, ho, hd⟩ := drift_detach h hp hl hr
  have hn : ({ e with forwardPool := p }.detach id l).1.sources.get? id = none :=
    JsMap.get?_delete_self _ _
  unfold closeWith
  dsimp only
  rw [hl]
  dsimp only
  rw [if_neg (by rw [hlive]; decide), hr]
  dsimp only
  rw [if_neg (by rw [ha]; decide)]
  split
  · next e₁ he =>
    rw [he] at ho hd hn
    rcases hdist e₁ ho with hs | ⟨ho', hd'⟩
    · rw [afterClose_of_closed hs.closed]
      exact .inl (.of_drift hd hs)
    · have hd₁ := hd.trans hd'
      rw [Int.add_zero] at hd₁
      exact drifts_afterClose ho' hd₁ h hr (hd'.sources_none hn)
  · next e₁ he =>
    rw [he] at hflag
    cases hflag

/-- Closing a leg, given what the distribution in it does. -/
theorem drifts_closeWith {e : Entry} (h : e.Open) (distribute : Entry → Entry)
    (hdist : ∀ e' : Entry, e'.Open → Drifts 0 e' (distribute e')) (id : Nat) :
    Drifts 0 e (closeWith distribute e id) := by
  have hrefl : Drifts 0 e e := .inr ⟨h, .refl h⟩
  cases hl : e.links.get? id with
  | none =>
    unfold closeWith
    rw [hl]
    exact hrefl
  | some l =>
    cases hlive : l.destroyed with
    | true =>
      unfold closeWith
      rw [hl]
      dsimp only
      rw [if_pos hlive]
      exact hrefl
    | false =>
      by_cases hatt : ∃ r, e.sources.get? id = some r ∧ r.attached = true
      · obtain ⟨r, hr, ha⟩ := hatt
        exact drifts_closeAttached h (.self h hr ha) hl hlive hr ha distribute hdist
      · have hnot : ∀ r, e.sources.get? id = some r → r.attached = false := fun r hr =>
          Bool.eq_false_iff.mpr fun ha => hatt ⟨r, hr, ha⟩
        have he : closeWith distribute e id = { e with links := e.links.set id l.destroy } := by
          unfold closeWith
          rw [hl]
          dsimp only
          rw [if_neg (by rw [hlive]; decide)]
          split
          · rfl
          · next r hr => rw [if_pos (hnot r hr)]
        rw [he]
        exact drift_destroyLink h hl hnot

/-! ## Grants -/

theorem grant_frame {p : Pool Nat} {ref : LegRef Nat} {rest : List (LegRef Nat)} {leg : Leg}
    {amount : Nat} (hg : p.Grantable ref rest leg amount) (now : Int) :
    ∃ leg', Granted leg leg' amount ∧ ∀ id, (p.grant ref rest leg amount now).legs.get? id =
      if id = ref.owner then some leg' else p.legs.get? id := by
  refine ⟨{ leg with
    granted := leg.granted + amount
    wanted := leg.wanted - amount
    lastActivity := now
    idleTimer := true }, ⟨rfl, rfl, ?_, rfl, rfl, rfl⟩, fun id => ?_⟩
  · have := hg.le_wanted
    show leg.wanted - amount + amount = leg.wanted
    omega
  · exact JsMap.get?_set _ _ _ _

theorem Open.admitLeg {e : Entry} (h : e.Open) {id : Nat} {l : Link}
    (hl : e.links.get? id = some l) (f : Frame) (p : Pool Nat)
    (hp : p.Conserved) (hpl : p.closed = false)
    (hlegs : ∀ id', (∃ leg, p.legs.get? id' = some leg) ↔
      ∃ leg, e.forwardPool.legs.get? id' = some leg) :
    Open { e with forwardPool := p, links := e.links.set id (l.enqueue f) } := by
  have hset : ∀ id' l', (e.links.set id (l.enqueue f)).get? id' = some l' →
      ∃ l₀, e.links.get? id' = some l₀ ∧ l'.destroyed = l₀.destroyed := by
    intro id' l' h'
    rw [JsMap.get?_set] at h'
    split at h'
    · next heq =>
      cases h'
      exact ⟨l, by rw [heq]; exact hl, rfl⟩
    · exact ⟨l', h', rfl⟩
  have hget : ∀ id' l₀, e.links.get? id' = some l₀ →
      ∃ l', (e.links.set id (l.enqueue f)).get? id' = some l' ∧ l'.destroyed = l₀.destroyed := by
    intro id' l₀ h'
    by_cases heq : id' = id
    · subst heq
      rw [hl] at h'
      cases h'
      exact ⟨_, JsMap.get?_set_self _ _ _, rfl⟩
    · exact ⟨l₀, (JsMap.get?_set_ne _ _ heq).trans h', rfl⟩
  refine ⟨h.live, hp, hpl, h.link, h.reverse, ?_, ?_, ?_, ?_, ?_, h.even⟩
  · intro id' leg' h'
    obtain ⟨leg, hleg⟩ := (hlegs id').mp ⟨leg', h'⟩
    exact h.legs id' leg hleg
  · intro id' r hr ha
    obtain ⟨hleg, l', hl', hd'⟩ := h.attached id' r hr ha
    obtain ⟨l'', hl'', hd''⟩ := hget id' l' hl'
    exact ⟨(hlegs id').mpr hleg, l'', hl'', hd''.trans hd'⟩
  · intro id' r hr
    obtain ⟨l', hl'⟩ := h.linked id' r hr
    obtain ⟨l'', hl'', -⟩ := hget id' l' hl'
    exact ⟨l'', hl''⟩
  · intro id' l' h' hn
    obtain ⟨l₀, hl₀, hd⟩ := hset id' l' h'
    rw [hd]
    exact h.gone id' l₀ hl₀ hn
  · intro id' l' h'
    obtain ⟨l₀, hl₀, -⟩ := hset id' l' h'
    exact h.ids id' l₀ hl₀

theorem drifts_grant {e : Entry} (h : e.Open) {ref : LegRef Nat} {rest : List (LegRef Nat)}
    {leg : Leg} {amount : Nat} (hg : e.forwardPool.Grantable ref rest leg amount) (now : Int) :
    Drifts 0 e (host.onGrant ref.owner amount
      (host.setPool e (e.forwardPool.grant ref rest leg amount now))).1 := by
  obtain ⟨r, hr, ha⟩ := h.legs ref.owner leg hg.registered
  obtain ⟨-, l, hl, hlive⟩ := h.attached ref.owner r hr ha
  obtain ⟨leg', hgr, hlegs⟩ := grant_frame hg now
  have hcons := (Pool.conserved_grant h.pool hg now).1
  have hbut : PoolBut ref.owner e (e.forwardPool.grant ref rest leg amount now) :=
    ⟨hcons, h.poolLive, rfl, rfl, ⟨leg', by rw [hlegs, if_pos rfl]⟩,
      fun id' hne => by rw [hlegs, if_neg hne]⟩
  show Drifts 0 e (sendWith (fun e => e)
    { e with forwardPool := e.forwardPool.grant ref rest leg amount now } ref.owner
    ⟨circuitStreamId, .credit amount⟩)
  unfold sendWith
  dsimp only
  rw [hl]
  dsimp only
  rw [if_neg (by rw [hlive]; decide)]
  split
  · exact drifts_closeAttached h hbut hl hlive hr ha _ fun _ ho => .inr ⟨ho, .refl ho⟩
  · refine .inr ⟨h.admitLeg hl _ _ hcons h.poolLive ?_, ?_⟩
    · intro id'
      rw [hlegs]
      split
      · next heq =>
        rw [heq]
        exact ⟨fun _ => ⟨leg, hg.registered⟩, fun _ => ⟨leg', rfl⟩⟩
      · exact Iff.rfl
    · refine ⟨rfl, rfl, rfl, rfl, fun _ _ hr => hr, (Int.add_zero _).symm, rfl, rfl, ?_, ?_, ?_,
        ⟨[], rfl, rfl, by simp⟩⟩
      · intro id' l' h'
        by_cases heq : id' = ref.owner
        · subst heq
          obtain rfl := Option.some.inj (hl.symm.trans h')
          refine ⟨_, JsMap.get?_set_self _ _ _, .inr ⟨[amount], rfl, fun hd => ?_⟩⟩
          rw [hlive] at hd
          cases hd
        · exact ⟨l', (JsMap.get?_set_ne _ _ heq).trans h', .refl l'⟩
      · intro id' h'
        have heq : id' ≠ ref.owner := by
          rintro rfl
          rw [hl] at h'
          cases h'
        exact (JsMap.get?_set_ne _ _ heq).trans h'
      · intro id' leg₁ h'
        change (e.forwardPool.grant ref rest leg amount now).legs.get? id' = some leg₁ at h'
        rw [hlegs] at h'
        split at h'
        · next heq =>
          cases h'
          subst heq
          refine ⟨leg, l, [amount], hg.registered, hl, JsMap.get?_set_self _ _ _, ?_⟩
          rw [List.sum_singleton]
          exact hgr
        · next heq =>
          obtain ⟨r', hr', ha'⟩ := h.legs id' leg₁ h'
          obtain ⟨-, l', hl', -⟩ := h.attached id' r' hr' ha'
          exact ⟨leg₁, l', [], h', hl', (JsMap.get?_set_ne _ _ heq).trans hl', .refl leg₁⟩

/-- The loop of `_distribute` keeps an entry open with a drift, or closes it. -/
theorem host_keeps (e : Entry) (now : Int) : host.Keeps (Drifts 0 e) now where
  conserved e' h hm := by
    rcases h with hs | ⟨ho, -⟩
    · have hav : 0 < e'.forwardPool.available := hm.1
      rw [hs.available] at hav
      exact absurd hav (Nat.lt_irrefl 0)
    · exact ho.pool
  grant e' ref rest leg amount h hg := by
    rcases h with hs | ⟨ho, hd⟩
    · have hpos := hg.pos
      have hav : amount ≤ e'.forwardPool.available := hg.le_available
      rw [hs.available] at hav
      omega
    · rcases drifts_grant ho hg now with hs | ⟨ho', hd'⟩
      · exact .inl (.of_drift hd hs)
      · exact .inr ⟨ho', hd.trans hd'⟩

theorem Open.setDistributing {e : Entry} (h : e.Open) (b : Bool) :
    Open { e with forwardPool := { e.forwardPool with distributing := b } } :=
  ⟨h.live, h.pool.congr rfl rfl rfl rfl, h.poolLive, h.link, h.reverse, h.legs, h.attached,
    h.linked, h.gone, h.ids, h.even⟩

theorem drifts_distribute {e : Entry} (h : e.Open) (now : Int) :
    Drifts 0 e (e.distribute now) := by
  unfold distribute
  rcases @Host.distribute_cases _ _ _ host now
      ((e.forwardPool.legs.total fun _ leg => leg.wanted) + 1) e with
    ⟨-, he⟩ | ⟨-, hdist, s', threw, hr, he⟩
  · rw [he]
    exact .inr ⟨h, .refl h⟩
  · have hstart := h.setDistributing true
    have hloop := Host.rounds_keeps
      (host_keeps { e with forwardPool := { e.forwardPool with distributing := true } } now)
      ((e.forwardPool.legs.total fun _ leg => leg.wanted) + 1) (.inr ⟨hstart, .refl hstart⟩)
    rw [show host.rounds now _ { e with
        forwardPool := { e.forwardPool with distributing := true } } = _ from hr] at hloop
    rw [he]
    rcases hloop with hs | ⟨ho, hd⟩
    · exact .inl ⟨hs.closed, hs.poolClosed, hs.available, hs.sources, hs.links, hs.link, hs.faults,
        hs.spliced, hs.nextStreamId⟩
    · exact .inr ⟨ho.setDistributing false, hd.spliced, hd.retired, hd.nextStreamId, hd.faults,
        hd.sources, hd.reverse, hd.inFlight, hdist.symm, hd.links, hd.noLink, hd.legs, hd.out⟩

theorem drifts_closeLeg {e : Entry} (h : e.Open) (now : Int) (id : Nat) :
    Drifts 0 e (closeLeg now e id) :=
  drifts_closeWith h _ (fun _ ho => drifts_distribute ho now) id

/-- A send on the leg of a registered source: admitted, or the leg closes. -/
theorem sendLeg_cases {e : Entry} (h : e.Open) (now : Int) (id : Nat) (f : Frame) :
    Drifts 0 e (sendLeg now e id f) ∨ ∃ l, e.links.get? id = some l ∧ l.destroyed = false ∧
      Open { e with links := e.links.set id (l.enqueue f) } ∧
      sendLeg now e id f = { e with links := e.links.set id (l.enqueue f) } := by
  unfold sendLeg sendWith
  split
  · exact .inl (.inr ⟨h, .refl h⟩)
  · next l hl =>
    split
    · exact .inl (.inr ⟨h, .refl h⟩)
    · next hlive =>
      split
      · exact .inl (drifts_closeLeg h now id)
      · refine .inr ⟨l, hl, by simpa using hlive, ?_, rfl⟩
        exact h.admitLeg hl f e.forwardPool h.pool h.poolLive fun _ => Iff.rfl

/-! ## The loop ends -/

theorem wanted_destroy (e : Entry) : e.destroy.forwardPool.wanted ≤ e.forwardPool.wanted := by
  unfold destroy
  split
  · exact le_rfl
  · exact Nat.zero_le _

theorem wanted_sendOut (e : Entry) (f : Frame) :
    (e.sendOut f).forwardPool.wanted ≤ e.forwardPool.wanted := by
  unfold sendOut
  split
  · exact le_rfl
  · split
    · exact wanted_destroy e
    · exact le_rfl

theorem wanted_afterClose (e : Entry) (id : Nat) (r : Record) :
    (e.afterClose id r).forwardPool.wanted ≤ e.forwardPool.wanted := by
  have hret : (e.returnReverse r.reverseInFlight true).forwardPool.wanted ≤
      e.forwardPool.wanted := by
    unfold returnReverse
    split
    · exact le_rfl
    · dsimp only
      split
      · exact le_rfl
      · split
        · exact le_rfl
        · split
          · exact le_rfl
          · exact wanted_sendOut _ _
  unfold afterClose
  dsimp only
  split
  · exact hret
  · exact le_trans (wanted_sendOut _ _) hret

theorem wanted_closeIn {e : Entry} (h : e.forwardPool.Conserved) (id : Nat) :
    (e.closeIn id).forwardPool.wanted ≤ e.forwardPool.wanted := by
  unfold closeIn closeWith
  split
  · exact le_rfl
  · next l hl =>
    split
    · exact le_rfl
    · split
      · exact le_rfl
      · split
        · exact le_rfl
        · have hrem := (Pool.conserved_remove h id).2
          split
          · next e₁ he =>
            have hp : e₁.forwardPool = (e.forwardPool.remove id).1 := (congrArg
              (fun x : Entry × Bool => x.1.forwardPool) he).symm
            exact le_trans (wanted_afterClose _ _ _) (hp ▸ hrem)
          · next e₁ he =>
            have hp : e₁.forwardPool = (e.forwardPool.remove id).1 := (congrArg
              (fun x : Entry × Bool => x.1.forwardPool) he).symm
            exact le_trans (wanted_afterClose _ _ _) (hp ▸ hrem)

theorem host_lowers (e : Entry) (now : Int) :
    host.Lowers (Drifts 0 e) (fun e => e.forwardPool.wanted) now := by
  intro e' ref rest leg amount h hg
  have hcons : e'.forwardPool.Conserved := by
    rcases h with hs | ⟨ho, -⟩
    · have hpos := hg.pos
      have hav : amount ≤ e'.forwardPool.available := hg.le_available
      rw [hs.available] at hav
      omega
    · exact ho.pool
  obtain ⟨hc, hw⟩ := Pool.conserved_grant hcons hg now
  have hsend : (host.onGrant ref.owner amount (host.setPool e'
      (e'.forwardPool.grant ref rest leg amount now))).1.forwardPool.wanted ≤
      (e'.forwardPool.grant ref rest leg amount now).wanted := by
    show (sendWith (fun e => e) _ ref.owner _).forwardPool.wanted ≤ _
    unfold sendWith
    split
    · exact le_rfl
    · split
      · exact le_rfl
      · split
        · exact wanted_closeIn (e := { e' with
            forwardPool := e'.forwardPool.grant ref rest leg amount now }) hc ref.owner
        · exact le_rfl
  have hpos := hg.pos
  show _ < e'.forwardPool.wanted
  exact lt_of_le_of_lt hsend (by omega)

/-- With one round for each cell wanted the loop of `_distribute` runs to its end. -/
theorem distribute_settled {e : Entry} (h : e.Open) (hd : e.forwardPool.distributing = false)
    (now : Int) : (e.distribute now).forwardPool.Settled := by
  unfold distribute
  rcases @Host.distribute_cases _ _ _ host now
      ((e.forwardPool.legs.total fun _ leg => leg.wanted) + 1) e with
    ⟨hc | hc, -⟩ | ⟨-, -, s', threw, hr, he⟩
  · exact absurd (hc.symm.trans h.poolLive) (by decide)
  · exact absurd (hc.symm.trans hd) (by decide)
  · have hstart := h.setDistributing true
    have hsettled := Host.rounds_settled
      (host_keeps { e with forwardPool := { e.forwardPool with distributing := true } } now)
      (host_lowers { e with forwardPool := { e.forwardPool with distributing := true } } now)
      ((e.forwardPool.legs.total fun _ leg => leg.wanted) + 1) (.inr ⟨hstart, .refl hstart⟩)
      (Nat.lt_succ_self _)
    rw [show host.rounds now _ { e with
        forwardPool := { e.forwardPool with distributing := true } } = _ from hr] at hsettled
    rw [he]
    apply hsettled
    have hquiet := Host.rounds_quiet
      (host_keeps { e with forwardPool := { e.forwardPool with distributing := true } } now)
      (fun _ _ _ _ _ _ _ => rfl) ((e.forwardPool.legs.total fun _ leg => leg.wanted) + 1)
      (.inr ⟨hstart, .refl hstart⟩)
    rw [show host.rounds now _ { e with
        forwardPool := { e.forwardPool with distributing := true } } = _ from hr] at hquiet
    exact hquiet

end Entry

end HyperDht.Private
