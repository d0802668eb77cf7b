import HyperDht.Private.LegTurns

/-!
# The legs of an entry and their sources

`Joined` says that a source and its leg at the entry fit together: while the
record is registered the balances of the leg hold, and after that the source can
still rely on what is in flight to it. Whatever the entry does for one source,
the grants and closed legs that follow (`Drifts`) keep every source joined.
-/

namespace HyperDht.Private

theorem Settles.take {down rest : List Frame} {st : RouteStream} (h : Settles (down ++ rest) st) :
    Settles down st := by
  have h₁ := h.send
  have h₂ := h.recv
  have h₃ := h.circuit
  have h₄ := h.asked
  have h₅ := h.held
  have h₆ := h.acks
  rw [weigh_append] at h₁ h₂ h₃ h₄ h₅ h₆
  refine ⟨by omega, by omega, by omega, by omega, by omega, by omega, fun pre post he => ?_⟩
  have := h.order pre (post ++ rest) (by rw [he, List.append_assoc]; rfl)
  rw [weigh_append] at this
  omega

namespace Entry

/-- A source fits the entry's side of its leg. -/
structure Joined (e : Entry) (id : Nat) (s : Source) : Prop where
  settled : ∃ l, e.links.get? id = some l ∧ l.Single ∧ Settles l.frames s.stream
  joint : ∀ r, e.sources.get? id = some r → ∃ leg l, e.forwardPool.legs.get? id = some leg ∧
    e.links.get? id = some l ∧ Joint r leg l.frames s

theorem Joined.congr {e e' : Entry} {id : Nat} {s : Source} (h : e.Joined id s)
    (hl : e'.links.get? id = e.links.get? id) (hr : e'.sources.get? id = e.sources.get? id)
    (hp : e'.forwardPool.legs.get? id = e.forwardPool.legs.get? id) : e'.Joined id s := by
  refine ⟨by rw [hl]; exact h.settled, fun r hr' => ?_⟩
  rw [hr] at hr'
  rw [hl, hp]
  exact h.joint r hr'

theorem Joined.shut {e e' : Entry} {id : Nat} {s : Source} (h : e.Joined id s) (hs : Shut e e') :
    e'.Joined id s := by
  obtain ⟨l, hl, hsingle, hset⟩ := h.settled
  refine ⟨⟨l.destroy, by rw [hs.links, hl]; rfl, hsingle.destroy, ?_⟩, fun r hr => ?_⟩
  · rw [Link.frames_destroy]
    exact hset.take
  · rw [hs.sources] at hr
    cases hr

theorem Joined.drift {d : Int} {e e' : Entry} {id : Nat} {s : Source} (h : e.Joined id s)
    (ho : e.Open) (ho' : e'.Open) (hd : Drift d e e') : e'.Joined id s := by
  obtain ⟨l, hl, hsingle, hset⟩ := h.settled
  cases hr : e'.sources.get? id with
  | some r =>
    obtain ⟨leg, l₁, hleg, hl₁, hj⟩ := h.joint r (hd.sources id r hr)
    obtain rfl := Option.some.inj (hl.symm.trans hl₁)
    obtain ⟨r₁, hr₁, ha⟩ := ho.legs id leg hleg
    obtain rfl := Option.some.inj (hr₁.symm.trans (hd.sources id r hr))
    obtain ⟨⟨leg', hleg'⟩, -⟩ := ho'.attached id r₁ hr ha
    obtain ⟨leg₂, l₂, cs, hleg₂, hl₂, hl', hg⟩ := hd.legs id leg' hleg'
    obtain rfl := Option.some.inj (hleg.symm.trans hleg₂)
    obtain rfl := Option.some.inj (hl.symm.trans hl₂)
    have hle : leg'.granted ≤ circuitWindow :=
      (Nat.le_add_right _ _).trans (ho'.pool.bound id leg' hleg')
    obtain ⟨hset', hb, hx⟩ := hj.balances.granted_append hset hg hle
    have hframes := hsingle.frames_admits (creditFrames cs)
    refine ⟨⟨_, hl', hsingle.admits _, ?_⟩, fun r₂ hr₂ => ⟨leg', _, hleg', hl', ⟨?_, ?_⟩⟩⟩
    · rw [hframes]
      exact hset'
    · obtain rfl := Option.some.inj (hr.symm.trans hr₂)
      rw [hframes]
      exact hb
    · obtain rfl := Option.some.inj (hr.symm.trans hr₂)
      rw [hframes]
      exact fun hdest => hx (hj.exact hdest)
  | none =>
    -- the leg is closed, and nothing more is sent on it
    obtain ⟨l', hl', hdrift⟩ := hd.links id l hl
    refine ⟨⟨l', hl', ?_⟩, fun r hr' => absurd (hr.symm.trans hr') (by simp)⟩
    rcases hdrift with rfl | ⟨cs, rfl, hcs⟩
    · refine ⟨hsingle.destroy, ?_⟩
      rw [Link.frames_destroy]
      exact hset.take
    · have hdead := ho'.gone id _ hl' hr
      rw [Link.destroyed_admits] at hdead
      rw [hcs hdead]
      exact ⟨hsingle, hset⟩

/-- **Grants and closed legs keep every source joined.** -/
theorem Joined.drifts {d : Int} {e e' : Entry} {id : Nat} {s : Source} (h : e.Joined id s)
    (ho : e.Open) (hd : Drifts d e e') : e'.Joined id s := by
  rcases hd with hs | ⟨ho', hd⟩
  · exact h.shut hs
  · exact h.drift ho ho' hd

theorem Joined.goes {e : Entry} {id : Nat} {s s' : Source} (h : e.Joined id s) (hs : s.Sane)
    (hg : Source.Goes s s') : e.Joined id s' := by
  obtain ⟨l, hl, hsingle, hset⟩ := h.settled
  refine ⟨⟨l, hl, hsingle, hset.moves hg.1⟩, fun r hr => ?_⟩
  obtain ⟨leg, l₁, hleg, hl₁, hj⟩ := h.joint r hr
  obtain rfl := Option.some.inj (hl.symm.trans hl₁)
  exact ⟨leg, l, hleg, hl, hj.moves hset hs.tied hg.1⟩

end Entry

end HyperDht.Private
