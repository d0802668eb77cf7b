import HyperDht.Private.EntryTurns
import HyperDht.Private.OpenTurns

/-!
# Traffic on the legs of an entry

What an entry does with a frame, and what it does by itself, keeps every honest source
joined to its leg: the balances of a leg are moved by the frames of that leg alone. A frame
of a source whose leg is balanced fails no check of credit, so a fault that it causes is
none of the flow control.
-/

namespace HyperDht.Private

theorem Balances.refuses {r : Record} {leg : Leg} {f : Frame} {down up : List Frame}
    {st : RouteStream} (h : Balances r leg down (f :: up) st)
    (hwindow : st.receiveCredit ≤ streamWindow) (hcircuit : st.circuitReceiveCredit ≤ circuitWindow)
    {g : EntryFault} (hg : r.Refuses leg f g) : g.ofCredit = false := by
  obtain ⟨h₁, h₂, h₃, h₄⟩ := h.admits hwindow hcircuit
  cases g with
  | sendCredit => exact absurd h₁ (Nat.not_le_of_lt hg)
  | receiveCredit => exact absurd h₂ (Nat.not_le_of_lt hg)
  | reverseInFlight => exact absurd h₃ (Nat.not_le_of_lt hg)
  | sent | release => exact absurd h₄ (Nat.not_le_of_lt hg)
  | demand p =>
    by_cases hp : p = .rateLimit
    · rw [hp]
      rfl
    · have hd : ∃ n, f = ⟨circuitStreamId, .demand n⟩ ∧ (n = 0 ∧ leg.demandOpen = false ∨
          n ≠ 0 ∧ (leg.wanted ≠ 0 ∨ circuitWindow < leg.granted + n)) := by
        cases p with
        | rateLimit => exact absurd rfl hp
        | unavailable | invalid | noDemand | pendingDemand | grantOverflow => exact hg
      obtain ⟨n, rfl, ⟨hn, hopen⟩ | ⟨hn, hover⟩⟩ := hd
      · exact absurd ((h.demand_admits.2 hn).symm.trans hopen) (by decide)
      · obtain ⟨hw, hroom⟩ := h.demand_admits.1 hn
        rcases hover with hne | hlt
        · exact absurd hw hne
        · omega
  | reverseCredit | returned | reverseOverflow => exact hg.elim
  | decode | foreignId | unexpected | ended | totals | splice => rfl

theorem Joint.congr {r r' : Record} {leg leg' : Leg} {down : List Frame} {s : Source}
    (h : Joint r leg down s) (hs : r'.sendCredit = r.sendCredit)
    (hr : r'.receiveCredit = r.receiveCredit) (hi : r'.reverseInFlight = r.reverseInFlight)
    (hg : leg'.granted = leg.granted) (hw : leg'.wanted = leg.wanted)
    (ho : leg'.demandOpen = leg.demandOpen) : Joint r' leg' down s := by
  have hb := h.balances
  have hasked : ∀ {n up}, Asked n leg down up s.stream → Asked n leg' down up s.stream := fun ha =>
    ⟨ha.pos, hw.trans ha.wanted, ha.credit, ha.acks, ha.requested, hg ▸ ha.room⟩
  have htalk : Talk leg' down s.link.frames s.stream := by
    cases hb.talk with
    | silent hd => exact .silent hd
    | asked hd ha => exact .asked hd (hasked ha)
    | dropped hd ha hc => exact .dropped hd (hasked ha) hc
    | canceled hd hopen hc ha => exact .canceled hd (ho.trans hopen) hc ha
  refine ⟨⟨hs ▸ hb.send, hr ▸ hb.recv, hi ▸ hb.circuit, hg ▸ hb.granted, hw ▸ hb.wanted,
    hw ▸ hb.acked, htalk⟩, fun hd => ?_⟩
  have hx := h.exact hd
  exact ⟨hs ▸ hx.send, hr ▸ hx.recv, hg ▸ hx.granted, ho ▸ hx.demandOpen⟩

theorem Joint.relink {r : Record} {leg : Leg} {down : List Frame} {s : Source}
    (h : Joint r leg down s) {l : Link} (hl : l.frames = s.link.frames) :
    Joint r leg down { s with link := l } :=
  ⟨show Balances r leg down l.frames s.stream from hl ▸ h.balances,
    fun hd => show Exact r leg down l.frames s.stream from hl ▸ h.exact hd⟩

theorem Link.Single.progress {l : Link} (h : l.Single) {ev : LinkEvent} (hev : ev ≠ .take) :
    (l.progress ev).Single ∧ (l.progress ev).frames = l.frames := by
  cases ev with
  | nextSend => exact h.nextSend
  | selectFrom k => exact h.selectFrom k
  | settle data => exact h.settle data
  | take => exact absurd rfl hev

namespace Entry

variable {e e₁ e' : Entry} {id : Nat} {s : Source}

/-- A registered source that is joined has its handlers. -/
theorem Joined.attached (h : e.Joined id s) (ho : e.Open) {r : Record}
    (hr : e.sources.get? id = some r) : r.attached = true := by
  obtain ⟨leg, l, hleg, -⟩ := h.joint r hr
  obtain ⟨r', hr', ha⟩ := ho.legs id leg hleg
  obtain rfl := Option.some.inj (hr.symm.trans hr')
  exact ha

theorem Joined.relink (h : e.Joined id s) {l : Link} (hl : l.frames = s.link.frames) :
    e.Joined id { s with link := l } := by
  refine ⟨h.settled, fun r hr => ?_⟩
  obtain ⟨leg, l₀, hleg, hl₀, hj⟩ := h.joint r hr
  exact ⟨leg, l₀, hleg, hl₀, hj.relink hl⟩

theorem Joined.gone (h : e.Joined id s) (hn : e.sources.get? id = none) {s' : Source}
    (hs : s'.stream = s.stream) : e.Joined id s' :=
  ⟨hs ▸ h.settled, fun r hr => absurd (hr.symm.trans hn) (by simp)⟩

theorem Joined.like (h : e.Joined id s)
    (hl : ∀ l, e.links.get? id = some l → l.Single →
      ∃ l', e'.links.get? id = some l' ∧ l'.Single ∧ l'.frames = l.frames)
    (hr : ∀ r', e'.sources.get? id = some r' → ∃ r, e.sources.get? id = some r ∧
      r'.sendCredit = r.sendCredit ∧ r'.receiveCredit = r.receiveCredit ∧
      r'.reverseInFlight = r.reverseInFlight)
    (hg : ∀ leg, e.forwardPool.legs.get? id = some leg →
      ∃ leg', e'.forwardPool.legs.get? id = some leg' ∧ leg'.granted = leg.granted ∧
        leg'.wanted = leg.wanted ∧ leg'.demandOpen = leg.demandOpen) : e'.Joined id s := by
  obtain ⟨l, hlink, hsingle, hset⟩ := h.settled
  obtain ⟨l', hlink', hsingle', hframes⟩ := hl l hlink hsingle
  refine ⟨⟨l', hlink', hsingle', hframes ▸ hset⟩, fun r' hr' => ?_⟩
  obtain ⟨r, hrec, h₁, h₂, h₃⟩ := hr r' hr'
  obtain ⟨leg, l₀, hleg, hl₀, hj⟩ := h.joint r hrec
  obtain rfl := Option.some.inj (hlink.symm.trans hl₀)
  obtain ⟨leg', hleg', h₄, h₅, h₆⟩ := hg leg hleg
  refine ⟨leg', l', hleg', hlink', ?_⟩
  rw [hframes]
  exact hj.congr h₁ h₂ h₃ h₄ h₅ h₆

theorem Joined.setPool (h : e.Joined id s) {p : Pool Nat} (hp : e.forwardPool.Alike p) :
    Joined { e with forwardPool := p } id s := by
  refine h.like (fun l hl hs => ⟨l, hl, hs, rfl⟩) (fun r hr => ⟨r, hr, rfl, rfl, rfl⟩)
    fun leg hleg => ?_
  obtain ⟨leg', hleg', he⟩ := hp.some id leg hleg
  exact ⟨leg', hleg', by rw [he], by rw [he], by rw [he]⟩

/-! ## What the entry does by itself -/

theorem Joined.sendOut (h : e.Joined id s) (ho : e.Open) (f : Frame) : (e.sendOut f).Joined id s := by
  rcases sendOut_cases ho f with hs | ⟨-, he⟩
  · exact h.shut hs
  · rw [he]
    exact h.congr rfl rfl rfl

theorem Joined.activate (h : e.Joined id s) (ho : e.Open) (readable : Bool) :
    (e.activate readable).1.Joined id s := by
  obtain ⟨l, hl, -⟩ := h.settled
  have hne : id ≠ e.nextStreamId := by
    have := (ho.ids id l hl).2.2
    omega
  cases hr : e.refuses with
  | true =>
    unfold Entry.activate
    rw [if_pos hr]
    exact h
  | false =>
    rcases activate_cases hr readable with ⟨-, he⟩ | ⟨p, e₁, hp, he₁, he⟩
    · rw [he]
      exact h.congr (JsMap.get?_set_ne _ _ hne) (JsMap.get?_set_ne _ _ hne) rfl
    · rw [he]
      obtain ⟨-, -, hpool⟩ := Pool.add_cases hp
      have hattach : Joined ({ e.register with forwardPool := p }.setRecord e.nextStreamId
          { Record.new with attached := true }) id s := by
        refine h.congr (JsMap.get?_set_ne _ _ hne) ?_ ?_
        · exact (JsMap.get?_set_ne _ _ hne).trans (JsMap.get?_set_ne _ _ hne)
        · rw [hpool]
          exact JsMap.get?_set_ne _ _ hne
      rw [he₁]
      split
      · exact hattach
      · exact hattach.sendOut (ho.attach hp).1 _

theorem Joined.legProgress (h : e.Joined id s) (id' : Nat) {ev : LinkEvent} (hev : ev ≠ .take) :
    (e.legProgress id' ev).Joined id s := by
  unfold Entry.legProgress
  split
  · exact h
  · next l' hl' =>
    refine h.like (fun l hl hs => ?_) (fun r hr => ⟨r, hr, rfl, rfl, rfl⟩)
      fun leg hleg => ⟨leg, hleg, rfl, rfl, rfl⟩
    by_cases he : id = id'
    · subst he
      obtain rfl := Option.some.inj (hl.symm.trans hl')
      obtain ⟨h₁, h₂⟩ := hs.progress hev
      exact ⟨_, JsMap.get?_set_self _ _ _, h₁, h₂⟩
    · exact ⟨l, (JsMap.get?_set_ne _ _ he).trans hl, hs, rfl⟩

theorem Joined.spliceClosed (h : e.Joined id s) (id' : Nat) : (e.spliceClosed id').Joined id s := by
  unfold Entry.spliceClosed
  split
  · exact h
  · next r' hr' =>
    refine h.like (fun l hl hs => ⟨l, hl, hs, rfl⟩) (fun r hr => ?_)
      fun leg hleg => ⟨leg, hleg, rfl, rfl, rfl⟩
    change (e.sources.set id' { r' with splice := none }).get? id = some r at hr
    rw [JsMap.get?_set] at hr
    split at hr
    · next he =>
      cases hr
      exact ⟨r', he ▸ hr', rfl, rfl, rfl⟩
    · exact ⟨r, hr, rfl, rfl, rfl⟩

theorem faults_drifts {d : Int} (h : Drifts d e e') : e'.faults = e.faults := by
  rcases h with hs | ⟨-, hd⟩
  · exact hs.faults
  · exact hd.faults

/-- The events in which the entry reads no frame. -/
def own : EntryEvent → Bool
  | .fromSource .. | .receive .. | .link .take | .legLink _ .take => false
  | _ => true

/-- `e'` is `e` after a step that reads no frame: no fault, and every source joined as before. -/
structure Apart (e e' : Entry) : Prop where
  faults : e'.faults = e.faults
  joined : ∀ id s, e.Joined id s → e'.Joined id s

theorem apart_drifts {d : Int} (h : e.Open) (hd : Drifts d e e') : Apart e e' :=
  ⟨faults_drifts hd, fun _ _ hj => hj.drifts h hd⟩

theorem Apart.congr (h : Apart e₁ e') (hf : e₁.faults = e.faults)
    (hj : ∀ id s, e.Joined id s → e₁.Joined id s) : Apart e e' :=
  ⟨h.faults.trans hf, fun id s hs => h.joined id s (hj id s hs)⟩

theorem apart_activate (h : e.Open) (readable : Bool) : Apart e (e.activate readable).1 := by
  refine ⟨?_, fun id s hj => hj.activate h readable⟩
  cases hr : e.refuses with
  | true =>
    unfold Entry.activate
    rw [if_pos hr]
  | false =>
    rcases activate_cases hr readable with ⟨-, he⟩ | ⟨p, e₁, hp, he₁, he⟩
    · rw [he]
      rfl
    · rw [he, he₁]
      split
      · rfl
      · rcases sendOut_cases (h.attach hp).1 ⟨e.nextStreamId, .openStream⟩ with hs | ⟨-, hsent⟩
        · exact hs.faults
        · rw [hsent]
          rfl

/-- **What an entry does by itself leaves every leg in balance.** -/
theorem apart_step (h : e.Open) (hsum : e.reverseSum = circuitWindow) {ev : EntryEvent}
    (hev : own ev = true) : Apart e (e.step ev) := by
  cases ev with
  | activate readable => exact apart_activate h readable
  | fromSource | receive => cases hev
  | closeLeg now id => exact apart_drifts h (drifts_closeLeg h now id)
  | returnTimer =>
    show Apart e e.returnFired
    unfold returnFired
    split
    · have ho : Open { e with returnTimer := false } :=
        ⟨h.live, h.pool, h.poolLive, h.link, h.reverse, h.legs, h.attached, h.linked, h.gone, h.ids,
          h.even⟩
      exact (apart_drifts ho (drifts_returnReverse ho 0 hsum.le true)).congr rfl fun _ _ hj =>
        hj.congr rfl rfl rfl
    · exact ⟨rfl, fun _ _ hj => hj⟩
  | idleTimer now id busy =>
    have ha := e.forwardPool.alike_idleFired id busy now
    have ho := h.alike ha
    show Apart e (idleFired now e id busy)
    unfold idleFired
    split
    · next p hp =>
      rw [hp] at ha
      exact ⟨rfl, fun _ _ hj => hj.setPool ha⟩
    · next p hp =>
      rw [hp] at ha ho
      exact (apart_drifts ho (drifts_closeLeg ho now id)).congr rfl fun _ _ hj => hj.setPool ha
  | touch now id => exact ⟨rfl, fun _ _ hj => hj.setPool (e.forwardPool.alike_touch id now)⟩
  | link ev => exact ⟨rfl, fun _ _ hj => hj.congr rfl rfl rfl⟩
  | legLink id ev =>
    have htake : ev ≠ .take := by
      rintro rfl
      cases hev
    refine ⟨?_, fun _ _ hj => hj.legProgress id htake⟩
    show (e.legProgress id ev).faults = e.faults
    unfold Entry.legProgress
    split <;> rfl
  | spliceClosed id =>
    refine ⟨?_, fun _ _ hj => hj.spliceClosed id⟩
    show (e.spliceClosed id).faults = e.faults
    unfold Entry.spliceClosed
    split <;> rfl
  | retire => exact ⟨rfl, fun _ _ hj => hj.congr rfl rfl rfl⟩
  | destroy =>
    have hs := shut_destroy h
    exact ⟨hs.faults, fun _ _ hj => hj.shut hs⟩

/-- What a closed entry does by itself: a flag or a timer changes, or one link progresses. -/
theorem Gone.own_cases (h : e.Gone) {ev : EntryEvent} (hev : own ev = true) :
    (∃ p b r, e.forwardPool.Alike p ∧
      e.step ev = { e with forwardPool := p, returnTimer := b, retired := r }) ∨
    (∃ lev : LinkEvent, lev ≠ .take ∧ e.step ev = { e with link := e.link.progress lev }) ∨
    ∃ (id : Nat) (lev : LinkEvent), lev ≠ .take ∧ e.step ev = e.legProgress id lev := by
  have stay : ∀ {e' : Entry}, e' = e → ∃ p b r, e.forwardPool.Alike p ∧
      e' = { e with forwardPool := p, returnTimer := b, retired := r } := fun he =>
    ⟨e.forwardPool, e.returnTimer, e.retired, .refl _, he⟩
  cases ev with
  | activate readable =>
    refine .inl (stay ?_)
    show (e.activate readable).1 = e
    unfold Entry.activate
    rw [if_pos (by simp [refuses, h.closed])]
  | fromSource | receive => cases hev
  | closeLeg now id => exact .inl (stay (h.closeLeg now id))
  | returnTimer =>
    refine .inl ?_
    show ∃ p b r, e.forwardPool.Alike p ∧ e.returnFired = _
    unfold returnFired
    split
    · unfold returnReverse
      rw [if_pos h.closed]
      exact ⟨e.forwardPool, false, e.retired, .refl _, rfl⟩
    · exact stay rfl
  | idleTimer now id busy =>
    have ha := e.forwardPool.alike_idleFired id busy now
    refine .inl ?_
    show ∃ p b r, e.forwardPool.Alike p ∧ idleFired now e id busy = _
    unfold idleFired
    split
    · next p hp =>
      rw [hp] at ha
      exact ⟨p, e.returnTimer, e.retired, ha, rfl⟩
    · next p hp =>
      rw [hp] at ha
      have hgone : Gone { e with forwardPool := p } :=
        ⟨h.closed, ha.closed.trans h.poolClosed, h.sources, h.links, h.link⟩
      rw [hgone.closeLeg now id]
      exact ⟨p, e.returnTimer, e.retired, ha, rfl⟩
  | touch now id =>
    exact .inl ⟨_, e.returnTimer, e.retired, e.forwardPool.alike_touch id now, rfl⟩
  | link lev =>
    refine .inr (.inl ⟨lev, ?_, rfl⟩)
    rintro rfl
    cases hev
  | legLink id lev =>
    refine .inr (.inr ⟨id, lev, ?_, rfl⟩)
    rintro rfl
    cases hev
  | spliceClosed id =>
    refine .inl (stay ?_)
    show e.spliceClosed id = e
    unfold Entry.spliceClosed
    rw [h.sources]
    rfl
  | retire => exact .inl ⟨e.forwardPool, e.returnTimer, true, .refl _, rfl⟩
  | destroy =>
    refine .inl (stay ?_)
    show e.destroy = e
    unfold destroy
    rw [if_pos h.closed]

theorem Gone.apart_step (h : e.Gone) {ev : EntryEvent} (hev : own ev = true) :
    Apart e (e.step ev) := by
  rcases h.own_cases hev with ⟨p, b, r, hp, he⟩ | ⟨lev, -, he⟩ | ⟨id, lev, hlev, he⟩
  · rw [he]
    exact ⟨rfl, fun _ _ hj => (hj.setPool hp).congr rfl rfl rfl⟩
  · rw [he]
    exact ⟨rfl, fun _ _ hj => hj.congr rfl rfl rfl⟩
  · rw [he]
    refine ⟨?_, fun _ _ hj => hj.legProgress id hlev⟩
    unfold Entry.legProgress
    split <;> rfl

/-! ## Frames -/

variable {f : Frame} {l : Link}

/-- The new faults of a step are none of the flow control. -/
def Sound (e e' : Entry) : Prop :=
  ∃ fs, e'.faults = e.faults ++ fs ∧ ∀ g ∈ fs, g.ofCredit = false

theorem Sound.refl (e : Entry) : Sound e e :=
  ⟨[], (List.append_nil _).symm, fun _ h => absurd h List.not_mem_nil⟩

theorem sound_of_faults (h : e'.faults = e.faults) : Sound e e' :=
  ⟨[], h.trans (List.append_nil _).symm, fun _ h => absurd h List.not_mem_nil⟩

theorem sound_fault {g : EntryFault} (hg : g.ofCredit = false) (h : e'.faults = (e.fault g).faults) :
    Sound e e' :=
  ⟨[g], h, fun g' hg' => by rw [List.mem_singleton.mp hg']; exact hg⟩

theorem Joined.turn (h : e.Joined id s) {id' : Nat} {r r' : Record} {back got sent : List Frame}
    {failed : List EntryFault} (ht : Turn id' r r' back got sent failed e e₁) (hne : id ≠ id') :
    e₁.Joined id s :=
  h.congr (ht.links id hne) (by rw [ht.sources]; exact JsMap.get?_set_ne _ _ hne) (ht.legs id hne)

theorem Joined.others (h : e.Joined id s) (ho : e.Open) {id' : Nat} {r : Record}
    (ht : SourceTurn id' f r e e') (hne : id ≠ id') : e'.Joined id s := by
  cases ht with
  | shut hs => exact h.shut hs
  | @refused leg g hleg hg hd hgone =>
    exact Joined.drifts (e := e.fault g) (h.congr rfl rfl rfl) (ho.fault g) hd
  | handled ht hleg hleg' hh ho₁ hd hsplices => exact (h.turn ht hne).drifts ho₁ hd

/-- The source's own frame, read off its link. -/
theorem Joined.heard (h : e.Joined id s) (ho : e.Open) (hs : s.Sane) (htake : s.link.take = some (f, l))
    {r : Record} (hr : e.sources.get? id = some r) (ht : SourceTurn id f r e e') :
    e'.Joined id { s with link := l } ∧ Sound e e' := by
  have hframes : s.link.frames = f :: l.frames := Link.frames_take htake
  have hcircuit : s.stream.circuitReceiveCredit ≤ circuitWindow := by
    have := hs.credit
    omega
  have hwindow : s.stream.receiveCredit ≤ streamWindow := by
    have := hs.stream.window
    omega
  cases ht with
  | shut hshut =>
    refine ⟨(h.shut hshut).gone ?_ rfl, sound_of_faults hshut.faults⟩
    rw [hshut.sources]
    rfl
  | @refused leg g hleg hg hd hgone =>
    have hj := Joined.drifts (e := e.fault g) (h.congr rfl rfl rfl) (ho.fault g) hd
    refine ⟨hj.gone hgone rfl, ?_⟩
    obtain ⟨leg₀, l₀, hleg₀, -, hjoint⟩ := h.joint r hr
    obtain rfl := Option.some.inj (hleg.symm.trans hleg₀)
    have hb := hjoint.balances
    rw [hframes] at hb
    exact sound_fault (hb.refuses hwindow hcircuit hg) (faults_drifts hd)
  | @handled leg leg' r' back sent e₁ d ht hleg hleg' hh ho₁ hd hsplices =>
    obtain ⟨leg₀, l₀, hleg₀, hl₀, hj⟩ := h.joint r ht.record
    obtain rfl := Option.some.inj (hleg.symm.trans hleg₀)
    obtain ⟨ld, hld, hsingle, hset⟩ := h.settled
    obtain rfl := Option.some.inj (hl₀.symm.trans hld)
    have hb := hj.balances
    rw [hframes] at hb
    obtain ⟨hset', hb', hx⟩ := hb.handled hset hh
    have hl₁ := ht.leg l₀ hl₀
    have hfr := hsingle.frames_admits back
    have hr' : e₁.sources.get? id = some r' := by
      rw [ht.sources]
      exact JsMap.get?_set_self _ _ _
    have hj₁ : e₁.Joined id { s with link := l } := by
      refine ⟨⟨_, hl₁, hsingle.admits back, hfr ▸ hset'⟩, fun r₁ hr₁ => ?_⟩
      obtain rfl := Option.some.inj (hr'.symm.trans hr₁)
      refine ⟨leg', _, hleg', hl₁, ?_, fun hd => ?_⟩
      · rw [hfr]
        exact hb'
      · rw [hfr]
        refine hx ?_
        rw [← hframes]
        exact hj.exact hd
    refine ⟨hj₁.drifts ho₁ hd, sound_of_faults ?_⟩
    rw [faults_drifts hd, ht.faults, List.append_nil]

/-- What the entry makes of a payload of a source: nothing where the source is not
registered, or closed its leg; a leg that closes where the payload is no frame. -/
theorem fromSource_turns (h : e.Kept) (now : Int) (id : Nat) (payload : Payload)
    (udx : Option (Nat × Nat)) :
    fromSource now e id payload udx = e ∧ (∀ r, e.sources.get? id = some r → r.attached = false) ∨
      e.Open ∧ ∃ r, e.sources.get? id = some r ∧ r.attached = true ∧
        (fromSource now e id payload udx = failLeg now e id .decode ∨ ∃ f, payload = .frame f ∧
          SourceTurn id f r e (fromSource now e id payload udx)) := by
  cases hr : e.sources.get? id with
  | none =>
    refine .inl ⟨?_, fun r hr => by cases hr⟩
    unfold fromSource
    rw [hr]
  | some r =>
    cases ha : r.attached with
    | false =>
      refine .inl ⟨?_, fun r' hr' => Option.some.inj hr' ▸ ha⟩
      unfold fromSource
      rw [hr]
      exact if_pos ha
    | true =>
      rcases h with hg | ⟨ho, hsum, -⟩
      · rw [hg.sources] at hr
        cases hr
      · refine .inr ⟨ho, r, rfl, ha, ?_⟩
        cases hf : decodeLogical payload with
        | none =>
          refine .inl ?_
          unfold fromSource
          rw [hr, hf]
          exact if_neg (by rw [ha]; decide)
        | some f => exact .inr ⟨f, (decodeLogical_eq_some hf).1, turn_fromSource ho hsum hr ha now hf udx⟩

theorem Joined.fromSource (h : e.Joined id s) (hk : e.Kept) (hs : s.Sane)
    (htake : s.link.take = some (f, l)) (now : Int) (udx : Option (Nat × Nat)) :
    (fromSource now e id (.frame f) udx).Joined id { s with link := l } ∧
      Sound e (fromSource now e id (.frame f) udx) := by
  rcases fromSource_turns hk now id (.frame f) udx with
    ⟨he, hnot⟩ | ⟨ho, r, hr, ha, he | ⟨f', hf, ht⟩⟩
  · rw [he]
    refine ⟨h.gone ?_ rfl, .refl e⟩
    cases hr : e.sources.get? id with
    | none => rfl
    | some r =>
      rcases hk with hg | ⟨ho, -, -⟩
      · rw [hg.sources] at hr
        cases hr
      · exact absurd ((hnot r hr).symm.trans (h.attached ho hr)) (by decide)
  · rw [he]
    have hd := drifts_closeLeg (ho.fault .decode) now id
    have hj := Joined.drifts (e := e.fault .decode) (h.congr rfl rfl rfl) (ho.fault _) hd
    exact ⟨hj.gone (gone_closeLeg (e := e.fault .decode) (ho.fault _) hr ha now) rfl,
      sound_fault rfl (faults_drifts hd)⟩
  · obtain rfl := Payload.frame.inj hf
    exact h.heard ho hs htake hr ht

theorem Joined.fromOther (h : e.Joined id s) (hk : e.Kept) (now : Int) {id' : Nat} (hne : id ≠ id')
    (payload : Payload) (udx : Option (Nat × Nat)) :
    (Entry.fromSource now e id' payload udx).Joined id s := by
  rcases fromSource_turns hk now id' payload udx with ⟨he, -⟩ | ⟨ho, r, hr, ha, he | ⟨f', -, ht⟩⟩
  · rw [he]
    exact h
  · rw [he]
    exact Joined.drifts (e := e.fault .decode) (h.congr rfl rfl rfl) (ho.fault _)
      (drifts_closeLeg (ho.fault .decode) now id')
  · exact h.others ho ht hne

/-- A leg that closes keeps what is on its wire, and its source takes that. -/
theorem joined_gone {d : Int} (hd : Drifts d e e') (hn : e'.sources.get? id = none)
    (hl : e.links.get? id = some l) (hsingle : l.Single) (hset : Settles l.frames s.stream) :
    e'.Joined id s := by
  have hdestroy : Settles l.destroy.frames s.stream := by
    rw [Link.frames_destroy]
    exact hset.take
  refine ⟨?_, fun r hr => absurd (hr.symm.trans hn) (by simp)⟩
  rcases hd with hs | ⟨ho, hd⟩
  · exact ⟨l.destroy, by rw [hs.links, hl]; rfl, hsingle.destroy, hdestroy⟩
  · obtain ⟨l', hl', hdrift⟩ := hd.links id l hl
    refine ⟨l', hl', ?_⟩
    rcases hdrift with rfl | ⟨cs, rfl, hcs⟩
    · exact ⟨hsingle.destroy, hdestroy⟩
    · have hdead := ho.gone id _ hl' hn
      rw [Link.destroyed_admits] at hdead
      rw [hcs hdead]
      exact ⟨hsingle, hset⟩

theorem Joined.passed (h : e.Joined id s) (ho : e.Open)
    (hw : ∀ r, e.sources.get? id = some r → Windowed r) (ht : DestinationTurn f e e') :
    e'.Joined id s := by
  have hleave : ∀ {r r' : Record} {failed : List EntryFault} {e₁ : Entry},
      Turn f.streamId r r' [] [f] [] failed e e₁ → e₁.Open → Drifts 0 e₁ e' →
      (r.attached = true → e'.sources.get? f.streamId = none) → e'.Joined id s := by
    intro r r' failed e₁ ht ho₁ hd hgone
    by_cases hid : id = f.streamId
    · -- the leg is closed, and what it holds of the source ends with its record
      have ha := h.attached ho (hid ▸ ht.record)
      obtain ⟨ld, hld, hsingle, hset⟩ := h.settled
      exact joined_gone hd (hid ▸ hgone ha) (hid ▸ ht.leg ld (hid ▸ hld)) hsingle hset
    · exact (h.turn ht hid).drifts ho₁ hd
  cases ht with
  | @ended g hg hs => exact Joined.shut (e := e.fault g) (h.congr rfl rfl rfl) hs
  | @returned amount p hf hp hd =>
    obtain ⟨-, -, -, rfl⟩ := Pool.returned_cases hp
    exact Joined.drifts (e := { e with forwardPool := { e.forwardPool with
      inFlight := e.forwardPool.inFlight - (amount : Int).toNat
      available := e.forwardPool.available + (amount : Int).toNat } }) (h.congr rfl rfl rfl)
      (ho.returned hp) hd
  | @unclaimed credit hid hn hc ho₁ hd =>
    exact Joined.drifts (e := { e with reverseReceiveCredit := credit }) (h.congr rfl rfl rfl) ho₁ hd
  | refused hid ht hg ho₁ hd hgone => exact hleave ht ho₁ hd hgone
  | dropped hid ht ho₁ hd hgone => exact hleave ht ho₁ hd hgone
  | @handed r r' g hid ht hg hh ho' hlegs =>
    by_cases he : id = f.streamId
    · obtain ⟨leg, ld, hleg, hld, hj⟩ := h.joint r (he ▸ ht.record)
      obtain ⟨ld₀, hld₀, hsingle, hset⟩ := h.settled
      obtain rfl := Option.some.inj (hld.symm.trans hld₀)
      have hr' : e'.sources.get? id = some r' := by
        rw [ht.sources, he]
        exact JsMap.get?_set_self _ _ _
      have hin : r'.reverseInFlight ≤ circuitWindow := by
        have h₁ := ho'.reverse
        have h₂ := JsMap.le_total hr' fun _ r => r.reverseInFlight
        simp only [reverseSum] at h₁
        omega
      obtain ⟨hset', hb, hx⟩ := hj.balances.handed hset hh
        (ht.window (hw r (he ▸ ht.record))).1 hin
      have hl' : e'.links.get? id = some (ld.admits [g]) := he ▸ ht.leg ld (he ▸ hld)
      have hleg' : e'.forwardPool.legs.get? id = some leg := hlegs ▸ hleg
      have hfr := hsingle.frames_admits [g]
      refine ⟨⟨_, hl', hsingle.admits [g], hfr ▸ hset'⟩, fun r₁ hr₁ => ?_⟩
      obtain rfl := Option.some.inj (hr'.symm.trans hr₁)
      refine ⟨leg, _, hleg', hl', ?_, fun hd => ?_⟩
      · rw [hfr]
        exact hb
      · rw [hfr]
        exact hx (hj.exact hd)
    · exact h.turn ht he

/-- A frame of the destination that fails no check of credit. -/
theorem sound_destination (hacc : ∀ g, e.Refuses f g → g.ofCredit = false)
    (ht : DestinationTurn f e e') : Sound e e' := by
  cases ht with
  | @ended g hg hs => exact sound_fault (hacc g hg) hs.faults
  | returned hf hp hd =>
    have hf := faults_drifts hd
    exact sound_of_faults hf
  | unclaimed hid hn hc ho hd =>
    have hf := faults_drifts hd
    exact sound_of_faults hf
  | @refused r r' g e₁ hid ht hg ho hd hgone =>
    exact sound_fault (hacc g hg) ((faults_drifts hd).trans ht.faults)
  | dropped hid ht ho hd hgone =>
    exact sound_of_faults ((faults_drifts hd).trans (ht.faults.trans (List.append_nil _)))
  | handed hid ht hg hh ho hleg => exact sound_of_faults (ht.faults.trans (List.append_nil _))

/-! ## Frames that the sources take -/

theorem step_legTake {leg : Link} (hl : e.links.get? id = some leg)
    (htake : leg.take = some (f, l)) :
    e.step (.legLink id .take) = { e with links := e.links.set id l } := by
  show e.legProgress id .take = _
  unfold Entry.legProgress
  rw [hl]
  show ({ e with links := e.links.set id ((leg.take.map Prod.snd).getD leg) } : Entry) = _
  rw [htake]
  rfl

theorem Joined.took (h : e.Joined id s) {leg : Link} (hl : e.links.get? id = some leg)
    (htake : leg.take = some (f, l)) {s' : Source} (ht : Source.Took f s s') :
    (e.step (.legLink id .take)).Joined id s' := by
  have hframes : leg.frames = f :: l.frames := Link.frames_take htake
  obtain ⟨leg₀, hl₀, hsingle, hset⟩ := h.settled
  obtain rfl := Option.some.inj (hl.symm.trans hl₀)
  have hset' := hset
  rw [hframes] at hset'
  rw [step_legTake hl htake]
  refine ⟨⟨l, JsMap.get?_set_self _ _ _, hsingle.take htake, hset'.took ht⟩, fun r hr => ?_⟩
  obtain ⟨pl, l₁, hpl, hl₁, hj⟩ := h.joint r hr
  obtain rfl := Option.some.inj (hl.symm.trans hl₁)
  rw [hframes] at hj
  exact ⟨pl, l, hpl, JsMap.get?_set_self _ _ _, hj.took hset' ht⟩

theorem Joined.legTake (h : e.Joined id s) {id' : Nat} (hne : id ≠ id') :
    (e.step (.legLink id' .take)).Joined id s := by
  show (e.legProgress id' .take).Joined id s
  unfold Entry.legProgress
  split
  · exact h
  · exact h.congr (JsMap.get?_set_ne _ _ hne) rfl rfl

end Entry

end HyperDht.Private
