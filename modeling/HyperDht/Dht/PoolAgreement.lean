import HyperDht.Dht.ConnectionPool
import Mathlib.Data.List.Induction

/-!
# The two pools agree

As long as the peer `w` with the smaller key has not dialled, there is at most
one connection and nothing is destroyed (`Quiet`). Once it has, its connection
stays registered at `w`, which dials no second one and turns down every other,
and the peer with the larger key drops whatever it holds for it (`Crossed`).
-/

namespace HyperDht.ConnectionPools

namespace Network

variable {K : Type} [LinearOrder K] (key : Peer → K)

/-- No stream waits for the close of another at this peer. -/
structure Still (s : Network) (p : Peer) : Prop where
  queue : (s.pools p).queue = []
  deferred : ∀ d, (s.streams p d).deferred = []

/-- `w` has not dialled. -/
structure Quiet (s : Network) (w : Peer) : Prop where
  made : s.made ≤ 1
  dialer : ∀ c < s.made, s.dialer c = w.other
  still : ∀ p, s.Still p
  alive : ∀ p c, (s.streams p c).destroyed = false
  far : 0 < s.made → (s.pools w.other).get = some 0
  near : (s.streams w 0).present = true → (s.pools w).get = some 0

/-- The connection `c` that `w` has dialled, at `w`. -/
structure Kept (s : Network) (w : Peer) (c : Nat) : Prop where
  lt : c < s.made
  dialer : s.dialer c = w
  only : ∀ d < s.made, s.dialer d = w → d = c
  near : (s.pools w).get = some c
  still : s.Still w
  alive : ∀ p, (s.streams p c).destroyed = false

/-- The same connection at the other peer `g`: not there yet, registered, about
to be attached, or waiting for the close of the stream it replaces. -/
inductive Place (s : Network) (g : Peer) (c : Nat) : Prop
  | absent (hpresent : (s.streams g c).present = false) (hstill : s.Still g)
  | registered (hget : (s.pools g).get = some c) (hstill : s.Still g)
  | queued (hpresent : (s.streams g c).present = true)
      (hattached : (s.streams g c).attached = false) (hqueue : (s.pools g).queue = [c])
      (hdeferred : ∀ d, (s.streams g d).deferred = [])
  | waiting (e : Nat) (hpresent : (s.streams g c).present = true)
      (hattached : (s.streams g c).attached = false) (hget : (s.pools g).get = some e)
      (hqueue : (s.pools g).queue = []) (hwaits : (s.streams g e).deferred = [c])
      (hdeferred : ∀ d, d ≠ e → (s.streams g d).deferred = [])
      (hdestroyed : (s.streams g e).destroyed = true)

structure Crossed (s : Network) (w : Peer) (c : Nat) : Prop extends s.Kept w c where
  place : s.Place w.other c

/-- What holds in a run without releases. -/
def Agreeing (s : Network) (w : Peer) : Prop := s.Quiet w ∨ ∃ c, s.Crossed w c

theorem quiet_initial (w : Peer) : initial.Quiet w := by
  refine ⟨Nat.zero_le _, fun c hc => absurd hc (Nat.not_lt_zero c), fun p => ⟨rfl, fun _ => rfl⟩,
    fun _ _ => rfl, fun h => absurd h (Nat.not_lt_zero 0), fun h => ?_⟩
  cases h

section

variable {s s' : Network} {w p q : Peer} {c d : Nat}

/-- Nothing moves between two states but flags of streams that are on the way out. -/
structure Alike (s s' : Network) : Prop where
  made : s'.made = s.made
  dialer : s'.dialer = s.dialer
  get : ∀ p, (s'.pools p).get = (s.pools p).get
  queue : ∀ p, (s'.pools p).queue = (s.pools p).queue
  present : ∀ p d, (s'.streams p d).present = (s.streams p d).present
  attached : ∀ p d, (s'.streams p d).attached = (s.streams p d).attached
  deferred : ∀ p d, (s'.streams p d).deferred = (s.streams p d).deferred
  destroyed : ∀ p d, (s.streams p d).destroyed = true → (s'.streams p d).destroyed = true

theorem Still.alike (h : s.Still p) (ha : Alike s s') : s'.Still p :=
  ⟨(ha.queue p).trans h.queue, fun d => (ha.deferred p d).trans (h.deferred d)⟩

theorem Quiet.alike (h : s.Quiet w) (ha : Alike s s')
    (halive : ∀ p c, (s'.streams p c).destroyed = false) : s'.Quiet w := by
  refine ⟨ha.made ▸ h.made, fun c hc => ?_, fun p => (h.still p).alike ha, halive, fun hm => ?_,
    fun hp => ?_⟩
  · rw [ha.dialer]
    exact h.dialer c (ha.made ▸ hc)
  · rw [ha.get]
    exact h.far (ha.made ▸ hm)
  · rw [ha.get]
    exact h.near (ha.present w 0 ▸ hp)

theorem Place.alike {g : Peer} (h : s.Place g c) (ha : Alike s s') : s'.Place g c := by
  cases h with
  | absent hp hs => exact .absent ((ha.present g c).trans hp) (hs.alike ha)
  | registered hg hs => exact .registered ((ha.get g).trans hg) (hs.alike ha)
  | queued hp hat hq hd =>
    exact .queued ((ha.present g c).trans hp) ((ha.attached g c).trans hat) ((ha.queue g).trans hq)
      fun d => (ha.deferred g d).trans (hd d)
  | waiting e hp hat hg hq hw hd hdes =>
    exact .waiting e ((ha.present g c).trans hp) ((ha.attached g c).trans hat)
      ((ha.get g).trans hg) ((ha.queue g).trans hq) ((ha.deferred g e).trans hw)
      (fun d hne => (ha.deferred g d).trans (hd d hne)) (ha.destroyed g e hdes)

theorem Crossed.alike (h : s.Crossed w c) (ha : Alike s s')
    (halive : ∀ p, (s'.streams p c).destroyed = false) : s'.Crossed w c := by
  refine ⟨⟨ha.made ▸ h.lt, ha.dialer ▸ h.dialer, fun d hd hw => ?_, (ha.get w).trans h.near,
    h.still.alike ha, halive⟩, h.place.alike ha⟩
  rw [ha.dialer] at hw
  exact h.only d (ha.made ▸ hd) hw

/-- An event at peer `p` only. -/
structure Local (p : Peer) (s s' : Network) : Prop where
  made : s'.made = s.made
  dialer : s'.dialer = s.dialer
  pools : s'.pools p.other = s.pools p.other
  streams : s'.streams p.other = s.streams p.other

theorem Local.still (h : Local p s s') (hs : s.Still p.other) : s'.Still p.other := by
  refine ⟨?_, fun d => ?_⟩
  · rw [h.pools]
    exact hs.queue
  · rw [h.streams]
    exact hs.deferred d

theorem Kept.far (h : s.Kept w c) (hl : Local w.other s s')
    (halive : (s'.streams w.other c).destroyed = false) : s'.Kept w c := by
  have hpools := hl.pools
  have hstreams := hl.streams
  have hstill := hl.still (by rw [Peer.other_other]; exact h.still)
  rw [Peer.other_other] at hpools hstreams hstill
  refine ⟨hl.made ▸ h.lt, hl.dialer ▸ h.dialer, fun d hd hw => ?_, ?_, hstill, fun q => ?_⟩
  · rw [hl.dialer] at hw
    exact h.only d (hl.made ▸ hd) hw
  · rw [hpools]
    exact h.near
  · by_cases hq : q = w.other
    · exact hq ▸ halive
    · obtain rfl : q = w := by
        have := Peer.eq_other_of_ne hq
        rwa [Peer.other_other] at this
      rw [hstreams]
      exact h.alive q

theorem local_modifyStream (f : Stream → Stream) : Local p s (s.modifyStream p c f) :=
  ⟨rfl, rfl, rfl, streams_of_ne_peer p.other_ne⟩

theorem local_modifyPool (f : ConnectionPool → ConnectionPool) : Local p s (s.modifyPool p f) :=
  ⟨rfl, rfl, pools_modifyPool_of_ne p.other_ne, rfl⟩

theorem Local.trans {s'' : Network} (h : Local p s s') (h' : Local p s' s'') : Local p s s'' :=
  ⟨h'.made.trans h.made, h'.dialer.trans h.dialer, h'.pools.trans h.pools,
    h'.streams.trans h.streams⟩

theorem local_register : Local p s (s.register p c) :=
  (local_modifyStream _).trans (local_modifyPool _)

theorem local_attachStream : Local p s (s.attachStream key p c) := by
  unfold attachStream
  cases (s.pools p).get with
  | none => exact local_register
  | some e =>
    dsimp only
    split <;> exact local_modifyStream _

theorem attachStream_of_none (h : (s.pools p).get = none) :
    s.attachStream key p c = s.register p c := by
  unfold attachStream
  rw [h]
  rfl

/-- Entering an empty pool changes neither queue nor waiting streams. -/
theorem Still.register (h : s.Still p) : (s.register p c).Still p := by
  refine ⟨?_, fun d => ?_⟩
  · unfold Network.register
    rw [pools_modifyPool_self]
    split <;> exact h.queue
  · rw [streams_register, field_modifyStream Stream.deferred]
    · exact h.deferred d
    · rfl

/-- The peer with the larger key takes the connection, at once or in place of
the one it has. -/
theorem Kept.attach (h : s.Kept w c) (hkey : key w < key w.other) (ht : s.Tidy w.other)
    (hp : (s.streams w.other c).present = true) (ha : (s.streams w.other c).attached = false)
    (hs : s.Still w.other) : (s.attachStream key w.other c).Crossed w c := by
  cases hg : (s.pools w.other).get with
  | none =>
    rw [attachStream_of_none key hg]
    refine ⟨h.far local_register ?_, .registered (get_register hg) hs.register⟩
    rw [streams_register, streams_modifyStream_self]
    exact h.alive w.other
  | some e =>
    have hec : c ≠ e := by
      rintro rfl
      simp [(ht.of_get hg).1] at ha
    have heq : s.attachStream key w.other c = s.modifyStream w.other e fun e => { e with
        destroyed := true
        deferred := e.deferred ++ [c] } := by
      unfold attachStream
      rw [hg]
      dsimp only
      rw [if_pos (.inr (by rw [Peer.other_other]; exact hkey))]
    have hsame : (s.attachStream key w.other c).streams w.other c = s.streams w.other c := by
      rw [heq, streams_modifyStream_of_ne (.inr hec)]
    refine ⟨h.far (local_attachStream key) ?_, .waiting e ?_ ?_ ?_ ?_ ?_ (fun d hd => ?_) ?_⟩
    · rw [hsame]
      exact h.alive w.other
    · rw [hsame]
      exact hp
    · rw [hsame]
      exact ha
    · rw [heq]
      exact hg
    · rw [heq]
      exact hs.queue
    · rw [heq, streams_modifyStream_self]
      show (s.streams w.other e).deferred ++ [c] = [c]
      rw [hs.deferred]
      rfl
    · rw [heq, streams_modifyStream_of_ne (.inr hd)]
      exact hs.deferred d
    · rw [heq, streams_modifyStream_self]

/-! ## Dials -/

theorem streams_dialled_of_ne (h : q ≠ p ∨ d ≠ s.made) :
    (s.dialled p).streams q d = s.streams q d := streams_modifyStream_of_ne h

theorem connect_of_none (h : (s.pools p).get = none) :
    s.connect key p = (s.dialled p).register p s.made := by
  have hhas : (s.pools p).has = false := by
    cases hhas : (s.pools p).has with
    | false => rfl
    | true => exact absurd h (has_iff.mp hhas)
  rw [connect_eq, hhas]
  exact attachStream_of_none key h

theorem connect_of_some {e : Nat} (h : (s.pools p).get = some e) : s.connect key p = s := by
  have hhas : (s.pools p).has = true := has_iff.mpr (by rw [h]; simp)
  rw [connect_eq, hhas]
  rfl

theorem deferred_dialled (h : s.Tidy p) (q : Peer) (d : Nat) :
    ((s.dialled p).streams q d).deferred = (s.streams q d).deferred := by
  by_cases hqd : q = p ∧ d = s.made
  · obtain ⟨rfl, rfl⟩ := hqd
    rw [streams_dialled_self, h.fresh le_rfl]
  · rw [streams_dialled_of_ne (by tauto)]

theorem destroyed_dialled (h : s.Tidy p) (q : Peer) (d : Nat) :
    ((s.dialled p).streams q d).destroyed = (s.streams q d).destroyed := by
  by_cases hqd : q = p ∧ d = s.made
  · obtain ⟨rfl, rfl⟩ := hqd
    rw [streams_dialled_self, h.fresh le_rfl]
  · rw [streams_dialled_of_ne (by tauto)]

theorem Still.dialled (h : s.Still q) (ht : s.Tidy p) : (s.dialled p).Still q :=
  ⟨h.queue, fun d => (deferred_dialled ht q d).trans (h.deferred d)⟩

theorem Still.register_at (h : s.Still q) : (s.register p c).Still q := by
  by_cases hq : q = p
  · exact hq ▸ Still.register (hq ▸ h)
  · obtain rfl := Peer.eq_other_of_ne hq
    exact local_register.still h

theorem destroyed_register : ((s.register p c).streams q d).destroyed =
    (s.streams q d).destroyed := by
  rw [streams_register, field_modifyStream Stream.destroyed]
  rfl

theorem present_register : ((s.register p c).streams q d).present =
    (s.streams q d).present := by
  rw [streams_register, field_modifyStream Stream.present]
  rfl

theorem dialer_dialled_of_lt (h : d < s.made) : (s.dialled p).dialer d = s.dialer d :=
  if_neg h.ne

theorem dialer_dialled_self : (s.dialled p).dialer s.made = p := if_pos rfl

theorem Quiet.connect (h : s.Quiet w) (ht : ∀ q, s.Tidy q) (p : Peer) :
    (s.connect key p).Agreeing w := by
  cases hg : (s.pools p).get with
  | some e =>
    rw [connect_of_some key hg]
    exact .inl h
  | none =>
    rw [connect_of_none key hg]
    have hstill : ∀ q, ((s.dialled p).register p s.made).Still q :=
      fun q => ((h.still q).dialled (ht p)).register_at
    have halive : ∀ q d, (((s.dialled p).register p s.made).streams q d).destroyed = false := by
      intro q d
      rw [destroyed_register, destroyed_dialled (ht p)]
      exact h.alive q d
    by_cases hp : p = w
    · subst hp
      refine .inr ⟨s.made, ⟨⟨Nat.lt_succ_self _, dialer_dialled_self, fun d hd hw => ?_,
        get_register hg, hstill p, fun q => halive q _⟩, .absent ?_ (hstill _)⟩⟩
      · rcases Nat.lt_succ_iff_lt_or_eq.mp hd with hd | hd
        · have := (dialer_dialled_of_lt (p := p) hd).symm.trans hw
          rw [h.dialer d hd] at this
          exact absurd this (Peer.other_ne p)
        · exact hd
      · rw [present_register, streams_dialled_of_ne (.inl (Peer.other_ne p)),
          (ht p.other).fresh le_rfl]
        rfl
    · obtain rfl := Peer.eq_other_of_ne hp
      -- with a connection made the pool would hold it
      have hmade : s.made = 0 := by
        by_contra hm
        rw [h.far (Nat.pos_of_ne_zero hm)] at hg
        cases hg
      refine .inl ⟨by show s.made + 1 ≤ 1; omega, fun d hd => ?_, hstill, halive, fun _ => ?_,
        fun hpres => ?_⟩
      · obtain rfl : d = s.made := by
          have : d < s.made + 1 := hd
          omega
        exact dialer_dialled_self
      · rw [← hmade]
        exact get_register hg
      · rw [present_register, streams_dialled_of_ne (.inl (Peer.ne_other w)),
          (ht w).fresh (by omega)] at hpres
        cases hpres

theorem Crossed.connect (h : s.Crossed w c) (ht : ∀ q, s.Tidy q) (p : Peer) :
    (s.connect key p).Crossed w c := by
  cases hg : (s.pools p).get with
  | some e =>
    rw [connect_of_some key hg]
    exact h
  | none =>
    have hp : p ≠ w := by
      rintro rfl
      rw [h.near] at hg
      cases hg
    obtain rfl := Peer.eq_other_of_ne hp
    rw [connect_of_none key hg]
    have hc : c ≠ s.made := h.lt.ne
    have hself : (((s.dialled w.other).register w.other s.made).streams w.other c) =
        s.streams w.other c := by
      rw [streams_register, streams_modifyStream_of_ne (.inr hc), streams_dialled_of_ne (.inr hc)]
    have hnear : ((s.dialled w.other).register w.other s.made).pools w = s.pools w :=
      pools_modifyPool_of_ne (Peer.ne_other w)
    refine ⟨⟨Nat.lt_succ_of_lt h.lt, (dialer_dialled_of_lt h.lt).trans h.dialer,
      fun d hd hw => ?_, ?_, (h.still.dialled (ht _)).register_at, fun q => ?_⟩, ?_⟩
    · rcases Nat.lt_succ_iff_lt_or_eq.mp hd with hd | rfl
      · exact h.only d hd ((dialer_dialled_of_lt hd).symm.trans hw)
      · exact absurd (dialer_dialled_self.symm.trans hw) (Peer.other_ne w)
    · rw [hnear]
      exact h.near
    · rw [destroyed_register, destroyed_dialled (ht _)]
      exact h.alive q
    · cases h.place with
      | absent hpres hs =>
        exact .absent (by rw [hself]; exact hpres) (hs.dialled (ht _)).register_at
      | registered hget _ =>
        rw [hget] at hg
        cases hg
      | queued hpres hat hq hd =>
        refine .queued (by rw [hself]; exact hpres) (by rw [hself]; exact hat) ?_ fun d => ?_
        · unfold register
          rw [pools_modifyPool_self]
          split <;> exact hq
        · rw [streams_register, field_modifyStream Stream.deferred, deferred_dialled (ht _)]
          · exact hd d
          · rfl
      | waiting e _ _ hget _ _ _ _ =>
        rw [hget] at hg
        cases hg

/-! ## Incoming connections -/

theorem streams_arrived_self : (s.arrived p c).streams p c =
    { s.streams p c with present := true, opened := true } := streams_modifyStream_self

theorem field_arrived {α : Type} (g : Stream → α)
    (hg : ∀ e : Stream, g { e with present := true, opened := true } = g e) (q : Peer) (d : Nat) :
    g ((s.arrived p c).streams q d) = g (s.streams q d) :=
  field_modifyStream g (hg _) q d

theorem local_arrived : Local p s (s.arrived p c) := local_modifyStream _

theorem Still.arrived (h : s.Still q) : (s.arrived p c).Still q :=
  ⟨h.queue, fun d => (field_arrived Stream.deferred (fun _ => rfl) q d).trans (h.deferred d)⟩

theorem Quiet.onconnection (h : s.Quiet w) (ht : s.Tidy w) (d : Nat) : (s.onconnection key d).Quiet w := by
  rw [onconnection_eq]
  split
  · next hc =>
    obtain ⟨hlt, hpres, -⟩ := hc
    obtain rfl : d = 0 := by
      have := h.made
      omega
    rw [h.dialer 0 hlt, Peer.other_other] at hpres ⊢
    have hg : ((s.arrived w 0).pools w).get = none := by
      cases hg : (s.pools w).get with
      | none => exact hg
      | some e =>
        have hhere := ht.here (ht.of_get hg).1
        have hlt' := ht.lt_made hhere
        obtain rfl : e = 0 := by
          have := h.made
          omega
        simp [hpres] at hhere
    rw [attachStream_of_none key hg]
    refine ⟨h.made, h.dialer, fun p => (h.still p).arrived.register_at, fun p c => ?_, fun hm => ?_,
      fun _ => get_register hg⟩
    · rw [destroyed_register, field_arrived Stream.destroyed fun _ => rfl]
      exact h.alive p c
    · have hfar : ((s.arrived w 0).register w 0).pools w.other = s.pools w.other :=
        pools_modifyPool_of_ne (Peer.other_ne w)
      rw [hfar]
      exact h.far hm
  · exact h

theorem Place.of_same {g : Peer} (h : s.Place g c) (hpools : s'.pools g = s.pools g)
    (hstreams : s'.streams g = s.streams g) : s'.Place g c := by
  have hstill : s.Still g → s'.Still g :=
    fun hs => ⟨hpools ▸ hs.queue, fun d => hstreams ▸ hs.deferred d⟩
  cases h with
  | absent hp hs => exact .absent (hstreams ▸ hp) (hstill hs)
  | registered hg hs => exact .registered (hpools ▸ hg) (hstill hs)
  | queued hp hat hq hd =>
    exact .queued (hstreams ▸ hp) (hstreams ▸ hat) (hpools ▸ hq) fun d => hstreams ▸ hd d
  | waiting e hp hat hg hq hw hd hdes =>
    exact .waiting e (hstreams ▸ hp) (hstreams ▸ hat) (hpools ▸ hg) (hpools ▸ hq) (hstreams ▸ hw)
      (fun d hne => hstreams ▸ hd d hne) (hstreams ▸ hdes)

theorem Crossed.turn_down (h : s.Crossed w c) (hkey : key w < key w.other)
    (hd : s.dialer d = w.other) : (s.attachStream key w d).Crossed w c := by
  have hdc : c ≠ d := by
    rintro rfl
    exact absurd (h.dialer.symm.trans hd) (Peer.ne_other w)
  have heq : s.attachStream key w d = s.modifyStream w d fun e => { e with destroyed := true } := by
    unfold attachStream
    rw [h.near]
    dsimp only
    rw [if_neg]
    rintro (hi | hk)
    · simp [isInitiator, hd, h.dialer] at hi
    · exact absurd hkey (not_lt.mpr hk.le)
  rw [heq]
  refine ⟨⟨h.lt, h.dialer, h.only, h.near, ⟨h.still.queue, fun e => ?_⟩, fun q => ?_⟩,
    h.place.of_same rfl (streams_of_ne_peer (Peer.other_ne w))⟩
  · rw [field_modifyStream Stream.deferred]
    · exact h.still.deferred e
    · rfl
  · rw [streams_modifyStream_of_ne (.inr hdc)]
    exact h.alive q

theorem Crossed.onconnection (h : s.Crossed w c) (hkey : key w < key w.other)
    (ht : ∀ q, s.Tidy q) (d : Nat) : (s.onconnection key d).Crossed w c := by
  rw [onconnection_eq]
  split
  · next hc =>
    obtain ⟨hlt, hpres, -⟩ := hc
    by_cases hw : s.dialer d = w
    · obtain rfl := h.only d hlt hw
      rw [hw] at hpres ⊢
      have hstill : s.Still w.other := by
        cases h.place with
        | absent _ hs => exact hs
        | registered _ hs => exact hs
        | queued hp _ _ _ => simp [hpres] at hp
        | waiting e hp _ _ _ _ _ _ => simp [hpres] at hp
      have hkept : (s.arrived w.other d).Kept w d := by
        refine h.toKept.far local_arrived ?_
        rw [field_arrived Stream.destroyed fun _ => rfl]
        exact h.alive _
      refine hkept.attach key hkey ((ht _).arrived (ht _) hlt hpres) ?_ ?_ hstill.arrived
      · rw [streams_arrived_self]
      · rw [field_arrived Stream.attached fun _ => rfl]
        exact (ht _).attached_present hpres
    · have hfar := Peer.eq_other_of_ne hw
      rw [hfar, Peer.other_other]
      have hcross : (s.arrived w d).Crossed w c := by
        refine ⟨⟨h.lt, h.dialer, h.only, h.near, h.still.arrived, fun q => ?_⟩,
          h.place.of_same rfl (streams_of_ne_peer (Peer.other_ne w))⟩
        rw [field_arrived Stream.destroyed fun _ => rfl]
        exact h.alive q
      exact hcross.turn_down key hkey hfar
  · exact h

/-! ## Opens, closes and what waits for them -/

theorem alike_onopen (ht : ∀ q, s.Tidy q) (d : Nat) : Alike s (s.onopen d) := by
  rw [onopen_eq]
  split
  · next hc =>
    obtain ⟨ha, -, hn, -⟩ := hc
    refine ⟨rfl, rfl, fun p => ?_, fun p => ?_, field_opening Stream.present fun _ => rfl,
      field_opening Stream.attached fun _ => rfl, field_opening Stream.deferred fun _ => rfl,
      fun p e he => ?_⟩
    · by_cases hp : p = s.dialer d
      · subst hp
        rw [(ht _).held ha hn]
        unfold opening
        rw [pools_modifyPool_self]
        rfl
      · unfold opening
        rw [pools_modifyPool_of_ne hp]
        rfl
    · by_cases hp : p = s.dialer d
      · subst hp
        unfold opening
        rw [pools_modifyPool_self]
        rfl
      · unfold opening
        rw [pools_modifyPool_of_ne hp]
        rfl
    · rw [field_opening Stream.destroyed fun _ => rfl]
      exact he
  · exact ⟨rfl, rfl, fun _ => rfl, fun _ => rfl, fun _ _ => rfl, fun _ _ => rfl, fun _ _ => rfl,
      fun _ _ => id⟩

theorem destroyed_onopen (d : Nat) (p : Peer) (e : Nat) :
    ((s.onopen d).streams p e).destroyed = (s.streams p e).destroyed := by
  rw [onopen_eq]
  split
  · exact field_opening Stream.destroyed (fun _ => rfl) p e
  · rfl

theorem Crossed.propagate (h : s.Crossed w c) (p : Peer) (d : Nat) :
    (s.propagate p d).Crossed w c := by
  unfold Network.propagate
  split
  · next hc =>
    have hdc : c ≠ d := by
      rintro rfl
      simp [h.alive p] at hc
    refine h.alike ⟨rfl, rfl, fun _ => rfl, fun _ => rfl, field_modifyStream Stream.present rfl,
      field_modifyStream Stream.attached rfl, field_modifyStream Stream.deferred rfl,
      fun q e he => ?_⟩ fun q => ?_
    · by_cases hqe : q = p.other ∧ e = d
      · obtain ⟨rfl, rfl⟩ := hqe
        rw [streams_modifyStream_self]
      · rw [streams_modifyStream_of_ne (by tauto)]
        exact he
    · rw [streams_modifyStream_of_ne (.inr hdc)]
      exact h.alive q
  · exact h

theorem local_shut : Local p s (s.shut p c) := (local_modifyStream _).trans (local_modifyPool _)

theorem Crossed.shut (h : s.Crossed w c) (ht : ∀ q, s.Tidy q) (hdc : d ≠ c)
    (hn : (s.streams p d).closed = false) (hq : (s.pools p).queue = []) :
    (s.shut p d).Crossed w c := by
  have hsame : ∀ {e}, e ≠ d → (s.shut p d).streams p e = s.streams p e := by
    intro e he
    rw [streams_shut, streams_modifyStream_of_ne (.inr he)]
  have hdeferred : ∀ {e}, (s.streams p e).deferred = [] →
      ((s.shut p d).streams p e).deferred = [] := by
    intro e he
    by_cases hed : e = d
    · subst hed
      rw [streams_shut, streams_modifyStream_self]
    · rw [hsame hed]
      exact he
  -- a registered stream other than `d` stays, since `d` is then not attached
  have hget : ∀ {e}, e ≠ d → (s.pools p).get = some e →
      ((s.shut p d).pools p).get = some e := by
    intro e hed hg
    have ha : (s.streams p d).attached = false := by
      cases ha : (s.streams p d).attached with
      | false => rfl
      | true => exact absurd (Option.some.inj (hg.symm.trans ((ht p).held ha hn))) hed
    unfold ConnectionPool.get
    rw [(shut_other ha).1, (shut_other ha).2]
    exact hg
  have hstill : s.Still p → (s.shut p d).Still p := by
    intro hs
    exact ⟨queue_shut.trans (hs.deferred d), fun e => hdeferred (hs.deferred e)⟩
  by_cases hp : p = w
  · subst hp
    refine ⟨⟨h.lt, h.dialer, h.only, hget hdc.symm h.near, hstill h.still, fun q => ?_⟩,
      h.place.of_same local_shut.pools local_shut.streams⟩
    rw [field_shut Stream.destroyed fun _ => rfl]
    exact h.alive q
  · obtain rfl := Peer.eq_other_of_ne hp
    have hc := hsame hdc.symm
    refine ⟨h.toKept.far local_shut (by rw [hc]; exact h.alive _), ?_⟩
    cases h.place with
    | absent hpres hs => exact .absent (by rw [hc]; exact hpres) (hstill hs)
    | registered hg hs => exact .registered (hget hdc.symm hg) (hstill hs)
    | queued _ _ hq' _ =>
      rw [hq'] at hq
      cases hq
    | waiting e hpres hat hg hq' hw hd hdes =>
      by_cases hed : e = d
      · subst hed
        refine .queued (by rw [hc]; exact hpres) (by rw [hc]; exact hat) (queue_shut.trans hw)
          fun k => ?_
        by_cases hk : k = e
        · subst hk
          rw [streams_shut, streams_modifyStream_self]
        · exact hdeferred (hd k hk)
      · refine .waiting e (by rw [hc]; exact hpres) (by rw [hc]; exact hat) (hget hed hg)
          (queue_shut.trans (hd d (Ne.symm hed))) (by rw [hsame hed]; exact hw)
          (fun k hk => hdeferred (hd k hk)) (by rw [hsame hed]; exact hdes)

theorem Crossed.onclose (h : s.Crossed w c) (ht : ∀ q, s.Tidy q) (p : Peer) (d : Nat) :
    (s.onclose p d).Crossed w c := by
  rw [onclose_eq]
  split
  · next hc =>
    obtain ⟨-, hdes, hn, hq⟩ := hc
    refine h.shut ht ?_ hn hq
    rintro rfl
    simp [h.alive p] at hdes
  · exact h

theorem Crossed.callback (h : s.Crossed w c) (hkey : key w < key w.other) (ht : ∀ q, s.Tidy q)
    (p : Peer) : (s.callback key p).Crossed w c := by
  unfold Network.callback
  cases hq : (s.pools p).queue with
  | nil => exact h
  | cons d rest =>
    have hp : p ≠ w := by
      rintro rfl
      rw [h.still.queue] at hq
      cases hq
    obtain rfl := Peer.eq_other_of_ne hp
    cases h.place with
    | absent _ hs =>
      rw [hs.queue] at hq
      cases hq
    | registered _ hs =>
      rw [hs.queue] at hq
      cases hq
    | waiting e _ _ _ hq' _ _ _ =>
      rw [hq'] at hq
      cases hq
    | queued hpres hat hq' hd =>
      obtain ⟨rfl, rfl⟩ : c = d ∧ [] = rest := by simpa using hq'.symm.trans hq
      have hn : (s.streams w.other c).closed = false := by
        cases hn : (s.streams w.other c).closed with
        | false => rfl
        | true => simpa [h.alive] using ((ht _).ended hn).2
      dsimp only
      rw [if_neg (by rw [streams_modifyPool, hn]; simp)]
      have hkept : (s.modifyPool w.other fun pool => { pool with queue := [] }).Kept w c :=
        h.toKept.far (local_modifyPool _) (h.alive _)
      refine hkept.attach key hkey ((ht _).dequeue hq) hpres hat ⟨?_, hd⟩
      rw [pools_modifyPool_self]

/-! ## Runs -/

/-- While nothing is destroyed there is nothing to close. -/
theorem Quiet.step (h : s.Quiet w) (ht : ∀ q, s.Tidy q) (event : Event)
    (hr : ∀ p c, event ≠ .release p c) : (s.step key event).Agreeing w := by
  cases event with
  | connect p => exact h.connect key ht p
  | connection d => exact .inl (h.onconnection key (ht w) d)
  | opened d =>
    exact .inl (h.alike (alike_onopen ht d) fun p e => (destroyed_onopen d p e).trans (h.alive p e))
  | propagate p d =>
    refine .inl ?_
    show (s.propagate p d).Quiet w
    unfold propagate
    rw [if_neg (by simp [h.alive p d])]
    exact h
  | close p d =>
    refine .inl ?_
    show (s.onclose p d).Quiet w
    rw [onclose_eq, if_neg (by simp [h.alive p d])]
    exact h
  | callback p =>
    refine .inl ?_
    show (s.callback key p).Quiet w
    unfold callback
    rw [(h.still p).queue]
    exact h
  | release p d => exact absurd rfl (hr p d)

theorem Crossed.step (h : s.Crossed w c) (hkey : key w < key w.other) (ht : ∀ q, s.Tidy q)
    (event : Event) (hr : ∀ p c, event ≠ .release p c) : (s.step key event).Crossed w c := by
  cases event with
  | connect p => exact h.connect key ht p
  | connection d => exact h.onconnection key hkey ht d
  | opened d =>
    exact h.alike (alike_onopen ht d) fun p => (destroyed_onopen d p c).trans (h.alive p)
  | propagate p d => exact h.propagate p d
  | close p d => exact h.onclose ht p d
  | callback p => exact h.callback key hkey ht p
  | release p d => exact absurd rfl (hr p d)

theorem tidy_run (events : List Event) (q : Peer) : (run key events).Tidy q := by
  induction events using List.reverseRecOn generalizing q with
  | nil => exact tidy_initial q
  | append_singleton events event ih =>
    unfold run at ih ⊢
    rw [List.foldl_append]
    exact Tidy.step key ih event q

theorem agreeing_run (hkey : key w < key w.other) (events : List Event)
    (hr : ∀ p c, Event.release p c ∉ events) : (run key events).Agreeing w := by
  induction events using List.reverseRecOn with
  | nil => exact .inl (quiet_initial w)
  | append_singleton events event ih =>
    have ht := tidy_run key events
    have hlast : ∀ p c, event ≠ .release p c := by
      rintro p c rfl
      exact hr p c (by simp)
    unfold run at ih ht ⊢
    rw [List.foldl_append]
    rcases ih (fun p c hm => hr p c (by simp [hm])) with h | ⟨c, h⟩
    · exact h.step key ht event hlast
    · exact .inr ⟨c, h.step key hkey ht event hlast⟩

theorem made_step (s : Network) (event : Event) : s.made ≤ (s.step key event).made := by
  have hattach : ∀ (s : Network) p c, (s.attachStream key p c).made = s.made :=
    fun s p c => (local_attachStream key).made
  cases event with
  | connect p =>
    show _ ≤ (s.connect key p).made
    rw [connect_eq]
    split
    · exact le_rfl
    · rw [hattach]
      exact Nat.le_succ _
  | connection c =>
    show _ ≤ (s.onconnection key c).made
    rw [onconnection_eq]
    split
    · rw [hattach]
      exact le_rfl
    · exact le_rfl
  | opened c =>
    show _ ≤ (s.onopen c).made
    rw [onopen_eq]
    split <;> exact le_rfl
  | propagate p c =>
    show _ ≤ (s.propagate p c).made
    unfold propagate
    split <;> exact le_rfl
  | close p c =>
    show _ ≤ (s.onclose p c).made
    rw [onclose_eq]
    split <;> exact le_rfl
  | callback p =>
    show _ ≤ (s.callback key p).made
    unfold callback
    split
    · exact le_rfl
    · dsimp only
      split
      · exact le_rfl
      · rw [hattach]
        exact le_rfl
  | release p c =>
    show _ ≤ (s.release p c).made
    unfold release
    split <;> exact le_rfl

/-- After a dial there is a connection: a pool with none has dialled one. -/
theorem made_pos {events : List Event} (h : Event.connect p ∈ events) :
    0 < (run key events).made := by
  induction events using List.reverseRecOn with
  | nil => cases h
  | append_singleton events event ih =>
    have ht := tidy_run key events p
    unfold run at ih ht ⊢
    rw [List.foldl_append]
    rcases List.mem_append.mp h with h | h
    · exact (ih h).trans_le (made_step key _ event)
    · obtain rfl := List.mem_singleton.mp h
      set s := events.foldl (step key) initial
      show 0 < (s.connect key p).made
      cases hg : (s.pools p).get with
      | none =>
        rw [connect_of_none key hg]
        exact Nat.succ_pos _
      | some e =>
        rw [connect_of_some key hg]
        exact Nat.zero_lt_of_lt (ht.lt_made (ht.here (ht.of_get hg).1))

end

/-- All connections that were not given up have come in, and all close events
have been delivered, their handlers included. -/
structure Settled (s : Network) : Prop where
  delivered : ∀ c < s.made, (s.streams (s.dialer c) c).destroyed = false →
    (s.streams (s.dialer c).other c).present = true
  closed : ∀ p, ∀ c < s.made, (s.streams p c).present = true → (s.streams p c).destroyed = true →
    (s.streams p c).closed = true
  queue : ∀ p, (s.pools p).queue = []

/-- Two pools that agree hold the two ends of one connection. -/
def Joined (s : Network) (c : Nat) : Prop :=
  ∀ p, (s.pools p).get = some c ∧ (s.streams p c).destroyed = false

theorem Quiet.joined {s : Network} {w : Peer} (h : s.Quiet w) (hs : s.Settled)
    (hm : 0 < s.made) : s.Joined 0 := by
  have hpres := hs.delivered 0 hm (h.alive _ 0)
  rw [h.dialer 0 hm, Peer.other_other] at hpres
  intro p
  refine ⟨?_, h.alive p 0⟩
  by_cases hp : p = w
  · subst hp
    exact h.near hpres
  · rw [Peer.eq_other_of_ne hp]
    exact h.far hm

theorem Crossed.joined {s : Network} {w : Peer} {c : Nat} (h : s.Crossed w c) (hs : s.Settled)
    (ht : s.Tidy w.other) : s.Joined c := by
  have hpres := hs.delivered c h.lt (h.alive _)
  rw [h.dialer] at hpres
  have hfar : (s.pools w.other).get = some c := by
    cases h.place with
    | absent hp _ => simp [hp] at hpres
    | registered hg _ => exact hg
    | queued _ _ hq _ => simp [hs.queue] at hq
    | waiting e _ _ hg _ _ _ hdes =>
      -- the stream it waits for would have closed
      obtain ⟨hat, hn⟩ := ht.of_get hg
      have hhere := ht.here hat
      simp [hs.closed w.other e (ht.lt_made hhere) hhere hdes] at hn
  intro p
  refine ⟨?_, h.alive p⟩
  by_cases hp : p = w
  · subst hp
    exact h.near
  · rw [Peer.eq_other_of_ne hp]
    exact hfar

/-- Over every run a pool has at most one stream registered and none that has
closed. Where no stream is destroyed but as a duplicate, and somebody has
dialled, the two pools hold the two ends of one connection once everything is
delivered, and neither end has been destroyed. -/
theorem pools_agree (hne : key .a ≠ key .b) (events : List Event) :
    (∀ p, ((run key events).pools p).connecting = none ∨
      ((run key events).pools p).connections = none) ∧
    (∀ p c, ((run key events).pools p).connecting = some c ∨
      ((run key events).pools p).connections = some c →
      ((run key events).streams p c).closed = false) ∧
    ((∀ p c, Event.release p c ∉ events) → (∃ p, Event.connect p ∈ events) →
      (run key events).Settled → ∃ c, (run key events).Joined c) := by
  have ht := tidy_run key events
  refine ⟨fun p => (ht p).single, fun p c hg => ?_, fun hr hdial hs => ?_⟩
  · rcases hg with hg | hg
    · exact ((ht p).connecting hg).2.2
    · exact ((ht p).connections hg).2.2
  · obtain ⟨w, hkey⟩ : ∃ w : Peer, key w < key w.other := by
      rcases lt_or_gt_of_ne hne with h | h
      · exact ⟨.a, h⟩
      · exact ⟨.b, h⟩
    obtain ⟨p, hp⟩ := hdial
    rcases agreeing_run key hkey events hr with h | ⟨c, h⟩
    · exact ⟨0, h.joined hs (made_pos key hp)⟩
    · exact ⟨c, h.joined hs (ht _)⟩

/-- Both dial, each sees the other's connection, and the first dial is given up. -/
theorem pools_agree_crossing : ∃ c,
    (run (fun p : Peer => if p = .a then 2 else 1) [.connect .a, .connect .b, .connection 1,
      .connection 0, .close .b 0, .close .a 0, .callback .a, .opened 1]).Joined c := by
  refine (pools_agree (fun p : Peer => if p = .a then 2 else 1) (by decide) _).2.2 ?_ ⟨.a, ?_⟩ ?_
  · intro p c
    simp
  · simp
  · refine ⟨by decide, ?_, ?_⟩
    · intro p
      cases p <;> decide
    · intro p
      cases p <;> decide

end Network

end HyperDht.ConnectionPools
