import HyperDht.Private.Entry
import HyperDht.Private.SourceFlow

/-!
# The balances of one leg

A source and the entry's record of it count the same two windows from both ends.
`Settles` says what a source can rely on, whatever becomes of its record: nothing
in flight to it is more than it may take. `Balances` relates the counters of the
record and of its leg in the pool to those of the source and to the frames in
flight both ways, and says in which order demands, grants and acknowledgements
can be in flight (`Talk`). Both hold over every move of the source and over every
frame it takes.
-/

namespace HyperDht.Private

/-- The sum of a weight over frames. -/
def weigh (w : Frame → Nat) (fs : List Frame) : Nat := (fs.map w).sum

@[simp] theorem weigh_nil (w : Frame → Nat) : weigh w [] = 0 := rfl

@[simp] theorem weigh_cons (w : Frame → Nat) (f : Frame) (fs : List Frame) :
    weigh w (f :: fs) = w f + weigh w fs := rfl

@[simp] theorem weigh_append (w : Frame → Nat) (fs gs : List Frame) :
    weigh w (fs ++ gs) = weigh w fs + weigh w gs := by
  unfold weigh
  rw [List.map_append, List.sum_append]

namespace Frame

/-- The DEMAND that takes a demand back, and the answer to it. -/
def ackOf (f : Frame) : Nat := if f = ⟨circuitStreamId, .demand 0⟩ then 1 else 0

def demand? (f : Frame) : Option Nat :=
  match f.body with
  | .demand n => some n
  | _ => none

/-- The circuit credit that a frame of a source uses up or gives back. -/
def uses (f : Frame) : Nat := f.dataOf 0 + f.releaseOf

end Frame

def demands (fs : List Frame) : List Nat := fs.filterMap Frame.demand?

/-- The circuit credit used up by the frames ahead of the first demand. -/
def ahead : List Frame → Nat
  | [] => 0
  | f :: fs => if f.demand?.isSome then 0 else f.uses + ahead fs

theorem demands_append (fs gs : List Frame) : demands (fs ++ gs) = demands fs ++ demands gs :=
  List.filterMap_append

theorem demands_cons (f : Frame) (fs : List Frame) :
    demands (f :: fs) = f.demand?.toList ++ demands fs := by
  unfold demands
  cases h : f.demand? with
  | none => rw [List.filterMap_cons_none h]; rfl
  | some n => rw [List.filterMap_cons_some h]; rfl

theorem demands_singleton (f : Frame) : demands [f] = f.demand?.toList := by
  rw [demands_cons]
  exact List.append_nil _

/-- What stands ahead of the first demand does not change behind it. -/
theorem ahead_append (fs gs : List Frame) :
    ahead (fs ++ gs) = if demands fs = [] then weigh Frame.uses fs + ahead gs else ahead fs := by
  induction fs with
  | nil => simp [demands]
  | cons f fs ih =>
    show (if f.demand?.isSome then 0 else f.uses + ahead (fs ++ gs)) = if _ then _ else
      if f.demand?.isSome then 0 else f.uses + ahead fs
    rw [demands_cons]
    cases hf : f.demand? with
    | none =>
      rw [Option.toList_none, List.nil_append, Option.isSome_none, if_neg Bool.false_ne_true,
        if_neg Bool.false_ne_true, ih]
      by_cases hn : demands fs = []
      · rw [if_pos hn, if_pos hn, weigh_cons, Nat.add_assoc]
      · rw [if_neg hn, if_neg hn]
    | some n => simp

/-- What a source can rely on: `down` is in flight to it. -/
structure Settles (down : List Frame) (st : RouteStream) : Prop where
  send : st.sendCredit + weigh (Frame.creditOf 0) down ≤ streamWindow
  recv : (weigh (Frame.dataOf 0) down : Int) ≤ st.receiveCredit
  circuit : (weigh (Frame.dataOf 0) down : Int) ≤ st.circuitReceiveCredit
  asked : weigh (Frame.creditOf circuitStreamId) down ≤ st.circuitRequested
  held : st.circuitCredit + weigh (Frame.creditOf circuitStreamId) down ≤ circuitWindow
  acks : weigh Frame.ackOf down ≤ st.circuitCanceling.toNat
  order : ∀ pre post, down = pre ++ ⟨circuitStreamId, .demand 0⟩ :: post →
    weigh (Frame.creditOf circuitStreamId) post = 0

/-- A demand of `n` cells is in flight to the entry: it has not granted any of it,
and the leg has room for it once what stands ahead of it has arrived. -/
structure Asked (n : Nat) (leg : Leg) (down up : List Frame) (st : RouteStream) : Prop where
  pos : n ≠ 0
  wanted : leg.wanted = 0
  credit : weigh (Frame.creditOf circuitStreamId) down = 0
  acks : weigh Frame.ackOf down = 0
  requested : st.circuitRequested = n
  room : leg.granted + n ≤ circuitWindow + ahead up

/-- The demands that can be in flight to the entry: none, one, one that is taken
back, or the end of one. -/
inductive Talk (leg : Leg) (down up : List Frame) (st : RouteStream) : Prop
  | silent (h : demands up = [])
  | asked {n : Nat} (h : demands up = [n]) (ha : Asked n leg down up st)
  | dropped {n : Nat} (h : demands up = [n, 0]) (ha : Asked n leg down up st)
      (hc : st.circuitCanceling = true)
  | canceled (h : demands up = [0]) (ho : leg.demandOpen = true) (hc : st.circuitCanceling = true)
      (ha : weigh Frame.ackOf down = 0)

/-- What the entry can rely on: `up` is in flight to it from the source, and
`down` the other way. -/
structure Balances (r : Record) (leg : Leg) (down up : List Frame) (st : RouteStream) : Prop where
  send : st.sendCredit + weigh (Frame.dataOf 0) up + weigh (Frame.creditOf 0) down ≤ r.sendCredit
  recv : (r.receiveCredit + weigh (Frame.dataOf 0) down + weigh (Frame.creditOf 0) up : Int) ≤
    st.receiveCredit
  circuit : (circuitWindow + weigh (Frame.dataOf 0) down +
    weigh (Frame.creditOf circuitStreamId) up : Int) ≤ st.circuitReceiveCredit + r.reverseInFlight
  granted : st.circuitCredit + weigh Frame.uses up + weigh (Frame.creditOf circuitStreamId) down ≤
    leg.granted
  wanted : leg.wanted + weigh (Frame.creditOf circuitStreamId) down ≤ st.circuitRequested
  acked : weigh Frame.ackOf down ≠ 0 → leg.wanted = 0 ∧ demands up = []
  talk : Talk leg down up st

/-- While the stream is not destroyed nothing in flight is lost, and the balances
are exact. -/
structure Exact (r : Record) (leg : Leg) (down up : List Frame) (st : RouteStream) : Prop where
  send : r.sendCredit = st.sendCredit + weigh (Frame.dataOf 0) up + weigh (Frame.creditOf 0) down
  recv : st.receiveCredit =
    r.receiveCredit + weigh (Frame.dataOf 0) down + weigh (Frame.creditOf 0) up
  granted : leg.granted =
    st.circuitCredit + weigh Frame.uses up + weigh (Frame.creditOf circuitStreamId) down
  demandOpen : st.circuitRequested ≠ 0 → st.circuitCanceling = false → demands up = [] →
    leg.demandOpen = true

/-! ## Moves of the source -/

theorem Settles.quiet {down : List Frame} {st st' : RouteStream} (h : Settles down st)
    (hq : st.Quiet st') : Settles down st' where
  send := by rw [hq.sendCredit]; exact h.send
  recv := by rw [hq.receiveCredit]; exact h.recv
  circuit := by rw [hq.circuitReceiveCredit]; exact h.circuit
  asked := by rw [hq.circuitRequested]; exact h.asked
  held := by rw [hq.circuitCredit]; exact h.held
  acks := by rw [hq.circuitCanceling]; exact h.acks
  order := h.order

/-- A frame that goes out takes nothing from what the source may still take. -/
theorem Settles.sends {down : List Frame} {st st' : RouteStream} {f : Frame} (h : Settles down st)
    (hs : Source.Sends st st' f) : Settles down st' := by
  have hsend := h.send
  have hrecv := h.recv
  have hcircuit := h.circuit
  have hasked := h.asked
  have hheld := h.held
  have hacks := h.acks
  cases hs with
  | data chunk hs hc =>
    refine ⟨?_, hrecv, hcircuit, hasked, ?_, hacks, h.order⟩
    · show st.sendCredit - 1 + _ ≤ _
      omega
    · show st.circuitCredit - 1 + _ ≤ _
      omega
  | demand hd hr hc hle =>
    refine ⟨hsend, hrecv, hcircuit, ?_, hheld, hacks, h.order⟩
    rw [hr] at hasked
    exact hasked.trans (Nat.zero_le _)
  | cancel hd hr hc =>
    refine ⟨hsend, hrecv, hcircuit, hasked, hheld, ?_, h.order⟩
    rw [hc] at hacks
    exact hacks.trans (Nat.zero_le _)
  | release =>
    refine ⟨hsend, hrecv, hcircuit, hasked, ?_, hacks, h.order⟩
    show 0 + _ ≤ _
    omega
  | credit =>
    refine ⟨hsend, ?_, hcircuit, hasked, hheld, hacks, h.order⟩
    show _ ≤ st.receiveCredit + _
    omega
  | circuitCredit =>
    refine ⟨hsend, hrecv, ?_, hasked, hheld, hacks, h.order⟩
    show _ ≤ st.circuitReceiveCredit + _
    omega
  | fin => exact h
  | reset => exact h

theorem Source.stream_close (s : Source) : s.stream.Held s.close.stream := by
  unfold Source.close
  split
  · exact .refl _
  · exact RouteStream.held_destroy _

/-- What a source can rely on holds over its moves. -/
theorem Settles.move {down : List Frame} {s s' : Source} (h : Settles down s.stream)
    (hm : Source.Move s s') : Settles down s'.stream := by
  cases hm with
  | quiet hq => exact h.quiet hq
  | @send st f hs => exact (h.sends hs).quiet (Source.held_sendOut { s with stream := st } f).quiet
  | close => exact h.quiet s.stream_close.quiet
  | fault => exact h

theorem Asked.congr {n : Nat} {leg : Leg} {down up up' : List Frame} {st st' : RouteStream}
    (h : Asked n leg down up st) (hr : st'.circuitRequested = st.circuitRequested)
    (hu : ahead up' = ahead up) : Asked n leg down up' st' :=
  ⟨h.pos, h.wanted, h.credit, h.acks, hr.trans h.requested, hu ▸ h.room⟩

/-- The demands in flight after a frame that is none of them. -/
theorem Talk.push {leg : Leg} {down up : List Frame} {st st' : RouteStream}
    (h : Talk leg down up st) {f : Frame} (hf : f.demand? = none)
    (hr : st'.circuitRequested = st.circuitRequested)
    (hc : st'.circuitCanceling = st.circuitCanceling) : Talk leg down (up ++ [f]) st' := by
  have hd : demands (up ++ [f]) = demands up := by
    rw [demands_append, demands_singleton, hf]
    exact List.append_nil _
  have ha : demands up ≠ [] → ahead (up ++ [f]) = ahead up := fun hne => by
    rw [ahead_append, if_neg hne]
  cases h with
  | silent h => exact .silent (hd.trans h)
  | asked h hask => exact .asked (hd.trans h) (hask.congr hr (ha (by rw [h]; simp)))
  | dropped h hask hcan =>
    exact .dropped (hd.trans h) (hask.congr hr (ha (by rw [h]; simp))) (hc.trans hcan)
  | canceled h ho hcan hack => exact .canceled (hd.trans h) ho (hc.trans hcan) hack

/-- Only the frames that are written stay in flight when a link closes. -/
theorem Talk.take {leg : Leg} {down up rest : List Frame} {st : RouteStream}
    (h : Talk leg down (up ++ rest) st) : Talk leg down up st := by
  have hasked : ∀ {n}, demands up ≠ [] → Asked n leg down (up ++ rest) st →
      Asked n leg down up st := by
    intro n hne ha
    refine ha.congr rfl ?_
    rw [ahead_append, if_neg hne]
  have hsplit : ∀ {ns : List Nat}, demands (up ++ rest) = ns →
      demands up ++ demands rest = ns := fun he => by
    rw [← demands_append]
    exact he
  cases hu : demands up with
  | nil => exact .silent hu
  | cons n ns =>
    cases h with
    | silent h =>
      have := hsplit h
      rw [hu] at this
      cases this
    | asked h ha =>
      have := hsplit h
      rw [hu, List.cons_append] at this
      obtain ⟨rfl, hns⟩ := List.cons.inj this
      rw [(List.append_eq_nil_iff.mp hns).1] at hu
      exact .asked hu (hasked (by rw [hu]; simp) ha)
    | dropped h ha hc =>
      have := hsplit h
      rw [hu, List.cons_append] at this
      obtain ⟨rfl, hns⟩ := List.cons.inj this
      cases ns with
      | nil => exact .asked hu (hasked (by rw [hu]; simp) ha)
      | cons m ns =>
        rw [List.cons_append] at hns
        obtain ⟨rfl, hnil⟩ := List.cons.inj hns
        rw [(List.append_eq_nil_iff.mp hnil).1] at hu
        exact .dropped hu (hasked (by rw [hu]; simp) ha) hc
    | canceled h ho hc ha =>
      have := hsplit h
      rw [hu, List.cons_append] at this
      obtain ⟨rfl, hns⟩ := List.cons.inj this
      rw [(List.append_eq_nil_iff.mp hns).1] at hu
      exact .canceled hu ho hc ha

theorem Balances.take {r : Record} {leg : Leg} {down up rest : List Frame} {st : RouteStream}
    (h : Balances r leg down (up ++ rest) st) : Balances r leg down up st := by
  have hsend := h.send
  have hrecv := h.recv
  have hcircuit := h.circuit
  have hgranted := h.granted
  rw [weigh_append] at hsend hrecv hcircuit hgranted
  refine ⟨by omega, by omega, by omega, by omega, h.wanted, fun hack => ?_, h.talk.take⟩
  obtain ⟨hw, hd⟩ := h.acked hack
  rw [demands_append, List.append_eq_nil_iff] at hd
  exact ⟨hw, hd.1⟩

theorem Talk.quiet {leg : Leg} {down up : List Frame} {st st' : RouteStream}
    (h : Talk leg down up st) (hr : st'.circuitRequested = st.circuitRequested)
    (hc : st'.circuitCanceling = st.circuitCanceling) : Talk leg down up st' := by
  cases h with
  | silent h => exact .silent h
  | asked h hask => exact .asked h (hask.congr hr rfl)
  | dropped h hask hcan => exact .dropped h (hask.congr hr rfl) (hc.trans hcan)
  | canceled h ho hcan hack => exact .canceled h ho (hc.trans hcan) hack

theorem Balances.quiet {r : Record} {leg : Leg} {down up : List Frame} {st st' : RouteStream}
    (h : Balances r leg down up st) (hq : st.Quiet st') : Balances r leg down up st' where
  send := by rw [hq.sendCredit]; exact h.send
  recv := by rw [hq.receiveCredit]; exact h.recv
  circuit := by rw [hq.circuitReceiveCredit]; exact h.circuit
  granted := by rw [hq.circuitCredit]; exact h.granted
  wanted := by rw [hq.circuitRequested]; exact h.wanted
  acked := h.acked
  talk := h.talk.quiet hq.circuitRequested hq.circuitCanceling

theorem Exact.quiet {r : Record} {leg : Leg} {down up : List Frame} {st st' : RouteStream}
    (h : Exact r leg down up st) (hq : st.Quiet st') : Exact r leg down up st' where
  send := by rw [hq.sendCredit]; exact h.send
  recv := by rw [hq.receiveCredit]; exact h.recv
  granted := by rw [hq.circuitCredit]; exact h.granted
  demandOpen := by rw [hq.circuitRequested, hq.circuitCanceling]; exact h.demandOpen

/-- A frame of the source that is no demand, with the counters it stands for. -/
theorem Balances.push {r : Record} {leg : Leg} {down up : List Frame} {st : RouteStream}
    (h : Balances r leg down up st) (st' : RouteStream) (f : Frame) (hf : f.demand? = none)
    (hsend : st'.sendCredit + f.dataOf 0 = st.sendCredit)
    (hrecv : st'.receiveCredit = st.receiveCredit + f.creditOf 0)
    (hcircuit : st'.circuitReceiveCredit =
      st.circuitReceiveCredit + f.creditOf circuitStreamId)
    (hcredit : st'.circuitCredit + f.uses = st.circuitCredit)
    (hr : st'.circuitRequested = st.circuitRequested)
    (hc : st'.circuitCanceling = st.circuitCanceling) :
    Balances r leg down (up ++ [f]) st' ∧
      (Exact r leg down up st → Exact r leg down (up ++ [f]) st') := by
  have hd : demands (up ++ [f]) = demands up := by
    rw [demands_append, demands_singleton, hf]
    exact List.append_nil _
  have hw : ∀ w, weigh w (up ++ [f]) = weigh w up + w f := fun w => by simp
  refine ⟨⟨?_, ?_, ?_, ?_, by rw [hr]; exact h.wanted, by rw [hd]; exact h.acked,
    h.talk.push hf hr hc⟩, fun he => ⟨?_, ?_, ?_, by rw [hr, hc, hd]; exact he.demandOpen⟩⟩
  · have := h.send
    rw [hw]
    omega
  · have := h.recv
    rw [hw]
    omega
  · have := h.circuit
    rw [hw]
    omega
  · have := h.granted
    rw [hw]
    omega
  · have := he.send
    rw [hw]
    omega
  · have := he.recv
    rw [hw]
    omega
  · have := he.granted
    rw [hw]
    omega

theorem Balances.ask {r : Record} {leg : Leg} {down up : List Frame} {st : RouteStream}
    (h : Balances r leg down up st) (hset : Settles down st) (he : Exact r leg down up st)
    (hr : st.circuitRequested = 0) (hc : st.circuitCanceling = false)
    (hle : st.circuitCredit ≤ circuitWindow / 2) :
    Balances r leg down (up ++ [⟨circuitStreamId, .demand (circuitWindow - st.circuitCredit)⟩])
      { st with circuitRequested := circuitWindow - st.circuitCredit } := by
  have hsilent : demands up = [] := by
    cases h.talk with
    | silent h => exact h
    | asked h ha => exact absurd (ha.requested.symm.trans hr) ha.pos
    | dropped h ha hcan => exact absurd (hcan.symm.trans hc) (by decide)
    | canceled h ho hcan ha => exact absurd (hcan.symm.trans hc) (by decide)
  have hacks : weigh Frame.ackOf down = 0 := by
    have := hset.acks
    rw [hc] at this
    exact Nat.le_zero.mp this
  have hwanted := h.wanted
  rw [hr] at hwanted
  have hd : demands (up ++ [⟨circuitStreamId, .demand (circuitWindow - st.circuitCredit)⟩]) =
      [circuitWindow - st.circuitCredit] := by
    rw [demands_append, hsilent]
    rfl
  have hw : ∀ w : Frame → Nat, w ⟨circuitStreamId, .demand (circuitWindow - st.circuitCredit)⟩ = 0 →
      weigh w (up ++ [⟨circuitStreamId, .demand (circuitWindow - st.circuitCredit)⟩]) = weigh w up := by
    intro w h0
    rw [weigh_append, weigh_cons, h0]
    rfl
  have h0 := hw (Frame.dataOf 0) rfl
  have h1 := hw (Frame.creditOf 0) rfl
  have h2 := hw (Frame.creditOf circuitStreamId) rfl
  have h3 := hw Frame.uses rfl
  refine ⟨by rw [h0]; exact h.send, by rw [h1]; exact h.recv, by rw [h2]; exact h.circuit,
    by rw [h3]; exact h.granted, ?_, fun hack => absurd hacks hack, .asked hd ⟨?_, ?_, ?_, hacks,
      rfl, ?_⟩⟩
  · show leg.wanted + _ ≤ circuitWindow - st.circuitCredit
    omega
  · have : circuitWindow / 2 < circuitWindow := by decide
    omega
  · omega
  · omega
  · have hg := he.granted
    rw [ahead_append, if_pos hsilent]
    show leg.granted + (circuitWindow - st.circuitCredit) ≤ circuitWindow + (_ + 0)
    have : st.circuitCredit ≤ circuitWindow := hle.trans (by decide)
    omega

theorem Balances.cancel {r : Record} {leg : Leg} {down up : List Frame} {st : RouteStream}
    (h : Balances r leg down up st) (hset : Settles down st) (he : Exact r leg down up st)
    (hr : st.circuitRequested ≠ 0) (hc : st.circuitCanceling = false) :
    Balances r leg down (up ++ [⟨circuitStreamId, .demand 0⟩]) { st with circuitCanceling := true } := by
  have hacks : weigh Frame.ackOf down = 0 := by
    have := hset.acks
    rw [hc] at this
    exact Nat.le_zero.mp this
  have hw : ∀ w : Frame → Nat, w ⟨circuitStreamId, .demand 0⟩ = 0 →
      weigh w (up ++ [⟨circuitStreamId, .demand 0⟩]) = weigh w up := by
    intro w h0
    rw [weigh_append, weigh_cons, h0]
    rfl
  have h0 := hw (Frame.dataOf 0) rfl
  have h1 := hw (Frame.creditOf 0) rfl
  have h2 := hw (Frame.creditOf circuitStreamId) rfl
  have h3 := hw Frame.uses rfl
  have hd : demands (up ++ [⟨circuitStreamId, .demand 0⟩]) = demands up ++ [0] := demands_append _ _
  refine ⟨by rw [h0]; exact h.send, by rw [h1]; exact h.recv, by rw [h2]; exact h.circuit,
    by rw [h3]; exact h.granted, h.wanted, fun hack => absurd hacks hack, ?_⟩
  cases h.talk with
  | silent h => exact .canceled (by rw [hd, h]; rfl) (he.demandOpen hr hc h) rfl hacks
  | asked h ha =>
    refine .dropped (by rw [hd, h]; rfl) (ha.congr rfl ?_) rfl
    rw [ahead_append, if_neg (by rw [h]; simp)]
  | dropped h ha hcan => exact absurd (hcan.symm.trans hc) (by decide)
  | canceled h ho hcan ha => exact absurd (hcan.symm.trans hc) (by decide)

theorem Balances.sends {r : Record} {leg : Leg} {down up : List Frame} {st st' : RouteStream}
    {f : Frame} (h : Balances r leg down up st) (hset : Settles down st)
    (he : st.destroying = false → Exact r leg down up st) (hs : Source.Sends st st' f) :
    Balances r leg down (up ++ [f]) st' ∧
      (st'.destroying = false → Exact r leg down (up ++ [f]) st') := by
  cases hs with
  | data chunk hs hc =>
    obtain ⟨hb, hx⟩ := h.push st.spendCell ⟨0, .data chunk⟩ rfl
      (show st.sendCredit - 1 + 1 = _ by omega) (Int.add_zero _).symm (Int.add_zero _).symm
      (show st.circuitCredit - 1 + 1 = _ by omega) rfl rfl
    exact ⟨hb, fun hd => hx (he hd)⟩
  | demand hd hr hc hle =>
    refine ⟨h.ask hset (he hd) hr hc hle, fun _ => ?_⟩
    have hx := he hd
    refine ⟨?_, ?_, ?_, fun _ _ hdem => ?_⟩
    · rw [weigh_append]
      exact hx.send
    · rw [weigh_append]
      exact hx.recv
    · rw [weigh_append]
      exact hx.granted
    · rw [demands_append] at hdem
      exact absurd (List.append_eq_nil_iff.mp hdem).2 (by simp [demands, Frame.demand?])
  | cancel hd hr hc =>
    refine ⟨h.cancel hset (he hd) hr hc, fun _ => ?_⟩
    have hx := he hd
    refine ⟨?_, ?_, ?_, fun _ hcan => (Bool.noConfusion hcan)⟩
    · rw [weigh_append]
      exact hx.send
    · rw [weigh_append]
      exact hx.recv
    · rw [weigh_append]
      exact hx.granted
  | release =>
    obtain ⟨hb, hx⟩ := h.push { st with circuitCredit := 0 }
      ⟨circuitStreamId, .release st.circuitCredit⟩ rfl rfl (Int.add_zero _).symm
      (Int.add_zero _).symm (by simp [Frame.uses, Frame.dataOf, Frame.releaseOf, circuitStreamId])
      rfl rfl
    exact ⟨hb, fun hd => hx (he hd)⟩
  | credit =>
    obtain ⟨hb, hx⟩ := h.push { st with
        streamReturnPending := 0
        receiveCredit := st.receiveCredit + st.streamReturnPending }
      ⟨0, .credit st.streamReturnPending⟩ rfl rfl rfl (Int.add_zero _).symm rfl rfl rfl
    exact ⟨hb, fun hd => hx (he hd)⟩
  | circuitCredit =>
    obtain ⟨hb, hx⟩ := h.push { st with
        circuitReturnPending := 0
        returnTimer := false
        circuitReceiveCredit := st.circuitReceiveCredit + st.circuitReturnPending }
      ⟨circuitStreamId, .credit st.circuitReturnPending⟩ rfl rfl (Int.add_zero _).symm
      (by rw [Frame.creditOf_self]) rfl rfl rfl
    exact ⟨hb, fun hd => hx (he hd)⟩
  | fin =>
    obtain ⟨hb, hx⟩ := h.push st ⟨0, .fin⟩ rfl rfl (Int.add_zero _).symm (Int.add_zero _).symm
      rfl rfl rfl
    exact ⟨hb, fun hd => hx (he hd)⟩
  | reset =>
    obtain ⟨hb, hx⟩ := h.push st ⟨0, .reset⟩ rfl rfl (Int.add_zero _).symm
      (Int.add_zero _).symm rfl rfl rfl
    exact ⟨hb, fun hd => hx (he hd)⟩

/-- The invariant of a leg whose record is registered. -/
structure Joint (r : Record) (leg : Leg) (down : List Frame) (s : Source) : Prop where
  balances : Balances r leg down s.link.frames s.stream
  exact : s.stream.destroying = false → Exact r leg down s.link.frames s.stream

theorem Balances.close {r : Record} {leg : Leg} {down : List Frame} {s : Source}
    (h : Balances r leg down s.link.frames s.stream) (hl : s.link.destroyed = false) :
    Joint r leg down s.close := by
  have hclose : s.close = { s with link := s.link.destroy, stream := s.stream.destroy } := by
    unfold Source.close
    exact if_neg (by rw [hl]; decide)
  have hwire : Balances r leg down s.link.wire s.stream := Balances.take h
  rw [hclose]
  refine ⟨?_, fun hd => absurd (hd.symm.trans (RouteStream.destroying_destroy _)) (by decide)⟩
  show Balances r leg down s.link.destroy.frames s.stream.destroy
  rw [Link.frames_destroy]
  exact hwire.quiet (RouteStream.held_destroy _).quiet

theorem Source.Sends.destroying {st st' : RouteStream} {f : Frame} (h : Source.Sends st st' f) :
    st'.destroying = st.destroying := by
  cases h <;> rfl

theorem Joint.move {r : Record} {leg : Leg} {down : List Frame} {s s' : Source}
    (h : Joint r leg down s) (hset : Settles down s.stream) (hsane : s.link.Single)
    (hclosed : s.link.destroyed = true → s.stream.destroying = true) (hm : Source.Move s s') :
    Joint r leg down s' := by
  cases hm with
  | quiet hq => exact ⟨h.balances.quiet hq, fun hd => (h.exact (hq.destroying hd)).quiet hq⟩
  | @send st f hs =>
    obtain ⟨hb, hx⟩ := h.balances.sends hset h.exact hs
    unfold Source.sendOut
    split
    · next hl =>
      -- the frame is lost, and the stream is destroyed with its link
      refine ⟨hb.take, fun hd => ?_⟩
      exact absurd ((hclosed hl).symm.trans (hs.destroying.symm.trans hd)) (by decide)
    · next hl =>
      split
      · exact Balances.close (s := { s with stream := st }) hb.take (Bool.eq_false_of_not_eq_true hl)
      · refine ⟨?_, ?_⟩
        · show Balances r leg down (s.link.enqueue f).frames st
          rw [hsane.frames_enqueue]
          exact hb
        · show _ → Exact r leg down (s.link.enqueue f).frames st
          rw [hsane.frames_enqueue]
          exact hx
  | close =>
    cases hl : s.link.destroyed with
    | false => exact h.balances.close hl
    | true =>
      rw [show s.close = s from if_pos hl]
      exact h
  | fault => exact ⟨h.balances, h.exact⟩

/-- The link of a source has one queue, and its stream goes with it. -/
structure Source.Tied (s : Source) : Prop where
  single : s.link.Single
  closed : s.link.destroyed = true → s.stream.destroying = true

theorem Source.Sane.tied {s : Source} (h : s.Sane) : s.Tied := ⟨h.single, h.closed⟩

theorem Source.Tied.quiet {s : Source} (h : s.Tied) {st : RouteStream} (hq : s.stream.Quiet st) :
    Source.Tied { s with stream := st } := by
  refine ⟨h.single, fun hl => ?_⟩
  by_contra hd
  exact absurd ((h.closed hl).symm.trans (hq.destroying (Bool.eq_false_of_not_eq_true hd)))
    (by decide)

theorem Source.Tied.close {s : Source} (h : s.Tied) : s.close.Tied := by
  unfold Source.close
  split
  · exact h
  · exact ⟨h.single.destroy, fun _ => RouteStream.destroying_destroy _⟩

theorem Source.Tied.move {s s' : Source} (h : s.Tied) (hm : Source.Move s s') : s'.Tied := by
  cases hm with
  | quiet hq => exact h.quiet hq
  | @send st f hs =>
    have hst : Source.Tied { s with stream := st } :=
      ⟨h.single, fun hl => hs.destroying.trans (h.closed hl)⟩
    unfold Source.sendOut
    split
    · exact hst
    · split
      · exact hst.close
      · exact ⟨h.single.enqueue f, hst.closed⟩
  | close => exact h.close
  | fault => exact ⟨h.single, h.closed⟩

theorem Settles.moves {down : List Frame} {s s' : Source} (h : Settles down s.stream)
    (hm : Source.Moves s s') : Settles down s'.stream :=
  hm.keeps (P := fun s => Settles down s.stream) (fun hm h => h.move hm) h

/-- **The balances of a leg hold over everything the source does.** -/
theorem Joint.moves {r : Record} {leg : Leg} {down : List Frame} {s s' : Source}
    (h : Joint r leg down s) (hset : Settles down s.stream) (ht : s.Tied)
    (hm : Source.Moves s s') : Joint r leg down s' := by
  have := hm.keeps (P := fun s => Joint r leg down s ∧ Settles down s.stream ∧ s.Tied)
    (fun hm h => ⟨h.1.move h.2.1 h.2.2.single h.2.2.closed hm, h.2.1.move hm, h.2.2.move hm⟩)
    ⟨h, hset, ht⟩
  exact this.1

/-! ## Frames the source takes -/

theorem Settles.took {f : Frame} {down : List Frame} {s s' : Source}
    (h : Settles (f :: down) s.stream) (ht : Source.Took f s s') : Settles down s'.stream := by
  have hsend := h.send
  have hrecv := h.recv
  have hcircuit := h.circuit
  have hasked := h.asked
  have hheld := h.held
  have hacks := h.acks
  simp only [weigh_cons, Nat.cast_add] at hsend hrecv hcircuit hasked hheld hacks
  have h₁ := ht.sendCredit.1
  have h₂ := ht.receiveCredit.1
  have h₃ := ht.circuitReceiveCredit
  have h₄ := ht.circuitCredit.1
  refine ⟨by omega, by omega, by omega, ?_, by omega, ?_, fun pre post he => h.order (f :: pre) post
    (by rw [he]; rfl)⟩
  · rcases ht.demand with ⟨hle, -, -⟩ | ⟨rfl, hr, -⟩
    · omega
    · -- the acknowledgement comes after every grant
      rw [hr, h.order [] down rfl]
  · rcases ht.demand with ⟨-, -, hc⟩ | ⟨rfl, -, hc⟩
    · rw [hc]
      omega
    · rw [hc]
      have hone : (⟨circuitStreamId, .demand 0⟩ : Frame).ackOf = 1 := rfl
      have := Bool.toNat_le s.stream.circuitCanceling
      show weigh Frame.ackOf down ≤ 0
      omega

/-- Nothing that can be in flight to a source fails a check of its credit. -/
theorem Settles.accepts {f : Frame} {down : List Frame} {s : Source}
    (h : Settles (f :: down) s.stream) {g : StreamFault} (hg : s.Refuses f g) :
    g ≠ .circuitReceiveCredit ∧ g ≠ .window ∧ g ≠ .grantStream ∧ g ≠ .grantCircuit ∧
      g ≠ .cancelCircuit ∧ g ≠ .overflow := by
  have hsend := h.send
  have hrecv := h.recv
  have hcircuit := h.circuit
  have hasked := h.asked
  have hheld := h.held
  have hacks := h.acks
  simp only [weigh_cons, Nat.cast_add] at hsend hrecv hcircuit hasked hheld hacks
  refine ⟨?_, ?_, ?_, ?_, ?_, ?_⟩
  · rintro rfl
    change s.stream.circuitReceiveCredit < f.dataOf 0 at hg
    omega
  · rintro rfl
    change s.stream.receiveCredit < f.dataOf 0 at hg
    omega
  · rintro rfl
    change streamWindow < s.stream.sendCredit + f.creditOf 0 at hg
    omega
  · rintro rfl
    rcases hg with hg | hg
    · omega
    · omega
  · rintro rfl
    obtain ⟨rfl, hc⟩ := hg
    have hone : (⟨circuitStreamId, .demand 0⟩ : Frame).ackOf = 1 := rfl
    rw [hc] at hacks
    change _ ≤ 0 at hacks
    omega
  · rintro rfl
    exact hg

theorem Talk.took {leg : Leg} {f : Frame} {down up : List Frame} {s s' : Source}
    (h : Talk leg (f :: down) up s.stream) (hacked : f.ackOf ≠ 0 → demands up = [])
    (ht : Source.Took f s s') : Talk leg down up s'.stream := by
  have hasked : ∀ {n : Nat}, demands up ≠ [] → Asked n leg (f :: down) up s.stream →
      Asked n leg down up s'.stream := by
    intro n hne ha
    have hcredit := ha.credit
    have hacks := ha.acks
    rw [weigh_cons] at hcredit hacks
    refine ⟨ha.pos, ha.wanted, by omega, by omega, ?_, ha.room⟩
    rcases ht.demand with ⟨hle, hge, -⟩ | ⟨rfl, -, -⟩
    · have := ha.requested
      omega
    · exact absurd (hacked (by decide)) hne
  have hcan : demands up ≠ [] → s.stream.circuitCanceling = true →
      s'.stream.circuitCanceling = true := by
    intro hne hc
    rcases ht.demand with ⟨-, -, he⟩ | ⟨rfl, -, -⟩
    · exact he.trans hc
    · exact absurd (hacked (by decide)) hne
  cases h with
  | silent h => exact .silent h
  | asked h ha => exact .asked h (hasked (by rw [h]; simp) ha)
  | dropped h ha hc =>
    exact .dropped h (hasked (by rw [h]; simp) ha) (hcan (by rw [h]; simp) hc)
  | canceled h ho hc ha =>
    rw [weigh_cons] at ha
    exact .canceled h ho (hcan (by rw [h]; simp) hc) (by omega)

theorem Joint.took {r : Record} {leg : Leg} {f : Frame} {down : List Frame} {s s' : Source}
    (h : Joint r leg (f :: down) s) (hset : Settles (f :: down) s.stream) (ht : Source.Took f s s') :
    Joint r leg down s' := by
  have hb := h.balances
  have hsend := hb.send
  have hrecv := hb.recv
  have hcircuit := hb.circuit
  have hgranted := hb.granted
  have hwanted := hb.wanted
  simp only [weigh_cons, Nat.cast_add] at hsend hrecv hcircuit hgranted hwanted
  have h₁ := ht.sendCredit
  have h₂ := ht.receiveCredit
  have h₃ := ht.circuitReceiveCredit
  have h₄ := ht.circuitCredit
  have hacked : f.ackOf ≠ 0 → leg.wanted = 0 ∧ demands s.link.frames = [] := fun hne =>
    hb.acked (by rw [weigh_cons]; omega)
  rw [← ht.link] at hacked
  refine ⟨⟨?_, ?_, ?_, ?_, ?_, fun hack => ?_, ?_⟩, fun hd => ?_⟩
  · rw [ht.link]
    omega
  · rw [ht.link]
    omega
  · rw [ht.link]
    omega
  · rw [ht.link]
    omega
  · rcases ht.demand with ⟨hle, -, -⟩ | ⟨rfl, hr, -⟩
    · omega
    · rw [hr, (hacked (by decide)).1, hset.order [] down rfl]
  · rw [ht.link]
    exact hb.acked (by rw [weigh_cons]; omega)
  · rw [ht.link] at hacked ⊢
    exact hb.talk.took (fun hne => (hacked hne).2) ht
  · have hx := h.exact (ht.destroying hd)
    have e₁ := hx.send
    have e₂ := hx.recv
    have e₃ := hx.granted
    simp only [weigh_cons, Nat.cast_add] at e₁ e₂ e₃
    have h₁' := h₁.2 hd
    have h₂' := h₂.2 hd
    have h₄' := h₄.2 hd
    rw [ht.link]
    refine ⟨by omega, by omega, by omega, fun hr hc hdem => ?_⟩
    rcases ht.demand with ⟨-, hge, he⟩ | ⟨-, hr', -⟩
    · exact hx.demandOpen (by omega) (he ▸ hc) hdem
    · exact absurd hr' hr

end HyperDht.Private
