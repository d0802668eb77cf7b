import HyperDht.Private.EntryCredit
import HyperDht.Private.LegBalance

/-!
# The entry's part in the balances of a leg

What the entry does with a frame of a source (`Handled`), with a frame for a
source (`Handed`) and with the grants of its pool, as far as the record and the
leg of that source go. Each keeps the balances of the leg, so the checks of the
entry on the credit of a source never fail.
-/

namespace HyperDht.Private

/-! ## Frames of the source -/

/-- The checks of the entry on the credit of a source, for its next frame. -/
theorem Balances.admits {r : Record} {leg : Leg} {f : Frame} {down up : List Frame}
    {st : RouteStream} (h : Balances r leg down (f :: up) st)
    (hwindow : st.receiveCredit ≤ streamWindow) (hcircuit : st.circuitReceiveCredit ≤ circuitWindow) :
    f.dataOf 0 ≤ r.sendCredit ∧ r.receiveCredit + f.creditOf 0 ≤ streamWindow ∧
      f.creditOf circuitStreamId ≤ r.reverseInFlight ∧ f.uses ≤ leg.granted := by
  have h₁ := h.send
  have h₂ := h.recv
  have h₃ := h.circuit
  have h₄ := h.granted
  simp only [weigh_cons, Nat.cast_add] at h₁ h₂ h₃ h₄
  refine ⟨?_, ?_, ?_, ?_⟩ <;> omega

/-- What the pool does with a demand of the source: it has no other demand open,
and room for this one; and what is taken back was asked for. -/
theorem Balances.demand_admits {r : Record} {leg : Leg} {n : Nat} {down up : List Frame}
    {st : RouteStream} (h : Balances r leg down (⟨circuitStreamId, .demand n⟩ :: up) st) :
    (n ≠ 0 → leg.wanted = 0 ∧ leg.granted + n ≤ circuitWindow) ∧
      (n = 0 → leg.demandOpen = true) := by
  have hd : demands (⟨circuitStreamId, .demand n⟩ :: up) = n :: demands up := rfl
  have ha : ahead (⟨circuitStreamId, .demand n⟩ :: up) = 0 := rfl
  cases h.talk with
  | silent h =>
    rw [hd] at h
    cases h
  | asked h hask =>
    rw [hd] at h
    obtain ⟨rfl, -⟩ := List.cons.inj h
    have := hask.room
    rw [ha] at this
    exact ⟨fun _ => ⟨hask.wanted, this⟩, fun h0 => absurd h0 hask.pos⟩
  | dropped h hask hc =>
    rw [hd] at h
    obtain ⟨rfl, -⟩ := List.cons.inj h
    have := hask.room
    rw [ha] at this
    exact ⟨fun _ => ⟨hask.wanted, this⟩, fun h0 => absurd h0 hask.pos⟩
  | canceled h ho hc hack =>
    rw [hd] at h
    obtain ⟨rfl, -⟩ := List.cons.inj h
    exact ⟨fun hne => absurd rfl hne, fun _ => ho⟩

/-- A list with one more frame, split at an earlier one. -/
theorem concat_split {down pre post : List Frame} {f g : Frame}
    (h : down ++ [g] = pre ++ f :: post) :
    post = [] ∨ ∃ post', post = post' ++ [g] ∧ down = pre ++ f :: post' := by
  rcases List.eq_nil_or_concat post with rfl | ⟨post', x, rfl⟩
  · exact .inl rfl
  · rw [List.concat_eq_append] at h ⊢
    have h' : down ++ [g] = (pre ++ f :: post') ++ [x] := by rw [h]; simp
    obtain ⟨hd, hx⟩ := List.append_inj' h' rfl
    obtain rfl := List.singleton_inj.mp hx
    exact .inr ⟨post', rfl, hd⟩

/-- The grants behind an acknowledgement, with one more frame that grants nothing. -/
theorem Settles.order_concat {down : List Frame} {st : RouteStream} (h : Settles down st) {g : Frame}
    (hg : g.creditOf circuitStreamId = 0) (pre post : List Frame)
    (he : down ++ [g] = pre ++ ⟨circuitStreamId, .demand 0⟩ :: post) :
    weigh (Frame.creditOf circuitStreamId) post = 0 := by
  rcases concat_split he with rfl | ⟨post', rfl, hd⟩
  · rfl
  · rw [weigh_append, h.order pre post' hd, weigh_cons, hg]
    rfl

/-- What the entry makes of a frame of a source: the new record and leg, and the
frames it answers with. -/
inductive Handled (f : Frame) (r : Record) (leg : Leg) (r' : Record) (leg' : Leg) : List Frame → Prop
  | plain (hf : f.demand? = none) (hs : r'.sendCredit + f.dataOf 0 = r.sendCredit)
      (hr : r'.receiveCredit = r.receiveCredit + f.creditOf 0)
      (hi : r'.reverseInFlight + f.creditOf circuitStreamId = r.reverseInFlight)
      (hg : leg'.granted + f.uses = leg.granted) (hw : leg'.wanted = leg.wanted)
      (ho : leg'.demandOpen = leg.demandOpen) : Handled f r leg r' leg' []
  | demand {n : Nat} (hf : f = ⟨circuitStreamId, .demand n⟩) (hn : n ≠ 0) (hr : r' = r)
      (hg : leg'.granted = leg.granted) (hw : leg'.wanted = n) (ho : leg'.demandOpen = true) :
      Handled f r leg r' leg' []
  | cancel {back : List Frame} (hf : f = ⟨circuitStreamId, .demand 0⟩) (hr : r' = r)
      (hg : leg'.granted = leg.granted) (hw : leg'.wanted = 0)
      (hb : back = [] ∨ back = [⟨circuitStreamId, .demand 0⟩]) : Handled f r leg r' leg' back

theorem Asked.pop {n : Nat} {leg leg' : Leg} {f : Frame} {down up : List Frame} {st : RouteStream}
    (h : Asked n leg down (f :: up) st) (hf : f.demand? = none)
    (hg : leg'.granted + f.uses = leg.granted) (hw : leg'.wanted = leg.wanted) :
    Asked n leg' down up st := by
  have hroom := h.room
  have ha : ahead (f :: up) = f.uses + ahead up := by
    show (if f.demand?.isSome then 0 else _) = _
    rw [hf]
    rfl
  exact ⟨h.pos, hw.trans h.wanted, h.credit, h.acks, h.requested, by omega⟩

theorem Talk.pop {leg leg' : Leg} {f : Frame} {down up : List Frame} {st : RouteStream}
    (h : Talk leg down (f :: up) st) (hf : f.demand? = none)
    (hg : leg'.granted + f.uses = leg.granted) (hw : leg'.wanted = leg.wanted)
    (ho : leg'.demandOpen = leg.demandOpen) : Talk leg' down up st := by
  have hd : demands (f :: up) = demands up := by
    rw [demands_cons, hf]
    rfl
  cases h with
  | silent h => exact .silent (hd ▸ h)
  | asked h ha => exact .asked (hd ▸ h) (ha.pop hf hg hw)
  | dropped h ha hc => exact .dropped (hd ▸ h) (ha.pop hf hg hw) hc
  | canceled h hopen hc ha => exact .canceled (hd ▸ h) (ho.trans hopen) hc ha

theorem Balances.handled {r r' : Record} {leg leg' : Leg} {f : Frame} {down up back : List Frame}
    {st : RouteStream} (h : Balances r leg down (f :: up) st) (hset : Settles down st)
    (hh : Handled f r leg r' leg' back) :
    Settles (down ++ back) st ∧ Balances r' leg' (down ++ back) up st ∧
      (Exact r leg down (f :: up) st → Exact r' leg' (down ++ back) up st) := by
  have h₁ := h.send
  have h₂ := h.recv
  have h₃ := h.circuit
  have h₄ := h.granted
  have h₅ := h.wanted
  simp only [weigh_cons, Nat.cast_add] at h₁ h₂ h₃ h₄
  cases hh with
  | plain hf hs hr hi hg hw ho =>
    have hd : demands (f :: up) = demands up := by
      rw [demands_cons, hf]
      rfl
    rw [List.append_nil]
    refine ⟨hset, ⟨by omega, by omega, by omega, by omega, by omega, fun hack => ?_,
      h.talk.pop hf hg hw ho⟩, fun he => ?_⟩
    · rw [hw, ← hd]
      exact h.acked hack
    · have e₁ := he.send
      have e₂ := he.recv
      have e₃ := he.granted
      simp only [weigh_cons, Nat.cast_add] at e₁ e₂ e₃
      refine ⟨by omega, by omega, by omega, fun hreq hc hdem => ?_⟩
      rw [ho]
      exact he.demandOpen hreq hc (hd.trans hdem)
  | @demand n hf hn hr hg hw ho =>
    subst hf hr
    have hzero : ∀ w : Frame → Nat, w ⟨circuitStreamId, .demand n⟩ = 0 →
        weigh w (⟨circuitStreamId, .demand n⟩ :: up) = weigh w up := by
      intro w h0
      rw [weigh_cons, h0, Nat.zero_add]
    have hd : demands (⟨circuitStreamId, .demand n⟩ :: up) = n :: demands up := rfl
    -- the demand is the first one in flight
    have hask : Asked n leg down (⟨circuitStreamId, .demand n⟩ :: up) st ∧
        Talk leg' down up st := by
      cases h.talk with
      | silent h =>
        rw [hd] at h
        cases h
      | asked h ha =>
        rw [hd] at h
        obtain ⟨rfl, hnil⟩ := List.cons.inj h
        exact ⟨ha, .silent hnil⟩
      | dropped h ha hc =>
        rw [hd] at h
        obtain ⟨rfl, htail⟩ := List.cons.inj h
        exact ⟨ha, .canceled htail ho hc ha.acks⟩
      | canceled h _ _ _ =>
        rw [hd] at h
        exact absurd (List.cons.inj h).1 hn
    obtain ⟨hask, htalk⟩ := hask
    have hcredit := hask.credit
    have hreq := hask.requested
    have hacks := hask.acks
    rw [List.append_nil]
    refine ⟨hset, ⟨by omega, by omega, by omega, by omega, by omega, fun hack => absurd hacks hack,
      htalk⟩, fun he => ⟨?_, ?_, ?_, fun _ _ _ => ho⟩⟩
    · rw [he.send, hzero _ rfl]
    · rw [he.recv, hzero _ rfl]
    · rw [hg, he.granted, hzero _ rfl]
  | cancel hf hr hg hw hb =>
    subst hf hr
    have hzero : ∀ w : Frame → Nat, w ⟨circuitStreamId, .demand 0⟩ = 0 →
        weigh w (⟨circuitStreamId, .demand 0⟩ :: up) = weigh w up := by
      intro w h0
      rw [weigh_cons, h0, Nat.zero_add]
    have hd : demands (⟨circuitStreamId, .demand 0⟩ :: up) = 0 :: demands up := rfl
    have htalk : demands up = [] ∧ st.circuitCanceling = true ∧ weigh Frame.ackOf down = 0 := by
      cases h.talk with
      | silent h =>
        rw [hd] at h
        cases h
      | asked h ha =>
        rw [hd] at h
        exact absurd (List.cons.inj h).1.symm ha.pos
      | dropped h ha hc =>
        rw [hd] at h
        exact absurd (List.cons.inj h).1.symm ha.pos
      | canceled h _ hc hack =>
        rw [hd] at h
        exact ⟨(List.cons.inj h).2, hc, hack⟩
    obtain ⟨hnil, hcan, hack⟩ := htalk
    have hback : ∀ w : Frame → Nat, w ⟨circuitStreamId, .demand 0⟩ = 0 →
        weigh w (down ++ back) = weigh w down := by
      intro w h0
      rcases hb with rfl | rfl
      · rw [List.append_nil]
      · rw [weigh_append, weigh_cons, h0]
        rfl
    have b₁ := hback (Frame.creditOf 0) rfl
    have b₂ := hback (Frame.dataOf 0) rfl
    have b₃ := hback (Frame.creditOf circuitStreamId) rfl
    have hacks : weigh Frame.ackOf (down ++ back) ≤ 1 := by
      rcases hb with rfl | rfl
      · rw [List.append_nil, hack]
        decide
      · rw [weigh_append, hack]
        decide
    refine ⟨⟨by rw [b₁]; exact hset.send, by rw [b₂]; exact hset.recv,
      by rw [b₂]; exact hset.circuit, by rw [b₃]; exact hset.asked, by rw [b₃]; exact hset.held,
      by rw [hcan]; exact hacks, fun pre post he => ?_⟩,
      ⟨by rw [b₁]; omega, by rw [b₂]; omega, by rw [b₂]; omega, by rw [b₃]; omega,
        by rw [b₃]; omega, fun _ => ⟨hw, hnil⟩, .silent hnil⟩,
      fun he => ⟨?_, ?_, ?_, fun _ hc => absurd (hcan.symm.trans hc) (by decide)⟩⟩
    · rcases hb with rfl | rfl
      · exact hset.order pre post (by rw [← he, List.append_nil])
      · exact hset.order_concat rfl pre post he
    · rw [he.send, hzero _ rfl, b₁]
    · rw [he.recv, hzero _ rfl, b₂]
    · rw [hg, he.granted, hzero _ rfl, b₃]

/-! ## Frames for the source and grants -/

/-- A frame the entry passes to a source, with the record it leaves. -/
structure Handed (f : Frame) (r r' : Record) : Prop where
  ack : f.ackOf = 0
  credit : f.creditOf circuitStreamId = 0
  send : r'.sendCredit = r.sendCredit + f.creditOf 0
  recv : r'.receiveCredit + f.dataOf 0 = r.receiveCredit
  inFlight : r'.reverseInFlight = r.reverseInFlight + f.dataOf 0

theorem Talk.append {leg : Leg} {down back up : List Frame} {st : RouteStream}
    (h : Talk leg down up st) (hc : demands up ≠ [] → leg.wanted = 0 →
      weigh (Frame.creditOf circuitStreamId) back = 0) (ha : weigh Frame.ackOf back = 0) {leg' : Leg}
    (hw : leg.wanted = 0 → leg'.wanted = 0) (ho : leg'.demandOpen = leg.demandOpen)
    (hg : leg'.granted ≤ leg.granted + weigh (Frame.creditOf circuitStreamId) back) :
    Talk leg' (down ++ back) up st := by
  have hasked : ∀ {n : Nat}, demands up ≠ [] → Asked n leg down up st →
      Asked n leg' (down ++ back) up st := by
    intro n hne hask
    have hz := hc hne hask.wanted
    have hroom := hask.room
    exact ⟨hask.pos, hw hask.wanted, by rw [weigh_append, hask.credit, hz],
      by rw [weigh_append, hask.acks, ha], hask.requested, by omega⟩
  cases h with
  | silent h => exact .silent h
  | asked h hask => exact .asked h (hasked (by rw [h]; simp) hask)
  | dropped h hask hcan => exact .dropped h (hasked (by rw [h]; simp) hask) hcan
  | canceled h hopen hcan hack =>
    exact .canceled h (ho.trans hopen) hcan (by rw [weigh_append, hack, ha])

theorem Balances.handed {r r' : Record} {leg : Leg} {f : Frame} {down up : List Frame}
    {st : RouteStream} (h : Balances r leg down up st) (hset : Settles down st)
    (hh : Handed f r r') (hsend : r'.sendCredit ≤ streamWindow)
    (hin : r'.reverseInFlight ≤ circuitWindow) :
    Settles (down ++ [f]) st ∧ Balances r' leg (down ++ [f]) up st ∧
      (Exact r leg down up st → Exact r' leg (down ++ [f]) up st) := by
  have h₁ := h.send
  have h₂ := h.recv
  have h₃ := h.circuit
  have h₄ := h.granted
  have h₅ := h.wanted
  have hw : ∀ w : Frame → Nat, weigh w (down ++ [f]) = weigh w down + w f := fun w => by simp
  have s₁ := hh.send
  have s₂ := hh.recv
  have s₃ := hh.inFlight
  have hasked := hset.asked
  have hheld := hset.held
  have hacks := hset.acks
  refine ⟨⟨?_, ?_, ?_, ?_, ?_, ?_, hset.order_concat hh.credit⟩, ⟨?_, ?_, ?_, ?_, ?_, ?_, ?_⟩,
    fun he => ⟨?_, ?_, ?_, he.demandOpen⟩⟩
  · rw [hw]
    omega
  · rw [hw]
    push_cast
    omega
  · rw [hw]
    push_cast
    omega
  · rw [hw, hh.credit]
    exact hasked
  · rw [hw, hh.credit]
    exact hheld
  · rw [hw, hh.ack]
    exact hacks
  · rw [hw]
    omega
  · rw [hw]
    push_cast
    omega
  · rw [hw]
    push_cast
    omega
  · rw [hw, hh.credit]
    exact h₄
  · rw [hw, hh.credit]
    exact h₅
  · rw [hw, hh.ack]
    exact h.acked
  · refine h.talk.append (fun _ _ => ?_) ?_ (fun hw => hw) rfl (Nat.le_add_right _ _)
    · rw [weigh_cons, hh.credit]
      rfl
    · rw [weigh_cons, hh.ack]
      rfl
  · have := he.send
    rw [hw]
    omega
  · have := he.recv
    rw [hw]
    push_cast
    omega
  · rw [hw, hh.credit]
    exact he.granted

theorem weigh_creditFrames (cs : List Nat) :
    weigh (Frame.creditOf circuitStreamId) (creditFrames cs) = cs.sum ∧
      weigh (Frame.creditOf 0) (creditFrames cs) = 0 ∧
      weigh (Frame.dataOf 0) (creditFrames cs) = 0 ∧ weigh Frame.ackOf (creditFrames cs) = 0 := by
  induction cs with
  | nil => exact ⟨rfl, rfl, rfl, rfl⟩
  | cons c cs ih =>
    obtain ⟨h₁, h₂, h₃, h₄⟩ := ih
    refine ⟨?_, ?_, ?_, ?_⟩
    · show Frame.creditOf _ ⟨circuitStreamId, .credit c⟩ + weigh _ (creditFrames cs) = _
      rw [Frame.creditOf_self, h₁, List.sum_cons]
    · show Frame.creditOf _ ⟨circuitStreamId, .credit c⟩ + weigh _ (creditFrames cs) = _
      rw [Frame.creditOf_of_ne (show circuitStreamId ≠ 0 by decide), h₂]
    · show Frame.dataOf _ ⟨circuitStreamId, .credit c⟩ + weigh _ (creditFrames cs) = _
      rw [Frame.dataOf_of_ne (show circuitStreamId ≠ 0 by decide), h₃]
    · show Frame.ackOf ⟨circuitStreamId, .credit c⟩ + weigh _ (creditFrames cs) = _
      rw [h₄]
      rfl

/-- Grants keep the order behind an acknowledgement: none follows it. -/
theorem order_creditFrames {down : List Frame} (cs : List Nat)
    (h : ∀ pre post, down = pre ++ ⟨circuitStreamId, .demand 0⟩ :: post →
      weigh (Frame.creditOf circuitStreamId) post + cs.sum = 0) (pre post : List Frame)
    (he : down ++ creditFrames cs = pre ++ ⟨circuitStreamId, .demand 0⟩ :: post) :
    weigh (Frame.creditOf circuitStreamId) post = 0 := by
  induction cs generalizing down with
  | nil =>
    rw [show creditFrames [] = [] from rfl, List.append_nil] at he
    exact h pre post he
  | cons c cs ih =>
    refine @ih (down ++ [⟨circuitStreamId, .credit c⟩]) (fun pre' post' he' => ?_) ?_
    · rcases concat_split he' with rfl | ⟨post'', rfl, hd⟩
      · -- the last frame is a grant
        have hlast := congrArg List.getLast? he'
        rw [List.getLast?_append, List.getLast?_append] at hlast
        simp at hlast
      · have := h pre' post'' hd
        rw [List.sum_cons] at this
        rw [weigh_append, weigh_cons, Frame.creditOf_self, weigh_nil]
        omega
    · rw [← he, List.append_assoc]
      rfl

theorem Balances.granted_append {r : Record} {leg leg' : Leg} {cs : List Nat}
    {down up : List Frame} {st : RouteStream} (h : Balances r leg down up st)
    (hset : Settles down st) (hg : Entry.Granted leg leg' cs.sum)
    (hle : leg'.granted ≤ circuitWindow) :
    Settles (down ++ creditFrames cs) st ∧ Balances r leg' (down ++ creditFrames cs) up st ∧
      (Exact r leg down up st → Exact r leg' (down ++ creditFrames cs) up st) := by
  obtain ⟨w₁, w₂, w₃, w₄⟩ := weigh_creditFrames cs
  have h₄ := h.granted
  have h₅ := h.wanted
  have g₁ := hg.granted
  have g₂ := hg.wanted
  have hasked := hset.asked
  have hheld := hset.held
  have hacked : weigh Frame.ackOf down ≠ 0 → cs.sum = 0 := fun hne => by
    have := (h.acked hne).1
    omega
  refine ⟨⟨?_, ?_, ?_, ?_, ?_, ?_, ?_⟩, ⟨?_, ?_, ?_, ?_, ?_, ?_, ?_⟩, fun he => ⟨?_, ?_, ?_, ?_⟩⟩
  · rw [weigh_append, w₂]
    exact hset.send
  · rw [weigh_append, w₃]
    exact hset.recv
  · rw [weigh_append, w₃]
    exact hset.circuit
  · rw [weigh_append, w₁]
    omega
  · rw [weigh_append, w₁]
    omega
  · rw [weigh_append, w₄]
    exact hset.acks
  · refine order_creditFrames cs fun pre post he => ?_
    rw [hset.order pre post he, hacked]
    rw [he, weigh_append, weigh_cons]
    have : (⟨circuitStreamId, .demand 0⟩ : Frame).ackOf = 1 := rfl
    omega
  · rw [weigh_append, w₂]
    exact h.send
  · rw [weigh_append, w₃]
    exact h.recv
  · rw [weigh_append, w₃]
    exact h.circuit
  · rw [weigh_append, w₁]
    omega
  · rw [weigh_append, w₁]
    omega
  · rw [weigh_append, w₄]
    intro hack
    obtain ⟨hw, hd⟩ := h.acked hack
    exact ⟨by omega, hd⟩
  · refine h.talk.append (fun _ hw => ?_) w₄ (fun hw => ?_) hg.demandOpen ?_
    · rw [w₁]
      omega
    · omega
    · rw [w₁, g₁]
  · rw [weigh_append, w₂]
    exact he.send
  · rw [weigh_append, w₃]
    exact he.recv
  · have := he.granted
    rw [weigh_append, w₁]
    omega
  · rw [hg.demandOpen]
    exact he.demandOpen

end HyperDht.Private
