import HyperDht.Private.Relay

/-!
# What the registries of a relay hold

A bridge or an entry circuit that closes is taken out of the registries by its close
handler, so the registries hold open objects only, as long as an object is open when
its handler puts it there. `start` may close it before: it replays the bytes that
came right behind the last control bytes, and a cell among them that is refused
closes the object while it is in no registry yet.

`accepted` says which buffered bytes do not, and `registries_live_iff` that a run keeps
the registries live just if all the bytes it replays so are accepted.
`early_cell_abandons` has the runs of two sessions whose peers send 1200 zero bytes
behind their last control bytes.
-/

namespace HyperDht.Private.Relay

/-! ## Bridges -/

/-- What the turns of a bridge keep, from `s₀` on: the registries only shrink, and they
do not hold the bridge once it is closed. -/
structure BridgeKept (b : Nat) (s₀ s : Registries × Bridge) : Prop where
  bridges : s.1.bridges ⊆ s₀.1.bridges
  destinationBridges : s.1.destinationBridges ⊆ s₀.1.destinationBridges
  entryCircuits : s.1.entryCircuits = s₀.1.entryCircuits
  onclose : s.2.onclose = s₀.2.onclose
  closed : s₀.2.closed = true → s.2.closed = true
  gone : s.2.closed = true → b ∉ s.1.bridges ∧
    (s.2.onclose = true → b ∉ s.1.destinationBridges)

namespace BridgeKept

variable {b : Nat} {s₀ s : Registries × Bridge}

theorem closeBridge (h : BridgeKept b s₀ s) : BridgeKept b s₀ (closeBridge b s) := by
  unfold Relay.closeBridge
  split
  · exact h
  · have hdest : (s.1.dropBridge b s.2.onclose).destinationBridges ⊆ s.1.destinationBridges := by
      intro x hx
      simp only [Registries.dropBridge] at hx
      split at hx
      · exact (List.mem_filter.mp hx).1
      · exact hx
    refine ⟨fun x hx => h.bridges (List.mem_filter.mp hx).1, fun x hx => h.destinationBridges (hdest hx),
      h.entryCircuits, h.onclose, fun _ => rfl, fun _ => ⟨?_, ?_⟩⟩
    · intro hmem
      have := (List.mem_filter.mp hmem).2
      simp at this
    · intro honclose hmem
      simp only [Registries.dropBridge, show s.2.onclose = true from honclose, if_true] at hmem
      have := (List.mem_filter.mp hmem).2
      simp at this

/-- A change of a bridge that is open, and stays open. -/
theorem change (h : BridgeKept b s₀ s) {bridge : Bridge} (hclosed : bridge.closed = s.2.closed)
    (honclose : bridge.onclose = s.2.onclose) : BridgeKept b s₀ (s.1, bridge) :=
  ⟨h.bridges, h.destinationBridges, h.entryCircuits, honclose.trans h.onclose,
    fun hc => hclosed.trans (h.closed hc), fun hc => by
      rw [show (s.1, bridge).2.onclose = s.2.onclose from honclose]
      exact h.gone (hclosed.symm.trans hc)⟩

theorem emit (h : BridgeKept b s₀ s) (env : Env) (side : End) (payload : Bytes) :
    BridgeKept b s₀ ((bridgeOwner env b side).emit payload s) := by
  simp only [bridgeOwner]
  split
  · exact h.closeBridge
  · exact h.change rfl rfl

theorem keeps (env : Env) (side : End) : (bridgeOwner env b side).Keeps (BridgeKept b s₀) where
  setInbound _ _ h := h.change rfl rfl
  destroy _ _ h := h.closeBridge
  emit p _ _ h := h.emit env side p
  destroyed _ _ := rfl

theorem receiveStarted (h : BridgeKept b s₀ s) (env : Env) (side : End) (now : Int)
    (address : Bool) (chunk : Bytes) : BridgeKept b s₀
      (receiveStarted (bridgeOwner env b side) env.aeadOpen now address chunk s) := by
  unfold Relay.receiveStarted
  split
  · exact (keeps env side)._receive env.aeadOpen now address chunk h
  · exact h

theorem progressSends (h : BridgeKept b s₀ s) (side : End) (f : Scheduler → Scheduler) :
    BridgeKept b s₀ (progressSends b side f s) := by
  unfold Relay.progressSends
  split
  · exact h
  · dsimp only
    split
    · exact h.closeBridge
    · exact h.change rfl rfl

end BridgeKept

/-! ## Entry circuits -/

/-- What the turns of an entry circuit keep. -/
structure EntryKept (e : Nat) (s₀ s : Registries × EntryCircuit) : Prop where
  bridges : s.1.bridges = s₀.1.bridges
  destinationBridges : s.1.destinationBridges = s₀.1.destinationBridges
  entryCircuits : ∀ token e', s.1.entryCircuits.get? token = some e' →
    s₀.1.entryCircuits.get? token = some e'
  routeToken : s.2.routeToken = s₀.2.routeToken
  tracked : s.2.tracked = s₀.2.tracked
  closed : s₀.2.circuit.closed = true → s.2.circuit.closed = true
  gone : s.2.circuit.closed = true → s.2.tracked = true →
    s.1.entryCircuits.get? s.2.routeToken ≠ some e

theorem dropEntry_sub (r : Registries) (token : Bytes) (e : Nat) (token' : Bytes) (e' : Nat)
    (h : (r.dropEntry token e).entryCircuits.get? token' = some e') :
    r.entryCircuits.get? token' = some e' := by
  unfold Registries.dropEntry at h
  split at h
  · simp only [JsMap.get?_delete] at h
    split at h
    · cases h
    · exact h
  · exact h

theorem dropEntry_gone (r : Registries) (token : Bytes) (e : Nat) :
    (r.dropEntry token e).entryCircuits.get? token ≠ some e := by
  unfold Registries.dropEntry
  split
  · simp
  · next h => exact h

theorem dropEntry_bridges (r : Registries) (token : Bytes) (e : Nat) :
    (r.dropEntry token e).bridges = r.bridges ∧
      (r.dropEntry token e).destinationBridges = r.destinationBridges := by
  unfold Registries.dropEntry
  split
  · exact ⟨rfl, rfl⟩
  · exact ⟨rfl, rfl⟩

namespace EntryKept

variable {e : Nat} {s₀ s : Registries × EntryCircuit}

theorem change (h : EntryKept e s₀ s) {entry : EntryCircuit} (hcircuit : entry.circuit = s.2.circuit)
    (htoken : entry.routeToken = s.2.routeToken) (htracked : entry.tracked = s.2.tracked) :
    EntryKept e s₀ (s.1, entry) :=
  ⟨h.bridges, h.destinationBridges, h.entryCircuits, htoken.trans h.routeToken,
    htracked.trans h.tracked, fun hc => by rw [hcircuit]; exact h.closed hc, fun hc ht => by
      rw [show (s.1, entry).2.routeToken = s.2.routeToken from htoken]
      exact h.gone (hcircuit ▸ hc) (htracked.symm.trans ht)⟩

/-- The circuit moves on; a closed one stays closed. -/
theorem runEntry (h : EntryKept e s₀ s) (f : Entry → Entry)
    (hf : s.2.circuit.closed = true → (f s.2.circuit).closed = true) :
    EntryKept e s₀ (runEntry e f s) := by
  unfold Relay.runEntry
  dsimp only
  split
  · have hb := dropEntry_bridges s.1 s.2.routeToken e
    exact ⟨hb.1.trans h.bridges, hb.2.trans h.destinationBridges, fun token e' he =>
      h.entryCircuits token e' (dropEntry_sub _ _ _ _ _ he), h.routeToken, h.tracked,
      fun hc => hf (h.closed hc), fun _ _ => dropEntry_gone _ _ _⟩
  · next hstay =>
    refine ⟨h.bridges, h.destinationBridges, h.entryCircuits, h.routeToken, h.tracked,
      fun hc => hf (h.closed hc), fun hc ht => h.gone ?_ ht⟩
    cases hs : s.2.circuit.closed with
    | true => rfl
    | false => exact absurd ⟨hs, hc, ht⟩ hstay

theorem closed_destroy (x : Entry) : x.destroy.closed = true := by
  unfold Entry.destroy
  split
  · next h => exact h
  · rfl

theorem keeps_entry (now : Int) : (entryOwner now e).Keeps (EntryKept e s₀) where
  setInbound _ _ h := h.change rfl rfl rfl
  destroy _ _ h := h.runEntry Entry.destroy fun _ => closed_destroy _
  emit p _ _ h := h.runEntry (Entry.receive now · (payloadOf p)) fun hc => by
    unfold Entry.receive
    rw [if_pos hc]
    exact hc
  destroyed _ _ := rfl

theorem keeps_leg (env : Env) (now : Int) (id : Nat) :
    (legOwner env now e id).Keeps (EntryKept e s₀) where
  setInbound _ _ h := h.change rfl rfl rfl
  destroy s hlive h := h.runEntry (Entry.closeLeg now · id) fun hc => by
    simp only [legOwner, hc, Bool.true_or, Bool.true_eq_false] at hlive
  emit p s hlive h := by
    have hs : EntryKept e s₀ (s.1, { s.2 with spliceCalls := s.2.spliceCalls + 1 }) :=
      h.change rfl rfl rfl
    refine hs.runEntry (Entry.fromSource now · id (payloadOf p) (env.udx e s.2.spliceCalls))
      fun hc => ?_
    have hc' : s.2.circuit.closed = true := hc
    simp only [legOwner, hc', Bool.true_or, Bool.true_eq_false] at hlive
  destroyed _ _ := rfl

end EntryKept

/-! ## The controller -/

/-- The registries hold open objects, and only ones whose close handlers take them out. -/
structure Registered (c : Controller) : Prop where
  bridges : ∀ b ∈ c.registries.bridges, ∃ bridge, c.bridgeAt[b]? = some bridge ∧
    bridge.closed = false
  destinationBridges : ∀ b ∈ c.registries.destinationBridges, ∃ bridge,
    c.bridgeAt[b]? = some bridge ∧ bridge.closed = false ∧ bridge.onclose = true
  entryCircuits : ∀ token e, c.registries.entryCircuits.get? token = some e → ∃ entry,
    c.entryAt[e]? = some entry ∧ entry.circuit.closed = false ∧ entry.routeToken = token ∧
      entry.tracked = true

/-- A later state: what is closed stays closed. -/
structure Later (c c' : Controller) : Prop where
  bridges : ∀ (b : Nat) (bridge : Bridge), c.bridgeAt[b]? = some bridge → bridge.closed = true →
    ∃ bridge' : Bridge, c'.bridgeAt[b]? = some bridge' ∧ bridge'.closed = true
  entries : ∀ (e : Nat) (entry : EntryCircuit), c.entryAt[e]? = some entry →
    entry.circuit.closed = true →
    ∃ entry' : EntryCircuit, c'.entryAt[e]? = some entry' ∧ entry'.circuit.closed = true

namespace Later

theorem refl (c : Controller) : Later c c :=
  ⟨fun _ bridge h hc => ⟨bridge, h, hc⟩, fun _ entry h hc => ⟨entry, h, hc⟩⟩

theorem trans {c c' c'' : Controller} (h : Later c c') (h' : Later c' c'') : Later c c'' where
  bridges b bridge hb hc := by
    obtain ⟨bridge', hb', hc'⟩ := h.bridges b bridge hb hc
    exact h'.bridges b bridge' hb' hc'
  entries e entry he hc := by
    obtain ⟨entry', he', hc'⟩ := h.entries e entry he hc
    exact h'.entries e entry' he' hc'

end Later

def Keeps (c c' : Controller) : Prop := Registered c' ∧ Later c c'

theorem Keeps.trans {c c' c'' : Controller} (h : Keeps c c')
    (h' : Registered c' → Keeps c' c'') : Keeps c c'' :=
  ⟨(h' h.1).1, h.2.trans (h' h.1).2⟩

theorem Registered.bridge_gone {c : Controller} (h : Registered c) {b : Nat} {bridge : Bridge}
    (hb : c.bridgeAt[b]? = some bridge) (hc : bridge.closed = true) :
    b ∉ c.registries.bridges ∧ (bridge.onclose = true → b ∉ c.registries.destinationBridges) := by
  refine ⟨fun hm => ?_, fun _ hm => ?_⟩
  · obtain ⟨bridge', hb', hc'⟩ := h.bridges b hm
    obtain rfl := Option.some.inj (hb.symm.trans hb')
    exact Bool.false_ne_true (hc'.symm.trans hc)
  · obtain ⟨bridge', hb', hc', -⟩ := h.destinationBridges b hm
    obtain rfl := Option.some.inj (hb.symm.trans hb')
    exact Bool.false_ne_true (hc'.symm.trans hc)

theorem Registered.entry_gone {c : Controller} (h : Registered c) {e : Nat} {entry : EntryCircuit}
    (he : c.entryAt[e]? = some entry) (hc : entry.circuit.closed = true) (token : Bytes) :
    c.registries.entryCircuits.get? token ≠ some e := by
  intro hm
  obtain ⟨entry', he', hc', -⟩ := h.entryCircuits token e hm
  obtain rfl := Option.some.inj (he.symm.trans he')
  exact Bool.false_ne_true (hc'.symm.trans hc)

theorem Registered.atBridge {c : Controller} (h : Registered c) (b : Nat)
    (f : Registries × Bridge → Registries × Bridge)
    (hf : ∀ s₀ : Registries × Bridge, BridgeKept b s₀ s₀ → BridgeKept b s₀ (f s₀)) :
    Keeps c (c.atBridge b f) := by
  unfold Controller.atBridge
  split
  · exact ⟨h, .refl c⟩
  · next bridge hb =>
    have hlt : b < c.bridgeAt.length := (List.getElem?_eq_some_iff.mp hb).1
    have hk := hf (c.registries, bridge) ⟨fun _ hx => hx, fun _ hx => hx, rfl, rfl, id,
      h.bridge_gone hb⟩
    generalize f (c.registries, bridge) = s at hk
    have hget : ∀ b', (c.bridgeAt.set b s.2)[b']? =
        if b' = b then some s.2 else c.bridgeAt[b']? := by
      intro b'
      rw [List.getElem?_set]
      by_cases heq : b = b'
      · rw [if_pos heq, if_pos heq.symm, if_pos (heq ▸ hlt)]
      · rw [if_neg heq, if_neg (Ne.symm heq)]
    refine ⟨⟨fun b' hm => ?_, fun b' hm => ?_, fun token e he => ?_⟩, ⟨fun b' br hb' hc => ?_,
      fun e entry he hc => ⟨entry, he, hc⟩⟩⟩
    · show ∃ br, (c.bridgeAt.set b s.2)[b']? = some br ∧ br.closed = false
      rw [hget]
      by_cases heq : b' = b
      · subst heq
        refine ⟨s.2, if_pos rfl, ?_⟩
        by_contra hc
        exact (hk.gone (Bool.eq_true_of_not_eq_false hc)).1 hm
      · rw [if_neg heq]
        exact h.bridges b' (hk.bridges hm)
    · show ∃ br, (c.bridgeAt.set b s.2)[b']? = some br ∧ br.closed = false ∧ br.onclose = true
      obtain ⟨br, hbr, hclosed, honclose⟩ := h.destinationBridges b' (hk.destinationBridges hm)
      rw [hget]
      by_cases heq : b' = b
      · subst heq
        obtain rfl := Option.some.inj (hb.symm.trans hbr)
        have ho : s.2.onclose = true := hk.onclose.trans honclose
        refine ⟨s.2, if_pos rfl, ?_, ho⟩
        by_contra hc
        exact (hk.gone (Bool.eq_true_of_not_eq_false hc)).2 ho hm
      · rw [if_neg heq]
        exact ⟨br, hbr, hclosed, honclose⟩
    · exact h.entryCircuits token e (hk.entryCircuits ▸ he)
    · show ∃ br', (c.bridgeAt.set b s.2)[b']? = some br' ∧ br'.closed = true
      rw [hget]
      by_cases heq : b' = b
      · subst heq
        obtain rfl := Option.some.inj (hb.symm.trans hb')
        exact ⟨s.2, if_pos rfl, hk.closed hc⟩
      · rw [if_neg heq]
        exact ⟨br, hb', hc⟩

theorem Registered.atEntry {c : Controller} (h : Registered c) (e : Nat)
    (f : Registries × EntryCircuit → Registries × EntryCircuit)
    (hf : ∀ s₀ : Registries × EntryCircuit, EntryKept e s₀ s₀ → EntryKept e s₀ (f s₀)) :
    Keeps c (c.atEntry e f) := by
  unfold Controller.atEntry
  split
  · exact ⟨h, .refl c⟩
  · next entry he =>
    have hlt : e < c.entryAt.length := (List.getElem?_eq_some_iff.mp he).1
    have hk := hf (c.registries, entry) ⟨rfl, rfl, fun _ _ hx => hx, rfl, rfl, id,
      fun hc _ => h.entry_gone he hc _⟩
    generalize f (c.registries, entry) = s at hk
    have hget : ∀ e', (c.entryAt.set e s.2)[e']? =
        if e' = e then some s.2 else c.entryAt[e']? := by
      intro e'
      rw [List.getElem?_set]
      by_cases heq : e = e'
      · rw [if_pos heq, if_pos heq.symm, if_pos (heq ▸ hlt)]
      · rw [if_neg heq, if_neg (Ne.symm heq)]
    refine ⟨⟨fun b hm => h.bridges b (hk.bridges ▸ hm), fun b hm =>
      h.destinationBridges b (hk.destinationBridges ▸ hm), fun token e' he' => ?_⟩,
      ⟨fun b br hb hc => ⟨br, hb, hc⟩, fun e' ec he' hc => ?_⟩⟩
    · obtain ⟨ec, hec, hclosed, htoken, htracked⟩ :=
        h.entryCircuits token e' (hk.entryCircuits token e' he')
      show ∃ ec, (c.entryAt.set e s.2)[e']? = some ec ∧ _
      rw [hget]
      by_cases heq : e' = e
      · subst heq
        obtain rfl := Option.some.inj (he.symm.trans hec)
        have ht : s.2.tracked = true := hk.tracked.trans htracked
        have hr : s.2.routeToken = token := hk.routeToken.trans htoken
        refine ⟨s.2, if_pos rfl, ?_, hr, ht⟩
        by_contra hc
        exact hk.gone (Bool.eq_true_of_not_eq_false hc) ht (hr ▸ he')
      · rw [if_neg heq]
        exact ⟨ec, hec, hclosed, htoken, htracked⟩
    · show ∃ ec', (c.entryAt.set e s.2)[e']? = some ec' ∧ ec'.circuit.closed = true
      rw [hget]
      by_cases heq : e' = e
      · subst heq
        obtain rfl := Option.some.inj (he.symm.trans he')
        exact ⟨s.2, if_pos rfl, hk.closed hc⟩
      · rw [if_neg heq]
        exact ⟨ec, he', hc⟩

/-! ## What a new bridge accepts -/

theorem destroyed_settleAll (jobs : List Nat) (s : Scheduler) :
    (jobs.foldl Scheduler._settleSend s).destroyed = s.destroyed := by
  induction jobs generalizing s with
  | nil => rfl
  | cons j jobs ih =>
    rw [List.foldl_cons, ih]
    unfold Scheduler._settleSend
    split
    · rfl
    · rfl

theorem destroyed_destroy (s : Scheduler) : s.destroy.destroyed = true := by
  unfold Scheduler.destroy
  split
  · next h => exact h
  · show (List.foldl Scheduler._settleSend _ _).destroyed = true
    rw [destroyed_settleAll, destroyed_settleAll]

theorem Passing.forward_live {udx : Nat → Option (Nat × Nat)} {side : End} {payload : Bytes}
    {p q : Passing} (h : p.forward udx side payload = some q)
    (hp : ∀ d, (p.sends d).destroyed = false) : ∀ d, (q.sends d).destroyed = false := by
  have hsend : ∀ {p' : Passing} {out : Bytes}, p'.sendOn side.other out = some q →
      p'.sends = p.sends → ∀ d, (q.sends d).destroyed = false := by
    intro p' out hq hp' d
    unfold Passing.sendOn at hq
    dsimp only at hq
    split at hq
    · cases hq
    · next hlive =>
      cases hq
      dsimp only
      by_cases hd : d = side.other
      · subst hd
        rw [Function.update_self]
        exact Bool.eq_false_of_not_eq_true hlive
      · rw [Function.update_of_ne hd, hp']
        exact hp d
  unfold Passing.forward at h
  dsimp only at h
  split at h
  · split at h
    · cases h
    · split at h
      · cases h
      · exact hsend h rfl
  · split at h
    · split at h
      · cases h
      · split at h
        · cases h
        · split at h
          · cases h
          · exact hsend h rfl
    · split at h
      · exact hsend h rfl
      · exact hsend h rfl

/-- An open bridge whose links are open; the receiving side of the other link is `i`. -/
structure Forwarding (side : End) (i : Inbound) (s : Registries × Bridge) : Prop where
  closed : s.2.closed = false
  live : ∀ d, (s.2.passing.sends d).destroyed = false
  other : s.2.inbound side.other = i

theorem other_ne (side : End) : side.other ≠ side := by
  cases side <;> decide

theorem views_bridge (env : Env) (b : Nat) (side : End) (i : Inbound) :
    (bridgeOwner env b side).Views (fun s => s.2.passing)
      (fun payload p => p.forward (env.udx b) side payload) (Forwarding side i) where
  live h := h.live side
  setInbound j h := ⟨⟨h.closed, h.live, (Function.update_of_ne (other_ne side) _ _).trans h.other⟩,
    Function.update_self _ _ _, rfl⟩
  accepts {p s t} h ht := by
    have he : (bridgeOwner env b side).emit p s = (s.1, { s.2 with passing := t }) := by
      simp only [bridgeOwner, ht]
    rw [he]
    exact ⟨⟨h.closed, Passing.forward_live ht h.live, h.other⟩, rfl, rfl⟩
  refuses {p s} h ht := by
    have he : (bridgeOwner env b side).emit p s = closeBridge b s := by
      simp only [bridgeOwner, ht]
    rw [he, closeBridge, h.closed, if_neg (by decide)]
    exact destroyed_destroy _
  destroy {s} h := by
    show ((closeBridge b s).2.passing.sends side).destroyed = true
    rw [closeBridge, h.closed, if_neg (by decide)]
    exact destroyed_destroy _

/-- The links of a bridge are destroyed just if it is closed. -/
def Tied (s : Registries × Bridge) : Prop :=
  ∀ d, (s.2.passing.sends d).destroyed = s.2.closed

theorem tied_closeBridge {b : Nat} {s : Registries × Bridge} (h : Tied s) :
    Tied (closeBridge b s) := by
  unfold closeBridge
  split
  · exact h
  · exact fun _ => destroyed_destroy _

theorem keeps_tied (env : Env) (b : Nat) (side : End) : (bridgeOwner env b side).Keeps Tied where
  setInbound _ _ h := h
  destroy _ _ h := tied_closeBridge h
  emit p s hlive h := by
    have hopen : s.2.closed = false := (h side).symm.trans hlive
    show Tied ((bridgeOwner env b side).emit p s)
    simp only [bridgeOwner]
    split
    · exact tied_closeBridge h
    · next q hq =>
      intro d
      exact (Passing.forward_live hq (fun d => (h d).trans hopen) d).trans hopen.symm
  destroyed _ _ := rfl

/-- Are the bytes buffered on the two streams all accepted by the bridge that is about to
be made? A stream without a read buffer makes `start` throw, and no bridge is returned. -/
def bridgeAccepted (env : Env) (now : Int) (b : Nat) (left right : BridgeLink)
    (rawLeft rawRight : ReadBuffer) : Bool :=
  (left.inbound.started = false && rawLeft.readable = false) ||
    match LinkOwner.replay env.aeadOpen now (fun payload p => Passing.forward (env.udx b) .left payload p)
        rawLeft left.inbound (Bridge.new left right false).passing with
    | none => false
    | some p => rawRight.readable = false ||
        (LinkOwner.replay env.aeadOpen now (fun payload p => Passing.forward (env.udx b) .right payload p)
          rawRight right.inbound p).isSome

/-- A link about to be bridged: open, and a link that has not started has received
nothing. -/
structure Fresh (l : BridgeLink) : Prop where
  live : l.sends.destroyed = false
  empty : l.inbound.started = false → l.inbound.incoming = []

theorem Registered.append_bridge {c : Controller} (h : Registered c) {s₀ s : Registries × Bridge}
    (hreg : s₀.1 = c.registries) (hk : BridgeKept c.bridgeAt.length s₀ s) :
    Keeps c { c with registries := s.1, bridgeAt := c.bridgeAt ++ [s.2] } := by
  have hget : ∀ {b : Nat} {bridge : Bridge}, c.bridgeAt[b]? = some bridge →
      (c.bridgeAt ++ [s.2])[b]? = some bridge := fun hb =>
    (List.getElem?_append_left (List.getElem?_eq_some_iff.mp hb).1).trans hb
  refine ⟨⟨fun b hm => ?_, fun b hm => ?_, fun token e he => ?_⟩, ⟨fun b bridge hb hc =>
    ⟨bridge, hget hb, hc⟩, fun e entry he hc => ⟨entry, he, hc⟩⟩⟩
  · obtain ⟨bridge, hb, hc⟩ := h.bridges b (hreg ▸ hk.bridges hm)
    exact ⟨bridge, hget hb, hc⟩
  · obtain ⟨bridge, hb, hc, ho⟩ := h.destinationBridges b (hreg ▸ hk.destinationBridges hm)
    exact ⟨bridge, hget hb, hc, ho⟩
  · exact h.entryCircuits token e (hreg ▸ hk.entryCircuits ▸ he)

theorem Registered.fresh_bridge {c : Controller} (h : Registered c) :
    c.bridgeAt.length ∉ c.registries.bridges ∧
      c.bridgeAt.length ∉ c.registries.destinationBridges := by
  refine ⟨fun hm => ?_, fun hm => ?_⟩
  · obtain ⟨bridge, hb, -⟩ := h.bridges _ hm
    exact absurd (List.getElem?_eq_some_iff.mp hb).1 (Nat.lt_irrefl _)
  · obtain ⟨bridge, hb, -⟩ := h.destinationBridges _ hm
    exact absurd (List.getElem?_eq_some_iff.mp hb).1 (Nat.lt_irrefl _)

theorem forwarding_new {left right : BridgeLink} (hl : Fresh left) (hr : Fresh right)
    (r : Registries) (onclose : Bool) :
    Forwarding .left right.inbound (r, Bridge.new left right onclose) where
  closed := rfl
  live d := by
    cases d with
    | left => exact hl.live
    | right => exact hr.live
  other := rfl

/-- The second `start` of `transformBridge`, after one that left the bridge open. -/
theorem start_right (env : Env) (now : Int) (b : Nat) {i : Inbound} {s : Registries × Bridge}
    (hs : Forwarding .left i s) (htied : Tied s) (hstarted : i.started = false)
    (hempty : i.incoming = []) (raw : ReadBuffer) :
    (((bridgeOwner env b .right).start env.aeadOpen now raw s).2 = false → raw.readable = false) ∧
    (((bridgeOwner env b .right).start env.aeadOpen now raw s).2 = true →
      (((bridgeOwner env b .right).start env.aeadOpen now raw s).1.2.closed = false ↔
        (raw.readable = false || (LinkOwner.replay env.aeadOpen now
          (fun payload p => Passing.forward (env.udx b) .right payload p) raw i
          s.2.passing).isSome) = true)) := by
  have hin : (bridgeOwner env b .right).inbound s = i := hs.other
  have htr := (keeps_tied env b .right).start env.aeadOpen now raw htied
  cases hread : raw.readable with
  | false =>
    have he := ((bridgeOwner env b .right).start_threw env.aeadOpen now raw s).mpr
      ⟨hin ▸ hstarted, hs.live .right, hread⟩
    exact ⟨fun _ => rfl, fun h => absurd (he.symm.trans h) Bool.false_ne_true⟩
  | true =>
    have hs' : Forwarding .right (s.2.inbound .left) s := ⟨hs.closed, hs.live, rfl⟩
    obtain ⟨hflag, hres⟩ := (views_bridge env b .right _).start env.aeadOpen now raw hs'
      (fun _ => hin ▸ hempty) (fun _ => hread)
    rw [hin] at hres
    refine ⟨fun h => absurd (hflag.symm.trans h) (by decide), fun _ => ?_⟩
    cases hrep : LinkOwner.replay env.aeadOpen now
        (fun payload p => Passing.forward (env.udx b) .right payload p) raw i s.2.passing with
    | none =>
      rw [hrep] at hres
      have hclosed := (htr .right).symm.trans hres
      rw [hclosed]
      decide
    | some p =>
      rw [hrep] at hres
      rw [hres.1.closed]
      simp

/-- What `transformBridge` gives: a bridge in no registry yet, that is open just if
everything buffered was accepted; and a throw only on a stream without a buffer. -/
theorem transformBridge_spec {c : Controller} (h : Registered c) (env : Env) (now : Int)
    {left right : BridgeLink} (hl : Fresh left) (hr : Fresh right)
    (hright : right.inbound.started = false) (onclose : Bool) (rawLeft rawRight : ReadBuffer) :
    Keeps c (c.transformBridge env now left right onclose rawLeft rawRight).1 ∧
    match (c.transformBridge env now left right onclose rawLeft rawRight).2 with
    | none => bridgeAccepted env now c.bridgeAt.length left right rawLeft rawRight = true
    | some b => ∃ bridge, (c.transformBridge env now left right onclose rawLeft
        rawRight).1.bridgeAt[b]? = some bridge ∧ bridge.onclose = onclose ∧ (bridge.closed = false ↔
          bridgeAccepted env now c.bridgeAt.length left right rawLeft rawRight = true) := by
  have hfresh := h.fresh_bridge
  have hk₀ : BridgeKept c.bridgeAt.length (c.registries, Bridge.new left right onclose)
      (c.registries, .new left right onclose) :=
    ⟨fun _ hx => hx, fun _ hx => hx, rfl, rfl, id, fun _ => ⟨hfresh.1, fun _ => hfresh.2⟩⟩
  have hok := forwarding_new hl hr c.registries onclose
  have hkl := (BridgeKept.keeps env .left).start env.aeadOpen now rawLeft hk₀
  have htl := (keeps_tied env c.bridgeAt.length .left).start env.aeadOpen now rawLeft
    (show Tied _ from hok.live)
  have hkr := (BridgeKept.keeps env .right).start env.aeadOpen now rawRight hkl
  have hlast : ∀ (bridge : Bridge), (c.bridgeAt ++ [bridge])[c.bridgeAt.length]? = some bridge :=
    fun bridge => by simp
  have hthrew := (bridgeOwner env c.bridgeAt.length .left).start_threw env.aeadOpen now rawLeft
    (c.registries, .new left right onclose)
  unfold Controller.transformBridge bridgeAccepted
  dsimp only
  rcases hL : (bridgeOwner env c.bridgeAt.length .left).start env.aeadOpen now rawLeft
    (c.registries, .new left right onclose) with ⟨sL, okL⟩
  rw [hL] at hkl htl hkr hthrew
  cases okL with
  | false =>
    obtain ⟨h₁, -, h₂⟩ := hthrew.mp rfl
    refine ⟨h.append_bridge rfl hkl, ?_⟩
    rw [show left.inbound.started = false from h₁, h₂]
    rfl
  | true =>
    have hread : left.inbound.started = false → rawLeft.readable = true := by
      intro hstarted
      by_contra hread
      have := hthrew.mpr ⟨hstarted, hok.live .left, Bool.eq_false_of_not_eq_true hread⟩
      cases this
    have hnot : (decide (left.inbound.started = false) && decide (rawLeft.readable = false)) =
        false := by
      cases hs : left.inbound.started with
      | true => rfl
      | false => simp [hread hs]
    obtain ⟨-, hres⟩ := (views_bridge env c.bridgeAt.length .left _).start env.aeadOpen now
      rawLeft hok hl.empty hread
    rw [hL, show (bridgeOwner env c.bridgeAt.length .left).inbound _ = left.inbound from rfl,
      show (c.registries, Bridge.new left right onclose).2.passing =
        (Bridge.new left right false).passing from rfl] at hres
    rw [hnot, Bool.false_or]
    dsimp only
    rcases hR : (bridgeOwner env c.bridgeAt.length .right).start env.aeadOpen now rawRight sL with
      ⟨sR, okR⟩
    rw [hR] at hkr
    cases hrep : LinkOwner.replay env.aeadOpen now
        (fun payload p => Passing.forward (env.udx c.bridgeAt.length) .left payload p) rawLeft
        left.inbound (Bridge.new left right false).passing with
    | none =>
      -- The first link is destroyed, so the bridge is closed and the second does not start.
      have hclosed : sL.2.closed = true := by
        rw [hrep] at hres
        exact (htl .left).symm.trans hres
      have hsame : (sR, okR) = (sL, true) := by
        rw [← hR, LinkOwner.start, if_pos (.inr ((htl .right).trans hclosed))]
      cases hsame
      refine ⟨h.append_bridge rfl hkr, sL.2, hlast _, hkr.onclose, ?_⟩
      simp [hclosed]
    | some p =>
      rw [hrep] at hres
      obtain ⟨hsL, hpass⟩ := hres
      have hsecond := start_right env now c.bridgeAt.length hsL htl hright (hr.empty hright) rawRight
      rw [hR, show sL.2.passing = p from hpass] at hsecond
      cases okR with
      | false =>
        refine ⟨h.append_bridge rfl hkr, ?_⟩
        rw [hsecond.1 rfl]
        rfl
      | true => exact ⟨h.append_bridge rfl hkr, sR.2, hlast _, hkr.onclose, hsecond.2 rfl⟩

/-! ## What a new entry circuit accepts -/

/-- A payload that a new entry circuit ignores: a FIN or RESET. -/
def farewell (payload : Bytes) : Bool :=
  match decodeLogical (payloadOf payload) with
  | some ⟨_, .fin⟩ | some ⟨_, .reset⟩ => true
  | _ => false

/-- The one payload check of a new entry circuit. -/
def acceptFarewell (payload : Bytes) (u : Unit) : Option Unit :=
  if farewell payload then some u else none

/-- Are the bytes buffered behind the commit byte all accepted by the new entry circuit? -/
def entryAccepted (env : Env) (now : Int) (i : Inbound) (raw : ReadBuffer) : Bool :=
  raw.readable = false || (LinkOwner.replay env.aeadOpen now acceptFarewell raw i ()).isSome

/-- A frame for a stream that a new entry circuit does not know. -/
theorem receiveCharged_unknown {x : Entry} (hsources : x.sources = .empty)
    (hnext : x.nextStreamId = 2) (now : Int) (f : Frame) : Entry.receiveCharged now x f =
      if f.body = .fin ∨ f.body = .reset then x else (x.fault .unexpected).destroy := by
  unfold Entry.receiveCharged
  rw [hsources, JsMap.get?_empty, hnext]
  dsimp only
  rw [if_neg (by omega)]

/-- Without a source every frame but a FIN or RESET closes the entry. -/
theorem receive_new (spliced : Bool) (now : Int) (payload : Bytes) :
    (Entry.new spliced).receive now (payloadOf payload) = Entry.new spliced ∧
      farewell payload = true ∨
    ((Entry.new spliced).receive now (payloadOf payload)).closed = true ∧
      ((Entry.new spliced).receive now (payloadOf payload)).link.destroyed = true ∧
        farewell payload = false := by
  have hdestroy : ∀ f : EntryFault, ((Entry.new spliced).fault f).destroy.closed = true ∧
      ((Entry.new spliced).fault f).destroy.link.destroyed = true := fun f => ⟨rfl, rfl⟩
  unfold farewell Entry.receive
  rw [show (Entry.new spliced).closed = false from rfl, if_neg (by decide)]
  cases hdec : decodeLogical (payloadOf payload) with
  | none => exact .inr ⟨(hdestroy _).1, (hdestroy _).2, rfl⟩
  | some f =>
    obtain ⟨id, body⟩ := f
    have hvalid := (decodeLogical_eq_some hdec).2.2
    dsimp only at hvalid ⊢
    by_cases hid : id = circuitStreamId
    · rw [if_pos hid]
      cases body with
      | credit amount =>
        have hamount : amount ≠ 0 := by
          simp only [validLogicalPayload, Bool.and_eq_true, bne_iff_ne] at hvalid
          exact hvalid.2
        have hreturned : (Entry.new spliced).forwardPool.returned (amount : Int) =
            .error .invalid := by
          unfold Pool.returned
          rw [if_pos (.inr (.inr (by simp only [Entry.new, Pool.new]; omega)))]
        dsimp only
        rw [hreturned]
        exact .inr ⟨rfl, rfl, rfl⟩
      | fin | reset => simp [validLogicalPayload, hid] at hvalid
      | _ => exact .inr ⟨rfl, rfl, rfl⟩
    · rw [if_neg hid]
      cases body with
      | data chunk =>
        rw [if_pos (show (Body.data chunk).isData = true from rfl),
          if_neg (by simp [Entry.new, circuitWindow]), receiveCharged_unknown rfl rfl,
          if_neg (by simp)]
        exact .inr ⟨rfl, rfl, rfl⟩
      | fin | reset =>
        rw [if_neg (by decide), receiveCharged_unknown rfl rfl, if_pos (by simp)]
        exact .inl ⟨rfl, rfl⟩
      | _ =>
        rw [if_neg (by simp [Body.isData]), receiveCharged_unknown rfl rfl, if_neg (by simp)]
        exact .inr ⟨rfl, rfl, rfl⟩

theorem views_entry (now : Int) (e : Nat) (spliced : Bool) :
    (entryOwner now e).Views (fun _ => ()) acceptFarewell
      (fun s => s.2.circuit = Entry.new spliced) where
  live {s} h := by
    show s.2.circuit.link.destroyed = false
    rw [h]
    rfl
  setInbound _ h := ⟨h, rfl, rfl⟩
  accepts {p s t} h ht := by
    have hf : farewell p = true := by
      by_contra hf
      simp [acceptFarewell, hf] at ht
    refine ⟨?_, rfl, rfl⟩
    show s.2.circuit.receive now (payloadOf p) = _
    rw [h]
    rcases receive_new spliced now p with ⟨hr, -⟩ | ⟨-, -, hr⟩
    · exact hr
    · exact absurd (hf.symm.trans hr) (by decide)
  refuses {p s} h ht := by
    have hf : farewell p = false := by
      by_contra hf
      simp [acceptFarewell, hf] at ht
    show (s.2.circuit.receive now (payloadOf p)).link.destroyed = true
    rw [h]
    rcases receive_new spliced now p with ⟨-, hr⟩ | ⟨-, hr, -⟩
    · exact absurd (hf.symm.trans hr) (by decide)
    · exact hr
  destroy {s} h := by
    show s.2.circuit.destroy.link.destroyed = true
    rw [h]
    rfl

/-- The circuit of a new entry: as it was made, or closed. -/
def NewOrClosed (spliced : Bool) (s : Registries × EntryCircuit) : Prop :=
  s.2.circuit = Entry.new spliced ∨ s.2.circuit.closed = true

theorem keeps_newOrClosed (now : Int) (e : Nat) (spliced : Bool) :
    (entryOwner now e).Keeps (NewOrClosed spliced) where
  setInbound _ _ h := h
  destroy _ _ _ := .inr (EntryKept.closed_destroy _)
  emit p s _ h := by
    show NewOrClosed spliced (runEntry e (Entry.receive now · (payloadOf p)) s)
    rcases h with h | h
    · rcases receive_new spliced now p with ⟨hr, -⟩ | ⟨hr, -⟩
      · exact .inl (by rw [runEntry, h]; exact hr)
      · exact .inr (by rw [runEntry, h]; exact hr)
    · refine .inr ?_
      show (s.2.circuit.receive now (payloadOf p)).closed = true
      rw [Entry.receive, if_pos h]
      exact h
  destroyed _ _ := rfl

/-- A new entry circuit is open after `start` just if everything buffered was accepted. -/
theorem start_entry (env : Env) (now : Int) (e : Nat) {s : Registries × EntryCircuit}
    {spliced : Bool} (hs : s.2.circuit = Entry.new spliced) (hstarted : s.2.inbound.started = false)
    (hempty : s.2.inbound.incoming = []) (raw : ReadBuffer) :
    (((entryOwner now e).start env.aeadOpen now raw s).2 = false → raw.readable = false) ∧
    (((entryOwner now e).start env.aeadOpen now raw s).2 = true →
      (((entryOwner now e).start env.aeadOpen now raw s).1.2.circuit.closed = false ↔
        entryAccepted env now s.2.inbound raw = true)) := by
  have hlive : (entryOwner now e).destroyed s = false := (views_entry now e spliced).live hs
  have hthrew := (entryOwner now e).start_threw env.aeadOpen now raw s
  have hnew := (keeps_newOrClosed now e spliced).start env.aeadOpen now raw (.inl hs)
  refine ⟨fun h => (hthrew.mp h).2.2, fun h => ?_⟩
  have hread : raw.readable = true := by
    by_contra hr
    have := hthrew.mpr ⟨hstarted, hlive, Bool.eq_false_of_not_eq_true hr⟩
    exact Bool.false_ne_true (this.symm.trans h)
  obtain ⟨-, hres⟩ := (views_entry now e spliced).start env.aeadOpen now raw hs
    (fun _ => hempty) (fun _ => hread)
  unfold entryAccepted
  rw [hread]
  cases hrep : LinkOwner.replay env.aeadOpen now acceptFarewell raw s.2.inbound () with
  | none =>
    rw [show LinkOwner.replay env.aeadOpen now acceptFarewell raw
      ((entryOwner now e).inbound s) () = none from hrep] at hres
    rcases hnew with hnew | hclosed
    · have hd : ((entryOwner now e).start env.aeadOpen now raw s).1.2.circuit.link.destroyed =
        true := hres
      rw [hnew] at hd
      exact absurd hd Bool.false_ne_true
    · simp [hclosed]
  | some u =>
    rw [show LinkOwner.replay env.aeadOpen now acceptFarewell raw
      ((entryOwner now e).inbound s) () = some u from hrep] at hres
    have hopen : ((entryOwner now e).start env.aeadOpen now raw s).1.2.circuit.closed = false := by
      rw [hres.1]
      rfl
    simp [hopen]

/-! ## Turns -/

/-- The registries hold open objects only, each entry circuit under its own route token. -/
structure Live (c : Controller) : Prop where
  bridges : ∀ b ∈ c.registries.bridges, ∃ bridge, c.bridgeAt[b]? = some bridge ∧
    bridge.closed = false
  destinationBridges : ∀ b ∈ c.registries.destinationBridges, ∃ bridge,
    c.bridgeAt[b]? = some bridge ∧ bridge.closed = false
  entryCircuits : ∀ token e, c.registries.entryCircuits.get? token = some e → ∃ entry,
    c.entryAt[e]? = some entry ∧ entry.circuit.closed = false ∧ entry.routeToken = token

theorem Registered.live {c : Controller} (h : Registered c) : Live c where
  bridges := h.bridges
  destinationBridges b hb := by
    obtain ⟨bridge, hget, hc, -⟩ := h.destinationBridges b hb
    exact ⟨bridge, hget, hc⟩
  entryCircuits token e he := by
    obtain ⟨entry, hget, hc, ht, -⟩ := h.entryCircuits token e he
    exact ⟨entry, hget, hc, ht⟩

theorem Inbound.fresh_of_new {c : Crypto} {context : RouteContext} {initiator : Bool}
    {maxStreams : Nat} {i : Inbound} (h : Inbound.new c context initiator maxStreams = .ok i) :
    i.started = false ∧ i.incoming = [] := by
  unfold Inbound.new at h
  cases hr : CircuitLink.newReceiver c context initiator with
  | error e =>
    rw [hr] at h
    cases h
  | ok receiver =>
    rw [hr] at h
    cases h
    exact ⟨rfl, rfl⟩

theorem fresh_new {c : Crypto} {context : RouteContext} {initiator : Bool} {maxStreams : Nat}
    {i : Inbound} (h : Inbound.new c context initiator maxStreams = .ok i) (multiplexed : Bool) :
    Fresh ⟨i, .new multiplexed⟩ :=
  ⟨rfl, fun _ => (Inbound.fresh_of_new h).2⟩

theorem Registered.addBridge {c : Controller} (h : Registered c) {b : Nat} {bridge : Bridge}
    (hb : c.bridgeAt[b]? = some bridge) (hopen : bridge.closed = false) {destination : Bool}
    (honclose : bridge.onclose = destination) : Registered (c.addBridge b destination) where
  bridges b' hm := by
    rcases List.mem_insert_iff.mp hm with rfl | hm
    · exact ⟨bridge, hb, hopen⟩
    · exact h.bridges b' hm
  destinationBridges b' hm := by
    cases hd : destination with
    | false =>
      rw [hd] at hm
      exact h.destinationBridges b' hm
    | true =>
      rw [hd] at hm
      rcases List.mem_insert_iff.mp hm with rfl | hm
      · exact ⟨bridge, hb, hopen, honclose.trans hd⟩
      · exact h.destinationBridges b' hm
  entryCircuits := h.entryCircuits

/-- The turn that makes a bridge: it keeps the registries live just if the bytes buffered
are all accepted. `after` is what a handler still does with the bridge. -/
theorem Registered.bridged {c : Controller} (h : Registered c) (env : Env) (now : Int)
    {left right : BridgeLink} (hl : Fresh left) (hr : Fresh right)
    (hright : right.inbound.started = false) (onclose : Bool) (rawLeft rawRight : ReadBuffer)
    (after : Nat → Controller → Controller)
    (hkeeps : ∀ b c, Registered c → Keeps c (after b c))
    (hstuck : ∀ b c (bridge : Bridge), b ∈ c.registries.bridges → c.bridgeAt[b]? = some bridge →
      bridge.closed = true → ¬ Live (after b c)) :
    (bridgeAccepted env now c.bridgeAt.length left right rawLeft rawRight = true →
      Keeps c (match c.transformBridge env now left right onclose rawLeft rawRight with
        | (c, none) => c
        | (c, some b) => after b (c.addBridge b onclose))) ∧
    (bridgeAccepted env now c.bridgeAt.length left right rawLeft rawRight = false →
      ¬ Live (match c.transformBridge env now left right onclose rawLeft rawRight with
        | (c, none) => c
        | (c, some b) => after b (c.addBridge b onclose))) := by
  obtain ⟨hk, hres⟩ := transformBridge_spec h env now hl hr hright onclose rawLeft rawRight
  rcases hT : c.transformBridge env now left right onclose rawLeft rawRight with ⟨c', _ | b⟩
  · rw [hT] at hk hres
    exact ⟨fun _ => hk, fun hno => absurd (hres.symm.trans hno) (by decide)⟩
  · rw [hT] at hk hres
    obtain ⟨bridge, hb, honclose, hiff⟩ := hres
    refine ⟨fun hyes => ?_, fun hno => ?_⟩
    · have hreg := hk.1.addBridge hb (hiff.mpr hyes) honclose
      exact (show Keeps c (c'.addBridge b onclose) from
        ⟨hreg, hk.2.bridges, hk.2.entries⟩).trans (hkeeps b _)
    · refine hstuck b _ bridge (List.mem_insert_self) hb ?_
      by_contra hc
      have := hiff.mp (Bool.eq_false_of_not_eq_true hc)
      exact Bool.false_ne_true (hno.symm.trans this)

/-- The payloads an inbox still holds are emitted on a bridge. -/
def emitQueued (env : Env) (queued : List Bytes) (b : Nat) (c : Controller) : Controller :=
  queued.foldl (fun c payload => c.atBridge b ((bridgeOwner env b .left).emit payload)) c

theorem Registered.emitQueued {c : Controller} (h : Registered c) (env : Env) (queued : List Bytes)
    (b : Nat) : Keeps c (emitQueued env queued b c) := by
  induction queued generalizing c with
  | nil => exact ⟨h, .refl c⟩
  | cons payload queued ih =>
    have hone := h.atBridge b _ fun s₀ hs => hs.emit env .left payload
    exact hone.trans fun h' => ih h'

theorem stuck_emitQueued (env : Env) (queued : List Bytes) {b : Nat} {c : Controller}
    {bridge : Bridge} (hm : b ∈ c.registries.bridges) (hb : c.bridgeAt[b]? = some bridge)
    (hc : bridge.closed = true) : ¬ Live (emitQueued env queued b c) := by
  induction queued generalizing c bridge with
  | nil =>
    intro hlive
    obtain ⟨bridge', hb', hopen⟩ := hlive.bridges b hm
    obtain rfl := Option.some.inj (hb.symm.trans hb')
    exact Bool.false_ne_true (hopen.symm.trans hc)
  | cons payload queued ih =>
    have hemit : ((bridgeOwner env b .left).emit payload (c.registries, bridge)).1 = c.registries ∧
        ((bridgeOwner env b .left).emit payload (c.registries, bridge)).2.closed = true := by
      simp only [bridgeOwner]
      split
      · rw [closeBridge, if_pos hc]
        exact ⟨rfl, hc⟩
      · exact ⟨rfl, hc⟩
    have hlt : b < c.bridgeAt.length := (List.getElem?_eq_some_iff.mp hb).1
    have hstep : c.atBridge b ((bridgeOwner env b .left).emit payload) = { c with
        registries := ((bridgeOwner env b .left).emit payload (c.registries, bridge)).1
        bridgeAt := c.bridgeAt.set b
          ((bridgeOwner env b .left).emit payload (c.registries, bridge)).2 } := by
      rw [Controller.atBridge, hb]
    rw [Relay.emitQueued, List.foldl_cons, hstep]
    refine ih ?_ ?_ hemit.2
    · rw [hemit.1]
      exact hm
    · exact List.getElem?_set_self hlt

/-- Are the bytes that a turn replays all accepted? Only the turns that make an object
replay any before it is registered. -/
def accepted (env : Env) (c : Controller) : RelayEvent → Bool
  | .buildDestination now local' downstream left right =>
    match Inbound.new env.crypto local' false maxRouteStreams,
      Inbound.new env.crypto downstream true maxRouteStreams with
    | .ok l, .ok r =>
      bridgeAccepted env now c.bridgeAt.length ⟨l, .new true⟩ ⟨r, .new true⟩ left right
    | _, _ => true
  | .buildSource now local' downstream left right =>
    match Inbound.new env.crypto local' false 1, Inbound.new env.crypto downstream true 1 with
    | .ok l, .ok r =>
      bridgeAccepted env now c.bridgeAt.length ⟨l, .new false⟩ ⟨r, .new false⟩ left right
    | _, _ => true
  | .extendSource now left _ downstream right =>
    if left.sends.destroyed ∨ left.inbound.started = false then true
    else
      match Inbound.new env.crypto downstream true 1 with
      | .error _ => true
      | .ok r =>
        bridgeAccepted env now c.bridgeAt.length left ⟨r, .new false⟩ ⟨true, [], true⟩ right
  | .commitEntry now stream context raw =>
    match c.registering.get? stream, Inbound.new env.crypto context false maxRouteStreams with
    | some _, .ok i => entryAccepted env now i raw
    | _, _ => true
  | _ => true

def Turns (env : Env) (c : Controller) (ev : RelayEvent) : Prop :=
  (accepted env c ev = true → Keeps c (c.step env ev)) ∧
    (accepted env c ev = false → ¬ Live (c.step env ev))

theorem turns_of_keeps {env : Env} {c : Controller} {ev : RelayEvent}
    (hacc : accepted env c ev = true) (h : Keeps c (c.step env ev)) : Turns env c ev :=
  ⟨fun _ => h, fun hno => absurd (hacc.symm.trans hno) (by decide)⟩

theorem not_live_of_closed {c : Controller} {b : Nat} {bridge : Bridge}
    (hm : b ∈ c.registries.bridges) (hb : c.bridgeAt[b]? = some bridge)
    (hc : bridge.closed = true) : ¬ Live c := by
  intro hlive
  obtain ⟨bridge', hb', hopen⟩ := hlive.bridges b hm
  obtain rfl := Option.some.inj (hb.symm.trans hb')
  exact Bool.false_ne_true (hopen.symm.trans hc)

theorem turns_idle {c : Controller} (h : Registered c) :
    ((true : Bool) = true → Keeps c c) ∧ ((true : Bool) = false → ¬ Live c) :=
  ⟨fun _ => ⟨h, .refl c⟩, fun hno => absurd hno (by decide)⟩

theorem turns_buildDestination {c : Controller} (h : Registered c) (env : Env) (now : Int)
    (local' downstream : RouteContext) (left right : ReadBuffer) :
    Turns env c (.buildDestination now local' downstream left right) := by
  unfold Turns accepted Controller.step Controller.buildDestination
  dsimp only
  cases hl : Inbound.new env.crypto local' false maxRouteStreams with
  | error _ => exact turns_idle h
  | ok l =>
    cases hr : Inbound.new env.crypto downstream true maxRouteStreams with
    | error _ => exact turns_idle h
    | ok r =>
      exact h.bridged env now (fresh_new hl true) (fresh_new hr true) (Inbound.fresh_of_new hr).1
        true left right (fun _ c => c) (fun _ c hc => ⟨hc, .refl c⟩)
        fun _ _ _ hm hb hc => not_live_of_closed hm hb hc

theorem turns_buildSource {c : Controller} (h : Registered c) (env : Env) (now : Int)
    (local' downstream : RouteContext) (left right : ReadBuffer) :
    Turns env c (.buildSource now local' downstream left right) := by
  unfold Turns accepted Controller.step Controller.buildSource
  dsimp only
  cases hl : Inbound.new env.crypto local' false 1 with
  | error _ => exact turns_idle h
  | ok l =>
    cases hr : Inbound.new env.crypto downstream true 1 with
    | error _ => exact turns_idle h
    | ok r =>
      exact h.bridged env now (fresh_new hl false) (fresh_new hr false) (Inbound.fresh_of_new hr).1
        false left right (fun _ c => c) (fun _ c hc => ⟨hc, .refl c⟩)
        fun _ _ _ hm hb hc => not_live_of_closed hm hb hc

theorem turns_extendSource {c : Controller} (h : Registered c) (env : Env) (now : Int)
    (left : BridgeLink) (queued : List Bytes) (downstream : RouteContext) (right : ReadBuffer) :
    Turns env c (.extendSource now left queued downstream right) := by
  unfold Turns accepted Controller.step Controller.extendSource
  dsimp only
  by_cases hused : left.sends.destroyed = true ∨ left.inbound.started = false
  · rw [if_pos hused, if_pos hused]
    exact turns_idle h
  · rw [if_neg hused, if_neg hused]
    obtain ⟨hlive, hstarted⟩ := not_or.mp hused
    cases hr : Inbound.new env.crypto downstream true 1 with
    | error _ => exact turns_idle h
    | ok r =>
      exact h.bridged env now
        ⟨Bool.eq_false_of_not_eq_true hlive, fun hno => absurd hno hstarted⟩
        (fresh_new hr false) (Inbound.fresh_of_new hr).1 false ⟨true, [], true⟩ right
        (emitQueued env queued) (fun b _ hc => hc.emitQueued env queued b)
        fun _ _ _ hm hb hc => stuck_emitQueued env queued hm hb hc

theorem Registered.append_entry {c : Controller} (h : Registered c)
    {s₀ s : Registries × EntryCircuit} (hreg : s₀.1 = c.registries)
    (hk : EntryKept c.entryAt.length s₀ s) (entry : EntryCircuit) :
    Keeps c { c with registries := s.1, entryAt := c.entryAt ++ [entry] } := by
  have hget : ∀ {e : Nat} {x : EntryCircuit}, c.entryAt[e]? = some x →
      (c.entryAt ++ [entry])[e]? = some x := fun he =>
    (List.getElem?_append_left (List.getElem?_eq_some_iff.mp he).1).trans he
  refine ⟨⟨fun b hm => h.bridges b (hreg ▸ hk.bridges ▸ hm), fun b hm =>
    h.destinationBridges b (hreg ▸ hk.destinationBridges ▸ hm), fun token e he => ?_⟩,
    ⟨fun b bridge hb hc => ⟨bridge, hb, hc⟩, fun e x he hc => ⟨x, hget he, hc⟩⟩⟩
  obtain ⟨x, hx, hrest⟩ := h.entryCircuits token e (hreg ▸ hk.entryCircuits token e he)
  exact ⟨x, hget hx, hrest⟩

theorem Registered.set_entry {c : Controller} (h : Registered c) {e : Nat} {entry : EntryCircuit}
    (he : c.entryAt[e]? = some entry) (hopen : entry.circuit.closed = false)
    (htracked : entry.tracked = true) : Registered { c with registries := { c.registries with
      entryCircuits := c.registries.entryCircuits.set entry.routeToken e } } where
  bridges := h.bridges
  destinationBridges := h.destinationBridges
  entryCircuits token e' he' := by
    simp only [JsMap.get?_set] at he'
    split at he'
    · next htoken =>
      cases he'
      exact ⟨entry, he, hopen, htoken.symm, htracked⟩
    · exact h.entryCircuits token e' he'

theorem turns_commitEntry {c : Controller} (h : Registered c) (env : Env) (now : Int)
    (stream : Nat) (context : RouteContext) (raw : ReadBuffer) :
    Turns env c (.commitEntry now stream context raw) := by
  unfold Turns accepted Controller.step Controller.commitEntry
  dsimp only
  cases htoken : c.registering.get? stream with
  | none => exact turns_idle h
  | some token =>
    cases hi : Inbound.new env.crypto context false maxRouteStreams with
    | error _ => exact turns_idle h
    | ok i =>
      have hfresh : ∀ token, c.registries.entryCircuits.get? token ≠ some c.entryAt.length := by
        intro token he
        obtain ⟨entry, hget, -⟩ := h.entryCircuits token _ he
        exact absurd (List.getElem?_eq_some_iff.mp hget).1 (Nat.lt_irrefl _)
      have hk₀ : EntryKept c.entryAt.length
          (c.registries, ⟨token, .new c.spliced, i, fun _ => i, 0, false⟩)
          (c.registries, ⟨token, .new c.spliced, i, fun _ => i, 0, false⟩) :=
        ⟨rfl, rfl, fun _ _ he => he, rfl, rfl, id, fun _ _ => hfresh _⟩
      have hk := (EntryKept.keeps_entry now).start env.aeadOpen now raw hk₀
      obtain ⟨hthrew, hiff⟩ := start_entry env now c.entryAt.length
        (s := (c.registries, ⟨token, .new c.spliced, i, fun _ => i, 0, false⟩)) rfl
        (Inbound.fresh_of_new hi).1 (Inbound.fresh_of_new hi).2 raw
      dsimp only
      rcases hs : (entryOwner now c.entryAt.length).start env.aeadOpen now raw
        (c.registries, ⟨token, .new c.spliced, i, fun _ => i, 0, false⟩) with ⟨s, ok⟩
      rw [hs] at hk hthrew hiff
      have hlast : ∀ entry : EntryCircuit,
          (c.entryAt ++ [entry])[c.entryAt.length]? = some entry := fun entry => by simp
      cases ok with
      | false =>
        refine ⟨fun _ => h.append_entry rfl hk s.2, fun hno => ?_⟩
        rw [entryAccepted, hthrew rfl] at hno
        cases hno
      | true =>
        have hmade := h.append_entry rfl hk { s.2 with tracked := true }
        have hroute : s.2.routeToken = token := hk.routeToken
        refine ⟨fun hyes => ⟨?_, hmade.2.bridges, hmade.2.entries⟩, fun hno hlive => ?_⟩
        · have := hmade.1.set_entry (hlast _) ((hiff rfl).mpr hyes) rfl
          rw [← hroute]
          exact this
        · obtain ⟨entry, he, hopen, -⟩ := hlive.entryCircuits token c.entryAt.length
            (JsMap.get?_set_self _ _ _)
          obtain rfl := Option.some.inj ((hlast _).symm.trans he)
          have := (hiff rfl).mp hopen
          exact Bool.false_ne_true (hno.symm.trans this)

/-! ## Runs -/

theorem Registered.destroyEntries {c : Controller} (h : Registered c) :
    Keeps c c.destroyEntries := by
  have hfold : ∀ (es : List Nat) {c' : Controller}, Keeps c c' → Keeps c
      (es.foldl (fun c e => c.atEntry e (runEntry e Entry.destroy)) c') := by
    intro es
    induction es with
    | nil => exact fun hc' => hc'
    | cons e es ih =>
      intro c' hc'
      exact ih (hc'.trans fun h' => h'.atEntry e _ fun _ hs =>
        hs.runEntry Entry.destroy fun _ => EntryKept.closed_destroy _)
  have hdone := hfold c.registries.entryCircuits.values ⟨h, .refl c⟩
  exact ⟨⟨hdone.1.bridges, hdone.1.destinationBridges, fun _ _ he => nomatch he⟩, hdone.2.bridges,
    hdone.2.entries⟩

theorem Registered.destroyBridges {c : Controller} (h : Registered c) :
    Keeps c c.destroyBridges := by
  have hfold : ∀ (bs : List Nat) {c' : Controller}, Keeps c c' → Keeps c
      (bs.foldl (fun c b => c.atBridge b (closeBridge b)) c') := by
    intro bs
    induction bs with
    | nil => exact fun hc' => hc'
    | cons b bs ih =>
      intro c' hc'
      exact ih (hc'.trans fun h' => h'.atBridge b _ fun _ hs => hs.closeBridge)
  have hdone := hfold c.registries.bridges ⟨h, .refl c⟩
  exact ⟨⟨fun _ hm => absurd hm List.not_mem_nil, fun _ hm => absurd hm List.not_mem_nil,
    hdone.1.entryCircuits⟩, hdone.2.bridges, hdone.2.entries⟩

theorem Registered.activate {c : Controller} (h : Registered c) (env : Env) (now : Int) (e : Nat)
    (context : RouteContext) (raw : ReadBuffer) : Keeps c (c.activate env now e context raw) := by
  unfold Controller.activate
  split
  · exact ⟨h, .refl c⟩
  · next i _ =>
    refine h.atEntry e _ fun s₀ hs => ?_
    have hleg : EntryKept e s₀ (s₀.1, { s₀.2 with
        legs := Function.update s₀.2.legs s₀.2.circuit.nextStreamId i }) := hs.change rfl rfl rfl
    have hrun := hleg.runEntry (fun circuit => (circuit.activate raw.readable).1) fun hc => by
      have hc' : s₀.2.circuit.closed = true := hc
      have hrefuses : s₀.2.circuit.refuses = true := by simp [Entry.refuses, hc']
      show (s₀.2.circuit.activate raw.readable).1.closed = true
      rw [Entry.activate, if_pos hrefuses]
      exact hc'
    dsimp only
    split
    · exact hrun
    · exact (EntryKept.keeps_leg env now _).start env.aeadOpen now raw hrun

theorem Registered.registerEntry {c : Controller} (h : Registered c) (stream : Nat)
    (routeToken : Bytes) : Keeps c (c.registerEntry stream routeToken) := by
  unfold Controller.registerEntry
  split
  · exact ⟨h, .refl c⟩
  · exact ⟨⟨h.bridges, h.destinationBridges, h.entryCircuits⟩, (Later.refl c).bridges,
      (Later.refl c).entries⟩

theorem Registered.endRegistration {c : Controller} (h : Registered c) (stream : Nat) :
    Keeps c (c.endRegistration stream) := by
  unfold Controller.endRegistration
  split
  · exact ⟨h, .refl c⟩
  · dsimp only
    split
    · exact ⟨⟨h.bridges, h.destinationBridges, h.entryCircuits⟩, (Later.refl c).bridges,
        (Later.refl c).entries⟩
    · exact ⟨⟨h.bridges, h.destinationBridges, h.entryCircuits⟩, (Later.refl c).bridges,
        (Later.refl c).entries⟩

theorem Registered.flags {c : Controller} (h : Registered c) (suspended destroyed : Bool) :
    Keeps c { c with suspended, destroyed } :=
  ⟨⟨h.bridges, h.destinationBridges, h.entryCircuits⟩, (Later.refl c).bridges,
    (Later.refl c).entries⟩

theorem Registered.receiveEntry {c : Controller} (h : Registered c) (e : Nat)
    {w : LinkOwner (Registries × EntryCircuit)} (hw : ∀ s₀, w.Keeps (EntryKept e s₀))
    (aeadOpen : AeadOpening → Option Bytes) (now : Int) (address : Bool) (chunk : Bytes) :
    Keeps c (c.atEntry e (receiveStarted w aeadOpen now address chunk)) := by
  refine h.atEntry e _ fun s₀ hs => ?_
  unfold receiveStarted
  split
  · exact (hw s₀)._receive aeadOpen now address chunk hs
  · exact hs

/-- One turn: the registries stay live just if what is replayed is all accepted. -/
theorem Registered.turns {c : Controller} (h : Registered c) (env : Env) (ev : RelayEvent) :
    Turns env c ev := by
  cases ev with
  | buildDestination now local' downstream left right =>
    exact turns_buildDestination h env now local' downstream left right
  | buildSource now local' downstream left right =>
    exact turns_buildSource h env now local' downstream left right
  | extendSource now left queued downstream right =>
    exact turns_extendSource h env now left queued downstream right
  | commitEntry now stream context raw => exact turns_commitEntry h env now stream context raw
  | registerEntry stream token => exact turns_of_keeps rfl (h.registerEntry stream token)
  | endRegistration stream => exact turns_of_keeps rfl (h.endRegistration stream)
  | activate now e context raw => exact turns_of_keeps rfl (h.activate env now e context raw)
  | bridgeData now b side address chunk =>
    exact turns_of_keeps rfl (h.atBridge b _ fun _ hs =>
      hs.receiveStarted env side now address chunk)
  | bridgeFlush b side outcomes =>
    exact turns_of_keeps rfl (h.atBridge b _ fun _ hs => hs.progressSends side _)
  | bridgeWritten b side batch error =>
    exact turns_of_keeps rfl (h.atBridge b _ fun _ hs => hs.progressSends side _)
  | bridgeStreamClosed b => exact turns_of_keeps rfl (h.atBridge b _ fun _ hs => hs.closeBridge)
  | bridgeSpliceClosed b streamId =>
    refine turns_of_keeps rfl ?_
    unfold Controller.step
    exact h.atBridge b _ fun _ hs => hs.change rfl rfl
  | entryData now e address chunk =>
    exact turns_of_keeps rfl (h.receiveEntry e (fun _ => EntryKept.keeps_entry now) env.aeadOpen now
      address chunk)
  | legData now e id address chunk =>
    exact turns_of_keeps rfl (h.receiveEntry e (fun _ => EntryKept.keeps_leg env now id)
      env.aeadOpen now address chunk)
  | entryTurn e event =>
    refine turns_of_keeps rfl ?_
    unfold Controller.step
    refine h.atEntry e _ fun s₀ hs => ?_
    split
    · exact hs
    · next hopen =>
      exact hs.runEntry (·.step event) fun hc => absurd hc (not_or.mp hopen).1
  | suspend =>
    refine turns_of_keeps rfl ?_
    show Keeps c (if _ then _ else _)
    split
    · exact ⟨h, .refl c⟩
    · exact h.flags true c.destroyed
  | suspended => exact turns_of_keeps rfl h.destroyEntries
  | resume =>
    refine turns_of_keeps rfl ?_
    show Keeps c (if _ then _ else _)
    split
    · exact ⟨h, .refl c⟩
    · exact h.flags false c.destroyed
  | destroy =>
    refine turns_of_keeps rfl ?_
    show Keeps c (if _ then _ else _)
    split
    · exact ⟨h, .refl c⟩
    · exact ((h.flags c.suspended true).trans fun h' => h'.destroyEntries).trans
        fun h' => h'.destroyBridges

/-- Are the bytes replayed in a run all accepted? -/
def acceptedRun (env : Env) : Controller → List RelayEvent → Bool
  | _, [] => true
  | c, ev :: evs => accepted env c ev && acceptedRun env (c.step env ev) evs

theorem acceptedRun_append (env : Env) (c : Controller) (evs evs' : List RelayEvent) :
    acceptedRun env c (evs ++ evs') =
      (acceptedRun env c evs && acceptedRun env (c.run env evs) evs') := by
  induction evs generalizing c with
  | nil => rfl
  | cons ev evs ih =>
    rw [List.cons_append, acceptedRun, acceptedRun, ih, Bool.and_assoc]
    rfl

theorem Registered.run {c : Controller} (h : Registered c) (env : Env) {evs : List RelayEvent}
    (hacc : acceptedRun env c evs = true) : Keeps c (c.run env evs) := by
  induction evs generalizing c with
  | nil => exact ⟨h, .refl c⟩
  | cons ev evs ih =>
    rw [acceptedRun, Bool.and_eq_true] at hacc
    exact ((h.turns env ev).1 hacc.1).trans fun h' => ih h' hacc.2

theorem registered_new (spliced : Bool) : Registered (Controller.new spliced) :=
  ⟨fun _ hm => absurd hm List.not_mem_nil, fun _ hm => absurd hm List.not_mem_nil,
    fun _ _ he => nomatch he⟩

/-- What the registries are to hold in a run: open objects only at the end of every turn;
and an object that has closed is in no registry then or at any later time. -/
structure LiveRun (env : Env) (c : Controller) (events : List RelayEvent) : Prop where
  live : ∀ evs, evs <+: events → Live (c.run env evs)
  bridges : ∀ evs evs', evs <+: evs' → evs' <+: events → ∀ (b : Nat) (bridge : Bridge),
    (c.run env evs).bridgeAt[b]? = some bridge → bridge.closed = true →
    b ∉ (c.run env evs').registries.bridges ∧ b ∉ (c.run env evs').registries.destinationBridges
  entries : ∀ evs evs', evs <+: evs' → evs' <+: events → ∀ (e : Nat) (entry : EntryCircuit),
    (c.run env evs).entryAt[e]? = some entry → entry.circuit.closed = true →
    ∀ token, (c.run env evs').registries.entryCircuits.get? token ≠ some e

theorem Registered.acceptedRun_of_live {c : Controller} (h : Registered c) (env : Env)
    {events : List RelayEvent} (hlive : ∀ evs, evs <+: events → Live (c.run env evs)) :
    acceptedRun env c events = true := by
  induction events generalizing c with
  | nil => rfl
  | cons ev events ih =>
    have hstep : accepted env c ev = true := by
      by_contra hno
      exact (h.turns env ev).2 (Bool.eq_false_of_not_eq_true hno)
        (hlive [ev] (List.prefix_append [ev] events))
    rw [acceptedRun, hstep, Bool.true_and]
    exact ih ((h.turns env ev).1 hstep).1 fun evs hevs =>
      hlive (ev :: evs) ((List.prefix_cons_inj ev).mpr hevs)

/-- The registries of a relay hold open objects only, in every state of a run and for
good, just if no bytes that `start` replays while an object is made are refused. -/
theorem registries_live_iff (env : Env) (spliced : Bool) (events : List RelayEvent) :
    LiveRun env (Controller.new spliced) events ↔
      acceptedRun env (Controller.new spliced) events = true := by
  have hnew := registered_new spliced
  refine ⟨fun h => hnew.acceptedRun_of_live env h.live, fun hacc => ?_⟩
  have hrun : ∀ evs, evs <+: events → Registered ((Controller.new spliced).run env evs) := by
    rintro evs ⟨rest, rfl⟩
    rw [acceptedRun_append, Bool.and_eq_true] at hacc
    exact (hnew.run env hacc.1).1
  have hlater : ∀ evs evs', evs <+: evs' → evs' <+: events →
      Later ((Controller.new spliced).run env evs) ((Controller.new spliced).run env evs') := by
    rintro evs _ ⟨more, rfl⟩ hpre
    have hreg := hrun evs ((List.prefix_append evs more).trans hpre)
    obtain ⟨rest, rfl⟩ := hpre
    rw [acceptedRun_append, acceptedRun_append, Bool.and_eq_true, Bool.and_eq_true] at hacc
    have hmore : (Controller.new spliced).run env (evs ++ more) =
        ((Controller.new spliced).run env evs).run env more := List.foldl_append
    rw [hmore]
    exact (hreg.run env hacc.1.2).2
  refine ⟨fun evs hpre => (hrun evs hpre).live, ?_, ?_⟩
  · intro evs evs' hle hpre b bridge hb hc
    obtain ⟨bridge', hb', hc'⟩ := (hlater evs evs' hle hpre).bridges b bridge hb hc
    have hreg := hrun evs' hpre
    refine ⟨(hreg.bridge_gone hb' hc').1, fun hm => ?_⟩
    obtain ⟨bridge'', hb'', hopen, -⟩ := hreg.destinationBridges b hm
    obtain rfl := Option.some.inj (hb'.symm.trans hb'')
    exact Bool.false_ne_true (hopen.symm.trans hc')
  · intro evs evs' hle hpre e entry he hc token
    obtain ⟨entry', he', hc'⟩ := (hlater evs evs' hle hpre).entries e entry he hc
    exact (hrun evs' hpre).entry_gone he' hc' token

/-! ## A peer that sends too early -/

/-- Crypto functions of the sizes of the real ones; the AEAD refuses what is no seal. -/
def plainEnv : Env := ⟨CircuitLink.plainCrypto, fun _ => none, fun _ n => some (2 * n, 2 * n + 1)⟩

def plainContext : RouteContext :=
  ⟨List.replicate 16 1, 7, List.replicate 32 2, List.replicate 16 3, List.replicate 32 4,
    List.replicate 16 5⟩

/-- A source asks for a bridge, and 1200 zero bytes come right behind its request. -/
def earlyCell : RelayEvent :=
  .buildSource 0 plainContext plainContext ⟨true, List.replicate 1200 0, true⟩ ⟨true, [], true⟩

/-- A destination's guard commits its registration, and the zero bytes come behind the
commit byte. -/
def earlyCommit : List RelayEvent :=
  [.registerEntry 0 (List.replicate 32 6),
    .commitEntry 0 0 plainContext ⟨true, List.replicate 1200 0, true⟩]

/-- The bridge closes inside `transformBridge`, the entry circuit inside its constructor,
and both are registered afterwards. -/
theorem early_cell_abandons :
    (0 ∈ ((Controller.new false).run plainEnv [earlyCell]).registries.bridges ∧
      ((Controller.new false).run plainEnv [earlyCell]).bridgeAt.map Bridge.closed = [true]) ∧
    (((Controller.new false).run plainEnv earlyCommit).registries.entryCircuits.get?
        (List.replicate 32 6) = some 0 ∧
      ((Controller.new false).run plainEnv earlyCommit).entryAt.map (·.circuit.closed) = [true]) ∧
    ¬ LiveRun plainEnv (Controller.new false) [earlyCell] := by
  refine ⟨by decide +kernel, by decide +kernel, fun h => ?_⟩
  have hacc := (registered_new false).acceptedRun_of_live plainEnv h.live
  exact absurd hacc (by decide +kernel)

end HyperDht.Private.Relay
